import DetBuilds.Loader.Main

/-!
# How a loader ends

* `exit_status`: the status that a loader exits with is that of the first call that failed, and 0
  exactly if none did.
* `bound_to_end_iff`: while no call fails, a loader is bound to end exactly if it has been told to: it
  has caught a signal, or its poll has been interrupted by one that it did not catch. A `SIGINT` that
  a shell's background process gets before `main` has asked for it is lost: no number of calls will
  end this loader.
-/

set_option autoImplicit false

namespace Loader

open History

namespace Process

variable {k : Nat} {onInt : Disposition} {h : List Input} {p : Process}

/-! ## The exit status -/

/-- The status that a failed call stands for. -/
def failed (k : Nat) (r : Int) (p : Process) : Option Int :=
  match p.pc with
  | .argpParse => if r ≠ 0 then some r else none
  | .openSkel => if r = 0 then some 1 else none
  | .loadSkel => if r ≠ 0 then some (-r) else none
  | .attachSkel => if p.attached < k ∧ r ≠ 0 then some (-r) else none
  | .ringBufferNew => if r = 0 then some 1 else none
  | .ringBufferPoll => if r < 0 ∧ r ≠ -EINTR then some (-r) else none
  | _ => none

/-- The status that the first call to fail stands for. -/
def failure (k : Nat) (onInt : Disposition) : List Input → Option Int
  | [] => none
  | .signal _ :: h => failure k onInt h
  | .answer r :: h => (failure k onInt h).or (failed k r (run k onInt h))

/-- libbpf answers a failed load or attach with a negative number. -/
def Documented (k : Nat) (onInt : Disposition) (h : List Input) : Input → Prop
  | .signal _ => True
  | .answer r => (run k onInt h).pc = .loadSkel ∨ (run k onInt h).pc = .attachSkel → r ≤ 0

instance (k : Nat) (onInt : Disposition) (h : List Input) : ∀ i, Decidable (Documented k onInt h i)
  | .signal _ => inferInstanceAs (Decidable True)
  | .answer _ => inferInstanceAs (Decidable (_ → _))

/-- What `main` returns at its end. -/
def status (err : Int) : Int := if err < 0 then -err else 0

/-- `err` and the failure so far, by where `main` is. -/
def Reports (p : Process) (f : Option Int) : Prop :=
  (∀ n, f = some n → n ≠ 0) ∧
  match p.pc with
  | .argpParse | .signalInt | .signalTerm | .openSkel | .loadSkel | .attachSkel => f = none
  | .ringBufferNew | .whileNotExiting | .ringBufferPoll => f = none ∧ 0 ≤ p.err
  | .ringBufferFree | .destroySkel => status p.err = f.getD 0
  | .exited n => n = f.getD 0
  | .killed _ => True

theorem reports_signal {f : Option Int} (sig : Sig) (hp : p.Reports f) :
    (p.signal sig).Reports f := by
  rcases p.signal_cases sig with ⟨-, hs⟩ | ⟨-, hs⟩ | ⟨-, hs⟩ <;> rw [hs]
  · exact hp
  · exact ⟨hp.1, trivial⟩
  · exact hp

/-- No failure is reported as 0. -/
theorem reports_main {f : Option Int} {r : Int} (hp : p.Reports f)
    (hr : p.pc = .loadSkel ∨ p.pc = .attachSkel → r ≤ 0) :
    (p.main k r).Reports (f.or (failed k r p)) := by
  obtain ⟨hne, hp⟩ := hp
  unfold main failed
  cases hpc : p.pc with
  | argpParse =>
    rw [hpc] at hp
    subst hp
    by_cases h0 : r = 0
    · simp [Reports, h0]
    · simp [Reports, h0]
  | signalInt => rw [hpc] at hp; subst hp; exact ⟨fun n hn => (by cases hn), rfl⟩
  | signalTerm => rw [hpc] at hp; subst hp; exact ⟨fun n hn => (by cases hn), rfl⟩
  | openSkel =>
    rw [hpc] at hp
    subst hp
    by_cases h0 : r = 0 <;> simp [Reports, h0]
  | loadSkel =>
    rw [hpc] at hp
    subst hp
    have hr := hr (.inl hpc)
    by_cases h0 : r = 0
    · simp [Reports, h0]
    · have hneg : r < 0 := by omega
      simp [Reports, h0, status, hneg]
  | attachSkel =>
    rw [hpc] at hp
    subst hp
    have hr := hr (.inr hpc)
    by_cases hk : p.attached < k
    · by_cases h0 : r = 0
      · simp [Reports, hk, h0]
      · have hneg : r < 0 := by omega
        simp [Reports, hk, h0, status, hneg]
    · simp [Reports, hk]
  | ringBufferNew =>
    rw [hpc] at hp
    obtain ⟨rfl, herr⟩ := hp
    by_cases h0 : r = 0
    · simp [Reports, h0, status]
    · simp [Reports, h0, herr]
  | whileNotExiting =>
    rw [hpc] at hp
    obtain ⟨rfl, herr⟩ := hp
    have hstatus : status p.err = 0 := if_neg (by omega)
    cases p.exiting
    · simp [Reports, herr]
    · simp [Reports, hstatus]
  | ringBufferPoll =>
    rw [hpc] at hp
    obtain ⟨rfl, -⟩ := hp
    by_cases hi : r = -EINTR
    · simp [Reports, hi, status]
    · by_cases hneg : r < 0
      · have h0 : r ≠ 0 := by omega
        simpa [Reports, hi, hneg, status] using h0
      · have hpos : 0 ≤ r := by omega
        simp [Reports, hi, hneg, hpos]
  | ringBufferFree => rw [hpc] at hp; exact ⟨by simpa using hne, by simpa using hp⟩
  | destroySkel =>
    rw [hpc] at hp
    by_cases hd : p.detached < p.attached
    · simp only [hd, if_true, Option.or_none]
      exact ⟨hne, hp⟩
    · simp only [hd, if_false, Option.or_none]
      exact ⟨hne, hp⟩
  | exited n => rw [Option.or_none]; exact ⟨hne, hp⟩
  | killed sig => rw [Option.or_none]; exact ⟨hne, by rw [hpc]; trivial⟩

/-- **Exit status**: a loader exits with what the first failed call stands for, and with 0 exactly
if no call has failed. -/
theorem exit_status (hd : EachStep (Documented k onInt) h) {n : Int}
    (hn : (run k onInt h).pc = .exited n) :
    n = (failure k onInt h).getD 0 ∧ (n = 0 ↔ failure k onInt h = none) := by
  have hreports : (run k onInt h).Reports (failure k onInt h) := by
    clear hn
    induction h with
    | nil => exact ⟨fun n hn => (by cases hn), rfl⟩
    | cons i h ih =>
      have ih := ih hd.2
      cases i with
      | signal sig => exact reports_signal sig ih
      | answer r => exact reports_main ih hd.1
  obtain ⟨hne, hp⟩ := hreports
  rw [hn] at hp
  have hp : n = (failure k onInt h).getD 0 := hp
  refine ⟨hp, ?_⟩
  cases hf : failure k onInt h with
  | none => rw [hf] at hp; simpa using hp
  | some m =>
    rw [hf] at hp
    have hm : n = m := hp
    have hm0 : m ≠ 0 := hne m hf
    simp [hm, hm0]

/-- The second handler of two cannot be attached. -/
def refusedRun : List Input :=
  [.answer 0, .answer 0, .answer 0, .answer (-13), .answer 0, .answer 0, .answer 1, .answer 0,
    .answer 0, .answer 0]

theorem exit_status_refusedRun :
    (13 : Int) = (failure 2 .dfl refusedRun).getD 0 ∧
      ((13 : Int) = 0 ↔ failure 2 .dfl refusedRun = none) :=
  exit_status (by decide) (by decide)

/-! ## The end -/

/-- A signal finds its handler installed, or the poll at hand is interrupted. -/
def Told (k : Nat) (onInt : Disposition) (h : List Input) : Input → Prop
  | .signal sig => ¬ (run k onInt h).Over ∧ (run k onInt h).disposition sig = .sigHandler
  | .answer r => (run k onInt h).pc = .ringBufferPoll ∧ r = -EINTR

instance (k : Nat) (onInt : Disposition) (h : List Input) : ∀ i, Decidable (Told k onInt h i)
  | .signal _ => inferInstanceAs (Decidable (¬ _ ∧ _))
  | .answer _ => inferInstanceAs (Decidable (_ ∧ _))

/-- The call at hand does not fail, or a signal arrives that does not kill. -/
def Healthy (k : Nat) (onInt : Disposition) (h : List Input) : Input → Prop
  | .signal sig => (run k onInt h).Over ∨ (run k onInt h).disposition sig ≠ .dfl
  | .answer r => failed k r (run k onInt h) = none

instance (k : Nat) (onInt : Disposition) (h : List Input) : ∀ i, Decidable (Healthy k onInt h i)
  | .signal _ => inferInstanceAs (Decidable (_ ∨ _))
  | .answer _ => inferInstanceAs (Decidable (_ = _))

/-- It has not been told to end. -/
def Untold (k : Nat) (onInt : Disposition) (h : List Input) (i : Input) : Prop := ¬ Told k onInt h i

instance (k : Nat) (onInt : Disposition) (h : List Input) (i : Input) :
    Decidable (Untold k onInt h i) :=
  inferInstanceAs (Decidable (¬ _))

def IsAnswer : Input → Prop
  | .answer _ => True
  | .signal _ => False

instance : DecidablePred IsAnswer
  | .answer _ => inferInstanceAs (Decidable True)
  | .signal _ => inferInstanceAs (Decidable False)

/-- Some number of answers ends the loader, whatever they are and whatever signals come between. -/
def BoundToEnd (k : Nat) (onInt : Disposition) (h : List Input) : Prop :=
  ∃ n, ∀ l : List Input, n ≤ l.countP (IsAnswer ·) → (run k onInt (l ++ h)).Over

theorem exiting_main (r : Int) (p : Process) : (p.main k r).exiting = p.exiting := by
  unfold main
  grind

/-- On its way to the loop, or in it. -/
def Serving (p : Process) : Prop :=
  match p.pc with
  | .ringBufferFree | .destroySkel | .exited _ | .killed _ => False
  | _ => True

theorem not_over_of_serving (hs : p.Serving) : ¬ p.Over := by
  unfold Serving at hs
  unfold Over
  cases hpc : p.pc <;> simp_all

/-- It does not go on with its loop. -/
def Ending (p : Process) : Prop := p.exiting = true ∨ ¬ p.Serving

/-- An upper bound for the calls that are left to a loader that is to end. -/
def callsLeft (k : Nat) (p : Process) : Nat :=
  match p.pc with
  | .argpParse => 2 * (k - p.attached) + (p.attached - p.detached) + 10
  | .signalInt => 2 * (k - p.attached) + (p.attached - p.detached) + 9
  | .signalTerm => 2 * (k - p.attached) + (p.attached - p.detached) + 8
  | .openSkel => 2 * (k - p.attached) + (p.attached - p.detached) + 7
  | .loadSkel => 2 * (k - p.attached) + (p.attached - p.detached) + 6
  | .attachSkel => 2 * (k - p.attached) + (p.attached - p.detached) + 5
  | .ringBufferNew | .ringBufferPoll => (p.attached - p.detached) + 4
  | .whileNotExiting => (p.attached - p.detached) + 3
  | .ringBufferFree => (p.attached - p.detached) + 2
  | .destroySkel => (p.attached - p.detached) + 1
  | .exited _ | .killed _ => 0

/-- Every call that is answered is one less. -/
theorem callsLeft_main (r : Int) (he : p.Ending) (ho : ¬ p.Over) :
    callsLeft k (p.main k r) < callsLeft k p := by
  unfold main callsLeft
  cases hpc : p.pc with
  | argpParse => by_cases h0 : r = 0 <;> simp [h0]
  | signalInt => simp
  | signalTerm => simp
  | openSkel => by_cases h0 : r = 0 <;> simp [h0]
  | loadSkel => by_cases h0 : r = 0 <;> simp [h0]; omega
  | attachSkel =>
    by_cases hk : p.attached < k
    · by_cases h0 : r = 0
      · simp [hk, h0]; omega
      · simp [hk, h0]; omega
    · simp only [hk, if_false]
      omega
  | ringBufferNew => by_cases h0 : r = 0 <;> simp [h0]
  | whileNotExiting =>
    have hexit : p.exiting = true := he.resolve_right fun hs => hs (by simp [Serving, hpc])
    simp [hexit]
  | ringBufferPoll =>
    by_cases hi : r = -EINTR
    · simp [hi]
    · by_cases hneg : r < 0 <;> simp [hi, hneg]
  | ringBufferFree => simp
  | destroySkel => by_cases hd : p.detached < p.attached <;> simp [hd]; omega
  | exited n => unfold Over at ho; rw [hpc] at ho; exact absurd trivial ho
  | killed sig => unfold Over at ho; rw [hpc] at ho; exact absurd trivial ho

theorem over_main (r : Int) (ho : p.Over) : p.main k r = p := by
  unfold main
  unfold Over at ho
  cases hpc : p.pc <;> simp_all

/-- What has ended stays as it is. -/
theorem over_step (i : Input) (ho : p.Over) : step k i p = p := by
  cases i with
  | signal sig => exact if_pos ho
  | answer r => exact over_main r ho

/-- A signal makes no more calls necessary. -/
theorem callsLeft_signal (sig : Sig) : callsLeft k (p.signal sig) ≤ callsLeft k p := by
  rcases p.signal_cases sig with ⟨-, hs⟩ | ⟨-, hs⟩ | ⟨-, hs⟩
  · rw [hs]
  · rw [hs]
    exact Nat.zero_le _
  · rw [hs]
    exact Nat.le_refl _

theorem exiting_signal (sig : Sig) (he : p.exiting = true) : (p.signal sig).exiting = true := by
  rcases p.signal_cases sig with ⟨-, hs⟩ | ⟨-, hs⟩ | ⟨-, hs⟩ <;> rw [hs]
  · exact he
  · exact he

theorem over_of_callsLeft (h0 : callsLeft k p = 0) : p.Over := by
  unfold callsLeft at h0
  unfold Over
  cases hpc : p.pc <;> simp_all

/-- Past its loop it does not come back. -/
theorem not_serving_main (r : Int) (hs : ¬ p.Serving) : ¬ (p.main k r).Serving := by
  unfold Serving at hs
  unfold main
  cases hpc : p.pc with
  | ringBufferFree => simp [Serving]
  | destroySkel => by_cases hd : p.detached < p.attached <;> simp [Serving, hd]
  | exited n => simp [Serving, hpc]
  | killed sig => simp [Serving, hpc]
  | argpParse | signalInt | signalTerm | openSkel | loadSkel | attachSkel | ringBufferNew
  | whileNotExiting | ringBufferPoll => rw [hpc] at hs; exact absurd trivial hs

theorem not_serving_signal (sig : Sig) (hs : ¬ p.Serving) : ¬ (p.signal sig).Serving := by
  rcases p.signal_cases sig with ⟨-, he⟩ | ⟨-, he⟩ | ⟨-, he⟩ <;> rw [he]
  · exact hs
  · exact id
  · exact hs

/-- What is to end is so for good. -/
theorem ending_step (i : Input) (he : p.Ending) : (step k i p).Ending := by
  cases i with
  | signal sig => exact he.imp (exiting_signal sig) (not_serving_signal sig)
  | answer r => exact he.imp (exiting_main r p).trans (not_serving_main r)

/-- To a loader that is to end, so many answers are the end. -/
theorem over_after_callsLeft (he : p.Ending) {l : List Input}
    (hn : callsLeft k p ≤ l.countP (IsAnswer ·)) : (after (step k) p l).Over := by
  refine done_of_rank (J := Ending) (f := callsLeft k) (fun i p he => ending_step i he) ?_
    (fun _ => over_of_callsLeft) ?_ ?_ he hn
  · intro i p ho
    rwa [over_step i ho]
  · intro i p he ho
    cases i with
    | signal sig => exact callsLeft_signal sig
    | answer r => exact Nat.le_of_lt (callsLeft_main r he ho)
  · intro i p hi he ho
    cases i with
    | signal sig => exact absurd hi id
    | answer r => exact callsLeft_main r he ho

theorem boundToEnd_of_ending (he : (run k onInt h).Ending) : BoundToEnd k onInt h := by
  refine ⟨callsLeft k (run k onInt h), fun l hn => ?_⟩
  have hrun : run k onInt (l ++ h) = after (step k) (run k onInt h) l := List.foldr_append ..
  rw [hrun]
  exact over_after_callsLeft he hn

/-! ## Loaders that are not told to end -/

/-- An answer that is not a failure, at each call. -/
def goodAnswer (p : Process) : Int :=
  match p.pc with
  | .openSkel | .ringBufferNew => 1
  | _ => 0

/-- A signal that neither kills nor tells to end is lost. -/
theorem signal_eq_self {sig : Sig} (hh : Healthy k onInt h (.signal sig))
    (ht : Untold k onInt h (.signal sig)) : (run k onInt h).signal sig = run k onInt h := by
  rcases (run k onInt h).signal_cases sig with ⟨-, hs⟩ | ⟨hk, -⟩ | ⟨hc, -⟩
  · exact hs
  · exact absurd hh (not_or.2 ⟨hk.1, not_not.2 hk.2⟩)
  · exact absurd hc ht

/-- A call that does not fail, and whose poll is not interrupted, keeps a loader serving. -/
theorem serving_main {r : Int} (hf : failed k r p = none)
    (hi : ¬ (p.pc = .ringBufferPoll ∧ r = -EINTR)) (hs : p.Serving) (he : p.exiting = false) :
    (p.main k r).Serving := by
  unfold Serving at hs
  unfold failed at hf
  unfold main
  cases hpc : p.pc with
  | argpParse => rw [hpc] at hf; simp [Serving, show r = 0 by simpa using hf]
  | signalInt => trivial
  | signalTerm => trivial
  | openSkel => rw [hpc] at hf; simp [Serving, show r ≠ 0 by simpa using hf]
  | loadSkel => rw [hpc] at hf; simp [Serving, show r = 0 by simpa using hf]
  | attachSkel =>
    rw [hpc] at hf
    by_cases hk : p.attached < k
    · simp [Serving, hk, show r = 0 by simpa [hk] using hf]
    · simp [Serving, hk]
  | ringBufferNew => rw [hpc] at hf; simp [Serving, show r ≠ 0 by simpa using hf]
  | whileNotExiting => simp [Serving, he]
  | ringBufferPoll =>
    have hi : r ≠ -EINTR := fun h => hi ⟨hpc, h⟩
    have hneg : ¬ r < 0 := by simpa [hpc, hi] using hf
    simp [Serving, hi, hneg]
  | ringBufferFree | destroySkel | exited _ | killed _ => rw [hpc] at hs; exact hs.elim

/-- **While no call fails, a loader is to end exactly if it has been told to.** -/
theorem ending_iff (hh : EachStep (Healthy k onInt) h) :
    (run k onInt h).Ending ↔ ∃ i l, i :: l <:+ h ∧ Told k onInt l i := by
  induction h with
  | nil => exact iff_of_false (by simp [Ending, run, after, exec, Serving]) (by simp)
  | cons i h ih =>
    have hcons : (∃ j l, j :: l <:+ i :: h ∧ Told k onInt l j) ↔
        Told k onInt h i ∨ (run k onInt h).Ending := by
      rw [ih hh.2]
      constructor
      · rintro ⟨j, l, hs, hc⟩
        rcases List.suffix_cons_iff.1 hs with heq | hs
        · cases heq; exact .inl hc
        · exact .inr ⟨j, l, hs, hc⟩
      · rintro (hc | ⟨j, l, hs, hc⟩)
        · exact ⟨i, h, List.suffix_refl _, hc⟩
        · exact ⟨j, l, hs.trans (List.suffix_cons i h), hc⟩
    rw [hcons]
    constructor
    · intro he
      by_contra hno
      obtain ⟨htold, hgoes⟩ := not_or.1 hno
      obtain ⟨hexit, hserving⟩ := not_or.1 hgoes
      have hexit : (run k onInt h).exiting = false := by simpa using hexit
      have hserving : (run k onInt h).Serving := not_not.1 hserving
      cases i with
      | signal sig =>
        have hsame : run k onInt (.signal sig :: h) = run k onInt h := signal_eq_self hh.1 htold
        exact hgoes (hsame ▸ he)
      | answer r =>
        rcases he with he | he
        · exact absurd (hexit.symm.trans ((exiting_main r _).symm.trans he)) (by decide)
        · exact he (serving_main hh.1 htold hserving hexit)
    · rintro (ht | he)
      · cases i with
        | signal sig =>
          have hset : (run k onInt h).signal sig = { run k onInt h with exiting := true } := by
            rw [signal, if_neg ht.1, ht.2]
          exact .inl (congrArg Process.exiting hset)
        | answer r =>
          obtain ⟨hpc, rfl⟩ := ht
          refine .inr ?_
          show ¬ ((run k onInt h).main k (-EINTR)).Serving
          rw [main, hpc]
          simp [Serving]
      · exact ending_step i he

/-- There is always an answer that is not a failure. -/
theorem healthy_goodAnswer (k : Nat) (onInt : Disposition) (h : List Input) :
    Healthy k onInt h (.answer (run k onInt h).goodAnswer) := by
  show failed k (run k onInt h).goodAnswer (run k onInt h) = none
  unfold goodAnswer failed
  cases hpc : (run k onInt h).pc <;> simp

/-- The run goes on with `n` answers that are not failures. -/
def serve (k : Nat) (onInt : Disposition) : Nat → List Input → List Input
  | 0, h => h
  | n + 1, h =>
    let h := serve k onInt n h
    .answer (run k onInt h).goodAnswer :: h

theorem serving_serve (n : Nat) (hs : (run k onInt h).Serving)
    (he : (run k onInt h).exiting = false) :
    (run k onInt (serve k onInt n h)).Serving ∧
      (run k onInt (serve k onInt n h)).exiting = false := by
  induction n with
  | zero => exact ⟨hs, he⟩
  | succ n ih =>
    have hpoll : ¬ ((run k onInt (serve k onInt n h)).pc = .ringBufferPoll ∧
        (run k onInt (serve k onInt n h)).goodAnswer = -EINTR) := by
      rintro ⟨hpc, hr⟩
      rw [goodAnswer, hpc] at hr
      exact absurd hr (by decide)
    exact ⟨serving_main (healthy_goodAnswer k onInt _) hpoll ih.1 ih.2,
      (exiting_main _ _).trans ih.2⟩

/-- It does so with answers alone. -/
theorem serve_append (k : Nat) (onInt : Disposition) (n : Nat) (h : List Input) :
    ∃ l, serve k onInt n h = l ++ h ∧ l.countP (IsAnswer ·) = n := by
  induction n with
  | zero => exact ⟨[], rfl, rfl⟩
  | succ n ih =>
    obtain ⟨l, hl, hn⟩ := ih
    refine ⟨.answer (run k onInt (serve k onInt n h)).goodAnswer :: l, ?_, ?_⟩
    · show _ :: serve k onInt n h = _
      rw [hl]
      rfl
    · rw [List.countP_cons, hn]
      rfl

/-- What no call has failed for, and is not told to end, goes on. -/
theorem not_ending_of_untold (hh : EachStep (Healthy k onInt) h)
    (ht : EachStep (Untold k onInt) h) : ¬ (run k onInt h).Ending := by
  rw [ending_iff hh]
  rintro ⟨i, l, hs, hc⟩
  exact eachStep_iff.1 ht i l hs hc

/-- **Bound to end**: a loader of which no call has failed, and that no signal has killed, ends after
some number of calls, whatever happens from now on, exactly if it has caught a signal or its poll has
been interrupted. -/
theorem bound_to_end_iff (hh : EachStep (Healthy k onInt) h) :
    BoundToEnd k onInt h ↔ ∃ i l, i :: l <:+ h ∧ Told k onInt l i := by
  rw [← ending_iff hh]
  constructor
  · rintro ⟨n, hn⟩
    by_contra hno
    obtain ⟨hexit, hserving⟩ := not_or.1 hno
    obtain ⟨l, hl, hcount⟩ := serve_append k onInt n h
    have hover := hn l (Nat.le_of_eq hcount.symm)
    rw [← hl] at hover
    have hserves := (serving_serve n (not_not.1 hserving) (by simpa using hexit)).1
    exact not_over_of_serving hserves hover
  · exact boundToEnd_of_ending

/-- A loader in the background that gets its `SIGINT` before it has asked for it, and serves on. -/
def lostRun : List Input :=
  [.answer 0, .answer 1, .answer 0, .answer 0, .answer 0, .answer 0, .answer 1, .answer 0,
    .answer 0, .signal .int, .answer 0]

theorem bound_to_end_lostRun :
    BoundToEnd 2 .ign lostRun ↔ ∃ i l, i :: l <:+ lostRun ∧ Told 2 .ign l i :=
  bound_to_end_iff (by decide)

/-! ## Loaders in the background -/

/-- A `SIGINT` does not kill a loader that is not at its default. -/
theorem signal_int (hd : p.onInt ≠ .dfl) :
    p.signal .int = if p.onInt = .sigHandler ∧ ¬ p.Over then { p with exiting := true } else p := by
  rcases p.signal_cases .int with ⟨ho | hi, hs⟩ | ⟨⟨-, hi⟩, -⟩ | ⟨⟨ho, hi⟩, hs⟩
  · rw [hs, if_neg fun h => h.2 ho]
  · have hi : p.onInt = .ign := hi
    rw [hs, if_neg (by simp [hi])]
  · exact absurd hi hd
  · rw [hs, if_pos ⟨hi, ho⟩]

theorem onInt_signal (sig : Sig) : (p.signal sig).onInt = p.onInt := by
  rcases p.signal_cases sig with ⟨-, hs⟩ | ⟨-, hs⟩ | ⟨-, hs⟩ <;> rw [hs]

theorem onInt_main (r : Int) (hd : p.onInt ≠ .dfl) : (p.main k r).onInt ≠ .dfl := by
  unfold main
  grind

theorem onInt_run (h : List Input) : (run k .ign h).onInt ≠ .dfl := by
  induction h with
  | nil => exact nofun
  | cons i h ih =>
    cases i with
    | signal sig => exact (onInt_signal sig).symm ▸ ih
    | answer r => exact onInt_main r ih

end Process

end Loader
