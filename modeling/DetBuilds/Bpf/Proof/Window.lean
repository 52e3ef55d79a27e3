import DetBuilds.Bpf.Attach
import DetBuilds.Bpf.Proof.Clock

/-!
# Attaching `modify_time` to a running system

A call that is entered when its enter handler is active and returns when its exit handler is not
leaves its pointer behind in `time_p_map` (`orphans`). The enter handlers insert with
`BPF_NOEXIST`, so later calls of the thread do not replace it, and the next return that is handled
writes through it. `attach_window`: writes go to the pointer of the call that returns if what is
left behind for the thread is that pointer too; in runs that never fill the map this is exact, and
then every call entered after the last attachment has its buffer rewritten.
-/

set_option autoImplicit false

namespace Bpf.ModifyTime

open History

/-- The enter handler of the call is among the first `n` handlers. -/
def enterAttached (n : Nat) : Nr → Bool
  | .gettimeofday => 1 ≤ n
  | .clockGettime => 3 ≤ n
  | _ => false

/-- The exit handler of the call is among the first `n` handlers. -/
def exitAttached (n : Nat) : Nr → Bool
  | .gettimeofday => 2 ≤ n
  | .clockGettime => 4 ≤ n
  | _ => false

/-- The pointer that the call in flight has left, if its entry was handled. -/
def seen (h : List AttachEvent) (t : Tid) : Option Addr :=
  (inflight (events h) t).bind fun f =>
    if enterAttached (enteredWith h t) f.nr then handOff.pointer f else none

/-- The pointers left by calls whose return was not handled, since the last return that was, the
latest first. -/
def orphans : List AttachEvent → Tid → List Addr
  | [], _ => []
  | .event (.exit task nr _) :: h, t =>
    if task.tid = t then
      if exitAttached (attached h) nr then
        if commFilter task.comm then [] else orphans h t
      else (seen h t).toList ++ orphans h t
    else orphans h t
  | .attach :: h, t => orphans h t
  | .event (.enter _ _ _) :: h, t => orphans h t
  | .event (.spawn _) :: h, t => orphans h t
  | .event (.die _) :: h, t => orphans h t

/-- The thread's entry. -/
def entry (h : List AttachEvent) (t : Tid) : Option Addr :=
  (program.attachRun h).timePMap.lookup t

/-! ## The active handlers -/

theorem take_all (n : Nat) : program.handlers.take (n + 4) = program.handlers :=
  List.take_of_length_le (by simp [program])

theorem attachStep_enter (h : List AttachEvent) (task : Task) (nr : Nr) (args : Args) (s : Maps) :
    program.attachStep h (.enter task nr args) s =
      if enterAttached (attached h) nr then program.step (.enter task nr args) s
      else (s, none) := by
  unfold Program.attachStep
  match attached h with
  | 0 => cases nr <;> rfl
  | 1 => cases nr <;> rfl
  | 2 => cases nr <;> rfl
  | 3 => cases nr <;> rfl
  | n + 4 =>
    rw [take_all]
    cases nr <;> simp [enterAttached] <;> rfl

theorem attachStep_exit (h : List AttachEvent) (task : Task) (nr : Nr) (ret : Int) (s : Maps) :
    program.attachStep h (.exit task nr ret) s =
      if exitAttached (attached h) nr then program.step (.exit task nr ret) s else (s, none) := by
  unfold Program.attachStep
  match attached h with
  | 0 => cases nr <;> rfl
  | 1 => cases nr <;> rfl
  | 2 => cases nr <;> rfl
  | 3 => cases nr <;> rfl
  | n + 4 =>
    rw [take_all]
    cases nr <;> simp [exitAttached] <;> rfl

theorem enterAttached_all {n : Nat} {nr : Nr} (hn : 4 ≤ n) (hnr : nr ∈ calls) :
    enterAttached n nr = true := by
  cases nr with
  | gettimeofday => simp only [enterAttached, decide_eq_true_eq]; omega
  | clockGettime => simp only [enterAttached, decide_eq_true_eq]; omega
  | openat | newfstatat | read => simp [calls] at hnr

theorem exitAttached_all {n : Nat} {nr : Nr} (hn : 4 ≤ n) (hnr : nr ∈ calls) :
    exitAttached n nr = true := by
  cases nr with
  | gettimeofday => simp only [exitAttached, decide_eq_true_eq]; omega
  | clockGettime => simp only [exitAttached, decide_eq_true_eq]; omega
  | openat | newfstatat | read => simp [calls] at hnr

/-! ## One step -/

/-- Events of other threads, and births and deaths, keep the thread's entry. -/
theorem entry_spares {e : Event} {h : List AttachEvent} {t : Tid} (he : Spares t e) :
    entry (.event e :: h) t = entry h t := by
  unfold entry
  show (program.attachStep h e (program.attachRun h)).1.timePMap.lookup t = _
  cases e with
  | enter task nr args =>
    rw [attachStep_enter]
    split
    · rw [step_enter]
      split
      · rfl
      · exact BoundedMap.lookup_update_ne _ _ _ fun ht => he ht.symm
    · rfl
  | exit task nr ret =>
    rw [attachStep_exit]
    split
    · exact (handOff.exit_lookup task nr ret _ t).trans (if_neg fun hc => he hc.1.symm)
    · rfl
  | spawn u => unfold Program.attachStep; rw [Program.dispatch_spawn]
  | die u => unfold Program.attachStep; rw [Program.dispatch_die]

theorem entry_enter (h : List AttachEvent) (task : Task) (nr : Nr) (args : Args) :
    entry (.event (.enter task nr args) :: h) task.tid =
      match (if enterAttached (attached h) nr then pending task.comm nr args else none) with
      | none => entry h task.tid
      | some a => ((program.attachRun h).timePMap.update task.tid a .noexist).lookup task.tid := by
  unfold entry
  show (program.attachStep h _ (program.attachRun h)).1.timePMap.lookup task.tid = _
  rw [attachStep_enter]
  by_cases hn : enterAttached (attached h) nr = true
  · rw [if_pos hn, if_pos hn, step_enter]
    cases pending task.comm nr args <;> rfl
  · rw [if_neg hn, if_neg hn]

theorem entry_exit (h : List AttachEvent) (task : Task) (nr : Nr) (ret : Int) :
    entry (.event (.exit task nr ret) :: h) task.tid =
      if exitAttached (attached h) nr = true ∧ commFilter task.comm = true then none
      else entry h task.tid := by
  unfold entry
  show (program.attachStep h _ (program.attachRun h)).1.timePMap.lookup task.tid = _
  rw [attachStep_exit]
  by_cases hn : exitAttached (attached h) nr = true
  · have hnr : nr ∈ calls := by cases nr <;> simp_all [exitAttached, calls]
    rw [if_pos hn]
    refine (handOff.exit_lookup task nr ret _ task.tid).trans ?_
    by_cases hc : commFilter task.comm = true
    · rw [if_pos ⟨rfl, hnr, hc⟩, if_pos ⟨hn, hc⟩]
    · rw [if_neg fun h' => hc h'.2.2, if_neg fun h' => hc h'.2]
      rfl
  · rw [if_neg hn, if_neg fun h' => hn h'.1]

theorem seen_spares {e : Event} {h : List AttachEvent} {t : Tid} (he : Spares t e) :
    seen (.event e :: h) t = seen h t := by
  unfold seen
  cases e with
  | enter task nr args =>
    rw [events_event, inflight_of_ne _ (show (Event.enter task nr args).tid ≠ t from he)]
    simp only [enteredWith, if_neg (show ¬ task.tid = t from he)]
  | exit task nr ret =>
    rw [events_event, inflight_of_ne _ (show (Event.exit task nr ret).tid ≠ t from he)]
    rfl
  | spawn u => rfl
  | die u => rfl

theorem seen_enter (h : List AttachEvent) (task : Task) (nr : Nr) (args : Args) :
    seen (.event (.enter task nr args) :: h) task.tid =
      if enterAttached (attached h) nr then pending task.comm nr args else none := by
  simp [seen, enteredWith, HandOff.pointer, handOff]

theorem seen_exit (h : List AttachEvent) (task : Task) (nr : Nr) (ret : Int) :
    seen (.event (.exit task nr ret) :: h) task.tid = none := by
  simp [seen]

theorem orphans_spares {e : Event} {h : List AttachEvent} {t : Tid} (he : Spares t e) :
    orphans (.event e :: h) t = orphans h t := by
  cases e with
  | exit task nr ret => exact if_neg he
  | enter task nr args => rfl
  | spawn u => rfl
  | die u => rfl

theorem orphans_exit (h : List AttachEvent) (task : Task) (nr : Nr) (ret : Int) :
    orphans (.event (.exit task nr ret) :: h) task.tid =
      if exitAttached (attached h) nr then
        if commFilter task.comm then [] else orphans h task.tid
      else (seen h task.tid).toList ++ orphans h task.tid := by
  simp [orphans]

/-- A thread that enters a call was in none. -/
theorem seen_of_enter {h : List AttachEvent} {task : Task} {nr : Nr} {args : Args}
    (ha : Alternates (events h) (.enter task nr args)) : seen h task.tid = none := by
  unfold seen
  rw [alternates_enter.1 ha]
  rfl

/-- A call that is not made as `cc1` leaves nothing. -/
theorem seen_of_not_cc1 {h : List AttachEvent} {task : Task} {nr : Nr} {ret : Int}
    (ha : Alternates (events h) (.exit task nr ret)) (hc : ¬ commFilter task.comm = true) :
    seen h task.tid = none := by
  obtain ⟨f, hf, -, hcomm⟩ := alternates_exit.1 ha
  have hp : handOff.pointer f = none := by
    cases hp : handOff.pointer f with
    | none => rfl
    | some a => exact absurd (hcomm ▸ (handOff.pending_some hp).2) hc
  simp [seen, hf, hp]

/-! ## What the map holds -/

/-- Every entry was left by the call in flight or by one whose return was not handled. -/
def EntriesLeft (h : List AttachEvent) : Prop :=
  ∀ t a, entry h t = some a → a ∈ orphans h t ∨ seen h t = some a

/-- A call that is entered inserts its pointer only where nothing was left before. -/
theorem entriesLeft_enter {h : List AttachEvent} {task : Task} {nr : Nr} {args : Args} {a : Addr}
    (hi : EntriesLeft h) (ha : Alternates (events h) (.enter task nr args))
    (hl : entry (.event (.enter task nr args) :: h) task.tid = some a) :
    a ∈ orphans h task.tid ∨ seen (.event (.enter task nr args) :: h) task.tid = some a := by
  have hno := seen_of_enter ha
  have hold : entry h task.tid = some a → a ∈ orphans h task.tid := fun hb =>
    (hi _ _ hb).resolve_right (by rw [hno]; exact fun h => by cases h)
  rw [entry_enter] at hl
  rw [seen_enter]
  split at hl
  · exact .inl (hold hl)
  · rename_i b hb
    rw [BoundedMap.lookup_update_self] at hl
    cases hb' : (program.attachRun h).timePMap.lookup task.tid with
    | some w =>
      rw [hb'] at hl
      exact .inl (hold (hb'.trans hl))
    | none =>
      rw [hb'] at hl
      simp only at hl
      split at hl
      · exact .inr (hb.trans hl)
      · cases hl

/-- A return that is not handled leaves the pointer of its call behind. -/
theorem entriesLeft_exit {h : List AttachEvent} {task : Task} {nr : Nr} {ret : Int} {a : Addr}
    (hi : EntriesLeft h) (ha : Alternates (events h) (.exit task nr ret))
    (hl : entry (.event (.exit task nr ret) :: h) task.tid = some a) :
    a ∈ orphans (.event (.exit task nr ret) :: h) task.tid := by
  rw [entry_exit] at hl
  rw [orphans_exit]
  by_cases hn : exitAttached (attached h) nr = true
  · by_cases hc : commFilter task.comm = true
    · rw [if_pos ⟨hn, hc⟩] at hl; cases hl
    · rw [if_neg fun h' => hc h'.2] at hl
      rw [if_pos hn, if_neg hc]
      refine (hi _ _ hl).resolve_right ?_
      rw [seen_of_not_cc1 ha hc]
      exact fun h => by cases h
  · rw [if_neg fun h' => hn h'.1] at hl
    rw [if_neg hn]
    rcases hi _ _ hl with h' | h'
    · exact List.mem_append_right _ h'
    · exact List.mem_append_left _ (by simp [h'])

/-- **Every entry was left** by the call in flight or by one whose return was not handled. -/
theorem entriesLeft {h : List AttachEvent} (ha : Alternating (events h)) : EntriesLeft h := by
  refine (alternating_each ha).invariant (fun t a hl => by cases hl) fun k x _ hi ha t a hl => ?_
  cases x with
  | attach => exact hi t a hl
  | event e =>
    by_cases hs : Spares t e
    · rw [entry_spares hs] at hl
      rw [orphans_spares hs, seen_spares hs]
      exact hi t a hl
    · cases e with
      | enter task nr args =>
        obtain rfl : task.tid = t := by simpa [Spares] using hs
        exact entriesLeft_enter hi ha.1 hl
      | exit task nr ret =>
        obtain rfl : task.tid = t := by simpa [Spares] using hs
        exact .inl (entriesLeft_exit hi ha.1 hl)
      | spawn u => exact absurd trivial hs
      | die u => exact absurd trivial hs

/-- The map never holds `max_entries` keys. -/
def NeverFull (h : List AttachEvent) : Prop :=
  EachState (fun h => (program.attachRun h).timePMap.size < maxEntries) h

/-- A thread's entry is the pointer left behind first, or else that of the call in flight. -/
def EntriesOldest (h : List AttachEvent) : Prop :=
  ∀ t, entry h t = (orphans h t).getLast?.or (seen h t)

theorem entriesOldest_enter {h : List AttachEvent} {task : Task} {nr : Nr} {args : Args}
    (hi : EntriesOldest h) (ha : Alternates (events h) (.enter task nr args))
    (hsize : (program.attachRun h).timePMap.size < maxEntries) :
    entry (.event (.enter task nr args) :: h) task.tid =
      (orphans h task.tid).getLast?.or (seen (.event (.enter task nr args) :: h) task.tid) := by
  have hold := hi task.tid
  rw [seen_of_enter ha, Option.or_none] at hold
  rw [entry_enter, seen_enter]
  cases hp : (if enterAttached (attached h) nr then pending task.comm nr args else none) with
  | none => rw [Option.or_none]; exact hold
  | some a =>
    show ((program.attachRun h).timePMap.update task.tid a .noexist).lookup task.tid = _
    rw [BoundedMap.lookup_update_noexist a (.inr hsize)]
    show some ((entry h task.tid).getD a) = _
    rw [hold]
    cases (orphans h task.tid).getLast? <;> rfl

theorem entriesOldest_exit {h : List AttachEvent} {task : Task} {nr : Nr} {ret : Int}
    (hi : EntriesOldest h) (ha : Alternates (events h) (.exit task nr ret)) :
    entry (.event (.exit task nr ret) :: h) task.tid =
      (orphans (.event (.exit task nr ret) :: h) task.tid).getLast? := by
  rw [entry_exit, orphans_exit]
  by_cases hn : exitAttached (attached h) nr = true
  · by_cases hc : commFilter task.comm = true
    · rw [if_pos ⟨hn, hc⟩, if_pos hn, if_pos hc]
      rfl
    · rw [if_neg fun h' => hc h'.2, if_pos hn, if_neg hc, hi, seen_of_not_cc1 ha hc,
        Option.or_none]
  · rw [if_neg fun h' => hn h'.1, if_neg hn, hi, List.getLast?_append]
    cases seen h task.tid <;> rfl

/-- **The oldest pointer stays**: in runs that never fill the map, a thread's entry is the pointer
left behind first, or else that of the call in flight. -/
theorem entriesOldest {h : List AttachEvent} (ha : Alternating (events h)) (hn : NeverFull h) :
    EntriesOldest h := by
  refine ((alternating_each ha).and hn.each).invariant (fun t => rfl) fun k x _ hi hs t => ?_
  obtain ⟨ha, hn⟩ := hs
  cases x with
  | attach => exact hi t
  | event e =>
    by_cases hs : Spares t e
    · rw [entry_spares hs, orphans_spares hs, seen_spares hs]
      exact hi t
    · cases e with
      | enter task nr args =>
        obtain rfl : task.tid = t := by simpa [Spares] using hs
        exact entriesOldest_enter hi ha.1 hn.2.last
      | exit task nr ret =>
        obtain rfl : task.tid = t := by simpa [Spares] using hs
        rw [seen_exit, Option.or_none]
        exact entriesOldest_exit hi ha.1
      | spawn u => exact absurd trivial hs
      | die u => exact absurd trivial hs

/-! ## Writes -/

theorem attachWrite_exit (h : List AttachEvent) (task : Task) (nr : Nr) (ret : Int) :
    program.attachWrite h (.exit task nr ret) =
      if exitAttached (attached h) nr = true ∧ commFilter task.comm = true then
        (entry h task.tid).map fun a => ⟨a, clockBytes⟩
      else none := by
  unfold Program.attachWrite entry
  rw [attachStep_exit]
  by_cases hn : exitAttached (attached h) nr = true
  · have hnr : nr ∈ calls := by cases nr <;> simp_all [exitAttached, calls]
    rw [if_pos hn, step_exit]
    by_cases hc : commFilter task.comm = true
    · rw [if_pos ⟨hnr, hc⟩, if_pos ⟨hn, hc⟩]
      cases (program.attachRun h).timePMap.lookup task.tid <;> rfl
    · rw [if_neg fun h' => hc h'.2, if_neg fun h' => hc h'.2]
  · rw [if_neg hn, if_neg fun h' => hn h'.1]

theorem attachWrite_enter (h : List AttachEvent) (task : Task) (nr : Nr) (args : Args) :
    program.attachWrite h (.enter task nr args) = none := by
  unfold Program.attachWrite
  rw [attachStep_enter]
  split
  · exact handOff.enter_write task nr args _
  · rfl

/-- Writes go to the pointer of the call that returns. -/
def WritesOwn (h : List AttachEvent) : AttachEvent → Prop
  | .attach => True
  | .event e => ∀ w, program.attachWrite h e = some w → ∃ task nr ret f, e = .exit task nr ret ∧
      inflight (events h) task.tid = some f ∧ w.addr = timeArg f.nr f.args

/-- A successful call of `cc1` that was entered when all four handlers were active has its own
buffer rewritten. -/
def Rewritten (h : List AttachEvent) : AttachEvent → Prop
  | .event (.exit task nr ret) => ∀ f ∈ inflight (events h) task.tid, AnswersCc1 f task ret →
      4 ≤ enteredWith h task.tid →
        program.attachWrite h (.exit task nr ret) = some ⟨timeArg f.nr f.args, clockBytes⟩
  | _ => True

/-- When a return of `cc1` is handled, all pointers left behind for the thread are the pointer of
the call that returns. -/
def LeftMatches (h : List AttachEvent) : AttachEvent → Prop
  | .event (.exit task nr _) => ∀ f ∈ inflight (events h) task.tid,
      exitAttached (attached h) nr = true ∧ commFilter task.comm = true →
        ∀ a ∈ orphans h task.tid, a = timeArg f.nr f.args
  | _ => True

/-- The same of the pointer that was left behind first. -/
def FirstLeftMatches (h : List AttachEvent) : AttachEvent → Prop
  | .event (.exit task nr _) => ∀ f ∈ inflight (events h) task.tid,
      exitAttached (attached h) nr = true ∧ commFilter task.comm = true →
        ∀ a ∈ (orphans h task.tid).getLast?, a = timeArg f.nr f.args
  | _ => True

/-- What the call in flight has left is its pointer. -/
theorem seen_some {h : List AttachEvent} {t : Tid} {f : Frame} {a : Addr}
    (hf : inflight (events h) t = some f) (hs : seen h t = some a) : a = timeArg f.nr f.args := by
  unfold seen at hs
  rw [hf] at hs
  simp only [Option.bind_some] at hs
  split at hs
  · exact (pointer_some hs).2
  · cases hs

theorem writesOwn_of_own {h : List AttachEvent} {task : Task} {nr : Nr} {ret : Int} {f : Frame}
    (hf : inflight (events h) task.tid = some f)
    (hown : exitAttached (attached h) nr = true ∧ commFilter task.comm = true →
      ∀ a, entry h task.tid = some a → a = timeArg f.nr f.args) :
    WritesOwn h (.event (.exit task nr ret)) := by
  intro w hw
  rw [attachWrite_exit] at hw
  split at hw
  · rename_i hc
    obtain ⟨a, hl, rfl⟩ := Option.map_eq_some_iff.1 hw
    exact ⟨task, nr, ret, f, rfl, hf, hown hc a hl⟩
  · cases hw

theorem writesOwn_of_no_write {h : List AttachEvent} {e : Event}
    (hw : program.attachWrite h e = none) : WritesOwn h (.event e) := by
  intro w hw'
  rw [hw] at hw'
  cases hw'

theorem attachWrite_spawn (h : List AttachEvent) (t : Tid) :
    program.attachWrite h (.spawn t) = none := congrArg Prod.snd (Program.dispatch_spawn _ t _)

theorem attachWrite_die (h : List AttachEvent) (t : Tid) :
    program.attachWrite h (.die t) = none := congrArg Prod.snd (Program.dispatch_die _ t _)

/-- If all that is left behind matches, writes go to the right place, however full the map is. -/
theorem writesOwn_of_leftMatches {h : List AttachEvent} {x : AttachEvent}
    (ha : Alternating (events (x :: h))) (hm : LeftMatches h x) : WritesOwn h x := by
  match x with
  | .attach => trivial
  | .event (.enter task nr args) => exact writesOwn_of_no_write (attachWrite_enter h task nr args)
  | .event (.spawn t) => exact writesOwn_of_no_write (attachWrite_spawn h t)
  | .event (.die t) => exact writesOwn_of_no_write (attachWrite_die h t)
  | .event (.exit task nr ret) =>
    obtain ⟨f, hf, -⟩ := alternates_exit.1 ha.1
    refine writesOwn_of_own hf fun hc a hl => ?_
    rcases entriesLeft ha.2 _ _ hl with h' | h'
    · exact hm f hf hc a h'
    · exact seen_some hf h'

section
variable {h : List AttachEvent} {x : AttachEvent} (ha : Alternating (events (x :: h)))
  (hn : NeverFull h)
include ha hn

theorem writesOwn_of_first (hm : FirstLeftMatches h x) : WritesOwn h x := by
  match x with
  | .attach => trivial
  | .event (.enter task nr args) => exact writesOwn_of_no_write (attachWrite_enter h task nr args)
  | .event (.spawn t) => exact writesOwn_of_no_write (attachWrite_spawn h t)
  | .event (.die t) => exact writesOwn_of_no_write (attachWrite_die h t)
  | .event (.exit task nr ret) =>
    obtain ⟨f, hf, -⟩ := alternates_exit.1 ha.1
    refine writesOwn_of_own hf fun hc a hl => ?_
    rw [entriesOldest ha.2 hn] at hl
    cases hg : (orphans h task.tid).getLast? with
    | some b =>
      rw [hg] at hl
      exact Option.some.inj hl ▸ hm f hf hc b hg
    | none =>
      rw [hg] at hl
      exact seen_some hf hl

theorem first_of_writesOwn (hw : WritesOwn h x) : FirstLeftMatches h x := by
  match x with
  | .attach => trivial
  | .event (.enter _ _ _) => trivial
  | .event (.spawn _) => trivial
  | .event (.die _) => trivial
  | .event (.exit task nr ret) =>
    intro f hf hc a hg
    have hl : entry h task.tid = some a := by
      rw [entriesOldest ha.2 hn, show (orphans h task.tid).getLast? = some a from hg]
      rfl
    have hwr : program.attachWrite h (.exit task nr ret) = some ⟨a, clockBytes⟩ := by
      rw [attachWrite_exit, if_pos hc, hl]
      rfl
    obtain ⟨task', _, _, f', he, hf', haddr⟩ := hw _ hwr
    cases he
    rw [show inflight (events h) task.tid = some f from hf] at hf'
    cases hf'
    exact haddr

theorem rewritten_of_first (hm : FirstLeftMatches h x) : Rewritten h x := by
  match x with
  | .attach => trivial
  | .event (.enter _ _ _) => trivial
  | .event (.spawn _) => trivial
  | .event (.die _) => trivial
  | .event (.exit task nr ret) =>
    intro f hf hans hlate
    have hf : inflight (events h) task.tid = some f := hf
    obtain ⟨hnr, -, hc, h0⟩ := hans
    obtain ⟨hnr', hcomm⟩ := alternates_frame ha.1 hf
    have hatt := enteredWith_le h task.tid
    have hexit : exitAttached (attached h) nr = true :=
      exitAttached_all (Nat.le_trans hlate hatt) (hnr' ▸ hnr)
    have henter : enterAttached (enteredWith h task.tid) f.nr = true := enterAttached_all hlate hnr
    have hseen : seen h task.tid = some (timeArg f.nr f.args) := by
      unfold seen
      rw [hf, Option.bind_some, if_pos henter]
      exact pointer_eq hnr (hcomm ▸ hc) h0
    have hl : entry h task.tid = some (timeArg f.nr f.args) := by
      rw [entriesOldest ha.2 hn, hseen]
      cases hg : (orphans h task.tid).getLast? with
      | none => rfl
      | some b => exact congrArg some (hm f hf ⟨hexit, hc⟩ b hg)
    rw [attachWrite_exit, if_pos ⟨hexit, hc⟩, hl]
    rfl

end

/-- **The attach window**: in a run in which whatever is left behind for a thread is the pointer of
the call whose return is handled next, writes go to the pointer of the call that returns. In runs
that never fill the map only what was left behind first matters, no other runs have this property,
and every successful call entered after the last attachment has its buffer rewritten. -/
theorem attach_window {h : List AttachEvent} (ha : Alternating (events h)) :
    (EachStep LeftMatches h → EachStep WritesOwn h) ∧
    (NeverFull h → (EachStep FirstLeftMatches h ↔ EachStep WritesOwn h) ∧
      (EachStep FirstLeftMatches h → EachStep Rewritten h)) := by
  have ha := alternating_each ha
  refine ⟨fun hm => ?_, fun hn => ?_⟩
  · exact (ha.and hm).mono fun k x hk => writesOwn_of_leftMatches hk.1 hk.2
  · have han := ha.and hn.each
    refine ⟨⟨fun hm => ?_, fun hw => ?_⟩, fun hm => ?_⟩
    · exact (han.and hm).mono fun k x hk => writesOwn_of_first hk.1.1 hk.1.2.2 hk.2
    · exact (han.and hw).mono fun k x hk => first_of_writesOwn hk.1.1 hk.1.2.2 hk.2
    · exact (han.and hm).mono fun k x hk => rewritten_of_first hk.1.1 hk.1.2.2 hk.2

/-- A call of `cc1` while only its enter handler is active, and one with the same buffer later. -/
def repeatedCall : List AttachEvent :=
  [.event (.exit (cc1Task 1) .gettimeofday 0),
   .event (.enter (cc1Task 1) .gettimeofday ⟨0x1000, 0, 0, 0, 0, 0⟩),
   .attach, .attach, .attach,
   .event (.exit (cc1Task 1) .gettimeofday 0),
   .event (.enter (cc1Task 1) .gettimeofday ⟨0x1000, 0, 0, 0, 0, 0⟩),
   .attach]

theorem attach_window_repeatedCall : EachStep WritesOwn repeatedCall := by
  refine (attach_window (by decide)).1 ⟨fun f hf _ a hm => ?_, trivial, trivial, trivial, trivial,
    fun f hf hc => ?_, trivial, trivial, trivial⟩
  · have ho : orphans repeatedCall.tail 1 = [0x1000] := by decide
    have hm : a ∈ orphans repeatedCall.tail 1 := hm
    rw [ho] at hm
    cases hf
    exact List.mem_singleton.1 hm
  · exact absurd hc (by decide)

/-- The same with another buffer in the last call. -/
def leftBehind : List AttachEvent :=
  [.event (.exit (cc1Task 1) .gettimeofday 0),
   .event (.enter (cc1Task 1) .gettimeofday ⟨0x2000, 0, 0, 0, 0, 0⟩),
   .attach, .attach, .attach,
   .event (.exit (cc1Task 1) .gettimeofday 0),
   .event (.enter (cc1Task 1) .gettimeofday ⟨0x1000, 0, 0, 0, 0, 0⟩),
   .attach]

/-- The last call was entered when all handlers were active, and the write goes to the buffer of
the one before. -/
theorem attach_window_leftBehind :
    Alternating (events leftBehind) ∧ ¬ EachStep WritesOwn leftBehind ∧
      ¬ EachStep Rewritten leftBehind := by
  have hw : program.attachWrite leftBehind.tail (.exit (cc1Task 1) .gettimeofday 0) =
      some ⟨0x1000, clockBytes⟩ := by decide
  refine ⟨by decide, fun hs => ?_, fun hs => ?_⟩
  · obtain ⟨task, _, _, f, he, hf, haddr⟩ := hs.1 _ hw
    cases he
    cases hf
    exact absurd haddr (by decide)
  · have hr := hs.1 ⟨cc1Task 1, .gettimeofday, ⟨0x2000, 0, 0, 0, 0, 0⟩⟩ rfl
      ⟨by decide, rfl, by decide, by decide⟩ (by decide)
    exact absurd (hw.symm.trans hr) (by decide)

end Bpf.ModifyTime
