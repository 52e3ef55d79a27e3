import DetBuilds.Loader.Proof.Ending
import DetBuilds.Loader.Proof.Live

/-!
# Calls that a loader attaches or ends in

A program that leaves its pointers with `BPF_ANY` is safe while its loader attaches it: before the
first handler is attached nothing is on record, and from then on each call overwrites what an earlier
one has left (`window`). So whatever its loaders have been through, and as long as the present one
does not detach, what it writes is the rewrite of the call that returns (`life_own_call`).
-/

set_option autoImplicit false

namespace Loader

open Bpf History

/-! ## Processes -/

namespace Process

variable {k : Nat} {p : Process} {r : Int}

/-- **One answer** makes the maps, attaches one handler more, or leaves both as they are. -/
theorem main_cases (ho : ¬ (p.main k r).Over) :
    (p.pc = .loadSkel ∧ r = 0 ∧ (p.main k r).pc = .attachSkel ∧
      (p.main k r).attached = p.attached ∧ (p.main k r).detached = p.detached) ∨
    (p.pc = .attachSkel ∧ (p.main k r).pc = .attachSkel ∧
      (p.main k r).attached = p.attached + 1 ∧ (p.main k r).detached = p.detached) ∨
    (¬ (p.pc = .loadSkel ∧ r = 0) ∧ (p.main k r).pc ≠ .attachSkel ∧
      (p.main k r).attached = p.attached ∧ p.detached ≤ (p.main k r).detached) := by
  revert ho
  unfold main
  cases hpc : p.pc with
  | argpParse => by_cases h0 : r = 0 <;> simp [h0]
  | signalInt => simp
  | signalTerm => simp
  | openSkel => by_cases h0 : r = 0 <;> simp [h0]
  | loadSkel => by_cases h0 : r = 0 <;> simp [h0]
  | attachSkel => by_cases hk : p.attached < k <;> by_cases h0 : r = 0 <;> simp [hk, h0]
  | ringBufferNew => by_cases h0 : r = 0 <;> simp [h0]
  | whileNotExiting => cases p.exiting <;> simp
  | ringBufferPoll => by_cases hi : r = -EINTR <;> by_cases h0 : r < 0 <;> simp [hi, h0]
  | ringBufferFree => simp
  | destroySkel => by_cases hd : p.detached < p.attached <;> simp [hd]
  | exited n => simp [hpc]
  | killed sig => simp [hpc]

/-- A signal attaches and detaches nothing. -/
theorem signal_keeps (sig : Sig) (ho : ¬ (p.signal sig).Over) :
    ¬ p.Over ∧ (p.signal sig).pc = p.pc ∧ (p.signal sig).attached = p.attached ∧
      (p.signal sig).detached = p.detached := by
  rcases p.signal_cases sig with ⟨-, hs⟩ | ⟨-, hs⟩ | ⟨⟨hover, -⟩, hs⟩ <;> rw [hs] at ho ⊢
  · exact ⟨ho, rfl, rfl, rfl⟩
  · exact absurd trivial ho
  · exact ⟨hover, rfl, rfl, rfl⟩

end Process

/-! ## The window -/

section
variable {σ α : Type} {prog : Program σ α} (H : HandOff prog)

/-- What the threads do. -/
def threadsOf (h : List LifeEvent) : List Event := h.filterMap LifeEvent.thread

/-- Nothing is on record. -/
def Blank (h : List LifeEvent) : Prop := ∀ t, H.entry (handled prog h) t = none

/-- What is on record for a call in flight is its own. -/
def Current (h : List LifeEvent) : Prop :=
  ∀ t f a, inflight (threadsOf h) t = some f → H.pointer f = some a →
    H.entry (handled prog h) t = some a ∨ H.entry (handled prog h) t = none

/-- As long as the process does not detach: nothing is on record before the first handler is
attached, and then it is current. -/
def Window (h : List LifeEvent) : Prop :=
  ∀ p ∈ (life prog h).process, ¬ p.Over → p.detached = 0 →
    (p.pc = .attachSkel → p.attached = 0 → Blank H h) ∧ (p.attached ≠ 0 → Current H h)

variable {H}

theorem Current.of_blank {h : List LifeEvent} (hb : Blank H h) : Current H h :=
  fun t _ _ _ _ => .inr (hb t)

/-- The process is started or goes on. -/
theorem window_process {h : List LifeEvent} (hw : Window H h) (i : Input) :
    Window H (.process i :: h) := by
  intro p hp ho hdet
  obtain ⟨q, hq, rfl⟩ := Option.mem_map.1 hp
  have hun := unattached_life h q hq
  have hkeep : ¬ (life prog h).Loads i → handled prog (.process i :: h) = handled prog h :=
    fun hl => if_neg hl
  have hloads : (life prog h).Loads i ↔ q.pc = .loadSkel ∧ i = .answer 0 := by
    constructor
    · rintro ⟨q', hq', hl⟩
      rwa [Option.mem_unique hq hq']
    · exact fun hl => ⟨q, hq, hl⟩
  cases i with
  | signal sig =>
    obtain ⟨hover, hpc, hatt, hd⟩ := Process.signal_keeps sig ho
    have hsame := hkeep fun hl => by cases (hloads.1 hl).2
    obtain ⟨hblank, hcurrent⟩ := hw q hq hover (hd.symm.trans hdet)
    refine ⟨fun hpc' hatt' => ?_, fun hatt' => ?_⟩
    · unfold Blank
      rw [hsame]
      exact hblank (hpc.symm.trans hpc') (hatt.symm.trans hatt')
    · unfold Current
      rw [hsame]
      exact hcurrent fun h0 => hatt' (hatt.trans h0)
  | answer r =>
    have hover : ¬ q.Over := fun hover => ho (by
      show (q.main _ r).Over
      rwa [Process.over_main r hover])
    rcases Process.main_cases ho with ⟨hpc, rfl, -, hatt, -⟩ | ⟨hpc, hpc', hatt, hd⟩ |
      ⟨hno, hpc', hatt, hle⟩
    · have hnil : handled prog (.process (.answer 0) :: h) = [] := if_pos (hloads.2 ⟨hpc, rfl⟩)
      have hblank : Blank H (.process (.answer 0) :: h) := fun t => by
        rw [hnil]
        exact H.map_empty t
      exact ⟨fun _ _ => hblank, fun _ => .of_blank hblank⟩
    · have hsame := hkeep fun hl => by rw [hpc] at hloads; cases (hloads.1 hl).1
      obtain ⟨hblank, hcurrent⟩ := hw q hq hover (hd.symm.trans hdet)
      refine ⟨fun _ h0 => absurd (hatt.symm.trans h0) (Nat.succ_ne_zero _), fun _ => ?_⟩
      have hcur : Current H h := by
        by_cases h0 : q.attached = 0
        · exact .of_blank (hblank hpc h0)
        · exact hcurrent h0
      unfold Current
      rw [hsame]
      exact hcur
    · have hsame := hkeep fun hl => hno ⟨(hloads.1 hl).1, by
        have hr := (hloads.1 hl).2
        cases hr
        rfl⟩
      have hd : q.detached = 0 := Nat.le_zero.1 (hle.trans_eq hdet)
      refine ⟨fun h => absurd h hpc', fun hatt' => ?_⟩
      unfold Current
      rw [hsame]
      exact (hw q hq hover hd).2 fun h0 => hatt' (hatt.trans h0)

theorem inflight_spares {t : Tid} {e : Event} (he : Spares t e) (h : List Event) :
    inflight (e :: h) t = inflight h t := by
  cases e with
  | enter task nr args => exact inflight_of_ne h he
  | exit task nr ret => exact inflight_of_ne h he
  | spawn u => rfl
  | die u => rfl

variable {nr : Nr} {hd : Handler σ} {hds : List (Handler σ)}

/-- From the first handler on, calls are handled when they are entered. -/
theorem handled_enter {s : Life σ} (hhandlers : prog.handlers = hd :: hds)
    (hnr : hd.tracepoint = .sysEnter nr) {p : Process} (hp : p ∈ s.process) (ho : ¬ p.Over)
    (hdet : p.detached = 0) (hatt : p.attached ≠ 0) (task : Task) (args : Args) :
    Handled (s.active prog) (.enter task nr args) := by
  obtain ⟨n, hn⟩ := Nat.exists_eq_succ_of_ne_zero hatt
  have hactive : s.active prog = hd :: hds.take n := by
    show s.process.elim [] (·.active prog.handlers) = _
    rw [Option.mem_def.1 hp]
    show p.active prog.handlers = _
    unfold Process.active
    rw [if_neg ho, hdet, hn, hhandlers]
    rfl
  exact ⟨_, List.mem_map_of_mem (by rw [hactive]; exact List.mem_cons_self ..),
    congrArg some hnr.symm⟩

/-- A thread does something. -/
theorem window_event {h : List LifeEvent} (hflag : H.flag = .any) (hcalls : H.calls = [nr])
    (hhandlers : prog.handlers = hd :: hds) (hnr : hd.tracepoint = .sysEnter nr)
    (hw : Window H h) (e : Event) : Window H (.event e :: h) := by
  intro p hp ho hdet
  have hp : p ∈ (life prog h).process := hp
  obtain ⟨hblank, hcurrent⟩ := hw p hp ho hdet
  by_cases hatt : p.attached = 0
  · -- no handler is attached
    have hnot : ¬ Handled ((life prog h).active prog) e := fun hh => by
      obtain ⟨q, hq, -, hlt⟩ := running_of_handled hh
      rw [Option.mem_unique hq hp, hatt] at hlt
      exact Nat.not_lt_zero _ hlt
    have hsame : handled prog (.event e :: h) = handled prog h := if_neg hnot
    refine ⟨fun hpc h0 => ?_, fun h0 => absurd hatt h0⟩
    unfold Blank
    rw [hsame]
    exact hblank hpc h0
  · refine ⟨fun _ h0 => absurd h0 hatt, fun _ => ?_⟩
    have hcur := hcurrent hatt
    have hcons : handled prog (.event e :: h) = e :: handled prog h ∨
        handled prog (.event e :: h) = handled prog h := by
      by_cases hh : Handled ((life prog h).active prog) e
      · exact .inl (if_pos hh)
      · exact .inr (if_neg hh)
    intro t f a hf ha
    have hf : inflight (e :: threadsOf h) t = some f := hf
    by_cases hs : Spares t e
    · have hf : inflight (threadsOf h) t = some f := (inflight_spares hs _).symm.trans hf
      rcases hcons with hcons | hcons
      · rw [hcons, H.entry_spares hs]
        exact hcur t f a hf ha
      · rw [hcons]
        exact hcur t f a hf ha
    · cases e with
      | spawn u => exact absurd trivial hs
      | die u => exact absurd trivial hs
      | exit task nr' ret =>
        have ht : task.tid = t := not_not.1 hs
        subst ht
        rw [inflight_exit_self] at hf
        cases hf
      | enter task nr' args =>
        have ht : task.tid = t := not_not.1 hs
        subst ht
        have hself := hf
        rw [inflight_enter_self] at hf
        cases hf
        have hnr' : nr' = nr := by
          have hmem := (H.pending_some ha).1
          rw [hcalls] at hmem
          exact List.mem_singleton.1 hmem
        subst hnr'
        have hh : handled prog (.event (.enter task nr' args) :: h) =
            .enter task nr' args :: handled prog h :=
          if_pos (handled_enter hhandlers hnr hp ho hdet hatt task args)
        rw [hh]
        exact H.entry_inflight hflag (inflight_enter_self ..) ha

/-- **The window**, in every run. -/
theorem window (hflag : H.flag = .any) (hcalls : H.calls = [nr])
    (hhandlers : prog.handlers = hd :: hds) (hnr : hd.tracepoint = .sysEnter nr)
    (h : List LifeEvent) : Window H h := by
  induction h with
  | nil => exact fun p hp => by cases hp
  | cons x h ih =>
    cases x with
    | process i => exact window_process ih i
    | event e => exact window_event hflag hcalls hhandlers hnr ih e
    | exec onInt =>
      intro p hp ho hdet
      have hp : p ∈ (if (life prog h).Idle then some (.exec onInt) else (life prog h).process) := hp
      split at hp
      · cases hp
        exact ⟨fun hpc => (by cases hpc), fun hatt => absurd rfl hatt⟩
      · exact ih p hp ho hdet

/-- What is written then is for the call that returns. -/
theorem HandOff.own_call (hp : (prog.handlers.map Handler.tracepoint).Nodup) (hflag : H.flag = .any)
    (hcalls : H.calls = [nr]) (hhandlers : prog.handlers = hd :: hds)
    (hnr : hd.tracepoint = .sysEnter nr)
    (hpointer : ∀ f : Frame, f.nr ∈ H.calls → commFilter f.task.comm = true → (H.pointer f).isSome)
    {h : List LifeEvent} {task : Task} {nr' : Nr} {ret : Int}
    (ha : Alternates (threadsOf h) (.exit task nr' ret))
    (hdet : ∀ p ∈ (life prog h).process, p.detached = 0) {w : UserWrite}
    (hw : lifeWrite prog h (.exit task nr' ret) = some w) :
    ∃ f, inflight (threadsOf h) task.tid = some f ∧
      (H.pointer f).bind (H.through task.mem) = some w := by
  obtain ⟨f, hf, hfnr, hfc⟩ := alternates_exit.1 ha
  rw [lifeWrite_eq hp] at hw
  obtain ⟨hh, hw⟩ := Option.ite_none_right_eq_some.1 hw
  obtain ⟨p, hproc, ho, hlt⟩ := running_of_handled hh
  have hcur : Current H h := (window hflag hcalls hhandlers hnr h p hproc ho (hdet p hproc)).2
    (Nat.ne_zero_of_lt hlt)
  unfold Program.write at hw
  rw [H.exit_write] at hw
  obtain ⟨⟨hmem, hc⟩, hw⟩ := Option.ite_none_right_eq_some.1 hw
  obtain ⟨x, hx, hthrough⟩ := Option.bind_eq_some_iff.1 hw
  obtain ⟨y, hy⟩ := Option.isSome_iff_exists.1 (hpointer f (hfnr ▸ hmem) (hfc ▸ hc))
  refine ⟨f, hf, ?_⟩
  rw [hy]
  rcases hcur task.tid f y hf hy with hentry | hentry
  · have hxy : some x = some y := hx.symm.trans hentry
    cases hxy
    exact hthrough
  · have hnone : some x = none := hx.symm.trans hentry
    cases hnone

end

/-- **The call's own pointer**: whatever its loaders have been through, and while the present one
attaches the handlers, each write of `modify_file_timestamp` and `modify_file_name` is the rewrite of
the call that returns. -/
theorem life_own_call {a : App} (ha : a = .modifyFileTimestamp ∨ a = .modifyFileName)
    {h : List LifeEvent} {task : Task} {nr : Nr} {ret : Int}
    (halt : Alternates (threadsOf h) (.exit task nr ret))
    (hdet : ∀ p ∈ (life a.program h).process, p.detached = 0) {w : UserWrite}
    (hw : lifeWrite a.program h (.exit task nr ret) = some w) :
    ∃ f, inflight (threadsOf h) task.tid = some f ∧ ∀ u, a.rewrite u f task.mem = some w := by
  rcases ha with rfl | rfl
  · have hpointer : ∀ f : Frame, f.nr ∈ [Nr.newfstatat] → commFilter f.task.comm = true →
        (ModifyFileTimestamp.handOff.pointer f).isSome := fun f hnr hc =>
      Option.isSome_iff_exists.2 ⟨_, ModifyFileTimestamp.pending_eq_some.2
        ⟨⟨List.mem_singleton.1 hnr, hc⟩, rfl⟩⟩
    obtain ⟨f, hf, hfw⟩ := HandOff.own_call (H := ModifyFileTimestamp.handOff)
      App.modifyFileTimestamp.nodup_tracepoints rfl rfl rfl rfl hpointer halt hdet hw
    exact ⟨f, hf, fun u => (rewrite_modifyFileTimestamp u f task.mem).trans hfw⟩
  · have hpointer : ∀ f : Frame, f.nr ∈ [Nr.openat] → commFilter f.task.comm = true →
        (ModifyFileName.handOff.pointer f).isSome := fun f hnr hc =>
      Option.isSome_iff_exists.2 ⟨_, ModifyFileName.pending_eq_some.2
        ⟨⟨List.mem_singleton.1 hnr, hc⟩, rfl⟩⟩
    obtain ⟨f, hf, hfw⟩ := HandOff.own_call (H := ModifyFileName.handOff)
      App.modifyFileName.nodup_tracepoints rfl rfl rfl rfl hpointer halt hdet hw
    exact ⟨f, hf, fun u => (rewrite_modifyFileName u f task.mem).trans hfw⟩

/-- A call leaves its pointer while only the enter handler is attached, and the next one returns when
both are. -/
def leftBehindRun : List LifeEvent :=
  [.event (.enter (cc1Task 1) .newfstatat ⟨3, 0x5000, 0x3000, 0, 0, 0⟩),
    .process (.answer 0),
    .event (.exit (cc1Task 1) .newfstatat 0),
    .event (.enter (cc1Task 1) .newfstatat ⟨3, 0x5000, 0x2000, 0, 0, 0⟩),
    .process (.answer 0), .process (.answer 0), .process (.answer 1), .process (.answer 0),
    .process (.answer 0), .process (.answer 0), .exec .ign]

theorem life_own_call_leftBehindRun :
    ∃ f, inflight (threadsOf leftBehindRun) 1 = some f ∧ ∀ u,
      App.modifyFileTimestamp.rewrite u f (cc1Task 1).mem =
        some ⟨0x3000 + 72, ModifyFileTimestamp.replaceFileTimes.bytes.take 32⟩ :=
  have halt : Alternates (threadsOf leftBehindRun) (.exit (cc1Task 1) .newfstatat 0) := by decide
  have hw : lifeWrite ModifyFileTimestamp.program leftBehindRun (.exit (cc1Task 1) .newfstatat 0) =
      some ⟨0x3000 + 72, ModifyFileTimestamp.replaceFileTimes.bytes.take 32⟩ := by decide
  life_own_call (a := .modifyFileTimestamp) (.inl rfl) halt
    (show ∀ p ∈ (life ModifyFileTimestamp.program leftBehindRun).process, p.detached = 0 by decide) hw

end Loader
