import DetBuilds.Bpf.Proof.Clock
import DetBuilds.Bpf.Proof.FileRead

/-!
# Calls that fail

No exit handler looks at the result of the call, so a call that fails is treated like one that
succeeds (`SameForAnyResult`). What a return may change is bounded for each program by a set of
addresses that the call itself determines (`MayChange`); `failed_calls` puts both together, and
`failed_calls_rewritten` gives for each program a failing call whose memory is changed.
-/

set_option autoImplicit false

namespace Bpf

open History

/-- A failing call leaves user memory as the kernel left it. -/
def FailuresUntouched {σ α : Type} (p : Program σ α) : Prop :=
  ∀ h task nr ret, Alternating (.exit task nr ret :: h) → ret < 0 →
    p.memAfter h (.exit task nr ret) = task.mem

/-- An exit handler does the same whatever the call returns. -/
def SameForAnyResult {σ α : Type} (p : Program σ α) : Prop :=
  ∀ task nr ret₁ ret₂ s, p.step (.exit task nr ret₁) s = p.step (.exit task nr ret₂) s

/-- A return changes only bytes that `MayChange` allows for the call that returns. -/
def ChangesOnly {σ α : Type} (p : Program σ α)
    (MayChange : List Event → Frame → ByteMem → Addr → Prop) : Prop :=
  ∀ h task nr ret, Alternating (.exit task nr ret :: h) → ∃ f, inflight h task.tid = some f ∧
    ∀ x, (p.memAfter h (.exit task nr ret)).byte x ≠ task.mem.byte x →
      commFilter f.task.comm = true ∧ MayChange h f task.mem x

/-- The time buffer of a call that has one. -/
def ModifyTime.MayChange (_h : List Event) (f : Frame) (_mem : ByteMem) (x : Addr) : Prop :=
  timeArg f.nr f.args ≠ 0 ∧ InTimeBuffer f x

/-- The timestamps from `st_atime` to `st_mtime_nsec` in the `struct stat`. -/
def ModifyFileTimestamp.MayChange (_h : List Event) (f : Frame) (_mem : ByteMem) (x : Addr) :
    Prop :=
  f.nr = .newfstatat ∧ InRange x (f.args.arg2 + 72) 32

/-- For an armed thread, `st_size` in the `struct stat` and the first 0x72 bytes of the buffer. -/
def ModifyFileRead.MayChange (h : List Event) (f : Frame) (_mem : ByteMem) (x : Addr) : Prop :=
  marking.armed h f.task.tid = true ∧
    ((f.nr = .newfstatat ∧ InRange x (f.args.arg2 + 48) 8) ∨
      (f.nr = .read ∧ InRange x f.args.arg1 localtimeSize))

/-- The first character of a path in whose first 32 bytes a source file suffix ends. -/
def ModifyFileName.MayChange (_h : List Event) (f : Frame) (mem : ByteMem) (x : Addr) : Prop :=
  f.nr = .openat ∧ isToModify (bpfProbeReadUser mem f.args.arg1 32) = true ∧ x = f.args.arg1

/-! ## Handlers do not look at results -/

theorem ModifyTime.sameForAnyResult : SameForAnyResult ModifyTime.program := by
  intro _ nr _ _ _; cases nr <;> rfl

theorem ModifyFileTimestamp.sameForAnyResult : SameForAnyResult ModifyFileTimestamp.program := by
  intro _ nr _ _ _; cases nr <;> rfl

theorem ModifyFileRead.sameForAnyResult : SameForAnyResult ModifyFileRead.program := by
  intro _ nr _ _ _; cases nr <;> rfl

theorem ModifyFileName.sameForAnyResult : SameForAnyResult ModifyFileName.program := by
  intro _ nr _ _ _; cases nr <;> rfl

/-! ## What a return may change -/

/-- A program that hands a pointer over changes only what it writes through the pointer of the
call that returns. -/
theorem HandOff.changesOnly {σ α : Type} {p : Program σ α} (H : HandOff p)
    {MayChange : List Event → Frame → ByteMem → Addr → Prop}
    (hmay : ∀ h f mem x a w, H.pending f.task.comm f.nr f.args = some a →
      H.through mem a = some w → InRange x w.addr w.bytes.length → MayChange h f mem x) :
    ChangesOnly p MayChange := by
  intro h task nr ret ha
  obtain ⟨f, hf, -⟩ := alternates_exit.1 ha.1
  refine ⟨f, hf, fun x hx => ?_⟩
  obtain ⟨w, hw, hin⟩ := p.write_of_changed hx
  obtain ⟨f', a, hf', hp, hthr⟩ := H.write_exit_sub ha.2 hw
  rw [hf] at hf'; cases hf'
  exact ⟨(H.pending_some hp).2, hmay h f task.mem x a w hp hthr hin⟩

theorem ModifyTime.changesOnly : ChangesOnly ModifyTime.program ModifyTime.MayChange := by
  refine handOff.changesOnly fun h f mem x a w hp hthr hin => ?_
  obtain ⟨hc, rfl⟩ := pending_eq_some.1 hp
  cases hthr
  rw [length_clockBytes] at hin
  exact ⟨hc.2.2, hc.1, hin⟩

theorem ModifyFileTimestamp.changesOnly :
    ChangesOnly ModifyFileTimestamp.program ModifyFileTimestamp.MayChange := by
  refine handOff.changesOnly fun h f mem x a w hp hthr hin => ?_
  obtain ⟨hc, rfl⟩ := pending_eq_some.1 hp
  cases hthr
  exact ⟨hc.1, hin⟩

theorem ModifyFileName.changesOnly :
    ChangesOnly ModifyFileName.program ModifyFileName.MayChange := by
  refine handOff.changesOnly fun h f mem x a w hp hthr hin => ?_
  obtain ⟨hc, rfl⟩ := pending_eq_some.1 hp
  obtain ⟨hm, rfl⟩ := emptied_eq_some.1 hthr
  exact ⟨hc.1, hm, ByteMem.inRange_one.1 hin⟩

theorem ModifyFileRead.changesOnly :
    ChangesOnly ModifyFileRead.program ModifyFileRead.MayChange := by
  intro h task nr ret ha
  obtain ⟨f, hf, hnr, hc⟩ := alternates_exit.1 ha.1
  refine ⟨f, hf, fun x hx => ?_⟩
  obtain ⟨w, hw, hin⟩ := program.write_of_changed hx
  have ht := inflight_tid hf
  by_cases h₁ : nr = .newfstatat
  · subst h₁
    obtain ⟨hcc1, harm, hown⟩ := of_write_newfstatat hf hnr hw
    rw [← hc] at hcc1
    rw [hown hcc1] at hin
    exact ⟨hcc1, ht ▸ harm, .inl ⟨hnr, hin⟩⟩
  · by_cases h₂ : nr = .read
    · subst h₂
      obtain ⟨hcc1, harm, hown⟩ := of_write_read hf hnr hw
      rw [← hc] at hcc1
      rw [hown hcc1] at hin
      exact ⟨hcc1, ht ▸ harm, .inr ⟨hnr, hin⟩⟩
    · rw [write_exit_other h task ret h₁ h₂] at hw; cases hw

/-- **Failed calls**: the handlers treat a call that fails like one that succeeds, and the only
bytes a return can change are those that the program rewrites for the returning call of `cc1`. -/
theorem failed_calls :
    (SameForAnyResult ModifyTime.program ∧ ChangesOnly ModifyTime.program ModifyTime.MayChange) ∧
    (SameForAnyResult ModifyFileTimestamp.program ∧
      ChangesOnly ModifyFileTimestamp.program ModifyFileTimestamp.MayChange) ∧
    (SameForAnyResult ModifyFileRead.program ∧
      ChangesOnly ModifyFileRead.program ModifyFileRead.MayChange) ∧
    (SameForAnyResult ModifyFileName.program ∧
      ChangesOnly ModifyFileName.program ModifyFileName.MayChange) :=
  ⟨⟨ModifyTime.sameForAnyResult, ModifyTime.changesOnly⟩,
    ⟨ModifyFileTimestamp.sameForAnyResult, ModifyFileTimestamp.changesOnly⟩,
    ⟨ModifyFileRead.sameForAnyResult, ModifyFileRead.changesOnly⟩,
    ⟨ModifyFileName.sameForAnyResult, ModifyFileName.changesOnly⟩⟩

theorem failuresUntouched_false {σ α : Type} {p : Program σ α} (h : List Event) (task : Task)
    (nr : Nr) (ret : Int) (x : Addr) (ha : Alternating (.exit task nr ret :: h)) (hret : ret < 0)
    (hx : (p.memAfter h (.exit task nr ret)).byte x ≠ task.mem.byte x) : ¬ FailuresUntouched p :=
  fun hall => hx (congrFun (congrArg ByteMem.byte (hall h task nr ret ha hret)) x)

/-- `cc1` with the path `a.c` at 0x1000. -/
def sourceTask (t : Tid) : Task :=
  { cc1Task t with mem := { (cc1Task t).mem with
      byte := fun x => (ascii ['a', '.', 'c', '\x00']).getD (x - 0x1000).toNat 0 } }

/-- A `clock_gettime` with a bad clock, a `newfstatat` of a missing file, a `newfstatat` of a bad
descriptor after `/etc/localtime` was opened, and an `openat` of a missing source file. -/
theorem failed_calls_rewritten :
    ¬ FailuresUntouched ModifyTime.program ∧ ¬ FailuresUntouched ModifyFileTimestamp.program ∧
      ¬ FailuresUntouched ModifyFileRead.program ∧ ¬ FailuresUntouched ModifyFileName.program := by
  refine ⟨?_, ?_, ?_, ?_⟩
  · exact failuresUntouched_false [.enter (cc1Task 1) .clockGettime ⟨99, 0x2000, 0, 0, 0, 0⟩]
      (cc1Task 1) .clockGettime (-22) 0x2001 (by decide) (by decide) (by decide)
  · exact failuresUntouched_false [.enter (cc1Task 1) .newfstatat ⟨0, 0x1000, 0x2000, 0, 0, 0⟩]
      (cc1Task 1) .newfstatat (-2) 0x2049 (by decide) (by decide) (by decide)
  · exact failuresUntouched_false
      [.enter (ModifyFileRead.localtimeTask 1) .newfstatat ⟨9, 0x5000, 0x2000, 0x1000, 0, 0⟩,
       .exit (ModifyFileRead.localtimeTask 1) .openat 3,
       .enter (ModifyFileRead.localtimeTask 1) .openat ⟨0, 0x1000, 0, 0, 0, 0⟩]
      (ModifyFileRead.localtimeTask 1) .newfstatat (-9) 0x2030 (by decide) (by decide) (by decide)
  · exact failuresUntouched_false [.enter (sourceTask 1) .openat ⟨0, 0x1000, 0, 0, 0, 0⟩]
      (sourceTask 1) .openat (-2) 0x1000 (by decide) (by decide) (by decide)

end Bpf
