import DetBuilds.Bpf.TwoRuns
import DetBuilds.Bpf.Proof.HandOff

/-!
# The clock that `cc1` sees

`clock_noninterference`: two runs with the same calls, whatever the kernel stored in memory, show
every successful `gettimeofday` and `clock_gettime` of `cc1` the same sixteen bytes, and the
handlers write nowhere but into the sixteen bytes passed to the call that returns. By the pointer
hand-off (`HandOff.write_exit`) the exit handler finds the pointer of its own call; what remains is
that a store into memory the kernel could write is read back.
-/

set_option autoImplicit false

namespace Bpf.ModifyTime

open History

/-- The sixteen bytes a call asks the time for. -/
def InTimeBuffer (f : Frame) (x : Addr) : Prop :=
  f.nr ∈ calls ∧ InRange x (timeArg f.nr f.args) 16

/-- A call of `cc1` for the time, with a place to put it, that succeeds. -/
def AnswersCc1 (f : Frame) (task : Task) (ret : Int) : Prop :=
  f.nr ∈ calls ∧ ret = 0 ∧ commFilter task.comm = true ∧ timeArg f.nr f.args ≠ 0

/-- Where the kernel itself has stored a time, the handler can write too. -/
def KernelStored (h : List Event) (e : Event) : Prop :=
  match e with
  | .exit task _ ret => ∀ f ∈ inflight h task.tid, f.nr ∈ calls → ret = 0 →
      timeArg f.nr f.args ≠ 0 → task.mem.writableFor (timeArg f.nr f.args) 16 = true
  | _ => True

/-- The handlers change user memory only inside the buffer of the call that returns. -/
def OwnBufferOnly (h : List Event) (e : Event) : Prop :=
  match e with
  | .exit task nr ret => ∀ x, (program.memAfter h (.exit task nr ret)).byte x ≠ task.mem.byte x →
      ∃ f, inflight h task.tid = some f ∧ InTimeBuffer f x
  | _ => program.write h e = none

/-- After a successful return to `cc1`, its own buffer reads the same in both runs: the fixed
timestamp and zero. -/
def SameTime (h₁ : List Event) (e₁ : Event) (h₂ : List Event) (e₂ : Event) : Prop :=
  match e₁, e₂ with
  | .exit task₁ nr₁ ret₁, .exit task₂ nr₂ ret₂ =>
    ∀ f ∈ inflight h₁ task₁.tid, AnswersCc1 f task₁ ret₁ →
      (program.memAfter h₁ (.exit task₁ nr₁ ret₁)).load (timeArg f.nr f.args) 16 =
          (program.memAfter h₂ (.exit task₂ nr₂ ret₂)).load (timeArg f.nr f.args) 16 ∧
        (program.memAfter h₁ (.exit task₁ nr₁ ret₁)).load (timeArg f.nr f.args) 16 =
          le64 modifiedCurrentTimestamp ++ le64 0
  | _, _ => True

theorem length_clockBytes : clockBytes.length = 16 := by simp [clockBytes]

theorem pointer_eq {f : Frame} (hnr : f.nr ∈ calls) (hc : commFilter f.task.comm = true)
    (h0 : timeArg f.nr f.args ≠ 0) : handOff.pointer f = some (timeArg f.nr f.args) :=
  if_pos ⟨hnr, hc, h0⟩

/-- A call's pointer is the address of its buffer. -/
theorem pointer_some {f : Frame} {a : Addr} (hp : handOff.pointer f = some a) :
    f.nr ∈ calls ∧ a = timeArg f.nr f.args := by
  obtain ⟨⟨hnr, -⟩, ha⟩ := pending_eq_some.1 hp
  exact ⟨hnr, ha.symm⟩

/-- A successful return to `cc1` leaves the fixed time in the call's own buffer. -/
theorem load_memAfter {h : List Event} {task : Task} {nr : Nr} {ret : Int} {f : Frame}
    (ha : Alternating (.exit task nr ret :: h)) (hu : Uncrowded calls h)
    (hk : KernelStored h (.exit task nr ret)) (hf : inflight h task.tid = some f)
    (hans : AnswersCc1 f task ret) :
    (program.memAfter h (.exit task nr ret)).load (timeArg f.nr f.args) 16 = clockBytes := by
  obtain ⟨hnr, hret, hcc1, h0⟩ := hans
  obtain ⟨-, hc⟩ := alternates_frame ha.1 hf
  have hp : handOff.pointer f = some (timeArg f.nr f.args) := pointer_eq hnr (hc ▸ hcc1) h0
  have hw : program.write h (.exit task nr ret) = some ⟨timeArg f.nr f.args, clockBytes⟩ := by
    rw [handOff.write_exit ha hu hf, hp]; rfl
  unfold Program.memAfter
  rw [hw]
  exact ByteMem.load_store length_clockBytes (by decide) (hk f hf hnr hret h0)

theorem ownBufferOnly {h : List Event} {e : Event} (ha : Alternating (e :: h)) :
    OwnBufferOnly h e := by
  cases e with
  | enter task nr args => exact handOff.write_enter h task nr args
  | exit task nr ret =>
    intro x hx
    obtain ⟨w, hw, hin⟩ := program.write_of_changed hx
    obtain ⟨f, a, hf, hp, hthr⟩ := handOff.write_exit_sub ha.2 hw
    obtain ⟨hnr, rfl⟩ := pointer_some hp
    cases hthr
    exact ⟨f, hf, hnr, by rwa [length_clockBytes] at hin⟩
  | spawn t => rfl
  | die t => rfl

/-- **Clock noninterference**: in two runs with the same calls, arguments and results, `cc1` reads
the same fixed time, and the handlers write only into the buffer of the call that returns. -/
theorem clock_noninterference {h₁ h₂ : List Event} (hs : List.Forall₂ SameCall h₁ h₂)
    (ha : Alternating h₁) (hu : Uncrowded calls h₁) (hk₁ : EachStep KernelStored h₁)
    (hk₂ : EachStep KernelStored h₂) :
    EachStep₂ SameTime h₁ h₂ ∧ EachStep OwnBufferOnly h₁ ∧ EachStep OwnBufferOnly h₂ := by
  have ha₂ := alternating_same hs ha
  have hu₂ := uncrowded_same hs hu
  refine ⟨?_, ha.each.mono fun h e => ownBufferOnly, ha₂.each.mono fun h e => ownBufferOnly⟩
  refine eachStep₂_of hs ((ha.each.and hu.each).and hk₁) ((ha₂.each.and hu₂.each).and hk₂) ?_
  rintro k₁ e₁ k₂ e₂ he hk ⟨⟨ha₁, hu₁⟩, hk₁⟩ ⟨⟨ha₂, hu₂⟩, hk₂⟩
  match e₁, e₂, he with
  | .exit task₁ nr₁ ret₁, .exit task₂ nr₂ ret₂, he =>
    intro f hf hans
    obtain ⟨f₂, hf₂, ⟨-, hc⟩, hnr, hargs⟩ := inflight_same_some hk hf
    obtain ⟨⟨htid, hcomm⟩, -, hret⟩ := he
    rw [htid] at hf₂
    have h₁ := load_memAfter ha₁ hu₁.2 hk₁ hf hans
    have h₂ := load_memAfter ha₂ hu₂.2 hk₂ hf₂
      ⟨hnr ▸ hans.1, hret ▸ hans.2.1, hcomm ▸ hans.2.2.1, by rw [← hnr, ← hargs]; exact hans.2.2.2⟩
    rw [← hnr, ← hargs] at h₂
    exact ⟨h₁.trans h₂.symm, h₁⟩
  | .enter _ _ _, .enter _ _ _, _ => trivial
  | .spawn _, .spawn _, _ => trivial
  | .die _, .die _, _ => trivial

/-- Thread 1 asks for the time while thread 2 is in a `clock_gettime` of its own; the kernel has
filled memory with `b` when the first call returns. -/
def clockRun (b : Byte) : List Event :=
  [.exit { cc1Task 1 with mem := { (cc1Task 1).mem with byte := fun _ => b } } .gettimeofday 0,
   .enter (cc1Task 2) .clockGettime ⟨0, 0x2000, 0, 0, 0, 0⟩,
   .enter (cc1Task 1) .gettimeofday ⟨0x1000, 0, 0, 0, 0, 0⟩]

theorem clock_noninterference_clockRun :
    EachStep₂ SameTime (clockRun 3) (clockRun 5) ∧ EachStep OwnBufferOnly (clockRun 3) ∧
      EachStep OwnBufferOnly (clockRun 5) :=
  have hk : ∀ b, EachStep KernelStored (clockRun b) := fun b =>
    ⟨fun f _ _ _ _ => by simp [ByteMem.writableFor, cc1Task], trivial, trivial, trivial⟩
  clock_noninterference
    (.cons ⟨⟨rfl, rfl⟩, rfl, rfl⟩
      (.cons ⟨⟨rfl, rfl⟩, rfl, rfl⟩ (.cons ⟨⟨rfl, rfl⟩, rfl, rfl⟩ .nil)))
    (by decide) (by decide) (hk 3) (hk 5)

end Bpf.ModifyTime
