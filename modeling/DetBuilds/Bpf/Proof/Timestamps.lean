import DetBuilds.Bpf.TwoRuns
import DetBuilds.Bpf.Proof.HandOff

/-!
# The timestamps of a `struct stat`

`handle_exit_newfstatat` fills in a `struct file_times` of 48 bytes and writes 32 of them: the
access and the modification time. `timestamps_iff`: after every successful `newfstatat` of `cc1`
all three times are the fixed one, and nothing else is changed, exactly if the kernel's status
change time is the fixed one already (and the other two as well, if the call's pointer was not
recorded for lack of room). Where it is on two hosts, files that differ in their timestamps
only look the same to `cc1`.
-/

set_option autoImplicit false

namespace Bpf.ModifyFileTimestamp

open History

/-- A `newfstatat` of `cc1` succeeds. -/
def StatOfCc1 (h : List Event) (task : Task) (ret : Int) (f : Frame) : Prop :=
  inflight h task.tid = some f ∧ commFilter f.task.comm = true ∧ commFilter task.comm = true ∧
    ret = 0

/-- The fixed timestamp and its nanoseconds. -/
def fixedTime : List Byte := le64 modifiedFileTimestamp ++ le64 0

/-- The time at offset `o` of a `struct stat` is the fixed one. -/
def Fixed (m : ByteMem) (statP : Addr) (o : Nat) : Prop :=
  m.load (ByteMem.off statP o) 16 = fixedTime

instance (m : ByteMem) (statP : Addr) (o : Nat) : Decidable (Fixed m statP o) :=
  inferInstanceAs (Decidable (_ = _))

/-- The offsets of `st_atime`, `st_mtime` and `st_ctime`. -/
def timeOffsets : List Nat := [72, 88, 104]

/-- After a successful return to `cc1`, all times in its `struct stat` are the fixed one, and all
other memory is what the kernel left. -/
def Rewritten (h : List Event) : Event → Prop
  | .exit task .newfstatat ret => ∀ f, StatOfCc1 h task ret f →
    (∀ o ∈ timeOffsets,
      Fixed (program.memAfter h (.exit task .newfstatat ret)) f.args.arg2 o) ∧
    ∀ x, ¬ InRange x (ByteMem.off f.args.arg2 72) 48 →
      (program.memAfter h (.exit task .newfstatat ret)).byte x = task.mem.byte x
  | _ => True

/-- The kernel stores 144 bytes for a successful call, so they can be written. -/
def KernelStat (h : List Event) : Event → Prop
  | .exit task .newfstatat ret => ∀ f, StatOfCc1 h task ret f →
    task.mem.writableFor f.args.arg2 144 = true
  | _ => True

/-- The kernel's own status change time is the fixed one, and so are the other times where the
call's pointer is not on record. -/
def CtimeFixed (h : List Event) : Event → Prop
  | .exit task .newfstatat ret => ∀ f, StatOfCc1 h task ret f →
    Fixed task.mem f.args.arg2 104 ∧
      (handOff.entry h task.tid = none →
        Fixed task.mem f.args.arg2 72 ∧ Fixed task.mem f.args.arg2 88)
  | _ => True

/-- Where two kernels' structs agree but for the times, `cc1` sees the same struct. -/
def SameStat (h₁ : List Event) (e₁ : Event) (h₂ : List Event) (e₂ : Event) : Prop :=
  match e₁, e₂ with
  | .exit task₁ .newfstatat ret₁, .exit task₂ .newfstatat ret₂ =>
    ∀ f, StatOfCc1 h₁ task₁ ret₁ f →
      (∀ x, InRange x f.args.arg2 144 → ¬ InRange x (ByteMem.off f.args.arg2 72) 48 →
        task₁.mem.byte x = task₂.mem.byte x) →
      (program.memAfter h₁ (.exit task₁ .newfstatat ret₁)).load f.args.arg2 144 =
        (program.memAfter h₂ (.exit task₂ .newfstatat ret₂)).load f.args.arg2 144
  | _, _ => True

/-! ## What the handler writes -/

theorem length_fixedTime : fixedTime.length = 16 := by simp [fixedTime]

/-- The 32 bytes written are two of the three times. -/
theorem written_eq : replaceFileTimes.bytes.take 32 = fixedTime ++ fixedTime := by decide

theorem length_written : (fixedTime ++ fixedTime).length = 32 := by simp [fixedTime]

theorem memAfter_eq {h : List Event} {task : Task} {ret : Int} {f : Frame}
    (hs : StatOfCc1 h task ret f) :
    program.memAfter h (.exit task .newfstatat ret) =
      applyWrite ((handOff.entry h task.tid).map fun a => ⟨a + 72, fixedTime ++ fixedTime⟩)
        task.mem := by
  obtain ⟨-, -, hc, -⟩ := hs
  unfold Program.memAfter
  rw [handOff.write_exit_eq, if_pos ⟨List.mem_singleton.2 rfl, hc⟩, ← written_eq]
  cases handOff.entry h task.tid <;> rfl

/-- The pointer on record is the call's own, if there is one. -/
theorem entry_of_stat {h : List Event} {task : Task} {ret : Int} {f : Frame}
    (hp : Pairs h (.exit task .newfstatat ret)) (hs : StatOfCc1 h task ret f) :
    handOff.entry h task.tid = some f.args.arg2 ∨ handOff.entry h task.tid = none := by
  obtain ⟨hf, hfc, -, -⟩ := hs
  exact handOff.entry_inflight rfl hf (if_pos ⟨pairs_frame hp hf, hfc⟩)

/-- The times at 72 and 88 are written, the one at 104 is not. -/
theorem fixed_store {m : ByteMem} {a : Addr} (hw : m.writableFor a 144 = true) :
    (∀ o ∈ timeOffsets, Fixed (m.store (ByteMem.off a 72) (fixedTime ++ fixedTime)) a o) ↔
      Fixed m a 104 := by
  have hload : (m.store (ByteMem.off a 72) (fixedTime ++ fixedTime)).load (ByteMem.off a 72) 32 =
      fixedTime ++ fixedTime :=
    ByteMem.load_store length_written (by decide) (ByteMem.writableFor_off (by omega) hw)
  have h104 : ByteMem.Sep (ByteMem.off a 104) 16 (ByteMem.off a 72)
      (fixedTime ++ fixedTime).length := by
    rw [length_written]
    exact (ByteMem.sep_off a (by decide) (by decide)).symm
  rw [show (32 : Nat) = 16 + 16 from rfl, ByteMem.load_add] at hload
  obtain ⟨h72, h88⟩ := List.append_inj hload (by simp [length_fixedTime])
  have hoff : ByteMem.off (ByteMem.off a 72) 16 = ByteMem.off a 88 := by
    simp only [ByteMem.off, BitVec.add_assoc]
    rfl
  rw [hoff] at h88
  have hsame := ByteMem.load_store_of_sep (m := m) (by decide) h104
  unfold Fixed at *
  simp only [timeOffsets, List.forall_mem_cons, hsame, h72, h88, true_and]
  exact and_iff_left fun _ ho => absurd ho List.not_mem_nil

/-! ## Runs -/

theorem rewritten_iff {h : List Event} {e : Event} (hp : Pairs h e) (hk : KernelStat h e) :
    Rewritten h e ↔ CtimeFixed h e := by
  cases e with
  | enter _ _ _ => exact Iff.rfl
  | spawn _ => exact Iff.rfl
  | die _ => exact Iff.rfl
  | exit task nr ret =>
    cases nr with
    | gettimeofday | clockGettime | openat | read => exact Iff.rfl
    | newfstatat =>
      refine forall_congr' fun f => forall_congr' fun hs => ?_
      rw [memAfter_eq hs]
      rcases entry_of_stat hp hs with hentry | hentry
      · rw [hentry]
        simp only [reduceCtorEq, false_implies, and_true]
        refine (and_iff_left fun x hx => ?_).trans (fixed_store (hk f hs))
        refine ByteMem.store_frame fun hin => hx ?_
        have hin : InRange x (ByteMem.off f.args.arg2 72) (fixedTime ++ fixedTime).length := hin
        rw [length_written] at hin
        exact Nat.lt_trans hin (by decide)
      · rw [hentry]
        simp only [timeOffsets, List.forall_mem_cons, true_implies]
        refine ⟨fun ⟨⟨h72, h88, h104, _⟩, _⟩ => ⟨h104, h72, h88⟩, fun ⟨h104, h72, h88⟩ => ?_⟩
        exact ⟨⟨h72, h88, h104, fun _ ho => absurd ho List.not_mem_nil⟩, fun _ _ => rfl⟩

/-- Fixed times leave nothing of what two structs differ in. -/
theorem load_eq_of_fixed {m₁ m₂ : ByteMem} {a : Addr}
    (h₁ : ∀ o ∈ timeOffsets, Fixed m₁ a o) (h₂ : ∀ o ∈ timeOffsets, Fixed m₂ a o)
    (hother : ∀ x, InRange x a 144 → ¬ InRange x (ByteMem.off a 72) 48 → m₁.byte x = m₂.byte x) :
    m₁.load a 144 = m₂.load a 144 := by
  refine ByteMem.load_congr (by decide) fun x hx => ?_
  by_cases hin : InRange x (ByteMem.off a 72) 48
  · have hfix : ∀ o ∈ timeOffsets, InRange x (ByteMem.off a o) 16 → m₁.byte x = m₂.byte x :=
      fun o ho hxo => ByteMem.byte_eq_of_load ((h₁ o ho).trans (h₂ o ho).symm) hxo
    have hcases : ∃ o ∈ timeOffsets, InRange x (ByteMem.off a o) 16 := by
      rw [ByteMem.inRange_off (by decide)] at hin
      simp only [timeOffsets, List.exists_mem_cons_iff]
      rw [ByteMem.inRange_off (by decide), ByteMem.inRange_off (by decide),
        ByteMem.inRange_off (by decide)]
      omega
    obtain ⟨o, ho, hxo⟩ := hcases
    exact hfix o ho hxo
  · exact hother x hx hin

theorem sameStat {h₁ h₂ : List Event} {e₁ e₂ : Event} (he : SameCall e₁ e₂)
    (hh : List.Forall₂ SameCall h₁ h₂) (hr₁ : Rewritten h₁ e₁) (hr₂ : Rewritten h₂ e₂) :
    SameStat h₁ e₁ h₂ e₂ := by
  unfold SameStat
  split
  · rename_i task₁ ret₁ task₂ ret₂
    obtain ⟨⟨htid, hcomm⟩, -, hret⟩ := he
    intro f hs hker
    obtain ⟨f₂, hf₂, ⟨-, hc⟩, -, hargs⟩ := inflight_same_some hh hs.1
    have hs₂ : StatOfCc1 h₂ task₂ ret₂ f₂ :=
      ⟨htid ▸ hf₂, hc ▸ hs.2.1, hcomm ▸ hs.2.2.1, hret ▸ hs.2.2.2⟩
    have hr₂ := hr₂ f₂ hs₂
    rw [← hargs] at hr₂
    have hr₁ := hr₁ f hs
    refine load_eq_of_fixed hr₁.1 hr₂.1 fun x hx hout => ?_
    rw [hr₁.2 x hout, hr₂.2 x hout]
    exact hker x hx hout
  · trivial

/-- **File timestamps**: in every run, `cc1` finds all three times of every `struct stat` fixed,
and nothing else changed, exactly if the kernel's status change times are the fixed one already.
Then any run with the same calls that meets the condition too shows it the same structs for files
that differ in their timestamps only. -/
theorem timestamps_iff {h : List Event} (hp : EachStep Pairs h) (hk : EachStep KernelStat h) :
    (EachStep Rewritten h ↔ EachStep CtimeFixed h) ∧
    ∀ h', List.Forall₂ SameCall h h' → EachStep Pairs h' → EachStep KernelStat h' →
      EachStep CtimeFixed h → EachStep CtimeFixed h' → EachStep₂ SameStat h h' := by
  have hiff : ∀ {h}, EachStep Pairs h → EachStep KernelStat h →
      (EachStep Rewritten h ↔ EachStep CtimeFixed h) :=
    fun hp hk => (hp.and hk).congr fun _ _ hs => rewritten_iff hs.1 hs.2
  refine ⟨hiff hp hk, fun h' hs hp' hk' hc hc' => ?_⟩
  refine eachStep₂_of hs ((hiff hp hk).2 hc) ((hiff hp' hk').2 hc') ?_
  exact fun he hh => sameStat he hh

/-- A `struct stat` at 0x2000 with `t` for the access and the modification time and `c` for the
status change time. -/
def statMem (t c : BitVec 64) : ByteMem :=
  { (cc1Task 1).mem with byte := fun x =>
      (le64 t ++ le64 0 ++ le64 t ++ le64 0 ++ le64 c ++ le64 0).getD (x - 0x2048).toNat 0 }

/-- `cc1` asks for the status of a file with these times. -/
def timesRun (t c : BitVec 64) : List Event :=
  [.exit { cc1Task 1 with mem := statMem t c } .newfstatat 0,
   .enter (cc1Task 1) .newfstatat ⟨3, 0x1000, 0x2000, 0, 0, 0⟩]

theorem pairs_timesRun (t c : BitVec 64) : EachStep Pairs (timesRun t c) := ⟨rfl, rfl, trivial⟩

theorem kernelStat_timesRun (t c : BitVec 64) : EachStep KernelStat (timesRun t c) :=
  ⟨fun f _ => by simp [ByteMem.writableFor, statMem, cc1Task], trivial, trivial⟩

theorem ctimeFixed_timesRun (t : BitVec 64)
    (hc : Fixed (statMem t modifiedFileTimestamp) 0x2000 104) :
    EachStep CtimeFixed (timesRun t modifiedFileTimestamp) := by
  refine ⟨fun f hs => ?_, trivial, trivial⟩
  cases hs.1
  have hentry : handOff.entry (timesRun 0 0).tail 1 = some 0x2000 := by decide
  exact ⟨hc, fun hnone => by cases hentry.symm.trans hnone⟩

/-- Files that were read and written at different times, with one status change time. -/
theorem timestamps_iff_timesRun :
    EachStep Rewritten (timesRun 5 modifiedFileTimestamp) ∧
      EachStep₂ SameStat (timesRun 5 modifiedFileTimestamp) (timesRun 7 modifiedFileTimestamp) := by
  have h := timestamps_iff (pairs_timesRun 5 modifiedFileTimestamp) (kernelStat_timesRun 5 _)
  have hc₅ := ctimeFixed_timesRun 5 (by decide)
  refine ⟨h.1.2 hc₅, h.2 _ ?_ (pairs_timesRun 7 _) (kernelStat_timesRun 7 _) hc₅ ?_⟩
  · exact .cons ⟨⟨rfl, rfl⟩, rfl, rfl⟩ (.cons ⟨⟨rfl, rfl⟩, rfl, rfl⟩ .nil)
  · exact ctimeFixed_timesRun 7 (by decide)

/-- The status change time is what the kernel stored. -/
theorem ctime_timesRun :
    Alternating (timesRun 5 5) ∧ Uncrowded [.newfstatat] (timesRun 5 5) ∧
      EachStep KernelStat (timesRun 5 5) ∧ ¬ EachStep Rewritten (timesRun 5 5) := by
  refine ⟨by decide, by decide, kernelStat_timesRun 5 5, fun hr => ?_⟩
  have hc := (rewritten_iff (pairs_timesRun 5 5).1 (kernelStat_timesRun 5 5).1).1 hr.1
    ⟨cc1Task 1, .newfstatat, ⟨3, 0x1000, 0x2000, 0, 0, 0⟩⟩
    ⟨rfl, by decide, by decide, rfl⟩
  exact absurd hc.1 (by decide)

end Bpf.ModifyFileTimestamp
