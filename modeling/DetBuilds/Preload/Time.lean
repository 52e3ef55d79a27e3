import DetBuilds.Bpf.Common

/-!
# `modify_time.c` and `modify_f4ke.c`

The functions that the preload libraries put in the place of the C library's: `time`, and its
substitutes under the names that a patched compiler calls. They store through their pointer
arguments in user memory, where a store that reaches a byte that cannot be written faults.
-/

set_option autoImplicit false

namespace Preload

open Bpf

/-- What a call leaves: its return value and memory, or nothing if it faults. -/
abbrev Outcome := Option (BitVec 64 × ByteMem)

/-- `*a = bs`. -/
def assign (m : ByteMem) (a : Addr) (bs : List Byte) : Option ByteMem :=
  if m.writableFor a bs.length then some (m.store a bs) else none

/-- `time` of `modify_time.c`. -/
def time (t : Addr) (m : ByteMem) : Outcome :=
  if t ≠ 0 then
    (assign m t (le64 modifiedCurrentTimestamp)).map fun m => (modifiedCurrentTimestamp, m)
  else some (modifiedCurrentTimestamp, m)

/-- `f4ke` stands for `time`. -/
def f4ke (t : Addr) (m : ByteMem) : Outcome :=
  if t ≠ 0 then (assign m t (le64 modifiedCurrentTimestamp)).map fun m => (0, m)
  else some (0, m)

/-- `clock_getf4ke` stands for `clock_gettime`. -/
def clockGetf4ke (_clockId : BitVec 64) (res : Addr) (m : ByteMem) : Outcome :=
  (assign m res (le64 modifiedCurrentTimestamp)).bind fun m =>
    (assign m (res + 8) (le64 0)).map fun m => (0, m)

/-- `getf4keofday` stands for `gettimeofday`. -/
def getf4keofday (tv _tz : Addr) (m : ByteMem) : Outcome :=
  (assign m tv (le64 modifiedCurrentTimestamp)).bind fun m =>
    (assign m (tv + 8) (le64 0)).map fun m => (0, m)

/-- A call of one of the functions. -/
inductive Call where
  | time (t : Addr)
  | f4ke (t : Addr)
  | clockGetf4ke (clockId : BitVec 64) (res : Addr)
  | getf4keofday (tv tz : Addr)

namespace Call

def run : Call → ByteMem → Outcome
  | .time t => Preload.time t
  | .f4ke t => Preload.f4ke t
  | .clockGetf4ke clockId res => Preload.clockGetf4ke clockId res
  | .getf4keofday tv tz => Preload.getf4keofday tv tz

/-- Where the time is stored. -/
def timeP : Call → Addr
  | .time t => t
  | .f4ke t => t
  | .clockGetf4ke _ res => res
  | .getf4keofday tv _ => tv

/-- The return value is the time in seconds. -/
def returnsTime : Call → Bool
  | .time _ => true
  | .f4ke _ => true
  | .clockGetf4ke _ _ => false
  | .getf4keofday _ _ => false

/-- The length of what is stored: seconds, and for those calls that do not return them a part of
a second. -/
def size (call : Call) : Nat := if call.returnsTime then 8 else 16

/-- The real function admits the arguments: its pointers are to memory that can be written, or
null, but not that of `clock_gettime`. Nothing is mapped at the null pointer. -/
def Admitted (call : Call) (m : ByteMem) : Prop :=
  m.writable 0 = false ∧ (call.timeP ≠ 0 → m.writableFor call.timeP call.size = true) ∧
    match call with
    | .time _ => True
    | .f4ke _ => True
    | .clockGetf4ke _ res => res ≠ 0
    | .getf4keofday _ tz => tz ≠ 0 → m.writableFor tz 8 = true

end Call

/-! ## What the functions leave -/

variable {m : ByteMem} {a : Addr}

theorem assign_eq {bs : List Byte} (hw : m.writableFor a bs.length = true) :
    assign m a bs = some (m.store a bs) := if_pos hw

/-- The two members of a `struct timeval` or `timespec` are assigned one after the other. -/
theorem assign_pair {bs cs : List Byte} (hb : bs.length = 8) (hc : cs.length = 8)
    (hw : m.writableFor a 16 = true) :
    ((assign m a bs).bind fun m => (assign m (a + 8) cs).map fun m => ((0 : BitVec 64), m)) =
      some (0, m.store a (bs ++ cs)) := by
  have hlow : m.writableFor a bs.length = true := by
    rw [hb]
    have := ByteMem.writableFor_off (n := 0) (k := 8) (by omega) hw
    rwa [show ByteMem.off a 0 = a from BitVec.add_zero a] at this
  have hhigh : m.writableFor (a + 8) cs.length = true := by
    rw [hc]
    exact ByteMem.writableFor_off (n := 8) (by omega) hw
  have happ : m.store a (bs ++ cs) = (m.store a bs).store (a + 8) cs := by
    rw [ByteMem.store_append (by omega) hlow, hb]
    rfl
  rw [assign_eq hlow]
  simp only [Option.bind_some]
  rw [assign_eq (show (m.store a bs).writableFor (a + 8) cs.length = true from hhigh), happ]
  rfl

theorem time_eq (hw : a ≠ 0 → m.writableFor a 8 = true) :
    time a m = some (modifiedCurrentTimestamp,
      if a ≠ 0 then m.store a (le64 modifiedCurrentTimestamp) else m) := by
  unfold time
  split
  · rename_i h0
    rw [assign_eq (by rw [length_le64]; exact hw h0)]
    rfl
  · rfl

/-- `f4ke` does the same but for the return value. -/
theorem f4ke_eq (hw : a ≠ 0 → m.writableFor a 8 = true) :
    f4ke a m = some (0, if a ≠ 0 then m.store a (le64 modifiedCurrentTimestamp) else m) := by
  unfold f4ke
  split
  · rename_i h0
    rw [assign_eq (by rw [length_le64]; exact hw h0)]
    rfl
  · rfl

theorem clockGetf4ke_eq (clockId : BitVec 64) (hw : m.writableFor a 16 = true) :
    clockGetf4ke clockId a m = some (0, m.store a (le64 modifiedCurrentTimestamp ++ le64 0)) :=
  assign_pair (length_le64 _) (length_le64 _) hw

theorem getf4keofday_eq (tz : Addr) (hw : m.writableFor a 16 = true) :
    getf4keofday a tz m = some (0, m.store a (le64 modifiedCurrentTimestamp ++ le64 0)) :=
  assign_pair (length_le64 _) (length_le64 _) hw

/-- Without a place for the time, `getf4keofday` faults. -/
theorem getf4keofday_null (tz : Addr) (h0 : m.writable 0 = false) : getf4keofday 0 tz m = none := by
  have hno : ¬ m.writableFor 0 (le64 modifiedCurrentTimestamp).length = true := by
    intro hw
    rw [length_le64] at hw
    have hz := List.all_eq_true.1 hw 0 (by decide)
    rw [h0] at hz
    cases hz
  unfold getf4keofday assign
  rw [if_neg hno]
  rfl

end Preload
