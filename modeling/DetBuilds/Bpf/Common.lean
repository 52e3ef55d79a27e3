import DetBuilds.Bpf.Kernel

/-!
# `common.bpf.h` and `time_config.h`
-/

set_option autoImplicit false

namespace Bpf

def modifiedCurrentTimestamp : BitVec 64 := 1659312000

def modifiedFileTimestamp : BitVec 64 := 1659312000

/-- The comm is `cc1`, terminator included. -/
def commFilter (comm : Comm) : Bool :=
  memcmp (ascii ['c', 'c', '1', '\x00']) comm.toList 4 == 0

/-- The comm of the compiler proper. -/
def cc1 : Comm := #v[0x63, 0x63, 0x31, 0, 0, 0, 0, 0, 0, 0, 0, 0, 0, 0, 0, 0]

example : commFilter cc1 = true := by decide

/-- The compiler in thread `t`, with zeros for memory, all of it accessible. -/
def cc1Task (t : Tid) : Task :=
  { tid := t
    comm := cc1
    mem := { byte := fun _ => 0, readable := fun _ => true, writable := fun _ => true } }

/-- Accessible memory with these bytes at 0x1000. -/
def pathMem (bytes : List Byte) : ByteMem :=
  { (cc1Task 0).mem with byte := fun x => bytes.getD (x - 0x1000).toNat 0 }

theorem readableFor_pathMem (bytes : List Byte) (a : Addr) (n : Nat) :
    (pathMem bytes).readableFor a n = true := by
  simp [ByteMem.readableFor, pathMem, cc1Task]

end Bpf
