import DetBuilds.Bpf.Common
import DetBuilds.Bpf.Threads

/-!
# Descriptors

Which open file a call is about (`target`), and which descriptors a thread has from opening a given
file, each with how far it has read the file through it (`opened`). The kernel takes descriptors and
flags from the low 32 bits of their arguments; a `newfstatat` is about a descriptor if its path is
empty and its flags say so. That a descriptor is closed is not seen: it is known to have been, once
another `openat` of the thread returns the same number.
-/

set_option autoImplicit false

namespace Bpf

/-- A descriptor argument. -/
def fdArg (x : BitVec 64) : Int := (x.truncate 32).toInt

/-- `AT_EMPTY_PATH`. -/
def atEmptyPath : BitVec 64 := 0x1000

/-- The descriptor whose file a call reads or reports on. -/
def target (f : Frame) : Option Int :=
  match f.nr with
  | .read => some (fdArg f.args.arg0)
  | .newfstatat =>
    if f.task.mem.byte f.args.arg1 = 0 ∧ f.args.arg3 &&& atEmptyPath ≠ 0 then some (fdArg f.args.arg0)
    else none
  | _ => none

/-- The call is an `openat` of exactly `path`, terminator included. -/
def Frame.Opens (f : Frame) (path : List Byte) : Prop :=
  f.nr = .openat ∧ f.task.mem.load f.args.arg1 path.length = path

instance (f : Frame) (path : List Byte) : Decidable (f.Opens path) :=
  inferInstanceAs (Decidable (_ ∧ _))

/-- The call is such an `openat`, by a thread under `cc1`. -/
def Frame.OpensAsCc1 (f : Frame) (path : List Byte) : Prop :=
  commFilter f.task.comm = true ∧ f.Opens path

instance (f : Frame) (path : List Byte) : Decidable (f.OpensAsCc1 path) :=
  inferInstanceAs (Decidable (_ ∧ _))

section
variable (Opens : Frame → Prop) [DecidablePred Opens]

/-- What a return does to a descriptor, of which `offset` tells how far the file has been read, if
it is open there. An `openat` that returns the number opens the file, or another one in its place;
a `read` moves on by what it returns. -/
def Frame.advance (f : Frame) (ret fd : Int) (offset : Option Nat) : Option Nat :=
  match f.nr with
  | .openat =>
    if 0 ≤ ret ∧ ret = fd then
      if Opens f then some 0 else none
    else offset
  | .read => if fdArg f.args.arg0 = fd then offset.map (· + ret.toNat) else offset
  | _ => offset

/-- How far the thread now called `t` has read the file through a descriptor, if it has the file
open there: the latest `openat` of the thread to return this number was one that `Opens` it. -/
def opened : List Event → Tid → Int → Option Nat
  | [], _, _ => none
  | .exit task _ ret :: h, t, fd =>
    if task.tid = t then
      (inflight h t).elim (opened h t fd) fun f => f.advance Opens ret fd (opened h t fd)
    else opened h t fd
  | .spawn u :: h, t, fd => if u = t then none else opened h t fd
  | .die u :: h, t, fd => if u = t then none else opened h t fd
  | .enter _ _ _ :: h, t, fd => opened h t fd

end

/-- The call is about a descriptor at which its thread has the file at `path` open. -/
def TargetsOpened (path : List Byte) (h : List Event) (f : Frame) : Prop :=
  ∃ d ∈ target f, (opened (·.Opens path) h f.task.tid d).isSome

instance (path : List Byte) (h : List Event) (f : Frame) : Decidable (TargetsOpened path h f) :=
  inferInstanceAs (Decidable (∃ d ∈ target f, _))

/-- The call that the thread now called `t` reads the file at `path` with, and the offset it reads
from, if it is in a `read` of a descriptor at which it has opened the file as `cc1`. -/
def draining (path : List Byte) (h : List Event) (t : Tid) : Option (Frame × Nat) :=
  (inflight h t).bind fun f =>
    if f.nr = .read then
      (opened (·.OpensAsCc1 path) h t (fdArg f.args.arg0)).map fun offset => (f, offset)
    else none

end Bpf
