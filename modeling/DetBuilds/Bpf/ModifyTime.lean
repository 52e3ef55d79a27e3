import DetBuilds.Bpf.Common

/-!
# `modify_time.bpf.c`

`gettimeofday` and `clock_gettime` share `time_p_map`: the enter handlers record the address the
time goes to, the exit handlers take it out again and overwrite what the kernel stored there.
-/

set_option autoImplicit false

namespace Bpf.ModifyTime

structure Maps where
  timePMap : TidMap Addr

structure KernelOldTimeval where
  tvSec : BitVec 64
  tvUsec : BitVec 64

def KernelOldTimeval.bytes (t : KernelOldTimeval) : List Byte := le64 t.tvSec ++ le64 t.tvUsec

structure Timespec64 where
  tvSec : BitVec 64
  tvNsec : BitVec 64

def Timespec64.bytes (t : Timespec64) : List Byte := le64 t.tvSec ++ le64 t.tvNsec

/-- Both enter handlers, up to the argument that holds the pointer. -/
def enterTime (timeP : Addr) (task : Task) (maps : Maps) : Effect Maps :=
  if !commFilter task.comm then (maps, none)
  else if timeP = 0 then (maps, none)
  else ({ maps with timePMap := maps.timePMap.update task.tid timeP .noexist }, none)

/-- Both exit handlers, up to the struct they store. -/
def exitTime (replaceTime : List Byte) (task : Task) (maps : Maps) : Effect Maps :=
  if !commFilter task.comm then (maps, none)
  else
    match maps.timePMap.lookup task.tid with
    | none => (maps, none)
    | some timeP =>
      ({ maps with timePMap := maps.timePMap.delete task.tid },
        some { addr := timeP, bytes := replaceTime })

def handleEnterGettimeofday (task : Task) (args : Args) (maps : Maps) : Effect Maps :=
  enterTime args.arg0 task maps

def handleExitGettimeofday (task : Task) (_ret : Int) (maps : Maps) : Effect Maps :=
  exitTime (KernelOldTimeval.bytes { tvSec := modifiedCurrentTimestamp, tvUsec := 0 }) task maps

def handleEnterClockGettime (task : Task) (args : Args) (maps : Maps) : Effect Maps :=
  enterTime args.arg1 task maps

def handleExitClockGettime (task : Task) (_ret : Int) (maps : Maps) : Effect Maps :=
  exitTime (Timespec64.bytes { tvSec := modifiedCurrentTimestamp, tvNsec := 0 }) task maps

def program : Program Maps (Option Addr) where
  empty := { timePMap := .empty }
  handlers := [
    .sysEnter .gettimeofday handleEnterGettimeofday,
    .sysExit .gettimeofday handleExitGettimeofday,
    .sysEnter .clockGettime handleEnterClockGettime,
    .sysExit .clockGettime handleExitClockGettime]
  views maps := [mapView maps.timePMap]
  entries maps t := maps.timePMap.lookup t

/-! ## What a step does -/

/-- The calls with handlers. -/
def calls : List Nr := [.gettimeofday, .clockGettime]

/-- The pointer argument the time goes to. -/
def timeArg : Nr → Args → Addr
  | .clockGettime, args => args.arg1
  | _, args => args.arg0

/-- What a call leaves in the map: its pointer, for `cc1` and if there is one. -/
def pending (comm : Comm) (nr : Nr) (args : Args) : Option Addr :=
  if nr ∈ calls ∧ commFilter comm = true ∧ timeArg nr args ≠ 0 then some (timeArg nr args) else none

theorem pending_eq_some {comm : Comm} {nr : Nr} {args : Args} {a : Addr} :
    pending comm nr args = some a ↔
      (nr ∈ calls ∧ commFilter comm = true ∧ timeArg nr args ≠ 0) ∧ timeArg nr args = a := by
  rw [pending, Option.ite_none_right_eq_some, Option.some.injEq]

/-- The sixteen bytes both exit handlers store. -/
def clockBytes : List Byte := le64 modifiedCurrentTimestamp ++ le64 0

theorem step_enter (task : Task) (nr : Nr) (args : Args) (s : Maps) :
    program.step (.enter task nr args) s =
      match pending task.comm nr args with
      | none => (s, none)
      | some timeP => ({ s with timePMap := s.timePMap.update task.tid timeP .noexist }, none) := by
  have key : ∀ timeP : Addr, enterTime timeP task s =
      match (if commFilter task.comm = true ∧ timeP ≠ 0 then some timeP else none) with
      | none => (s, none)
      | some timeP => ({ s with timePMap := s.timePMap.update task.tid timeP .noexist }, none) := by
    intro timeP
    unfold enterTime
    cases commFilter task.comm <;> by_cases h0 : timeP = 0#64 <;> simp [h0]
  cases nr with
  | gettimeofday =>
    show enterTime args.arg0 task s = _
    simpa [pending, calls, timeArg] using key args.arg0
  | clockGettime =>
    show enterTime args.arg1 task s = _
    simpa [pending, calls, timeArg] using key args.arg1
  | openat | newfstatat | read => rfl

theorem step_exit (task : Task) (nr : Nr) (ret : Int) (s : Maps) :
    program.step (.exit task nr ret) s =
      if nr ∈ calls ∧ commFilter task.comm = true then
        match s.timePMap.lookup task.tid with
        | none => (s, none)
        | some timeP =>
          ({ s with timePMap := s.timePMap.delete task.tid }, some ⟨timeP, clockBytes⟩)
      else (s, none) := by
  have key : exitTime clockBytes task s =
      if commFilter task.comm = true then
        match s.timePMap.lookup task.tid with
        | none => (s, none)
        | some timeP =>
          ({ s with timePMap := s.timePMap.delete task.tid }, some ⟨timeP, clockBytes⟩)
      else (s, none) := by
    unfold exitTime
    cases commFilter task.comm <;> simp
  cases nr with
  | gettimeofday =>
    show exitTime clockBytes task s = _
    simpa [calls] using key
  | clockGettime =>
    show exitTime clockBytes task s = _
    simpa [calls] using key
  | openat | newfstatat | read => rfl

end Bpf.ModifyTime
