import DetBuilds.Bpf.Common

/-!
# `modify_file_timestamp.bpf.c`

The enter handler of `newfstatat` records the address of the `struct stat`, the exit handler takes
it out again and overwrites the timestamps in it.
-/

set_option autoImplicit false

namespace Bpf.ModifyFileTimestamp

structure Maps where
  statPs : TidMap Addr

structure FileTimes where
  stAtime : BitVec 64
  stAtimeNsec : BitVec 64
  stMtime : BitVec 64
  stMtimeNsec : BitVec 64
  stCtime : BitVec 64
  stCtimeNsec : BitVec 64

def FileTimes.bytes (t : FileTimes) : List Byte :=
  le64 t.stAtime ++ le64 t.stAtimeNsec ++ le64 t.stMtime ++ le64 t.stMtimeNsec ++
    le64 t.stCtime ++ le64 t.stCtimeNsec

def replaceFileTimes : FileTimes where
  stAtime := modifiedFileTimestamp
  stAtimeNsec := 0
  stMtime := modifiedFileTimestamp
  stMtimeNsec := 0
  stCtime := modifiedFileTimestamp
  stCtimeNsec := 0

def handleEnterNewfstatat (task : Task) (args : Args) (maps : Maps) : Effect Maps :=
  if !commFilter task.comm then (maps, none)
  else
    let statP := args.arg2
    ({ maps with statPs := maps.statPs.update task.tid statP .any }, none)

def handleExitNewfstatat (task : Task) (_ret : Int) (maps : Maps) : Effect Maps :=
  if !commFilter task.comm then (maps, none)
  else
    match maps.statPs.lookup task.tid with
    | none => (maps, none)
    | some statP =>
      -- the length written is 32, of the 48 bytes of the struct
      ({ maps with statPs := maps.statPs.delete task.tid },
        some { addr := statP + 72, bytes := replaceFileTimes.bytes.take 32 })

def program : Program Maps (Option Addr) where
  empty := { statPs := .empty }
  handlers := [
    .sysEnter .newfstatat handleEnterNewfstatat,
    .sysExit .newfstatat handleExitNewfstatat]
  views maps := [mapView maps.statPs]
  entries maps t := maps.statPs.lookup t

/-! ## What a step does -/

/-- What a call leaves in the map: its `struct stat` pointer, for `cc1`. -/
def pending (comm : Comm) (nr : Nr) (args : Args) : Option Addr :=
  if nr = .newfstatat ∧ commFilter comm = true then some args.arg2 else none

theorem pending_eq_some {comm : Comm} {nr : Nr} {args : Args} {a : Addr} :
    pending comm nr args = some a ↔ (nr = .newfstatat ∧ commFilter comm = true) ∧ args.arg2 = a := by
  rw [pending, Option.ite_none_right_eq_some, Option.some.injEq]

theorem step_enter (task : Task) (nr : Nr) (args : Args) (s : Maps) :
    program.step (.enter task nr args) s =
      match pending task.comm nr args with
      | none => (s, none)
      | some statP => ({ s with statPs := s.statPs.update task.tid statP .any }, none) := by
  cases nr with
  | newfstatat =>
    show handleEnterNewfstatat task args s = _
    unfold handleEnterNewfstatat pending
    cases commFilter task.comm <;> simp
  | gettimeofday | clockGettime | openat | read => rfl

theorem step_exit (task : Task) (nr : Nr) (ret : Int) (s : Maps) :
    program.step (.exit task nr ret) s =
      if nr = .newfstatat ∧ commFilter task.comm = true then
        match s.statPs.lookup task.tid with
        | none => (s, none)
        | some statP =>
          ({ s with statPs := s.statPs.delete task.tid },
            some ⟨statP + 72, replaceFileTimes.bytes.take 32⟩)
      else (s, none) := by
  cases nr with
  | newfstatat =>
    show handleExitNewfstatat task ret s = _
    unfold handleExitNewfstatat
    cases commFilter task.comm <;> simp
  | gettimeofday | clockGettime | openat | read => rfl

end Bpf.ModifyFileTimestamp
