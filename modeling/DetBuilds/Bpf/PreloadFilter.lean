import DetBuilds.Bpf.Common

/-!
# `preload_filter.bpf.c`

For every comm but `cc1`: entering an `openat` of `/etc/ld.so.preload` marks the thread in `tids`,
and the next completed `newfstatat` of a marked thread reports the size 0 and takes the mark away.
`stat_ps` carries the pointer argument from the enter to the exit handler.
-/

set_option autoImplicit false

namespace Bpf.PreloadFilter

structure Maps where
  tids : TidMap (BitVec 8)
  statPs : TidMap Addr

/-- The entries of one thread. -/
structure Entries where
  tid : Option (BitVec 8)
  statP : Option Addr

def preloadName : List Byte :=
  ascii ['/', 'e', 't', 'c', '/', 'l', 'd', '.', 's', 'o', '.', 'p', 'r', 'e', 'l', 'o', 'a', 'd',
    '\x00']

/-- The test of the path window in `handle_enter_openat`. -/
def isPreload (filename : List Byte) : Bool :=
  memcmp preloadName filename 4 == 0 &&
  memcmp (preloadName.drop 4) (filename.drop 4) 4 == 0 &&
  memcmp (preloadName.drop 8) (filename.drop 8) 4 == 0 &&
  memcmp (preloadName.drop 12) (filename.drop 12) 4 == 0 &&
  memcmp (preloadName.drop 16) (filename.drop 16) 2 == 0

def handleEnterOpenat (task : Task) (args : Args) (maps : Maps) : Effect Maps :=
  if commFilter task.comm then (maps, none)
  else
    let filenameP := args.arg1
    let filename := bpfProbeReadUser task.mem filenameP 20
    if !isPreload filename then (maps, none)
    else ({ maps with tids := maps.tids.update task.tid 0 .any }, none)

def handleEnterNewfstatat (task : Task) (args : Args) (maps : Maps) : Effect Maps :=
  if commFilter task.comm then (maps, none)
  else
    match maps.tids.lookup task.tid with
    | none => (maps, none)
    | some _ =>
      let statP := args.arg2
      ({ maps with statPs := maps.statPs.update task.tid statP .any }, none)

def handleExitNewfstatat (task : Task) (_ret : Int) (maps : Maps) : Effect Maps :=
  if commFilter task.comm then (maps, none)
  else
    match maps.tids.lookup task.tid with
    | none => (maps, none)
    | some _ =>
      let maps := { maps with tids := maps.tids.delete task.tid }
      match maps.statPs.lookup task.tid with
      | none => (maps, none)
      | some statP =>
        ({ maps with statPs := maps.statPs.delete task.tid },
          some { addr := statP + 48, bytes := le64 0 })

def program : Program Maps Entries where
  empty := { tids := .empty, statPs := .empty }
  handlers := [
    .sysEnter .openat handleEnterOpenat,
    .sysEnter .newfstatat handleEnterNewfstatat,
    .sysExit .newfstatat handleExitNewfstatat]
  views maps := [mapView maps.tids, mapView maps.statPs]
  entries maps t := ⟨maps.tids.lookup t, maps.statPs.lookup t⟩

/-! ## What a step does -/

/-- An `openat` that marks its thread: not by `cc1`, of a path window that passes the test. -/
def Marks (task : Task) (nr : Nr) (args : Args) : Prop :=
  nr = .openat ∧ commFilter task.comm = false ∧
    isPreload (bpfProbeReadUser task.mem args.arg1 20) = true

instance (task : Task) (nr : Nr) (args : Args) : Decidable (Marks task nr args) :=
  inferInstanceAs (Decidable (_ ∧ _))

theorem step_enter (task : Task) (nr : Nr) (args : Args) (s : Maps) :
    program.step (.enter task nr args) s =
      ({ tids := if Marks task nr args then s.tids.update task.tid 0 .any else s.tids
         statPs :=
          if nr = .newfstatat ∧ commFilter task.comm = false ∧ (s.tids.lookup task.tid).isSome then
            s.statPs.update task.tid args.arg2 .any
          else s.statPs }, none) := by
  cases nr with
  | openat =>
    show handleEnterOpenat task args s = _
    unfold handleEnterOpenat Marks
    by_cases hw : isPreload (bpfProbeReadUser task.mem args.arg1 20) = true <;>
      by_cases hc : commFilter task.comm = true <;> simp [hw, hc]
  | newfstatat =>
    show handleEnterNewfstatat task args s = _
    unfold handleEnterNewfstatat Marks
    rcases Option.eq_none_or_eq_some (s.tids.lookup task.tid) with hl | ⟨v, hl⟩ <;>
      by_cases hc : commFilter task.comm = true <;> simp [hl, hc]
  | gettimeofday | clockGettime | read => simp [Marks]; rfl

/-- A `newfstatat` returns: the mark goes, and what was recorded is taken out and rewritten. -/
theorem step_exit_newfstatat (task : Task) (ret : Int) (s : Maps) :
    program.step (.exit task .newfstatat ret) s =
      if commFilter task.comm = false ∧ (s.tids.lookup task.tid).isSome then
        match s.statPs.lookup task.tid with
        | none => ({ s with tids := s.tids.delete task.tid }, none)
        | some statP =>
          ({ s with tids := s.tids.delete task.tid, statPs := s.statPs.delete task.tid },
            some ⟨statP + 48, le64 0⟩)
      else (s, none) := by
  show handleExitNewfstatat task ret s = _
  unfold handleExitNewfstatat
  cases commFilter task.comm <;> cases s.tids.lookup task.tid <;>
    cases hp : s.statPs.lookup task.tid <;> simp [hp]

theorem step_exit_other (task : Task) {nr : Nr} (ret : Int) (s : Maps) (h : nr ≠ .newfstatat) :
    program.step (.exit task nr ret) s = (s, none) := by
  cases nr with
  | newfstatat => exact absurd rfl h
  | gettimeofday | clockGettime | openat | read => rfl

/-- A shell with the path of the preload file at 0x1000. -/
def preloadTask (t : Tid) : Task :=
  { tid := t
    comm := #v[0x73, 0x68, 0, 0, 0, 0, 0, 0, 0, 0, 0, 0, 0, 0, 0, 0]
    mem := { (cc1Task t).mem with byte := fun x => preloadName.getD (x - 0x1000).toNat 0 } }

end Bpf.PreloadFilter
