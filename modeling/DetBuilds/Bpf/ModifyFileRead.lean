import DetBuilds.Bpf.Common

/-!
# `modify_file_read.bpf.c`

Entering an `openat` of `/etc/localtime` marks the thread in `tids`. While it is marked, its
`newfstatat` calls report the size 0x72, and the buffer of its next completed `read` gets the
first 0x72 bytes of `localtime_content`, which takes the mark away. `stat_ps` and `content_ps`
carry the pointer arguments from the enter to the exit handlers.
-/

set_option autoImplicit false

namespace Bpf.ModifyFileRead

structure Maps where
  tids : TidMap (BitVec 8)
  statPs : TidMap Addr
  contentPs : TidMap Addr

/-- The entries of one thread. -/
structure Entries where
  tid : Option (BitVec 8)
  statP : Option Addr
  contentP : Option Addr

def localtimeName : List Byte :=
  ascii ['/', 'e', 't', 'c', '/', 'l', 'o', 'c', 'a', 'l', 't', 'i', 'm', 'e', '\x00']

def zeros (n : Nat) : List Byte := List.replicate n 0

/-- The blanks that begin each further line of the literal: a line splice inside a string literal
keeps them. -/
def indent : List Byte := List.replicate 28 0x20

def localtimeContent : List Byte :=
  ascii ['T', 'Z', 'i', 'f', '2'] ++ zeros 11 ++
  indent ++ zeros 16 ++
  indent ++ zeros 16 ++
  indent ++ zeros 2 ++ ascii ['U', 'T', 'C'] ++ zeros 1 ++ ascii ['T', 'Z', 'i', 'f', '2'] ++
    zeros 5 ++
  indent ++ zeros 16 ++
  indent ++ zeros 13 ++ [0x01] ++ zeros 2 ++
  indent ++ zeros 1 ++ [0x04] ++ zeros 6 ++ ascii ['U', 'T', 'C'] ++ zeros 1 ++ [0x0a] ++
    ascii ['U', 'T', 'C'] ++
  indent ++ ascii ['0', '.'] ++ zeros 1

def localtimeSize : Nat := 0x72

/-- The test of the path window in `handle_enter_openat`. -/
def isLocaltime (filename : List Byte) : Bool :=
  memcmp localtimeName filename 4 == 0 &&
  memcmp (localtimeName.drop 4) (filename.drop 4) 4 == 0 &&
  memcmp (localtimeName.drop 8) (filename.drop 8) 4 == 0 &&
  (localtimeName.getD 12 0 == filename.getD 12 0 &&
    localtimeName.getD 13 0 == filename.getD 13 0 &&
    localtimeName.getD 14 0 == filename.getD 14 0)

def handleEnterOpenat (task : Task) (args : Args) (maps : Maps) : Effect Maps :=
  if !commFilter task.comm then (maps, none)
  else
    let filenameP := args.arg1
    let filename := bpfProbeReadUser task.mem filenameP 20
    if !isLocaltime filename then (maps, none)
    else ({ maps with tids := maps.tids.update task.tid 0 .any }, none)

def handleEnterNewfstatat (task : Task) (args : Args) (maps : Maps) : Effect Maps :=
  if !commFilter task.comm then (maps, none)
  else
    match maps.tids.lookup task.tid with
    | none => (maps, none)
    | some _ =>
      let statP := args.arg2
      ({ maps with statPs := maps.statPs.update task.tid statP .any }, none)

def handleExitNewfstatat (task : Task) (_ret : Int) (maps : Maps) : Effect Maps :=
  if !commFilter task.comm then (maps, none)
  else
    match maps.tids.lookup task.tid with
    | none => (maps, none)
    | some _ =>
      match maps.statPs.lookup task.tid with
      | none => (maps, none)
      | some statP =>
        ({ maps with statPs := maps.statPs.delete task.tid },
          some { addr := statP + 48, bytes := le64 (BitVec.ofNat 64 localtimeSize) })

def handleEnterRead (task : Task) (args : Args) (maps : Maps) : Effect Maps :=
  if !commFilter task.comm then (maps, none)
  else
    let contentP := args.arg1
    ({ maps with contentPs := maps.contentPs.update task.tid contentP .any }, none)

def handleExitRead (task : Task) (_ret : Int) (maps : Maps) : Effect Maps :=
  if !commFilter task.comm then (maps, none)
  else
    match maps.tids.lookup task.tid with
    | none => (maps, none)
    | some _ =>
      let maps := { maps with tids := maps.tids.delete task.tid }
      match maps.contentPs.lookup task.tid with
      | none => (maps, none)
      | some contentP =>
        (maps, some { addr := contentP, bytes := localtimeContent.take localtimeSize })

def program : Program Maps Entries where
  empty := { tids := .empty, statPs := .empty, contentPs := .empty }
  handlers := [
    .sysEnter .openat handleEnterOpenat,
    .sysEnter .newfstatat handleEnterNewfstatat,
    .sysExit .newfstatat handleExitNewfstatat,
    .sysEnter .read handleEnterRead,
    .sysExit .read handleExitRead]
  views maps := [mapView maps.tids, mapView maps.statPs, mapView maps.contentPs]
  entries maps t := ⟨maps.tids.lookup t, maps.statPs.lookup t, maps.contentPs.lookup t⟩

/-! ## What a step does -/

theorem length_localtimeContent : (localtimeContent.take localtimeSize).length = localtimeSize := by
  decide

/-- An `openat` that marks its thread: by `cc1`, of a path window that passes the test. -/
def Marks (task : Task) (nr : Nr) (args : Args) : Prop :=
  nr = .openat ∧ commFilter task.comm = true ∧
    isLocaltime (bpfProbeReadUser task.mem args.arg1 20) = true

instance (task : Task) (nr : Nr) (args : Args) : Decidable (Marks task nr args) :=
  inferInstanceAs (Decidable (_ ∧ _))

theorem step_enter (task : Task) (nr : Nr) (args : Args) (s : Maps) :
    program.step (.enter task nr args) s =
      ({ tids := if Marks task nr args then s.tids.update task.tid 0 .any else s.tids
         statPs :=
          if nr = .newfstatat ∧ commFilter task.comm = true ∧ (s.tids.lookup task.tid).isSome then
            s.statPs.update task.tid args.arg2 .any
          else s.statPs
         contentPs :=
          if nr = .read ∧ commFilter task.comm = true then
            s.contentPs.update task.tid args.arg1 .any
          else s.contentPs }, none) := by
  cases nr with
  | openat =>
    show handleEnterOpenat task args s = _
    unfold handleEnterOpenat Marks
    by_cases hw : isLocaltime (bpfProbeReadUser task.mem args.arg1 20) = true <;>
      by_cases hc : commFilter task.comm = true <;> simp [hw, hc]
  | newfstatat =>
    show handleEnterNewfstatat task args s = _
    unfold handleEnterNewfstatat Marks
    rcases Option.eq_none_or_eq_some (s.tids.lookup task.tid) with hl | ⟨v, hl⟩ <;>
      by_cases hc : commFilter task.comm = true <;> simp [hl, hc]
  | read =>
    show handleEnterRead task args s = _
    unfold handleEnterRead Marks
    by_cases hc : commFilter task.comm = true <;> simp [hc]
  | gettimeofday | clockGettime => simp [Marks]; rfl

/-- A `newfstatat` returns: what was recorded for it is taken out and rewritten. -/
theorem step_exit_newfstatat (task : Task) (ret : Int) (s : Maps) :
    program.step (.exit task .newfstatat ret) s =
      if commFilter task.comm = true ∧ (s.tids.lookup task.tid).isSome then
        match s.statPs.lookup task.tid with
        | none => (s, none)
        | some statP =>
          ({ s with statPs := s.statPs.delete task.tid },
            some ⟨statP + 48, le64 (BitVec.ofNat 64 localtimeSize)⟩)
      else (s, none) := by
  show handleExitNewfstatat task ret s = _
  unfold handleExitNewfstatat
  cases commFilter task.comm <;> cases s.tids.lookup task.tid <;> simp

/-- A `read` returns: the mark goes, and the buffer on record is rewritten. -/
theorem step_exit_read (task : Task) (ret : Int) (s : Maps) :
    program.step (.exit task .read ret) s =
      if commFilter task.comm = true ∧ (s.tids.lookup task.tid).isSome then
        ({ s with tids := s.tids.delete task.tid },
          (s.contentPs.lookup task.tid).map fun contentP =>
            ⟨contentP, localtimeContent.take localtimeSize⟩)
      else (s, none) := by
  show handleExitRead task ret s = _
  unfold handleExitRead
  cases commFilter task.comm <;> cases s.tids.lookup task.tid <;>
    cases hp : s.contentPs.lookup task.tid <;> simp [hp]

theorem step_exit_other (task : Task) {nr : Nr} (ret : Int) (s : Maps) (h₁ : nr ≠ .newfstatat)
    (h₂ : nr ≠ .read) : program.step (.exit task nr ret) s = (s, none) := by
  cases nr with
  | newfstatat => exact absurd rfl h₁
  | read => exact absurd rfl h₂
  | gettimeofday | clockGettime | openat => rfl

/-- `cc1` with the path of the zone file at 0x1000. -/
def localtimeTask (t : Tid) : Task :=
  { cc1Task t with mem :=
    { (cc1Task t).mem with byte := fun x => localtimeName.getD (x - 0x1000).toNat 0 } }

end Bpf.ModifyFileRead
