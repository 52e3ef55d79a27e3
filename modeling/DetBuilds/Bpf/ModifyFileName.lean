import DetBuilds.Bpf.Common

/-!
# `modify_file_name.bpf.c`

The enter handler of `openat` records the address of the path, the exit handler takes it out
again and empties the path if a source file suffix ends in its first 32 bytes.
-/

set_option autoImplicit false

namespace Bpf.ModifyFileName

structure Maps where
  filenames : TidMap Addr

/-- The characters of `suffix`, one after the other from index `i` on. -/
def suffixAt (filename : List Byte) (i : Nat) (suffix : List Byte) : Bool :=
  (filename.drop i).take suffix.length == suffix

/-- The three loops over the window, each up to the last index its suffix fits at. -/
def isToModify (filename : List Byte) : Bool :=
  ((List.range (32 - 3 + 1)).any fun i => suffixAt filename i (ascii ['.', 'c', '\x00'])) ||
  ((List.range (32 - 4 + 1)).any fun i => suffixAt filename i (ascii ['.', 'c', 'c', '\x00'])) ||
  ((List.range (32 - 5 + 1)).any fun i =>
    suffixAt filename i (ascii ['.', 'c', 'p', 'p', '\x00']) ||
    suffixAt filename i (ascii ['.', 'c', 'x', 'x', '\x00']))

def handleEnterOpenat (task : Task) (args : Args) (maps : Maps) : Effect Maps :=
  if !commFilter task.comm then (maps, none)
  else
    let filenameP := args.arg1
    ({ maps with filenames := maps.filenames.update task.tid filenameP .any }, none)

def handleExitOpenat (task : Task) (_ret : Int) (maps : Maps) : Effect Maps :=
  if !commFilter task.comm then (maps, none)
  else
    match maps.filenames.lookup task.tid with
    | none => (maps, none)
    | some filenameP =>
      let maps := { maps with filenames := maps.filenames.delete task.tid }
      let filename := bpfProbeReadUser task.mem filenameP 32
      if !isToModify filename then (maps, none)
      else (maps, some { addr := filenameP, bytes := [0] })

def program : Program Maps (Option Addr) where
  empty := { filenames := .empty }
  handlers := [
    .sysEnter .openat handleEnterOpenat,
    .sysExit .openat handleExitOpenat]
  views maps := [mapView maps.filenames]
  entries maps t := maps.filenames.lookup t

/-! ## What a step does -/

/-- What a call leaves in the map: its path pointer, for `cc1`. -/
def pending (comm : Comm) (nr : Nr) (args : Args) : Option Addr :=
  if nr = .openat ∧ commFilter comm = true then some args.arg1 else none

theorem pending_eq_some {comm : Comm} {nr : Nr} {args : Args} {a : Addr} :
    pending comm nr args = some a ↔ (nr = .openat ∧ commFilter comm = true) ∧ args.arg1 = a := by
  rw [pending, Option.ite_none_right_eq_some, Option.some.injEq]

/-- The write to a path. -/
def emptied (mem : ByteMem) (filenameP : Addr) : Option UserWrite :=
  if isToModify (bpfProbeReadUser mem filenameP 32) then some ⟨filenameP, [0]⟩ else none

theorem emptied_eq_some {mem : ByteMem} {filenameP : Addr} {w : UserWrite} :
    emptied mem filenameP = some w ↔
      isToModify (bpfProbeReadUser mem filenameP 32) = true ∧ ⟨filenameP, [0]⟩ = w := by
  rw [emptied, Option.ite_none_right_eq_some, Option.some.injEq]

theorem step_enter (task : Task) (nr : Nr) (args : Args) (s : Maps) :
    program.step (.enter task nr args) s =
      match pending task.comm nr args with
      | none => (s, none)
      | some filenameP =>
        ({ s with filenames := s.filenames.update task.tid filenameP .any }, none) := by
  cases nr with
  | openat =>
    show handleEnterOpenat task args s = _
    unfold handleEnterOpenat pending
    cases commFilter task.comm <;> simp
  | gettimeofday | clockGettime | newfstatat | read => rfl

theorem step_exit (task : Task) (nr : Nr) (ret : Int) (s : Maps) :
    program.step (.exit task nr ret) s =
      if nr = .openat ∧ commFilter task.comm = true then
        match s.filenames.lookup task.tid with
        | none => (s, none)
        | some filenameP =>
          ({ s with filenames := s.filenames.delete task.tid }, emptied task.mem filenameP)
      else (s, none) := by
  cases nr with
  | openat =>
    show handleExitOpenat task ret s = _
    unfold handleExitOpenat emptied
    cases commFilter task.comm with
    | false => simp
    | true =>
      cases s.filenames.lookup task.tid with
      | none => simp
      | some filenameP =>
        by_cases hm : isToModify (bpfProbeReadUser task.mem filenameP 32) = true <;> simp [hm]
  | gettimeofday | clockGettime | newfstatat | read => rfl

end Bpf.ModifyFileName
