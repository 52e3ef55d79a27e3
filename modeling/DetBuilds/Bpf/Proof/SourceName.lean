import DetBuilds.Bpf.ModifyFileName
import DetBuilds.Lib.CString

/-!
# Which paths are source files

`handle_exit_openat` looks for a suffix with a terminator in the 32 bytes from the path on. These
are the path and what happens to lie behind it, or the beginning of a long path.
`source_name_iff`: it empties exactly the paths of source files if the path is shorter than 32
bytes and is one or has no such text behind it, or is longer and is none. That is about the write
that the handler asks for; `source_name_emptied_iff` is about memory, where it can be written.
-/

set_option autoImplicit false

namespace Bpf.ModifyFileName

/-- The suffixes of source files. -/
def suffixes : List (List Byte) :=
  [ascii ['.', 'c'], ascii ['.', 'c', 'c'], ascii ['.', 'c', 'p', 'p'], ascii ['.', 'c', 'x', 'x']]

/-- The path of a source file. -/
def SourceName (path : List Byte) : Prop := ∃ s ∈ suffixes, s <:+ path

/-- A suffix with its terminator lies in the window behind the path. -/
def LitterBehind (mem : ByteMem) (filenameP : Addr) (path : List Byte) : Prop :=
  ∃ s ∈ suffixes, s ++ [0] <:+: (mem.load filenameP 32).drop (path.length + 1)

/-- Where the scan of the window decides rightly about the path. -/
def ScanDecides (mem : ByteMem) (filenameP : Addr) (path : List Byte) : Prop :=
  if path.length < 32 then SourceName path ∨ ¬ LitterBehind mem filenameP path
  else ¬ SourceName path

instance (path : List Byte) : Decidable (SourceName path) :=
  inferInstanceAs (Decidable (∃ s ∈ suffixes, _))

theorem not_mem_suffix {s : List Byte} (hs : s ∈ suffixes) : 0 ∉ s := by
  simp only [suffixes, List.mem_cons, List.not_mem_nil, or_false] at hs
  rcases hs with rfl | rfl | rfl | rfl <;> decide

/-! ## The scan -/

/-- One loop finds its suffix wherever it lies in the window. -/
theorem any_suffixAt {filename : List Byte} (s : List Byte) (n : Nat) (hlen : filename.length = 32)
    (hs : s.length = n) (hn : n ≤ 32) :
    ((List.range (32 - n + 1)).any fun i => suffixAt filename i s) = true ↔ s <:+: filename := by
  rw [CString.infix_iff_take_drop, List.any_eq_true]
  constructor
  · rintro ⟨i, hi, hsuf⟩
    have hi := List.mem_range.1 hi
    exact ⟨i, by omega, by simpa [suffixAt] using hsuf⟩
  · rintro ⟨i, hi, hsuf⟩
    exact ⟨i, List.mem_range.2 (by omega), by simpa [suffixAt] using hsuf⟩

/-- The last loop looks for two suffixes at once. -/
theorem any_or {l : List Nat} {p q : Nat → Bool} :
    (l.any fun i => p i || q i) = (l.any p || l.any q) := by
  induction l with
  | nil => rfl
  | cons i l ih =>
    simp only [List.any_cons, ih]
    cases p i <;> cases q i <;> cases l.any p <;> rfl

theorem isToModify_iff {filename : List Byte} (hlen : filename.length = 32) :
    isToModify filename = true ↔ ∃ s ∈ suffixes, s ++ [0] <:+: filename := by
  unfold isToModify
  rw [any_or]
  simp only [Bool.or_eq_true]
  rw [any_suffixAt (ascii ['.', 'c', '\x00']) 3 hlen rfl (by decide),
    any_suffixAt (ascii ['.', 'c', 'c', '\x00']) 4 hlen rfl (by decide),
    any_suffixAt (ascii ['.', 'c', 'p', 'p', '\x00']) 5 hlen rfl (by decide),
    any_suffixAt (ascii ['.', 'c', 'x', 'x', '\x00']) 5 hlen rfl (by decide)]
  simp only [suffixes, List.exists_mem_cons_iff, List.not_mem_nil, false_and, exists_false,
    or_false, or_assoc]
  exact Iff.rfl

/-- What the scan finds in the window of a path. -/
theorem isToModify_window {mem : ByteMem} {filenameP : Addr} {path : List Byte}
    (hp : mem.HoldsString filenameP path) :
    isToModify (mem.load filenameP 32) = true ↔
      path.length < 32 ∧ (SourceName path ∨ LitterBehind mem filenameP path) := by
  rw [isToModify_iff (ByteMem.length_load ..)]
  unfold SourceName LitterBehind
  constructor
  · rintro ⟨s, hs, hinf⟩
    obtain ⟨hlen, hcase⟩ := (hp.infix_window (not_mem_suffix hs)).1 hinf
    refine ⟨hlen, ?_⟩
    rcases hcase with hsuf | hlit
    · exact .inl ⟨s, hs, hsuf⟩
    · exact .inr ⟨s, hs, hlit⟩
  · rintro ⟨hlen, ⟨s, hs, hsuf⟩ | ⟨s, hs, hlit⟩⟩
    · exact ⟨s, hs, (hp.infix_window (not_mem_suffix hs)).2 ⟨hlen, .inl hsuf⟩⟩
    · exact ⟨s, hs, (hp.infix_window (not_mem_suffix hs)).2 ⟨hlen, .inr hlit⟩⟩

/-! ## The handler -/

theorem handleExitOpenat_eq {maps : Maps} {task : Task} (ret : Int) {filenameP : Addr}
    (hc : commFilter task.comm = true) (hl : maps.filenames.lookup task.tid = some filenameP)
    (hr : task.mem.readableFor filenameP 32 = true) :
    (handleExitOpenat task ret maps).2 =
      if isToModify (task.mem.load filenameP 32) = true then some ⟨filenameP, [0]⟩ else none := by
  have hwin : bpfProbeReadUser task.mem filenameP 32 = task.mem.load filenameP 32 := if_pos hr
  unfold handleExitOpenat
  simp only [hc, hl, hwin, Bool.not_true, Bool.false_eq_true, if_false]
  by_cases hm : isToModify (task.mem.load filenameP 32) = true <;> simp [hm]

theorem handleExitOpenat_write {maps : Maps} {task : Task} (ret : Int) {filenameP : Addr}
    (hc : commFilter task.comm = true) (hl : maps.filenames.lookup task.tid = some filenameP)
    (hr : task.mem.readableFor filenameP 32 = true) :
    (handleExitOpenat task ret maps).2 = some ⟨filenameP, [0]⟩ ↔
      isToModify (task.mem.load filenameP 32) = true := by
  rw [handleExitOpenat_eq ret hc hl hr]
  split <;> simp [*]

/-- Where what the scan finds is that the path is that of a source file. -/
theorem scanDecides_iff {mem : ByteMem} {filenameP : Addr} {path : List Byte} :
    (path.length < 32 ∧ (SourceName path ∨ LitterBehind mem filenameP path) ↔ SourceName path) ↔
      ScanDecides mem filenameP path := by
  unfold ScanDecides
  split
  · rename_i hlen
    rw [and_iff_right hlen]
    constructor
    · intro hiff
      by_cases hs : SourceName path
      · exact .inl hs
      · exact .inr fun hlit => hs (hiff.1 (.inr hlit))
    · rintro (hs | hno)
      · exact ⟨fun _ => hs, .inl⟩
      · exact ⟨fun h => h.resolve_right hno, .inl⟩
  · rename_i hlen
    constructor
    · exact fun hiff hs => hlen (hiff.2 hs).1
    · exact fun hs => ⟨fun h => absurd h.1 hlen, fun h => absurd h hs⟩

/-- **Source file paths**: for a `cc1` thread with a recorded pointer to a readable window,
`handle_exit_openat` empties the path if and only if it is that of a source file, exactly where
the path is shorter than 32 bytes and is one or has no suffix with a terminator behind it in the
window, or is at least that long and is none. -/
theorem source_name_iff {maps : Maps} {task : Task} {ret : Int} {filenameP : Addr}
    {path : List Byte} (hc : commFilter task.comm = true)
    (hl : maps.filenames.lookup task.tid = some filenameP)
    (hr : task.mem.readableFor filenameP 32 = true)
    (hp : task.mem.HoldsString filenameP path) :
    ((handleExitOpenat task ret maps).2 = some ⟨filenameP, [0]⟩ ↔ SourceName path) ↔
      ScanDecides task.mem filenameP path := by
  rw [handleExitOpenat_write ret hc hl hr, isToModify_window hp]
  exact scanDecides_iff

/-- What is in memory afterwards, where the path's first byte can be written. -/
theorem holdsString_nil_iff {maps : Maps} {task : Task} (ret : Int) {filenameP : Addr}
    {path : List Byte} (hc : commFilter task.comm = true)
    (hl : maps.filenames.lookup task.tid = some filenameP)
    (hr : task.mem.readableFor filenameP 32 = true)
    (hp : task.mem.HoldsString filenameP path) (hne : path ≠ [])
    (hw : task.mem.writableFor filenameP 1 = true) :
    (applyWrite (handleExitOpenat task ret maps).2 task.mem).HoldsString filenameP [] ↔
      isToModify (task.mem.load filenameP 32) = true := by
  rw [handleExitOpenat_eq ret hc hl hr]
  split
  · rename_i hm
    have hstore : (task.mem.store filenameP [0]).load filenameP 1 = [0] :=
      ByteMem.load_store rfl (by decide) hw
    exact iff_of_true ⟨List.not_mem_nil, hstore⟩ hm
  · rename_i hm
    exact iff_of_false (fun h => hne (hp.unique h).symm) hm

/-- So the path in memory is emptied exactly as the handler decides. -/
theorem source_name_emptied_iff {maps : Maps} {task : Task} {ret : Int} {filenameP : Addr}
    {path : List Byte} (hc : commFilter task.comm = true)
    (hl : maps.filenames.lookup task.tid = some filenameP)
    (hr : task.mem.readableFor filenameP 32 = true)
    (hp : task.mem.HoldsString filenameP path) (hne : path ≠ [])
    (hw : task.mem.writableFor filenameP 1 = true) :
    ((applyWrite (handleExitOpenat task ret maps).2 task.mem).HoldsString filenameP [] ↔
      SourceName path) ↔ ScanDecides task.mem filenameP path := by
  rw [holdsString_nil_iff ret hc hl hr hp hne hw, isToModify_window hp]
  exact scanDecides_iff

/-- `cc1` with these bytes at 0x1000. -/
def pathTask (bytes : List Byte) : Task :=
  { cc1Task 1 with mem := pathMem bytes }

/-- It has entered an `openat` of them. -/
def pathMaps (bytes : List Byte) : Maps :=
  program.run [.enter (pathTask bytes) .openat ⟨0, 0x1000, 0, 0, 0, 0⟩]

theorem readableFor_pathTask (bytes : List Byte) :
    (pathTask bytes).mem.readableFor 0x1000 32 = true := readableFor_pathMem ..

theorem source_name_iff_short :
    (handleExitOpenat (pathTask (ascii ['a', '.', 'c'])) 3 (pathMaps [])).2 =
        some ⟨0x1000, [0]⟩ ↔ SourceName (ascii ['a', '.', 'c']) :=
  (source_name_iff (by decide) (by decide) (readableFor_pathTask _) (by decide)).2
    (.inl (by decide))

/-- A long path of a source file. -/
def longPath : List Byte := List.replicate 31 0x61 ++ ascii ['.', 'c']

/-- A header, with the end of some source file's path behind it. -/
def litteredPath : List Byte := ascii ['a', '.', 'h', '\x00', 'b', '.', 'c']

/-- A long path is missed, and one with litter behind it is hit. -/
theorem source_name_missed_and_hit :
    ((pathTask longPath).mem.HoldsString 0x1000 longPath ∧
      ¬ ((handleExitOpenat (pathTask longPath) 3 (pathMaps longPath)).2 = some ⟨0x1000, [0]⟩ ↔
        SourceName longPath)) ∧
    ((pathTask litteredPath).mem.HoldsString 0x1000 (ascii ['a', '.', 'h']) ∧
      ¬ ((handleExitOpenat (pathTask litteredPath) 3 (pathMaps litteredPath)).2 =
        some ⟨0x1000, [0]⟩ ↔ SourceName (ascii ['a', '.', 'h']))) := by
  have hlong : (pathTask longPath).mem.HoldsString 0x1000 longPath := by decide
  have hlitter : (pathTask litteredPath).mem.HoldsString 0x1000 (ascii ['a', '.', 'h']) := by decide
  refine ⟨⟨hlong, ?_⟩, ⟨hlitter, ?_⟩⟩
  · rw [handleExitOpenat_write 3 (by decide) (by decide) (readableFor_pathTask _),
      isToModify_window hlong]
    exact fun hiff => absurd (hiff.2 (by decide)).1 (by decide)
  · rw [handleExitOpenat_write 3 (by decide) (by decide) (readableFor_pathTask _)]
    decide

end Bpf.ModifyFileName
