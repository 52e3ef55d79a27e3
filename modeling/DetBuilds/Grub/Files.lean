import DetBuilds.Grub.TurnOffVdso
import DetBuilds.Lib.History
import DetBuilds.Lib.Search
import Mathlib.Data.Finset.Dedup
import Mathlib.Data.List.AList

/-!
# `turn_off_vdso.sh` and the files it works on

The whole script as a step on the files: if `check` lets it through, it copies the configuration to
the first of `grub.backup`, `grub.backup.1`, `grub.backup.2`, ... that is not in the directory it is
run from, and edits the configuration. The files are text, and the copies succeed. Between runs
others may write the configuration, for example to take the edit back; files are added by the script
alone.

`backupTarget` is the loop that picks the name, for at most `fuel` iterations. `backupTarget_eq`
says when it ends, and `turnOffVdso_cases` all that a run can do.
-/

set_option autoImplicit false

namespace Grub

open History Search

/-- A file, by the directory that it is in and its name there. -/
structure Path where
  dir : Line
  name : Line
  deriving DecidableEq

/-- The files that there are, with their lines. -/
abbrev Files := AList fun _ : Path => List Line

/-- `/etc/default/grub`. -/
def configPath : Path :=
  ⟨['/', 'e', 't', 'c', '/', 'd', 'e', 'f', 'a', 'u', 'l', 't'], ['g', 'r', 'u', 'b']⟩

/-- `grub.backup`. -/
def backupFileName : Line := ['g', 'r', 'u', 'b', '.', 'b', 'a', 'c', 'k', 'u', 'p']

/-- The `target` at a value of `counter`. -/
def backupName (counter : Nat) : Line :=
  if counter ≠ 0 then backupFileName ++ '.' :: Nat.toDigits 10 counter else backupFileName

/-- The names in a directory. -/
def names (files : Files) (dir : Line) : Finset Line :=
  ((files.keys.filter fun p => p.dir = dir).map Path.name).toFinset

/-- The loop over `counter`, up to the first `target` that does not exist. -/
def backupTarget (names : Finset Line) : Nat → Nat → Option Line
  | 0, _ => none
  | fuel + 1, counter =>
    let target := backupName counter
    if target ∉ names then some target else backupTarget names fuel (counter + 1)

/-- `cp`, with room for the copy and the right to write it: a copy of a file that exists succeeds. -/
def cp (source target : Path) (files : Files) : Files :=
  match files.lookup source with
  | none => files
  | some lines => files.insert target lines

/-- `sed -i`. -/
def sedInPlace (path : Path) (files : Files) : Files :=
  match files.lookup path with
  | none => files
  | some lines => files.insert path (sed lines)

/-- One run of the script, from a directory. -/
structure Run where
  session : Session
  dir : Line

/-- The script, as far as it changes files. The loop gets an iteration more than there are names,
which is enough (`backupTarget_eq`). -/
def turnOffVdso (run : Run) (files : Files) : Files :=
  match check run.session (files.lookup configPath) with
  | .error _ => files
  | .ok _ =>
    let existing := names files run.dir
    match backupTarget existing (existing.card + 1) 0 with
    | none => files
    | some target => sedInPlace configPath (cp configPath ⟨run.dir, target⟩ files)

/-- The script is run, or the configuration is written by others. -/
inductive Event where
  | run (r : Run)
  | write (lines : List Line)

def Event.step : Event → Files → Files
  | .run r, files => turnOffVdso r files
  | .write lines, files => files.insert configPath lines

/-- The files after the events so far. -/
def filesAfter (files : Files) (h : List Event) : Files := after Event.step files h

/-! ## Backup names -/

theorem backupName_succ (n : Nat) :
    backupName (n + 1) = backupFileName ++ '.' :: Nat.toDigits 10 (n + 1) :=
  if_pos (Nat.succ_ne_zero n)

/-- No two values of the counter give one name. -/
theorem backupName_injective : Function.Injective backupName := by
  have hzero : ∀ n, backupName 0 ≠ backupName (n + 1) := by
    intro n h
    rw [backupName_succ] at h
    have hlen := congrArg List.length h
    rw [List.length_append, show backupName 0 = backupFileName from rfl, List.length_cons] at hlen
    omega
  intro i j h
  cases i with
  | zero =>
    cases j with
    | zero => rfl
    | succ j => exact absurd h (hzero j)
  | succ i =>
    cases j with
    | zero => exact absurd h.symm (hzero i)
    | succ j =>
      rw [backupName_succ, backupName_succ] at h
      have hdigits := (List.cons.inj (List.append_cancel_left h)).2
      have hvalue := congrArg (fun l => Nat.ofDigitChars 10 l 0) hdigits
      simpa using hvalue

/-- No backup has the name of the configuration. -/
theorem backupPath_ne_configPath (dir : Line) (n : Nat) :
    (⟨dir, backupName n⟩ : Path) ≠ configPath := by
  intro h
  have hname : backupName n = configPath.name := congrArg Path.name h
  have hlen := congrArg List.length hname
  cases n with
  | zero => exact absurd hlen (by decide)
  | succ n =>
    rw [backupName_succ, List.length_append] at hlen
    have hlong : configPath.name.length < backupFileName.length := by decide
    omega

theorem mem_names {files : Files} {dir name : Line} :
    name ∈ names files dir ↔ (⟨dir, name⟩ : Path) ∈ files := by
  simp only [names, List.mem_toFinset, List.mem_map, List.mem_filter, decide_eq_true_eq]
  constructor
  · rintro ⟨⟨d, n⟩, ⟨hmem, rfl⟩, rfl⟩
    exact AList.mem_keys.2 hmem
  · exact fun hmem => ⟨⟨dir, name⟩, ⟨AList.mem_keys.1 hmem, rfl⟩, rfl⟩

/-! ## The loop -/

/-- The candidate of number `n` does not exist, and those before it do. -/
def FirstFree (names : Finset Line) (n : Nat) : Prop :=
  backupName n ∉ names ∧ ∀ j < n, backupName j ∈ names

theorem backupTarget_search (names : Finset Line) (fuel counter : Nat) :
    backupTarget names fuel counter =
      (search (fun n => backupName n ∉ names) fuel counter).map backupName := by
  induction fuel generalizing counter with
  | zero => rfl
  | succ fuel ih =>
    unfold backupTarget search
    simp only [decide_eq_true_eq]
    split
    · rfl
    · exact ih (counter + 1)

/-- **The loop ends** in its iteration for the first candidate that does not exist. -/
theorem backupTarget_eq {names : Finset Line} {n : Nat} (hn : FirstFree names n) (fuel : Nat) :
    backupTarget names fuel 0 = if n < fuel then some (backupName n) else none := by
  have hsearch : search (fun n => backupName n ∉ names) fuel 0 = if n < fuel then some n else none :=
    search_of_first (decide_eq_true hn.1) (fun j hj => decide_eq_false fun h => h (hn.2 j hj)) fuel
  rw [backupTarget_search, hsearch]
  split <;> rfl

/-- It comes after at most as many as there are names. -/
theorem exists_firstFree (names : Finset Line) : ∃ n ≤ names.card, FirstFree names n :=
  exists_first_notMem backupName_injective names

/-- There is one first candidate. -/
theorem firstFree_unique {names : Finset Line} {m n : Nat} (hm : FirstFree names m)
    (hn : FirstFree names n) : m = n := by
  rcases Nat.lt_trichotomy m n with hlt | heq | hlt
  · exact absurd (hn.2 m hlt) hm.1
  · exact heq
  · exact absurd (hm.2 n hlt) hn.1

theorem card_of_firstFree {names : Finset Line} {n : Nat} (hn : FirstFree names n) :
    n ≤ names.card := by
  obtain ⟨m, hle, hm⟩ := exists_firstFree names
  rwa [firstFree_unique hn hm]

/-! ## A run -/

/-- The script goes on to the backup and the edit of a configuration. -/
def Reaches (files : Files) (run : Run) (lines : List Line) : Prop :=
  files.lookup configPath = some lines ∧ ∃ preview, check run.session (some lines) = .ok preview

/-- What it does then. -/
theorem turnOffVdso_of_reaches {files : Files} {run : Run} {lines : List Line} {n : Nat}
    (hr : Reaches files run lines) (hn : FirstFree (names files run.dir) n) :
    turnOffVdso run files =
      (files.insert ⟨run.dir, backupName n⟩ lines).insert configPath (sed lines) := by
  obtain ⟨hlines, preview, hcheck⟩ := hr
  have htarget : backupTarget (names files run.dir) ((names files run.dir).card + 1) 0 =
      some (backupName n) := by
    rw [backupTarget_eq hn, if_pos (Nat.lt_succ_of_le (card_of_firstFree hn))]
  have hcp : cp configPath ⟨run.dir, backupName n⟩ files =
      files.insert ⟨run.dir, backupName n⟩ lines := by
    unfold cp
    rw [hlines]
  have hconfig : (files.insert ⟨run.dir, backupName n⟩ lines).lookup configPath = some lines := by
    rw [AList.lookup_insert_ne (backupPath_ne_configPath run.dir n).symm, hlines]
  unfold turnOffVdso
  rw [hlines, hcheck]
  simp only [htarget, hcp]
  unfold sedInPlace
  rw [hconfig]

/-- **All that a run can do**: nothing, or a backup under a new name and the edit. -/
theorem turnOffVdso_cases (run : Run) (files : Files) :
    (turnOffVdso run files = files ∧ ∀ lines, ¬ Reaches files run lines) ∨
      ∃ lines n, Reaches files run lines ∧ FirstFree (names files run.dir) n ∧
        turnOffVdso run files =
          (files.insert ⟨run.dir, backupName n⟩ lines).insert configPath (sed lines) := by
  by_cases hr : ∃ lines, Reaches files run lines
  · obtain ⟨lines, hr⟩ := hr
    obtain ⟨n, -, hn⟩ := exists_firstFree (names files run.dir)
    exact .inr ⟨lines, n, hr, hn, turnOffVdso_of_reaches hr hn⟩
  · refine .inl ⟨?_, fun lines hl => hr ⟨lines, hl⟩⟩
    unfold turnOffVdso
    cases hcheck : check run.session (files.lookup configPath) with
    | error _ => rfl
    | ok preview =>
      cases hlines : files.lookup configPath with
      | none =>
        rw [hlines] at hcheck
        exact absurd hcheck (check_none_ne_ok run.session preview)
      | some lines =>
        rw [hlines] at hcheck
        exact absurd ⟨lines, hlines, preview, hcheck⟩ hr

end Grub
