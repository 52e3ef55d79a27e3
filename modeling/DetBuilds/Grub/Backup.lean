import DetBuilds.Grub.Files

/-!
# The backups

Over any sequence of runs, from any directories and with the configuration written by others in
between, no file but the configuration is ever overwritten (`keepsFiles`). So the backup that a run
makes under a new name stays what the configuration was then (`kept`). `backups_kept` says this of
every run and every state, and that the loop over the names ends.
-/

set_option autoImplicit false

namespace Grub

open History

/-- The loop ends at the first candidate that does not exist, in at most one iteration more than
there are names. -/
def LoopEnds (names : Finset Line) : Prop :=
  ∃ n ≤ names.card, FirstFree names n ∧
    ∀ fuel, backupTarget names fuel 0 = if n < fuel then some (backupName n) else none

/-- A step leaves every file but the configuration as it is. -/
def KeepsFiles (files : Files) (h : List Event) (e : Event) : Prop :=
  ∀ p ∈ filesAfter files h, p ≠ configPath →
    (filesAfter files (e :: h)).lookup p = (filesAfter files h).lookup p

/-- Each run so far that got to its backup has one under the first candidate that did not exist
then, and it is the configuration of that time. -/
def Kept (files : Files) (h : List Event) : Prop :=
  ∀ r k lines, .run r :: k <:+ h → Reaches (filesAfter files k) r lines →
    ∃ n, FirstFree (names (filesAfter files k) r.dir) n ∧
      (filesAfter files h).lookup ⟨r.dir, backupName n⟩ = some lines

theorem loopEnds (names : Finset Line) : LoopEnds names := by
  obtain ⟨n, hle, hn⟩ := exists_firstFree names
  exact ⟨n, hle, hn, backupTarget_eq hn⟩

/-! ## One step -/

theorem lookup_turnOffVdso {r : Run} {files : Files} {p : Path} (hp : p ∈ files)
    (hne : p ≠ configPath) : (turnOffVdso r files).lookup p = files.lookup p := by
  rcases turnOffVdso_cases r files with ⟨heq, -⟩ | ⟨lines, n, -, hfree, heq⟩
  · rw [heq]
  · have hnew : p ≠ ⟨r.dir, backupName n⟩ := by
      rintro rfl
      exact hfree.1 (mem_names.2 hp)
    rw [heq, AList.lookup_insert_ne hne, AList.lookup_insert_ne hnew]

/-- **No file but the configuration is overwritten.** -/
theorem keepsFiles (files : Files) (h : List Event) (e : Event) : KeepsFiles files h e := by
  intro p hp hne
  cases e with
  | run r => exact lookup_turnOffVdso hp hne
  | write lines => exact AList.lookup_insert_ne hne

/-- The backup of a run is there right after it. -/
theorem backup_of_run {r : Run} {files : Files} {lines : List Line}
    (hr : Reaches files r lines) :
    ∃ n, FirstFree (names files r.dir) n ∧
      (turnOffVdso r files).lookup ⟨r.dir, backupName n⟩ = some lines := by
  obtain ⟨n, -, hn⟩ := exists_firstFree (names files r.dir)
  refine ⟨n, hn, ?_⟩
  rw [turnOffVdso_of_reaches hr hn, AList.lookup_insert_ne (backupPath_ne_configPath r.dir n),
    AList.lookup_insert]

/-! ## Runs -/

/-- **Backups stay**: a later step finds them among the files that it keeps. -/
theorem kept (files : Files) (h : List Event) : Kept files h := by
  induction h with
  | nil =>
    intro r k lines hk
    cases List.suffix_nil.1 hk
  | cons e h ih =>
    intro r k lines hk hr
    rcases List.suffix_cons_iff.1 hk with heq | hk
    · obtain ⟨rfl, rfl⟩ := List.cons.inj heq
      exact backup_of_run hr
    · obtain ⟨n, hn, hlookup⟩ := ih r k lines hk hr
      have hmem : (⟨r.dir, backupName n⟩ : Path) ∈ filesAfter files h := by
        rw [← AList.lookup_isSome, hlookup]
        rfl
      refine ⟨n, hn, ?_⟩
      rw [keepsFiles files h e _ hmem (backupPath_ne_configPath r.dir n), hlookup]

/-- **Backups are never lost**: the loop over the names ends, at most one iteration after as many as
there are names, at the first that is free; over any events no file but the configuration changes;
and in every state each run's backup is the configuration as it was at that run. -/
theorem backups_kept (files : Files) (h : List Event) :
    (∀ names, LoopEnds names) ∧ EachStep (KeepsFiles files) h ∧ EachState (Kept files) h := by
  refine ⟨loopEnds, ?_, ?_⟩
  · exact eachStep_iff.2 fun e k _ => keepsFiles files k e
  · exact eachState_iff.2 fun k _ => kept files k

/-- A file that the edit does not change gets a backup in each of two runs. -/
example :
    (filesAfter ((∅ : Files).insert configPath [name ++ ['=']])
      [.run ⟨⟨root, true, ['y'], ['y']⟩, ['/']⟩, .run ⟨⟨root, true, ['y'], ['y']⟩, ['/']⟩]).keys =
        [configPath, ⟨['/'], backupName 1⟩, ⟨['/'], backupName 0⟩] := by
  decide

end Grub
