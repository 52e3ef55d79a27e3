import DetBuilds.Grub.Files

/-!
# The backups are a log

In each directory, the backups are an append-only list (`backupLog`): whoever writes the
configuration in between, each run of the script that gets to its edit adds the configuration as it
finds it, and no other run adds anything. The entries have the candidates that were free at first
for names, in order, so the names tell the order of the runs (`backups_log`).
-/

set_option autoImplicit false

namespace Grub

open History Search

/-- The configuration that a run makes a backup of, if it gets there. -/
def backedUp (files : Files) (r : Run) : Option (List Line) :=
  match check r.session (files.lookup configPath) with
  | .error _ => none
  | .ok _ => files.lookup configPath

/-- The configurations that the runs from a directory have made backups of, the first one first. -/
def backupLog (files : Files) (dir : Line) : List Event → List (List Line)
  | [] => []
  | .run r :: h =>
    backupLog files dir h ++ if r.dir = dir then (backedUp (filesAfter files h) r).toList else []
  | .write _ :: h => backupLog files dir h

theorem backedUp_eq_some {files : Files} {r : Run} {lines : List Line} :
    backedUp files r = some lines ↔ Reaches files r lines := by
  unfold backedUp Reaches
  cases hcheck : check r.session (files.lookup configPath) with
  | error _ =>
    refine iff_of_false (fun h => by cases h) ?_
    rintro ⟨hlines, preview, hok⟩
    rw [← hlines, hcheck] at hok
    cases hok
  | ok preview =>
    constructor
    · intro hlines
      exact ⟨hlines, preview, hlines ▸ hcheck⟩
    · exact fun h => h.1

/-- A candidate that did not exist at first. -/
def FreeAtFirst (files : Files) (dir : Line) (n : Nat) : Prop :=
  (⟨dir, backupName n⟩ : Path) ∉ files

instance (files : Files) (dir : Line) : DecidablePred (FreeAtFirst files dir) :=
  fun _ => inferInstanceAs (Decidable (_ ∉ _))

/-- The candidates have their files, and those that were free at first those of the log. -/
def IsLog (files : Files) (h : List Event) : Prop :=
  ∀ dir n, (filesAfter files h).lookup ⟨dir, backupName n⟩ =
    if FreeAtFirst files dir n then
      (backupLog files dir h)[Nat.count (FreeAtFirst files dir) n]?
    else files.lookup ⟨dir, backupName n⟩

variable {files : Files} {h : List Event}

/-- A candidate is taken if it existed at first, or if the log has an entry for it. -/
theorem IsLog.mem_names (hl : IsLog files h) {dir : Line} {n : Nat} :
    backupName n ∈ names (filesAfter files h) dir ↔
      (FreeAtFirst files dir n →
        Nat.count (FreeAtFirst files dir) n < (backupLog files dir h).length) := by
  rw [Grub.mem_names, ← AList.lookup_isSome, hl dir n]
  by_cases hn : FreeAtFirst files dir n
  · rw [if_pos hn, isSome_getElem?]
    exact ⟨fun hlt _ => hlt, fun h => h hn⟩
  · rw [if_neg hn, AList.lookup_isSome]
    exact iff_of_true (not_not.1 hn) fun h => absurd h hn

/-- The first candidate that does not exist is the next one of the log. -/
theorem IsLog.count_of_firstFree (hl : IsLog files h) {dir : Line} {n : Nat}
    (hn : FirstFree (names (filesAfter files h) dir) n) :
    FreeAtFirst files dir n ∧
      Nat.count (FreeAtFirst files dir) n = (backupLog files dir h).length := by
  obtain ⟨hfree, hbelow⟩ := hn
  rw [hl.mem_names, Classical.not_imp, Nat.not_lt] at hfree
  exact ⟨hfree.1, count_of_first hfree.2 fun j hj => hl.mem_names.1 (hbelow j hj)⟩

/-- A run that gets to its backup adds it to the log of its directory. -/
theorem IsLog.run (hl : IsLog files h) (r : Run) : IsLog files (.run r :: h) := by
  intro dir n
  show (turnOffVdso r (filesAfter files h)).lookup _ = _
  have hlog : backupLog files dir (.run r :: h) = backupLog files dir h ++
      if r.dir = dir then (backedUp (filesAfter files h) r).toList else [] := rfl
  rcases turnOffVdso_cases r (filesAfter files h) with ⟨heq, hno⟩ | ⟨lines, k, hr, hk, heq⟩
  · have hnone : backedUp (filesAfter files h) r = none :=
      Option.eq_none_iff_forall_ne_some.2 fun lines hsome => hno lines (backedUp_eq_some.1 hsome)
    rw [heq, hlog, hnone, Option.toList_none, ite_self, List.append_nil]
    exact hl dir n
  · have hsome : backedUp (filesAfter files h) r = some lines := backedUp_eq_some.2 hr
    rw [heq, AList.lookup_insert_ne (backupPath_ne_configPath dir n), hlog, hsome]
    by_cases hdir : r.dir = dir
    · subst hdir
      obtain ⟨hfree, hcount⟩ := hl.count_of_firstFree hk
      rw [if_pos rfl, Option.toList_some]
      by_cases hn : n = k
      · subst hn
        rw [AList.lookup_insert, if_pos hfree, hcount, List.getElem?_concat_length]
      · have hpath : (⟨r.dir, backupName n⟩ : Path) ≠ ⟨r.dir, backupName k⟩ := fun h =>
          hn (backupName_injective (congrArg Path.name h))
        rw [AList.lookup_insert_ne hpath, hl r.dir n]
        by_cases hn' : FreeAtFirst files r.dir n
        · have hne : Nat.count (FreeAtFirst files r.dir) n ≠ (backupLog files r.dir h).length :=
            fun h => hn (Nat.count_injective hn' hfree (h.trans hcount.symm))
          rw [if_pos hn', if_pos hn', List.getElem?_append, List.getElem?_singleton]
          split
          · rfl
          · rename_i hge
            rw [if_neg (by omega), List.getElem?_eq_none (by omega)]
        · rw [if_neg hn', if_neg hn']
    · have hpath : (⟨dir, backupName n⟩ : Path) ≠ ⟨r.dir, backupName k⟩ := fun h =>
        hdir (congrArg Path.dir h).symm
      rw [AList.lookup_insert_ne hpath, if_neg hdir, List.append_nil]
      exact hl dir n

/-- **The backups are a log**: after every run of scripts and writers, and in every directory, the
candidates that were free at first hold, in their order, the configurations that the runs from there
have backed up, in theirs, and nothing else; and the other candidates hold what they held. -/
theorem backups_log (files : Files) (h : List Event) : IsLog files h := by
  induction h with
  | nil =>
    intro dir n
    by_cases hn : FreeAtFirst files dir n
    · rw [if_pos hn]
      exact AList.lookup_eq_none.2 hn
    · rw [if_neg hn]
      rfl
  | cons e h ih =>
    cases e with
    | run r => exact ih.run r
    | write lines =>
      intro dir n
      exact (AList.lookup_insert_ne (backupPath_ne_configPath dir n)).trans (ih dir n)

end Grub
