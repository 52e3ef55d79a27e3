import DetBuilds.Bpf.Proof.Marking

/-!
# Runs of `preload_filter`

What the maps hold for a thread inside a call, and what its return writes: nothing, unless the
thread is marked and not under `cc1`, and then only through the pointer of the call itself
(`statP_inflight`). In runs that fill no map, an armed thread's next `newfstatat` is always
rewritten (`write_newfstatat`).
-/

set_option autoImplicit false

namespace Bpf.PreloadFilter

open History

def marking : Marking program where
  tids s := s.tids
  Marks := Marks
  Clears comm nr := nr = .newfstatat ∧ commFilter comm = false
  tids_empty _ := rfl
  enter_tids task nr args s := by rw [step_enter]
  exit_tids task nr ret s t := by
    by_cases h₁ : nr = .newfstatat
    · subst h₁
      rw [step_exit_newfstatat]
      by_cases hc : commFilter task.comm = false
      · simp only [hc, true_and, and_true]
        cases hl : s.tids.lookup task.tid with
        | none => exact BoundedMap.lookup_of_none hl t
        | some _ =>
          cases s.statPs.lookup task.tid with
          | none => exact BoundedMap.lookup_delete _ _ t
          | some _ => exact BoundedMap.lookup_delete _ _ t
      · simp [hc]
    · rw [step_exit_other task ret s h₁]
      simp [h₁]
  view s := by simp [program]

/-- The address on record for a thread's `newfstatat`. -/
def statP (h : List Event) (t : Tid) : Option Addr := (program.run h).statPs.lookup t

/-- A `newfstatat` of a marked thread has its pointer on record, or no room was left for it. -/
theorem statP_inflight {h : List Event} {t : Tid} {f : Frame} (hf : inflight h t = some f)
    (hnr : f.nr = .newfstatat) (hc : commFilter f.task.comm = false)
    (hm : (marking.mark h t).isSome) :
    statP h t = some f.args.arg2 ∨ (statP h t = none ∧ ¬ program.NeverFull h) := by
  have ht := inflight_tid hf
  subst ht
  refine marking.record_inflight Maps.statPs (fun s => by simp [program])
    (fun e k he => congrArg Entries.statP (ownKeys.entries_spares he))
    (by simp [marking, Marks, hnr]) (fun k hk => ?_) hf hm
  have hk : ((program.run k).tids.lookup f.task.tid).isSome := hk
  rw [Program.run_cons, step_enter]
  simp only [hnr, hc, hk, and_self, if_true]

/-- A thread with an address on record is in a `newfstatat`, marked and not as `cc1`. -/
theorem statP_sub {h : List Event} (ha : Alternating h) {t : Tid} (hl : (statP h t).isSome) :
    ∃ f, inflight h t = some f ∧ (f.nr = .newfstatat ∧ commFilter f.task.comm = false) ∧
      (marking.mark h t).isSome := by
  refine marking.record_sub Maps.statPs (fun comm nr => nr = .newfstatat ∧ commFilter comm = false)
    (fun _ => rfl) (fun e k t he => congrArg Entries.statP (ownKeys.entries_spares he))
    (fun task nr args hC => by simp [marking, Marks, hC.1]) (fun k task nr args hk => ?_)
    (fun k task nr ret hk => ?_) ha t hl
  · rw [Program.run_cons, step_enter] at hk
    by_cases hC : nr = .newfstatat ∧ commFilter task.comm = false ∧
        ((program.run k).tids.lookup task.tid).isSome = true
    · exact .inr ⟨⟨hC.1, hC.2.1⟩, hC.2.2⟩
    · simp only [if_neg hC] at hk
      exact .inl hk
  · rw [Program.run_cons] at hk
    by_cases h₁ : nr = .newfstatat
    · subst h₁
      rw [step_exit_newfstatat] at hk
      by_cases hC : commFilter task.comm = false ∧
          ((program.run k).tids.lookup task.tid).isSome = true
      · rw [if_pos hC] at hk
        cases hp : (program.run k).statPs.lookup task.tid <;> simp [hp] at hk
      · rw [if_neg hC] at hk
        exact ⟨hk, fun h' => hC ⟨h'.1.2, h'.2⟩⟩
    · rw [step_exit_other task ret _ h₁] at hk
      exact ⟨hk, fun h' => h₁ h'.1.1⟩

/-! ## Writes -/

theorem write_enter (h : List Event) (task : Task) (nr : Nr) (args : Args) :
    program.write h (.enter task nr args) = none := by
  unfold Program.write
  rw [step_enter]

theorem write_newfstatat_eq (h : List Event) (task : Task) (ret : Int) :
    program.write h (.exit task .newfstatat ret) =
      if commFilter task.comm = false ∧ (marking.mark h task.tid).isSome then
        (statP h task.tid).map fun a => ⟨a + 48, le64 0⟩
      else none := by
  have hm : marking.mark h task.tid = (program.run h).tids.lookup task.tid := rfl
  rw [hm]
  unfold Program.write statP
  rw [step_exit_newfstatat]
  by_cases hc : commFilter task.comm = false ∧
    ((program.run h).tids.lookup task.tid).isSome = true
  · rw [if_pos hc, if_pos hc]
    cases (program.run h).statPs.lookup task.tid <;> rfl
  · rw [if_neg hc, if_neg hc]

theorem write_exit_other (h : List Event) (task : Task) {nr : Nr} (ret : Int)
    (hnr : nr ≠ .newfstatat) : program.write h (.exit task nr ret) = none := by
  unfold Program.write
  rw [step_exit_other task ret _ hnr]

/-- However full the maps are, only armed threads have a size zeroed, under another comm than
`cc1`, and if the call was entered under such a comm it is its own. -/
theorem of_write_newfstatat {h : List Event} {task : Task} {ret : Int} {f : Frame} {w : UserWrite}
    (hf : inflight h task.tid = some f) (hnr : f.nr = .newfstatat)
    (hw : program.write h (.exit task .newfstatat ret) = some w) :
    commFilter task.comm = false ∧ marking.armed h task.tid = true ∧
      (commFilter f.task.comm = false → w = ⟨f.args.arg2 + 48, le64 0⟩) := by
  rw [write_newfstatat_eq] at hw
  exact marking.of_write_record (fun hc hm => statP_inflight hf hnr hc hm) hw

/-- The `newfstatat` of an armed thread not under `cc1`, and no other, has its size zeroed. -/
theorem write_newfstatat {h : List Event} {task : Task} {f : Frame} (ret : Int)
    (hn : program.NeverFull h) (hf : inflight h task.tid = some f) (hnr : f.nr = .newfstatat)
    (hc : f.task.comm = task.comm) :
    program.write h (.exit task .newfstatat ret) =
      if commFilter task.comm = false ∧ marking.armed h task.tid = true then
        some ⟨f.args.arg2 + 48, le64 0⟩
      else none := by
  rw [write_newfstatat_eq]
  exact marking.write_record hn fun hc' hm => statP_inflight hf hnr (hc ▸ hc') hm

end Bpf.PreloadFilter
