import DetBuilds.Bpf.Proof.Marking

/-!
# Runs of `modify_file_read`

What the maps hold for a thread inside a call, and what its return writes: nothing, unless the
thread is marked and under `cc1` (`write_newfstatat_eq`, `write_read_eq`), and then only
through the pointer of the call itself (`statP_inflight`, `contentP_inflight`). In runs that fill
no map, an armed thread's calls are all rewritten (`write_newfstatat`, `write_read`).
-/

set_option autoImplicit false

namespace Bpf.ModifyFileRead

open History

def marking : Marking program where
  tids s := s.tids
  Marks := Marks
  Clears comm nr := nr = .read ∧ commFilter comm = true
  tids_empty _ := rfl
  enter_tids task nr args s := by rw [step_enter]
  exit_tids task nr ret s t := by
    by_cases h₁ : nr = .newfstatat
    · subst h₁
      rw [step_exit_newfstatat]
      simp only [reduceCtorEq, false_and, and_false, if_false]
      split
      · split <;> rfl
      · rfl
    · by_cases h₂ : nr = .read
      · subst h₂
        rw [step_exit_read]
        by_cases hc : commFilter task.comm = true
        · simp only [hc, true_and, and_true]
          cases hl : s.tids.lookup task.tid with
          | none => exact BoundedMap.lookup_of_none hl t
          | some _ => exact BoundedMap.lookup_delete _ _ t
        · simp [hc]
      · rw [step_exit_other task ret s h₁ h₂]
        simp [h₂]
  view s := by simp [program]

/-- The address on record for a thread's `newfstatat`. -/
def statP (h : List Event) (t : Tid) : Option Addr := (program.run h).statPs.lookup t

/-- The address on record for a thread's `read`. -/
def contentP (h : List Event) (t : Tid) : Option Addr := (program.run h).contentPs.lookup t

/-! ## Calls in flight -/

/-- A `newfstatat` of a marked thread has its pointer on record, or no room was left for it. -/
theorem statP_inflight {h : List Event} {t : Tid} {f : Frame} (hf : inflight h t = some f)
    (hnr : f.nr = .newfstatat) (hc : commFilter f.task.comm = true)
    (hm : (marking.mark h t).isSome) :
    statP h t = some f.args.arg2 ∨ (statP h t = none ∧ ¬ program.NeverFull h) := by
  have ht := inflight_tid hf
  subst ht
  refine marking.record_inflight Maps.statPs (fun s => by simp [program])
    (fun e k he => congrArg Entries.statP (ownKeys.entries_spares he))
    (by simp [marking, Marks, hnr]) (fun k hk => ?_) hf hm
  have hk : ((program.run k).tids.lookup f.task.tid).isSome := hk
  rw [Program.run_cons, step_enter]
  simp only [hnr, hc, hk, and_self, if_true]

/-- A `read` of a marked thread has its buffer on record, or no room was left for it. -/
theorem contentP_inflight {h : List Event} {t : Tid} {f : Frame} (hf : inflight h t = some f)
    (hnr : f.nr = .read) (hc : commFilter f.task.comm = true) (hm : (marking.mark h t).isSome) :
    contentP h t = some f.args.arg1 ∨ (contentP h t = none ∧ ¬ program.NeverFull h) := by
  have ht := inflight_tid hf
  subst ht
  refine marking.record_inflight Maps.contentPs (fun s => by simp [program])
    (fun e k he => congrArg Entries.contentP (ownKeys.entries_spares he))
    (by simp [marking, Marks, hnr]) (fun k _ => ?_) hf hm
  rw [Program.run_cons, step_enter]
  simp only [hnr, hc, and_self, if_true]

/-- A thread with an address on record for `newfstatat` is in such a call, marked and as `cc1`. -/
theorem statP_sub {h : List Event} (ha : Alternating h) {t : Tid} (hl : (statP h t).isSome) :
    ∃ f, inflight h t = some f ∧ (f.nr = .newfstatat ∧ commFilter f.task.comm = true) ∧
      (marking.mark h t).isSome := by
  refine marking.record_sub Maps.statPs (fun comm nr => nr = .newfstatat ∧ commFilter comm = true)
    (fun _ => rfl) (fun e k t he => congrArg Entries.statP (ownKeys.entries_spares he))
    (fun task nr args hC => by simp [marking, Marks, hC.1]) (fun k task nr args hk => ?_)
    (fun k task nr ret hk => ?_) ha t hl
  · rw [Program.run_cons, step_enter] at hk
    by_cases hC : nr = .newfstatat ∧ commFilter task.comm = true ∧
        ((program.run k).tids.lookup task.tid).isSome = true
    · exact .inr ⟨⟨hC.1, hC.2.1⟩, hC.2.2⟩
    · simp only [if_neg hC] at hk
      exact .inl hk
  · rw [Program.run_cons] at hk
    by_cases h₁ : nr = .newfstatat
    · subst h₁
      rw [step_exit_newfstatat] at hk
      by_cases hC : commFilter task.comm = true ∧
          ((program.run k).tids.lookup task.tid).isSome = true
      · rw [if_pos hC] at hk
        cases hp : (program.run k).statPs.lookup task.tid <;> simp [hp] at hk
      · rw [if_neg hC] at hk
        exact ⟨hk, fun h' => hC ⟨h'.1.2, h'.2⟩⟩
    · by_cases h₂ : nr = .read
      · subst h₂
        rw [step_exit_read] at hk
        refine ⟨?_, fun h' => h₁ h'.1.1⟩
        split at hk <;> exact hk
      · rw [step_exit_other task ret _ h₁ h₂] at hk
        exact ⟨hk, fun h' => h₁ h'.1.1⟩

/-- The thread, or one before it with its tid, has entered a `read` as `cc1`. -/
def hasRead : List Event → Tid → Bool
  | [], _ => false
  | .enter task nr _ :: h, t =>
    if task.tid = t ∧ nr = .read ∧ commFilter task.comm = true then true else hasRead h t
  | .exit _ _ _ :: h, t => hasRead h t
  | .spawn _ :: h, t => hasRead h t
  | .die _ :: h, t => hasRead h t

theorem contentP_exit (h : List Event) (task : Task) (nr : Nr) (ret : Int) (t : Tid) :
    contentP (.exit task nr ret :: h) t = contentP h t := by
  unfold contentP
  rw [Program.run_cons]
  by_cases h₁ : nr = .newfstatat
  · subst h₁
    rw [step_exit_newfstatat]
    split
    · split <;> rfl
    · rfl
  · by_cases h₂ : nr = .read
    · subst h₂
      rw [step_exit_read]
      split <;> rfl
    · rw [step_exit_other task ret _ h₁ h₂]

/-- Entering another call than a `read` of `cc1` keeps the addresses on record. -/
theorem contentP_enter_other {h : List Event} {task : Task} {nr : Nr} {args : Args} {t : Tid}
    (hno : ¬ (task.tid = t ∧ nr = .read ∧ commFilter task.comm = true)) :
    contentP (.enter task nr args :: h) t = contentP h t := by
  unfold contentP
  rw [Program.run_cons, step_enter]
  by_cases ht : t = task.tid
  · have hC : ¬ (nr = .read ∧ commFilter task.comm = true) := fun hC => hno ⟨ht.symm, hC⟩
    simp only [if_neg hC]
  · exact BoundedMap.lookup_updateIf_ne _ _ _ _ ht

/-- Only threads that have read as `cc1` have a buffer on record. -/
theorem hasRead_of_contentP {h : List Event} {t : Tid} (hl : (contentP h t).isSome) :
    hasRead h t = true := by
  induction h with
  | nil => cases hl
  | cons e h ih =>
    cases e with
    | enter task nr args =>
      unfold hasRead
      split
      · rfl
      · rename_i hno
        rw [contentP_enter_other hno] at hl
        exact ih hl
    | exit task nr ret => exact ih (by rwa [contentP_exit] at hl)
    | spawn u => exact ih hl
    | die u => exact ih hl

/-- **A buffer address stays on record** for good, in runs that fill no map. -/
theorem contentP_of_hasRead {h : List Event} {t : Tid} (hn : program.NeverFull h)
    (hr : hasRead h t = true) : (contentP h t).isSome := by
  induction h with
  | nil => cases hr
  | cons e h ih =>
    have ih := ih hn.2
    cases e with
    | enter task nr args =>
      by_cases hC : task.tid = t ∧ nr = .read ∧ commFilter task.comm = true
      · obtain ⟨rfl, hC⟩ := hC
        have hroom : (program.run h).contentPs.HasRoom task.tid :=
          mapView_room.1 (.inr (hn.2.last _ (by simp [program])))
        unfold contentP
        rw [Program.run_cons, step_enter]
        simp only [if_pos hC]
        rw [BoundedMap.lookup_update_any _ hroom]
        rfl
      · unfold hasRead at hr
        rw [if_neg hC] at hr
        rw [contentP_enter_other hC]
        exact ih hr
    | exit task nr ret => rw [contentP_exit]; exact ih hr
    | spawn u => exact ih hr
    | die u => exact ih hr

/-! ## Writes -/

theorem write_enter (h : List Event) (task : Task) (nr : Nr) (args : Args) :
    program.write h (.enter task nr args) = none := by
  unfold Program.write
  rw [step_enter]

theorem write_newfstatat_eq (h : List Event) (task : Task) (ret : Int) :
    program.write h (.exit task .newfstatat ret) =
      if commFilter task.comm = true ∧ (marking.mark h task.tid).isSome then
        (statP h task.tid).map fun a => ⟨a + 48, le64 (BitVec.ofNat 64 localtimeSize)⟩
      else none := by
  have hm : marking.mark h task.tid = (program.run h).tids.lookup task.tid := rfl
  rw [hm]
  unfold Program.write statP
  rw [step_exit_newfstatat]
  by_cases hc : commFilter task.comm = true ∧
    ((program.run h).tids.lookup task.tid).isSome = true
  · rw [if_pos hc, if_pos hc]
    cases (program.run h).statPs.lookup task.tid <;> rfl
  · rw [if_neg hc, if_neg hc]

theorem write_read_eq (h : List Event) (task : Task) (ret : Int) :
    program.write h (.exit task .read ret) =
      if commFilter task.comm = true ∧ (marking.mark h task.tid).isSome then
        (contentP h task.tid).map fun a => ⟨a, localtimeContent.take localtimeSize⟩
      else none := by
  have hm : marking.mark h task.tid = (program.run h).tids.lookup task.tid := rfl
  rw [hm]
  unfold Program.write contentP
  rw [step_exit_read]
  by_cases hc : commFilter task.comm = true ∧
    ((program.run h).tids.lookup task.tid).isSome = true
  · rw [if_pos hc, if_pos hc]
  · rw [if_neg hc, if_neg hc]

theorem write_exit_other (h : List Event) (task : Task) {nr : Nr} (ret : Int)
    (h₁ : nr ≠ .newfstatat) (h₂ : nr ≠ .read) : program.write h (.exit task nr ret) = none := by
  unfold Program.write
  rw [step_exit_other task ret _ h₁ h₂]

/-- However full the maps are, only armed `cc1` threads have a size rewritten, and if the call was
entered as `cc1` it is its own. -/
theorem of_write_newfstatat {h : List Event} {task : Task} {ret : Int} {f : Frame} {w : UserWrite}
    (hf : inflight h task.tid = some f) (hnr : f.nr = .newfstatat)
    (hw : program.write h (.exit task .newfstatat ret) = some w) :
    commFilter task.comm = true ∧ marking.armed h task.tid = true ∧
      (commFilter f.task.comm = true →
        w = ⟨f.args.arg2 + 48, le64 (BitVec.ofNat 64 localtimeSize)⟩) := by
  rw [write_newfstatat_eq] at hw
  exact marking.of_write_record (fun hc hm => statP_inflight hf hnr hc hm) hw

/-- The same of the buffer of a `read`. -/
theorem of_write_read {h : List Event} {task : Task} {ret : Int} {f : Frame} {w : UserWrite}
    (hf : inflight h task.tid = some f) (hnr : f.nr = .read)
    (hw : program.write h (.exit task .read ret) = some w) :
    commFilter task.comm = true ∧ marking.armed h task.tid = true ∧
      (commFilter f.task.comm = true →
        w = ⟨f.args.arg1, localtimeContent.take localtimeSize⟩) := by
  rw [write_read_eq] at hw
  exact marking.of_write_record (fun hc hm => contentP_inflight hf hnr hc hm) hw

/-- A `newfstatat` of an armed `cc1` thread, and no other, has its size rewritten. -/
theorem write_newfstatat {h : List Event} {task : Task} {f : Frame} (ret : Int)
    (hn : program.NeverFull h) (hf : inflight h task.tid = some f) (hnr : f.nr = .newfstatat)
    (hc : f.task.comm = task.comm) :
    program.write h (.exit task .newfstatat ret) =
      if commFilter task.comm = true ∧ marking.armed h task.tid = true then
        some ⟨f.args.arg2 + 48, le64 (BitVec.ofNat 64 localtimeSize)⟩
      else none := by
  rw [write_newfstatat_eq]
  exact marking.write_record hn fun hc' hm => statP_inflight hf hnr (hc ▸ hc') hm

/-- A `read` of an armed `cc1` thread, and no other, has its buffer rewritten. -/
theorem write_read {h : List Event} {task : Task} {f : Frame} (ret : Int)
    (hn : program.NeverFull h) (hf : inflight h task.tid = some f) (hnr : f.nr = .read)
    (hc : f.task.comm = task.comm) :
    program.write h (.exit task .read ret) =
      if commFilter task.comm = true ∧ marking.armed h task.tid = true then
        some ⟨f.args.arg1, localtimeContent.take localtimeSize⟩
      else none := by
  rw [write_read_eq]
  exact marking.write_record hn fun hc' hm => contentP_inflight hf hnr (hc ▸ hc') hm

end Bpf.ModifyFileRead
