import DetBuilds.Bpf.Proof.OwnKeys

/-!
# Marked threads

`modify_file_read` and `preload_filter` mark a thread in `tids` when it enters certain calls and
take the mark away when it returns from others. `Marking p` says so of a program. `armed` tells
from the events of a thread alone which marks are due:

* `Marking.armed_of_mark`: a thread in `tids` is armed, however full the map is;
* `Marking.mark_iff_armed`: in runs that fill no map, the threads in `tids` are the armed ones.
-/

set_option autoImplicit false

namespace Bpf

open History

/-- A program that marks threads on entering some calls until they return from others. -/
structure Marking {σ α : Type} (p : Program σ α) where
  tids : σ → TidMap (BitVec 8)
  Marks : Task → Nr → Args → Prop
  Clears : Comm → Nr → Prop
  [decMarks : ∀ task nr args, Decidable (Marks task nr args)]
  [decClears : ∀ comm nr, Decidable (Clears comm nr)]
  tids_empty : ∀ t, (tids p.empty).lookup t = none
  enter_tids : ∀ task nr args s, tids (p.step (.enter task nr args) s).1 =
    if Marks task nr args then (tids s).update task.tid 0 .any else tids s
  exit_tids : ∀ task nr ret s t, (tids (p.step (.exit task nr ret) s).1).lookup t =
    if t = task.tid ∧ Clears task.comm nr then none else (tids s).lookup t
  view : ∀ s, mapView (tids s) ∈ p.views s

namespace Marking

variable {σ α : Type} {p : Program σ α} (M : Marking p)

attribute [instance] Marking.decMarks Marking.decClears

/-- The latest of the thread's events that mark it or take the mark away marks it. -/
def armed : List Event → Tid → Bool
  | [], _ => false
  | .enter task nr args :: h, t =>
    if task.tid = t ∧ M.Marks task nr args then true else armed h t
  | .exit task nr _ :: h, t =>
    if task.tid = t ∧ M.Clears task.comm nr then false else armed h t
  | .spawn _ :: h, t => armed h t
  | .die _ :: h, t => armed h t

/-- The event marks the thread. -/
def Sets (t : Tid) : Event → Prop
  | .enter task nr args => task.tid = t ∧ M.Marks task nr args
  | _ => False

/-- The event takes the thread's mark away. -/
def Resets (t : Tid) : Event → Prop
  | .exit task nr _ => task.tid = t ∧ M.Clears task.comm nr
  | _ => False

instance (t : Tid) : DecidablePred (M.Sets t)
  | .enter _ _ _ => inferInstanceAs (Decidable (_ ∧ _))
  | .exit _ _ _ => inferInstanceAs (Decidable False)
  | .spawn _ => inferInstanceAs (Decidable False)
  | .die _ => inferInstanceAs (Decidable False)

instance (t : Tid) : DecidablePred (M.Resets t)
  | .enter _ _ _ => inferInstanceAs (Decidable False)
  | .exit _ _ _ => inferInstanceAs (Decidable (_ ∧ _))
  | .spawn _ => inferInstanceAs (Decidable False)
  | .die _ => inferInstanceAs (Decidable False)

/-- The thread's mark after a run. -/
def mark (h : List Event) (t : Tid) : Option (BitVec 8) := (M.tids (p.run h)).lookup t

/-! ## One step -/

theorem mark_nil (t : Tid) : M.mark [] t = none := M.tids_empty t

theorem mark_exit {h : List Event} {task : Task} {nr : Nr} {ret : Int} (t : Tid) :
    M.mark (.exit task nr ret :: h) t =
      if t = task.tid ∧ M.Clears task.comm nr then none else M.mark h t := by
  unfold mark
  rw [Program.run_cons, M.exit_tids]

/-- Entering a call that marks another thread, or none, keeps the mark. -/
theorem mark_enter_other {h : List Event} {task : Task} {nr : Nr} {args : Args} {t : Tid}
    (hm : ¬ (task.tid = t ∧ M.Marks task nr args)) :
    M.mark (.enter task nr args :: h) t = M.mark h t := by
  unfold mark
  rw [Program.run_cons, M.enter_tids]
  split
  · rename_i hmk
    exact BoundedMap.lookup_update_ne _ _ _ fun ht => hm ⟨ht.symm, hmk⟩
  · rfl

@[simp] theorem mark_spawn (h : List Event) (u t : Tid) :
    M.mark (.spawn u :: h) t = M.mark h t := by
  unfold mark; rw [Program.run_cons, p.step_spawn]

@[simp] theorem mark_die (h : List Event) (u t : Tid) : M.mark (.die u :: h) t = M.mark h t := by
  unfold mark; rw [Program.run_cons, p.step_die]

/-- Neither marks the thread nor takes its mark away. -/
def Keeps (t : Tid) : Event → Prop
  | .enter task nr args => ¬ (task.tid = t ∧ M.Marks task nr args)
  | .exit task nr _ => ¬ (task.tid = t ∧ M.Clears task.comm nr)
  | .spawn _ => True
  | .die _ => True

theorem mark_keeps {e : Event} {h : List Event} {t : Tid} (he : M.Keeps t e) :
    M.mark (e :: h) t = M.mark h t := by
  cases e with
  | enter task nr args => exact M.mark_enter_other he
  | exit task nr ret => rw [M.mark_exit]; exact if_neg fun hm => he ⟨hm.1.symm, hm.2⟩
  | spawn u => exact M.mark_spawn h u t
  | die u => exact M.mark_die h u t

theorem mark_append {l h : List Event} {t : Tid} (hl : ∀ e ∈ l, M.Keeps t e) :
    M.mark (l ++ h) t = M.mark h t := by
  induction l with
  | nil => rfl
  | cons e l ih =>
    rw [List.cons_append, M.mark_keeps (hl e (by simp))]
    exact ih fun e' he' => hl e' (.tail _ he')

/-- Other threads' calls keep the mark. -/
theorem keeps_of_spares {e : Event} {t : Tid} (he : Spares t e) : M.Keeps t e := by
  cases e with
  | enter task nr args => exact fun hm => he hm.1
  | exit task nr ret => exact fun hm => he hm.1
  | spawn u => trivial
  | die u => trivial

theorem mark_spares {e : Event} {h : List Event} {t : Tid} (he : Spares t e) :
    M.mark (e :: h) t = M.mark h t := M.mark_keeps (M.keeps_of_spares he)

/-! ## Marks and the thread's events -/

/-- An armed thread is one whose latest event of the two kinds marks it. -/
theorem armed_iff_latestIs (h : List Event) (t : Tid) :
    M.armed h t = true ↔ LatestIs (M.Sets t) (M.Resets t) h := by
  induction h with
  | nil => exact iff_of_false Bool.false_ne_true Bool.false_ne_true
  | cons e h ih =>
    rw [latestIs_cons, ← ih]
    cases e with
    | enter task nr args =>
      show (if task.tid = t ∧ M.Marks task nr args then true else M.armed h t) = true ↔ _
      by_cases hm : task.tid = t ∧ M.Marks task nr args <;> simp [Sets, Resets, hm]
    | exit task nr ret =>
      show (if task.tid = t ∧ M.Clears task.comm nr then false else M.armed h t) = true ↔ _
      by_cases hc : task.tid = t ∧ M.Clears task.comm nr <;> simp [Sets, Resets, hc]
    | spawn u => exact (or_iff_right id).trans (and_iff_right id) |>.symm
    | die u => exact (or_iff_right id).trans (and_iff_right id) |>.symm

/-- Whether a thread is armed does not change while it is in a call that does not mark it. -/
theorem latestIs_beforeCall {h : List Event} {t : Tid} {f : Frame} (hf : inflight h t = some f)
    (hm : ¬ M.Marks f.task f.nr f.args) :
    LatestIs (M.Sets t) (M.Resets t) h ↔ LatestIs (M.Sets t) (M.Resets t) (beforeCall h t) := by
  refine while_inflight (I := fun h => LatestIs (M.Sets t) (M.Resets t) h ↔
    LatestIs (M.Sets t) (M.Resets t) (beforeCall h t)) (fun k => ?_) (fun e k he hk => ?_) hf
  · rw [latestIs_cons, beforeCall, if_pos (inflight_tid hf)]
    simp [Sets, Resets, hm]
  · rw [latestIs_cons, beforeCall_spares he, ← hk]
    cases e with
    | enter task nr args => simp [Sets, Resets, show task.tid ≠ t from he]
    | exit task nr ret => simp [Sets, Resets, show task.tid ≠ t from he]
    | spawn u => simp [Sets, Resets]
    | die u => simp [Sets, Resets]

/-- **Marked threads are armed**, however full the map is. -/
theorem armed_of_mark {h : List Event} {t : Tid} (hm : (M.mark h t).isSome) :
    M.armed h t = true := by
  induction h with
  | nil => rw [M.mark_nil] at hm; cases hm
  | cons e h ih =>
    cases e with
    | enter task nr args =>
      unfold armed
      split
      · rfl
      · rename_i hno
        rw [M.mark_enter_other hno] at hm
        exact ih hm
    | exit task nr ret =>
      rw [M.mark_exit] at hm
      unfold armed
      by_cases hc : task.tid = t ∧ M.Clears task.comm nr
      · rw [if_pos ⟨hc.1.symm, hc.2⟩] at hm; cases hm
      · rw [if_neg fun h' => hc ⟨h'.1.symm, h'.2⟩] at hm
        rw [if_neg hc]
        exact ih hm
    | spawn u => exact ih (by simpa using hm)
    | die u => exact ih (by simpa using hm)

/-- Between two returns of a thread from call `nr` that are written to, it has been marked anew. -/
def Rearmed (nr : Nr) (P : Tid → Event → Prop) (h : List Event) : Prop :=
  ∀ task ret task' ret' l k,
    .exit task nr ret :: (l ++ .exit task' nr ret' :: k) <:+ h → task'.tid = task.tid →
    (p.write (l ++ .exit task' nr ret' :: k) (.exit task nr ret)).isSome →
    (p.write k (.exit task' nr ret')).isSome → ∃ e ∈ l, P task.tid e

/-- So it is if what is written to marked threads takes the mark away. -/
theorem rearmed {nr : Nr} {P : Tid → Event → Prop} {h : List Event}
    (hw : ∀ k task ret, (p.write k (.exit task nr ret)).isSome →
      M.Clears task.comm nr ∧ (M.mark k task.tid).isSome)
    (hP : ∀ e ∈ h, ∀ t, M.Sets t e → P t e) : Rearmed (p := p) nr P h := by
  intro task ret task' ret' l k hsuf htid hw₁ hw₂
  have harm := M.armed_of_mark (hw _ _ _ hw₁).2
  have hclears : M.Resets task.tid (.exit task' nr ret') := ⟨htid, (hw _ _ _ hw₂).1⟩
  obtain ⟨e, he, hsets⟩ := exists_of_latestIs ((M.armed_iff_latestIs _ _).1 harm) hclears id
  exact ⟨e, he, hP e (hsuf.subset (.tail _ (List.mem_append_left _ he))) _ hsets⟩

/-- A map that never fills up has room. -/
theorem hasRoom {h : List Event} (hn : p.NeverFull h) (t : Tid) :
    (M.tids (p.run h)).HasRoom t :=
  mapView_room.1 (.inr (hn.last _ (M.view _)))

/-- **The marked threads are the armed ones** in runs that fill no map. -/
theorem mark_iff_armed {h : List Event} (hn : p.NeverFull h) (t : Tid) :
    (M.mark h t).isSome ↔ M.armed h t = true := by
  refine ⟨M.armed_of_mark, fun ha => ?_⟩
  induction h with
  | nil => cases ha
  | cons e h ih =>
    have ih := ih hn.2
    cases e with
    | enter task nr args =>
      by_cases hm : task.tid = t ∧ M.Marks task nr args
      · have hr := M.hasRoom hn.2 task.tid
        obtain ⟨rfl, hm⟩ := hm
        unfold mark
        rw [Program.run_cons, M.enter_tids, if_pos hm, BoundedMap.lookup_update_any 0 hr]
        rfl
      · rw [M.mark_enter_other hm]
        unfold armed at ha
        rw [if_neg hm] at ha
        exact ih ha
    | exit task nr ret =>
      unfold armed at ha
      by_cases hc : task.tid = t ∧ M.Clears task.comm nr
      · rw [if_pos hc] at ha; cases ha
      · rw [if_neg hc] at ha
        rw [M.mark_exit, if_neg fun h' => hc ⟨h'.1.symm, h'.2⟩]
        exact ih ha
    | spawn u => rw [mark_spawn]; exact ih ha
    | die u => rw [mark_die]; exact ih ha

/-- What entering a call records for a marked thread is on record while the thread is in the call,
unless no room was left for it. -/
theorem record_inflight (map : σ → TidMap Addr) {h : List Event} {t : Tid} {f : Frame} {a : Addr}
    (hv : ∀ s, mapView (map s) ∈ p.views s)
    (hspare : ∀ e k, Spares t e → (map (p.run (e :: k))).lookup t = (map (p.run k)).lookup t)
    (hmarks : ¬ M.Marks f.task f.nr f.args)
    (henter : ∀ k, (M.mark k t).isSome →
      map (p.run (.enter f.task f.nr f.args :: k)) = (map (p.run k)).update t a .any)
    (hf : inflight h t = some f) (hm : (M.mark h t).isSome) :
    (map (p.run h)).lookup t = some a ∨ ((map (p.run h)).lookup t = none ∧ ¬ p.NeverFull h) := by
  revert hm
  refine while_inflight (I := fun h => (M.mark h t).isSome → (map (p.run h)).lookup t = some a ∨
    ((map (p.run h)).lookup t = none ∧ ¬ p.NeverFull h))
    (fun k hm => ?_) (fun e k he ih hm => ?_) hf
  · rw [M.mark_enter_other fun hc => hmarks hc.2] at hm
    rw [henter k hm]
    refine (BoundedMap.lookup_update_any_or _ t a).imp_right fun hn => ⟨hn.1, fun hk => hn.2 ?_⟩
    exact mapView_room.1 (.inr (hk.2.last _ (hv _)))
  · rw [M.mark_spares he] at hm
    rw [hspare e k he]
    exact (ih hm).imp_right fun hn => ⟨hn.1, fun hk => hn.2 hk.2⟩

/-- If entries are made on entering calls `C` of marked threads and taken out again on return, then
whoever has an entry is in such a call and marked. -/
theorem record_sub (map : σ → TidMap Addr) (C : Comm → Nr → Prop)
    (hempty : ∀ t, (map p.empty).lookup t = none)
    (hspare : ∀ e k t, Spares t e → (map (p.run (e :: k))).lookup t = (map (p.run k)).lookup t)
    (hmarks : ∀ task nr args, C task.comm nr → ¬ M.Marks task nr args)
    (henter : ∀ k task nr args, ((map (p.run (.enter task nr args :: k))).lookup task.tid).isSome →
      ((map (p.run k)).lookup task.tid).isSome ∨ (C task.comm nr ∧ (M.mark k task.tid).isSome))
    (hexit : ∀ k task nr ret, ((map (p.run (.exit task nr ret :: k))).lookup task.tid).isSome →
      ((map (p.run k)).lookup task.tid).isSome ∧ ¬ (C task.comm nr ∧ (M.mark k task.tid).isSome))
    {h : List Event} (ha : Alternating h) (t : Tid) (hl : ((map (p.run h)).lookup t).isSome) :
    ∃ f, inflight h t = some f ∧ C f.task.comm f.nr ∧ (M.mark h t).isSome := by
  induction h with
  | nil => rw [Program.run_nil, hempty] at hl; cases hl
  | cons e h ih =>
    have ih := ih ha.2
    have hother : Spares t e → e.tid ≠ t ∨ (∃ u, e = .spawn u) ∨ (∃ u, e = .die u) →
        ∃ f, inflight (e :: h) t = some f ∧ C f.task.comm f.nr ∧ (M.mark (e :: h) t).isSome := by
      intro he hcase
      rw [hspare e h t he] at hl
      rw [M.mark_spares he]
      obtain hne | ⟨u, rfl⟩ | ⟨u, rfl⟩ := hcase
      · rw [inflight_of_ne h hne]; exact ih hl
      · exact ih hl
      · exact ih hl
    cases e with
    | enter task nr args =>
      by_cases ht : task.tid = t
      · subst ht
        rcases henter h task nr args hl with hl' | ⟨hC, hm⟩
        · obtain ⟨f, hf, -⟩ := ih hl'
          rw [alternates_enter.1 ha.1] at hf; cases hf
        · refine ⟨_, inflight_enter_self task nr args h, hC, ?_⟩
          rwa [M.mark_enter_other fun hk => hmarks task nr args hC hk.2]
      · exact hother ht (.inl ht)
    | exit task nr ret =>
      by_cases ht : task.tid = t
      · subst ht
        obtain ⟨hl', hno⟩ := hexit h task nr ret hl
        obtain ⟨f, hf, hC, hm⟩ := ih hl'
        obtain ⟨hnr, hc⟩ := alternates_frame ha.1 hf
        exact absurd ⟨hc ▸ hnr ▸ hC, hm⟩ hno
      · exact hother ht (.inl ht)
    | spawn u => exact hother trivial (.inr (.inl ⟨u, rfl⟩))
    | die u => exact hother trivial (.inr (.inr ⟨u, rfl⟩))

/-! ## Writes through what is on record -/

/-- Only an armed thread has something written through the address on record, and it is the call's
own if that is what the call leaves. -/
theorem of_write_record {h : List Event} {t : Tid} {o : Option Addr} {a : Addr} {w : UserWrite}
    {through : Addr → UserWrite} {C Own : Prop} [Decidable C]
    (hrec : Own → (M.mark h t).isSome → o = some a ∨ (o = none ∧ ¬ p.NeverFull h))
    (hw : (if C ∧ (M.mark h t).isSome then o.map through else none) = some w) :
    C ∧ M.armed h t = true ∧ (Own → w = through a) := by
  split at hw
  · rename_i hm
    refine ⟨hm.1, M.armed_of_mark hm.2, fun hown => ?_⟩
    rcases hrec hown hm.2 with hs | ⟨hs, -⟩
    · rw [hs] at hw; cases hw; rfl
    · rw [hs] at hw; cases hw
  · cases hw

/-- In runs that fill no map, every armed thread has. -/
theorem write_record {h : List Event} {t : Tid} {o : Option Addr} {a : Addr}
    {through : Addr → UserWrite} {C : Prop} [Decidable C] (hn : p.NeverFull h)
    (hrec : C → (M.mark h t).isSome → o = some a ∨ (o = none ∧ ¬ p.NeverFull h)) :
    (if C ∧ (M.mark h t).isSome then o.map through else none) =
      if C ∧ M.armed h t = true then some (through a) else none := by
  simp only [M.mark_iff_armed hn]
  split
  · rename_i hca
    have hm := (M.mark_iff_armed hn t).2 hca.2
    rw [(hrec hca.1 hm).resolve_right fun h' => h'.2 hn]
    rfl
  · rfl

end Marking

/-- Other threads' calls keep a thread's entries. -/
theorem Program.OwnKeys.entries_spares {σ α : Type} {p : Program σ α}
    {own : Event → α → α × Option UserWrite} (hp : p.OwnKeys own) {e : Event} {h : List Event}
    {t : Tid} (he : Spares t e) : p.entries (p.run (e :: h)) t = p.entries (p.run h) t := by
  rw [run_cons]
  cases e with
  | enter task nr args => exact hp.isLocal.frame _ _ _ he
  | exit task nr ret => exact hp.isLocal.frame _ _ _ he
  | spawn u => rw [step_spawn]
  | die u => rw [step_die]

theorem Program.OwnKeys.entries_append {σ α : Type} {p : Program σ α}
    {own : Event → α → α × Option UserWrite} (hp : p.OwnKeys own) {l h : List Event} {t : Tid}
    (hl : ∀ e ∈ l, Spares t e) : p.entries (p.run (l ++ h)) t = p.entries (p.run h) t := by
  induction l with
  | nil => rfl
  | cons e l ih =>
    rw [List.cons_append, hp.entries_spares (hl e (by simp))]
    exact ih fun e' he' => hl e' (.tail _ he')

end Bpf
