import DetBuilds.Bpf.Proof.FileRead
import DetBuilds.Bpf.Proof.Preload

/-!
# Maps on long runs

`NoExhaustion`: every map only holds entries of living threads, and then, as long as no more than
8192 threads live at once, every call finds room and is handled as if its thread were alone and the
maps were fresh (`Program.OwnKeys.noExhaustion`). The programs that hand a pointer over have this
in every run. The two that mark threads have it in the runs in which no thread dies while it is
armed and, for `modify_file_read`, none that has read as `cc1` dies at all, because nothing
takes a buffer address out of `content_ps` again (`no_exhaustion`).
-/

set_option autoImplicit false

namespace Bpf

open History

/-- What a thread has done since it was born. -/
def incarnation (t : Tid) : List Event → List Event
  | [] => []
  | .spawn u :: h => if u = t then [] else incarnation t h
  | .die u :: h => if u = t then .die u :: incarnation t h else incarnation t h
  | .enter task nr args :: h =>
    if task.tid = t then .enter task nr args :: incarnation t h else incarnation t h
  | .exit task nr ret :: h =>
    if task.tid = t then .exit task nr ret :: incarnation t h else incarnation t h

section
variable {σ α : Type} (p : Program σ α) (start : Finset Tid)

/-- Every map has keys of living threads only. -/
def LiveKeys (h : List Event) : Prop := ∀ v ∈ p.views (p.run h), v.keys ⊆ alive start h

/-- A living thread's event finds room in every map and is handled as in the run of what the thread
has done since it was born. -/
def HandledAsFresh (h : List Event) (e : Event) : Prop :=
  e.tid ∈ alive start h →
    (∀ v ∈ p.views (p.run h), v.admits e.tid) ∧
    p.write h e = p.write (incarnation e.tid h) e ∧
    p.entries (p.run (e :: h)) e.tid = p.entries (p.run (e :: incarnation e.tid h)) e.tid

/-- No run fills a map with entries of dead threads. -/
def NoExhaustion (h : List Event) : Prop :=
  EachState (LiveKeys p start) h ∧
    (EachState (fun h => (alive start h).card ≤ maxEntries) h →
      EachStep (HandledAsFresh p start) h)

end

/-! ## Living keys leave room -/

theorem tid_incarnation {t : Tid} {h : List Event} : ∀ e ∈ incarnation t h, e.tid = t := by
  induction h with
  | nil => simp [incarnation]
  | cons e h ih =>
    cases e with
    | spawn u =>
      unfold incarnation
      split
      · simp
      · exact ih
    | _ =>
      unfold incarnation
      split
      · rename_i ht
        simpa [Event.tid, ht] using ih
      · exact ih

/-- A thread that was just born has done nothing. -/
theorem incarnation_spawn (t : Tid) (h : List Event) : incarnation t (.spawn t :: h) = [] := by
  simp [incarnation]

theorem incarnation_self {e : Event} (h : List Event) (hs : ∀ t, e ≠ .spawn t) :
    incarnation e.tid (e :: h) = e :: incarnation e.tid h := by
  cases e with
  | spawn t => exact absurd rfl (hs t)
  | _ => simp [incarnation, Event.tid]

theorem incarnation_of_ne {e : Event} {t : Tid} (h : List Event) (hne : e.tid ≠ t) :
    incarnation t (e :: h) = incarnation t h := by
  cases e <;> simp_all [incarnation, Event.tid]

section
variable {σ α : Type} {p : Program σ α} {own : Event → α → α × Option UserWrite}
  {start : Finset Tid}

/-- Keys among at most 8192 threads leave room for each of these threads. -/
theorem room_of_mem {v : MapView} {s : Finset Tid} {t : Tid} (hv : v.keys ⊆ s)
    (hs : s.card ≤ maxEntries) (ht : t ∈ s) : v.Room t := by
  by_cases hk : t ∈ v.keys
  · exact .inl hk
  · refine .inr (Nat.lt_of_lt_of_le (Finset.card_lt_card ?_) hs)
    exact (Finset.ssubset_iff_of_subset hv).2 ⟨t, ht, hk⟩

theorem room_of_step {h : List Event} {e : Event} (hl : Lives start h e)
    (hk : LiveKeys p start h) (hc : (alive start h).card ≤ maxEntries)
    (hc' : (alive start (e :: h)).card ≤ maxEntries) : p.keyed.room (p.run h) e.tid := by
  intro v hv
  cases e with
  | spawn t =>
    exact room_of_mem ((hk v hv).trans (Finset.subset_insert t _)) hc' (Finset.mem_insert_self t _)
  | enter task nr args => exact room_of_mem (hk v hv) hc hl
  | exit task nr ret => exact room_of_mem (hk v hv) hc hl
  | die t => exact room_of_mem (hk v hv) hc hl

/-- The entries of a thread are those of what it has done since it was born. -/
theorem Program.OwnKeys.entries_incarnation (hp : p.OwnKeys own) {h : List Event}
    (hl : EachStep (Lives start) h) (hk : EachState (LiveKeys p start) h)
    (hc : EachState (fun h => (alive start h).card ≤ maxEntries) h) (t : Tid) :
    p.entries (p.run h) t = p.entries (p.run (incarnation t h)) t := by
  induction h with
  | nil => rfl
  | cons e h ih =>
    have ih := ih hl.2 hk.2 hc.2
    by_cases ht : e.tid = t
    · subst ht
      by_cases hs : ∃ u, e = .spawn u
      · obtain ⟨u, rfl⟩ := hs
        rw [show (Event.spawn u).tid = u from rfl, incarnation_spawn, run_cons, step_spawn]
        refine hp.entries_empty.2 fun v hv hu => ?_
        exact hl.1 (hk.2.last v hv hu)
      · have hroom := room_of_step hl.1 hk.2.last hc.2.last hc.last
        rw [incarnation_self h fun u hu => hs ⟨u, hu⟩, run_cons, run_cons]
        have h₁ := hp.isLocal.own_view e _ hroom
        have h₂ := hp.isLocal.own_view e _ (hp.room_alone (tid_incarnation (h := h)))
        exact h₁.trans ((congrArg (fun x => (own e x).1) ih).trans h₂.symm)
    · rw [incarnation_of_ne h ht, run_cons]
      exact (hp.isLocal.frame e _ t ht).trans ih

/-- **Keys of living threads only** keep a program working. -/
theorem Program.OwnKeys.noExhaustion (hp : p.OwnKeys own) {h : List Event}
    (hl : EachStep (Lives start) h) (hk : EachState (LiveKeys p start) h) :
    NoExhaustion p start h := by
  refine ⟨hk, fun hc => ?_⟩
  refine (((hl.and hl.each).and hk.each).and hc.each).mono fun k e hh _ => ?_
  obtain ⟨⟨⟨hle, hl⟩, hk⟩, hc⟩ := hh
  have hroom := room_of_step hle hk.2.last hc.2.last hc.last
  have halone := hp.room_alone (tid_incarnation (t := e.tid) (h := k))
  have hentries := hp.entries_incarnation hl.2 hk.2 hc.2 e.tid
  refine ⟨fun v hv => hp.room_admits hv (hroom v hv), ?_, ?_⟩
  · have h₁ := hp.isLocal.own_out e _ hroom
    have h₂ := hp.isLocal.own_out e _ halone
    exact h₁.trans ((congrArg (fun x => (own e x).2) hentries).trans h₂.symm)
  · have h₁ := hp.isLocal.own_view e _ hroom
    have h₂ := hp.isLocal.own_view e _ halone
    exact h₁.trans ((congrArg (fun x => (own e x).1) hentries).trans h₂.symm)

/-! ## Where living keys come from -/

/-- In every state the pointers handed over belong to threads inside calls, which live. -/
theorem HandOff.liveKeys {p : Program σ α} (H : HandOff p)
    (hviews : ∀ s, p.views s = [mapView (H.map s)]) {h : List Event} (ha : Alternating h)
    (hl : EachStep (Lives start) h) : EachState (LiveKeys p start) h := by
  refine eachState_iff.2 fun k hs v hv t ht => ?_
  rw [hviews] at hv
  cases List.mem_singleton.1 hv
  obtain ⟨a, hlk⟩ := Option.isSome_iff_exists.1 (BoundedMap.mem_keys.1 ht)
  obtain ⟨f, hf, -⟩ := H.sub (ha.suffix hs) t a hlk
  exact alive_of_inflight (ha.suffix hs) (hl.suffix hs) hf

/-- What a thread comes by on entering a call, and does not have when it dies, living threads
have. -/
theorem alive_of_due {due : List Event → Tid → Bool} (hnil : ∀ t, due [] t = false)
    (hstep : ∀ e h t, due (e :: h) t = true → due h t = true ∨
      ∃ task nr args, e = .enter task nr args ∧ task.tid = t)
    {h : List Event} (hl : EachStep (Lives start) h)
    (hd : EachStep (fun h e => ∀ t, e = .die t → due h t = false) h) {t : Tid}
    (ht : due h t = true) : t ∈ alive start h := by
  induction h with
  | nil => rw [hnil] at ht; cases ht
  | cons e h ih =>
    have ih := ih hl.2 hd.2
    rcases hstep e h t ht with hdue | ⟨task, nr, args, rfl, rfl⟩
    · cases e with
      | enter task nr args => exact ih hdue
      | exit task nr ret => exact ih hdue
      | spawn u => exact Finset.mem_insert_of_mem (ih hdue)
      | die u =>
        refine Finset.mem_erase.2 ⟨?_, ih hdue⟩
        rintro rfl
        rw [hd.1 t rfl] at hdue; cases hdue
    · exact hl.1

theorem Marking.armed_cases {p : Program σ α} (M : Marking p) (e : Event) (h : List Event) (t : Tid)
    (ha : M.armed (e :: h) t = true) : M.armed h t = true ∨
      ∃ task nr args, e = .enter task nr args ∧ task.tid = t := by
  cases e with
  | enter task nr args =>
    by_cases ht : task.tid = t
    · exact .inr ⟨task, nr, args, rfl, ht⟩
    · unfold armed at ha
      rw [if_neg fun hm => ht hm.1] at ha
      exact .inl ha
  | exit task nr ret =>
    unfold armed at ha
    split at ha
    · cases ha
    · exact .inl ha
  | spawn u => exact .inl ha
  | die u => exact .inl ha

theorem ModifyFileRead.hasRead_cases (e : Event) (h : List Event) (t : Tid)
    (hr : hasRead (e :: h) t = true) : hasRead h t = true ∨
      ∃ task nr args, e = .enter task nr args ∧ task.tid = t := by
  cases e with
  | enter task nr args =>
    by_cases ht : task.tid = t
    · exact .inr ⟨task, nr, args, rfl, ht⟩
    · unfold hasRead at hr
      rw [if_neg fun hm => ht hm.1] at hr
      exact .inl hr
  | exit task nr ret => exact .inl hr
  | spawn u => exact .inl hr
  | die u => exact .inl hr

end

/-! ## `modify_file_read` and `preload_filter` -/

/-- A thread that dies is not armed and has never read as `cc1`, nor has one before it with its
tid. -/
def ModifyFileRead.DiesClean (h : List Event) : Event → Prop
  | .die t => marking.armed h t = false ∧ hasRead h t = false
  | _ => True

/-- A thread that dies is not armed. -/
def PreloadFilter.DiesClean (h : List Event) : Event → Prop
  | .die t => marking.armed h t = false
  | _ => True

instance (h : List Event) : ∀ e, Decidable (ModifyFileRead.DiesClean h e)
  | .die _ => inferInstanceAs (Decidable (_ ∧ _))
  | .enter _ _ _ => inferInstanceAs (Decidable True)
  | .exit _ _ _ => inferInstanceAs (Decidable True)
  | .spawn _ => inferInstanceAs (Decidable True)

section
variable {start : Finset Tid} {h : List Event}

theorem ModifyFileRead.liveKeys (ha : Alternating h) (hl : EachStep (Lives start) h)
    (hd : EachStep DiesClean h) : EachState (LiveKeys program start) h := by
  refine eachState_iff.2 fun k hs v hv t ht => ?_
  have ha := ha.suffix hs
  have hl := hl.suffix hs
  have hd := hd.suffix hs
  simp only [program, List.mem_cons, List.not_mem_nil, or_false] at hv
  rcases hv with rfl | rfl | rfl
  · exact alive_of_due (fun _ => rfl) marking.armed_cases hl
      (hd.mono fun k e hk u hu => by subst hu; exact hk.1)
      (marking.armed_of_mark (BoundedMap.mem_keys.1 ht))
  · obtain ⟨f, hf, -⟩ := statP_sub ha (BoundedMap.mem_keys.1 ht)
    exact alive_of_inflight ha hl hf
  · exact alive_of_due (fun _ => rfl) hasRead_cases hl
      (hd.mono fun k e hk u hu => by subst hu; exact hk.2)
      (hasRead_of_contentP (BoundedMap.mem_keys.1 ht))

theorem PreloadFilter.liveKeys (ha : Alternating h) (hl : EachStep (Lives start) h)
    (hd : EachStep DiesClean h) : EachState (LiveKeys program start) h := by
  refine eachState_iff.2 fun k hs v hv t ht => ?_
  have ha := ha.suffix hs
  have hl := hl.suffix hs
  have hd := hd.suffix hs
  simp only [program, List.mem_cons, List.not_mem_nil, or_false] at hv
  rcases hv with rfl | rfl
  · exact alive_of_due (fun _ => rfl) marking.armed_cases hl
      (hd.mono fun k e hk u hu => by subst hu; exact hk)
      (marking.armed_of_mark (BoundedMap.mem_keys.1 ht))
  · obtain ⟨f, hf, -⟩ := statP_sub ha (BoundedMap.mem_keys.1 ht)
    exact alive_of_inflight ha hl hf

/-- A key of a map after the death of its thread is a key of a dead thread. -/
theorem not_mem_keys_of_die {σ α : Type} {p : Program σ α} {k : List Event} {t : Tid}
    (hk : EachState (LiveKeys p start) (.die t :: k)) {v : MapView} (hv : v ∈ p.views (p.run k)) :
    t ∉ v.keys := by
  intro ht
  have hrun : p.run (.die t :: k) = p.run k := by rw [Program.run_cons, Program.step_die]
  have hlast := hk.last
  unfold LiveKeys at hlast
  rw [hrun] at hlast
  exact (Finset.mem_erase.1 (hlast v hv ht)).1 rfl

/-- In runs that fill no map, a thread that dies is then not armed. -/
theorem Marking.armed_of_die {σ α : Type} {p : Program σ α} (M : Marking p) {k : List Event}
    {t : Tid} (hn : p.NeverFull k) (hk : EachState (LiveKeys p start) (.die t :: k)) :
    M.armed k t = false := by
  have ht := not_mem_keys_of_die hk (M.view (p.run k))
  have hm : M.mark k t = none := mapView_keys.1 ht
  by_contra harm
  simpa [hm] using (M.mark_iff_armed hn t).2 (by simpa using harm)

theorem ModifyFileRead.diesClean (hn : program.NeverFull h)
    (hk : EachState (LiveKeys program start) h) : EachStep DiesClean h := by
  refine (hn.each.and hk.each).mono fun k e hh => ?_
  cases e with
  | enter _ _ _ => trivial
  | exit _ _ _ => trivial
  | spawn _ => trivial
  | die t =>
    have hn := hh.1.2
    constructor
    · exact marking.armed_of_die hn hh.2
    · have ht := not_mem_keys_of_die hh.2 (v := mapView (program.run k).contentPs)
        (by simp [program])
      have hc : contentP k t = none := mapView_keys.1 ht
      by_contra hr
      simpa [hc] using contentP_of_hasRead hn (t := t) (by simpa using hr)

theorem PreloadFilter.diesClean (hn : program.NeverFull h)
    (hk : EachState (LiveKeys program start) h) : EachStep DiesClean h := by
  refine (hn.each.and hk.each).mono fun k e hh => ?_
  cases e with
  | enter _ _ _ => trivial
  | exit _ _ _ => trivial
  | spawn _ => trivial
  | die t => exact marking.armed_of_die hh.1.2 hh.2

/-- **No exhaustion**: in every run the maps of the programs that hand a pointer over only have
entries of living threads, and 8192 threads can live at once. So do those of the programs that
mark threads if every thread dies clean, and in runs that fill no map only then. -/
theorem no_exhaustion (ha : Alternating h) (hl : EachStep (Lives start) h) :
    (NoExhaustion ModifyTime.program start h ∧ NoExhaustion ModifyFileTimestamp.program start h ∧
      NoExhaustion ModifyFileName.program start h) ∧
    ((EachStep ModifyFileRead.DiesClean h → NoExhaustion ModifyFileRead.program start h) ∧
      (EachStep PreloadFilter.DiesClean h → NoExhaustion PreloadFilter.program start h)) ∧
    (ModifyFileRead.program.NeverFull h → NoExhaustion ModifyFileRead.program start h →
      EachStep ModifyFileRead.DiesClean h) ∧
    (PreloadFilter.program.NeverFull h → NoExhaustion PreloadFilter.program start h →
      EachStep PreloadFilter.DiesClean h) := by
  refine ⟨⟨?_, ?_, ?_⟩, ⟨fun hd => ?_, fun hd => ?_⟩, fun hn hx => ?_, fun hn hx => ?_⟩
  · exact ModifyTime.ownKeys.noExhaustion hl
      (ModifyTime.handOff.liveKeys (fun _ => rfl) ha hl)
  · exact ModifyFileTimestamp.ownKeys.noExhaustion hl
      (ModifyFileTimestamp.handOff.liveKeys (fun _ => rfl) ha hl)
  · exact ModifyFileName.ownKeys.noExhaustion hl
      (ModifyFileName.handOff.liveKeys (fun _ => rfl) ha hl)
  · exact ModifyFileRead.ownKeys.noExhaustion hl (ModifyFileRead.liveKeys ha hl hd)
  · exact PreloadFilter.ownKeys.noExhaustion hl (PreloadFilter.liveKeys ha hl hd)
  · exact ModifyFileRead.diesClean hn hx.1
  · exact PreloadFilter.diesClean hn hx.1

end

/-- A thread is born, asks `newfstatat` for a size and dies. -/
def shortLife : List Event :=
  [.die 7, .exit (cc1Task 7) .newfstatat 0,
   .enter (cc1Task 7) .newfstatat ⟨0, 0x1000, 0x2000, 0, 0, 0⟩, .spawn 7]

theorem no_exhaustion_shortLife :
    NoExhaustion ModifyFileTimestamp.program ∅ shortLife ∧
      NoExhaustion ModifyFileRead.program ∅ shortLife :=
  have ha : Alternating shortLife := by decide
  have hl : EachStep (Lives ∅) shortLife := by decide
  ⟨(no_exhaustion ha hl).1.2.1, (no_exhaustion ha hl).2.1.1 (by decide)⟩

/-- A compiler reads a file and dies. -/
def readerDies : List Event :=
  [.die 7, .exit (cc1Task 7) .read 10, .enter (cc1Task 7) .read ⟨3, 0x2000, 4096, 0, 0, 0⟩,
   .spawn 7]

/-- Its buffer address stays in `content_ps`. -/
theorem exhaustion_readerDies :
    Alternating readerDies ∧ EachStep (Lives ∅) readerDies ∧
      ¬ NoExhaustion ModifyFileRead.program ∅ readerDies := by
  refine ⟨by decide, by decide, fun hx => ?_⟩
  have hk := hx.1.last (mapView (ModifyFileRead.program.run readerDies).contentPs)
    (by simp [ModifyFileRead.program])
  exact absurd (hk (show 7 ∈ _ by decide)) (by decide)

end Bpf
