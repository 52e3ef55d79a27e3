import DetBuilds.Bpf.Proof.HandOff
import DetBuilds.Bpf.ModifyFileRead
import DetBuilds.Bpf.PreloadFilter

/-!
# Handlers use their own thread's keys

Every lookup, update and delete of the sixteen handlers uses the thread's own key. So a program is,
for each thread, a machine on that thread's entries alone, without a limit (`own`): the abstract
program, of which the one on shared maps is a refinement as long as its maps have room for the key
(`ownKeys` for each of the five programs).
-/

set_option autoImplicit false

namespace Bpf

open History

/-- A program that works on the thread's own keys only, as `own` says. -/
structure Program.OwnKeys {σ α : Type} (p : Program σ α) (own : Event → α → α × Option UserWrite) :
    Prop where
  isLocal : p.keyed.Local own
  entries_empty : ∀ {s t},
    p.entries s t = p.entries p.empty t ↔ ∀ v ∈ p.views s, t ∉ v.keys
  room_admits : ∀ {s v t}, v ∈ p.views s → v.Room t → v.admits t

/-! ## Programs that hand a pointer over -/

namespace HandOff

variable {σ : Type} {p : Program σ (Option Addr)} (H : HandOff p)

/-- One thread's entry: left on entering a call, taken out and acted through on return. -/
def own : Event → Option Addr → Option Addr × Option UserWrite
  | .enter task nr args, x =>
    (match H.pending task.comm nr args with
      | none => x
      | some a => some (match H.flag with | .any => a | .noexist => x.getD a), none)
  | .exit task nr _, x =>
    if nr ∈ H.calls ∧ commFilter task.comm = true then (none, x.bind (H.through task.mem))
    else (x, none)
  | .spawn _, x => (x, none)
  | .die _, x => (x, none)

/-- Another thread's event keeps the entry. -/
theorem lookup_frame (e : Event) (s : σ) {t : Tid} (hne : e.tid ≠ t) :
    (H.map (p.step e s).1).lookup t = (H.map s).lookup t := by
  cases e with
  | enter task nr args =>
    rw [H.enter_map]
    split
    · rfl
    · exact BoundedMap.lookup_update_ne _ _ _ (Ne.symm hne)
  | exit task nr ret => rw [H.exit_lookup, if_neg fun h => hne h.1.symm]
  | spawn u => rw [p.step_spawn]
  | die u => rw [p.step_die]

/-- With room for its thread, an event does to the entry what `own` does. -/
theorem lookup_own (e : Event) (s : σ) (hr : (H.map s).HasRoom e.tid) :
    (H.map (p.step e s).1).lookup e.tid = (H.own e ((H.map s).lookup e.tid)).1 := by
  cases e with
  | enter task nr args =>
    rw [H.enter_map]
    cases hp : H.pending task.comm nr args with
    | none => simp only [own, Event.tid, hp]
    | some a =>
      cases hf : H.flag with
      | any => simpa only [own, Event.tid, hp, hf] using BoundedMap.lookup_update_any a hr
      | noexist => simpa only [own, Event.tid, hp, hf] using BoundedMap.lookup_update_noexist a hr
  | exit task nr ret =>
    rw [H.exit_lookup]
    by_cases hc : nr ∈ H.calls ∧ commFilter task.comm = true <;> simp [own, hc, Event.tid]
  | spawn u => rw [p.step_spawn]; rfl
  | die u => rw [p.step_die]; rfl

/-- The write depends on the thread's entry only. -/
theorem write_eq_own (e : Event) (s : σ) :
    (p.step e s).2 = (H.own e ((H.map s).lookup e.tid)).2 := by
  cases e with
  | enter task nr args => rw [H.enter_write]; rfl
  | exit task nr ret =>
    rw [H.exit_write]
    by_cases hc : nr ∈ H.calls ∧ commFilter task.comm = true <;> simp [own, hc, Event.tid]
  | spawn u => rw [p.step_spawn]; rfl
  | die u => rw [p.step_die]; rfl

theorem ownKeys (hentries : ∀ s t, p.entries s t = (H.map s).lookup t)
    (hviews : ∀ s, p.views s = [mapView (H.map s)]) : p.OwnKeys H.own where
  isLocal := by
    constructor
    · intro e s t hne
      show p.entries (p.step e s).1 t = p.entries s t
      rw [hentries, hentries]
      exact H.lookup_frame e s hne
    · intro e s hr
      have hroom : (mapView (H.map s)).Room e.tid := hr _ (by rw [hviews]; exact .head _)
      show p.entries (p.step e s).1 e.tid = (H.own e (p.entries s e.tid)).1
      rw [hentries, hentries]
      exact H.lookup_own e s (mapView_room.1 hroom)
    · intro e s _
      show (p.step e s).2 = (H.own e (p.entries s e.tid)).2
      rw [hentries]
      exact H.write_eq_own e s
  entries_empty := by
    intro s t
    rw [hentries, hentries, H.map_empty, hviews]
    simp [mapView_keys]
  room_admits := by
    intro s v t hv hr
    rw [hviews] at hv
    cases List.mem_singleton.1 hv
    exact mapView_admits hr

end HandOff

theorem ModifyTime.ownKeys : ModifyTime.program.OwnKeys ModifyTime.handOff.own :=
  ModifyTime.handOff.ownKeys (fun _ _ => rfl) (fun _ => rfl)

theorem ModifyFileTimestamp.ownKeys :
    ModifyFileTimestamp.program.OwnKeys ModifyFileTimestamp.handOff.own :=
  ModifyFileTimestamp.handOff.ownKeys (fun _ _ => rfl) (fun _ => rfl)

theorem ModifyFileName.ownKeys : ModifyFileName.program.OwnKeys ModifyFileName.handOff.own :=
  ModifyFileName.handOff.ownKeys (fun _ _ => rfl) (fun _ => rfl)

/-! ## `modify_file_read` -/

namespace ModifyFileRead

/-- One thread's entries: the mark, and the pointers of its latest calls. -/
def own : Event → Entries → Entries × Option UserWrite
  | .enter task nr args, x =>
    ({ tid := if Marks task nr args then some 0 else x.tid
       statP :=
        if nr = .newfstatat ∧ commFilter task.comm = true ∧ x.tid.isSome then some args.arg2
        else x.statP
       contentP :=
        if nr = .read ∧ commFilter task.comm = true then some args.arg1 else x.contentP }, none)
  | .exit task nr _, x =>
    if nr = .newfstatat ∧ commFilter task.comm = true ∧ x.tid.isSome then
      ({ x with statP := none },
        x.statP.map fun statP => ⟨statP + 48, le64 (BitVec.ofNat 64 localtimeSize)⟩)
    else if nr = .read ∧ commFilter task.comm = true ∧ x.tid.isSome then
      ({ x with tid := none },
        x.contentP.map fun contentP => ⟨contentP, localtimeContent.take localtimeSize⟩)
    else (x, none)
  | .spawn _, x => (x, none)
  | .die _, x => (x, none)

theorem entries_frame (e : Event) (s : Maps) {t : Tid} (hne : e.tid ≠ t) :
    program.entries (program.step e s).1 t = program.entries s t := by
  have hne' : t ≠ e.tid := fun h => hne h.symm
  cases e with
  | enter task nr args =>
    rw [step_enter]
    simp only [program, Entries.mk.injEq]
    exact ⟨BoundedMap.lookup_updateIf_ne _ _ _ _ hne', BoundedMap.lookup_updateIf_ne _ _ _ _ hne',
      BoundedMap.lookup_updateIf_ne _ _ _ _ hne'⟩
  | exit task nr ret =>
    have htid : t ≠ task.tid := hne'
    by_cases h₁ : nr = .newfstatat
    · subst h₁
      rw [step_exit_newfstatat]
      split
      · split
        · rfl
        · simp only [program, BoundedMap.lookup_delete_ne _ htid]
      · rfl
    · by_cases h₂ : nr = .read
      · subst h₂
        rw [step_exit_read]
        split
        · simp only [program, BoundedMap.lookup_delete_ne _ htid]
        · rfl
      · rw [step_exit_other task ret s h₁ h₂]
  | spawn u => rfl
  | die u => rfl

/-- An event acts on its thread's entries as `own` does. -/
theorem entries_own (e : Event) {s : Maps} (hr : program.keyed.room s e.tid) :
    program.entries (program.step e s).1 e.tid = (own e (program.entries s e.tid)).1 ∧
      (program.step e s).2 = (own e (program.entries s e.tid)).2 := by
  cases e with
  | enter task nr args =>
    have r₁ : s.tids.HasRoom task.tid := mapView_room.1 (hr _ (by simp [program]))
    have r₂ : s.statPs.HasRoom task.tid := mapView_room.1 (hr _ (by simp [program]))
    have r₃ : s.contentPs.HasRoom task.tid := mapView_room.1 (hr _ (by simp [program]))
    rw [step_enter]
    simp only [program, own, Event.tid, Entries.mk.injEq, and_true]
    exact ⟨BoundedMap.lookup_updateIf_any _ _ r₁, BoundedMap.lookup_updateIf_any _ _ r₂,
      BoundedMap.lookup_updateIf_any _ _ r₃⟩
  | exit task nr ret =>
    by_cases h₁ : nr = .newfstatat
    · subst h₁
      rw [step_exit_newfstatat]
      by_cases hc : commFilter task.comm = true ∧ (s.tids.lookup task.tid).isSome = true
      · cases hp : s.statPs.lookup task.tid <;> simp [own, program, Event.tid, hc, hp]
      · simp [own, program, Event.tid, hc]
    · by_cases h₂ : nr = .read
      · subst h₂
        rw [step_exit_read]
        by_cases hc : commFilter task.comm = true ∧ (s.tids.lookup task.tid).isSome = true <;>
          simp [own, program, Event.tid, hc]
      · rw [step_exit_other task ret s h₁ h₂]
        simp [own, program, Event.tid, h₁, h₂]
  | spawn u => exact ⟨rfl, rfl⟩
  | die u => exact ⟨rfl, rfl⟩

theorem ownKeys : program.OwnKeys own where
  isLocal := ⟨fun e s _ hne => entries_frame e s hne, fun e _ hr => (entries_own e hr).1,
    fun e _ hr => (entries_own e hr).2⟩
  entries_empty := by
    intro s t
    simp [program, mapView_keys]
  room_admits := by
    intro s v t hv hr
    simp only [program, List.mem_cons, List.not_mem_nil, or_false] at hv
    rcases hv with rfl | rfl | rfl <;> exact mapView_admits hr

end ModifyFileRead

/-! ## `preload_filter` -/

namespace PreloadFilter

/-- One thread's entries: the mark, and the pointer of its call in flight. -/
def own : Event → Entries → Entries × Option UserWrite
  | .enter task nr args, x =>
    ({ tid := if Marks task nr args then some 0 else x.tid
       statP :=
        if nr = .newfstatat ∧ commFilter task.comm = false ∧ x.tid.isSome then some args.arg2
        else x.statP }, none)
  | .exit task nr _, x =>
    if nr = .newfstatat ∧ commFilter task.comm = false ∧ x.tid.isSome then
      ({ tid := none, statP := none }, x.statP.map fun statP => ⟨statP + 48, le64 0⟩)
    else (x, none)
  | .spawn _, x => (x, none)
  | .die _, x => (x, none)

theorem entries_frame (e : Event) (s : Maps) {t : Tid} (hne : e.tid ≠ t) :
    program.entries (program.step e s).1 t = program.entries s t := by
  have hne' : t ≠ e.tid := fun h => hne h.symm
  cases e with
  | enter task nr args =>
    rw [step_enter]
    simp only [program, Entries.mk.injEq]
    exact ⟨BoundedMap.lookup_updateIf_ne _ _ _ _ hne', BoundedMap.lookup_updateIf_ne _ _ _ _ hne'⟩
  | exit task nr ret =>
    have htid : t ≠ task.tid := hne'
    by_cases h₁ : nr = .newfstatat
    · subst h₁
      rw [step_exit_newfstatat]
      split
      · split <;> simp only [program, BoundedMap.lookup_delete_ne _ htid]
      · rfl
    · rw [step_exit_other task ret s h₁]
  | spawn u => rfl
  | die u => rfl

/-- An event acts on its thread's entries as `own` does. -/
theorem entries_own (e : Event) {s : Maps} (hr : program.keyed.room s e.tid) :
    program.entries (program.step e s).1 e.tid = (own e (program.entries s e.tid)).1 ∧
      (program.step e s).2 = (own e (program.entries s e.tid)).2 := by
  cases e with
  | enter task nr args =>
    have r₁ : s.tids.HasRoom task.tid := mapView_room.1 (hr _ (by simp [program]))
    have r₂ : s.statPs.HasRoom task.tid := mapView_room.1 (hr _ (by simp [program]))
    rw [step_enter]
    simp only [program, own, Event.tid, Entries.mk.injEq, and_true]
    exact ⟨BoundedMap.lookup_updateIf_any _ _ r₁, BoundedMap.lookup_updateIf_any _ _ r₂⟩
  | exit task nr ret =>
    by_cases h₁ : nr = .newfstatat
    · subst h₁
      rw [step_exit_newfstatat]
      by_cases hc : commFilter task.comm = false ∧ (s.tids.lookup task.tid).isSome = true
      · cases hp : s.statPs.lookup task.tid <;> simp [own, program, Event.tid, hc, hp]
      · simp [own, program, Event.tid, hc]
    · rw [step_exit_other task ret s h₁]
      simp [own, program, Event.tid, h₁]
  | spawn u => exact ⟨rfl, rfl⟩
  | die u => exact ⟨rfl, rfl⟩

theorem ownKeys : program.OwnKeys own where
  isLocal := ⟨fun e s _ hne => entries_frame e s hne, fun e _ hr => (entries_own e hr).1,
    fun e _ hr => (entries_own e hr).2⟩
  entries_empty := by
    intro s t
    simp [program, mapView_keys]
  room_admits := by
    intro s v t hv hr
    simp only [program, List.mem_cons, List.not_mem_nil, or_false] at hv
    rcases hv with rfl | rfl <;> exact mapView_admits hr

end PreloadFilter

/-! ## One thread on its own -/

namespace Program.OwnKeys

variable {σ α : Type} {p : Program σ α} {own : Event → α → α × Option UserWrite}

/-- In a run of one thread's events, no other thread has entries. -/
theorem entries_alone (hp : p.OwnKeys own) {t u : Tid} (hne : t ≠ u) {h : List Event}
    (hh : ∀ e ∈ h, e.tid = t) : p.entries (p.run h) u = p.entries p.empty u := by
  induction h with
  | nil => rfl
  | cons e h ih =>
    have he : p.keyed.key e = t := hh e (List.mem_cons_self ..)
    rw [run_cons]
    exact (hp.isLocal.frame e _ u (by rw [he]; exact hne)).trans
      (ih fun e' he' => hh e' (List.mem_cons_of_mem _ he'))

/-- Alone, a thread always has room. -/
theorem room_alone (hp : p.OwnKeys own) {t : Tid} {h : List Event} (hh : ∀ e ∈ h, e.tid = t) :
    p.keyed.room (p.run h) t := by
  intro v hv
  have hsub : v.keys ⊆ {t} := by
    intro u hu
    by_contra hne
    exact hp.entries_empty.1
      (hp.entries_alone (fun h => hne (Finset.mem_singleton.2 h.symm)) hh) v hv hu
  exact .inr (Nat.lt_of_le_of_lt (Finset.card_le_card hsub)
    (by rw [Finset.card_singleton]; decide))

end Program.OwnKeys

end Bpf
