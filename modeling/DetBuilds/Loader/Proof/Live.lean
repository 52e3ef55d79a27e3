import DetBuilds.Loader.Live
import DetBuilds.Loader.Proof.Provenance
import DetBuilds.Bpf.Proof.Refine
import DetBuilds.Bpf.Proof.Isolation

/-!
# The loaded programs do what they are for

Each program lives as if it were alone with its loader (`liveRun_apply`). While all its handlers are
attached, its maps go on as in a run of the whole program (`maps_of_attached`), and a thread that has
nothing left in them is served as if it had been alone from the beginning (`write_alone`). So
whatever the loaders have been through, a thread that begins while all of them serve sees the memory
that the specification says (`live_refines`).
-/

set_option autoImplicit false

namespace Bpf

open History

/-! ## Threads on their own -/

namespace Program

variable {σ α : Type} {p : Program σ α} {own : Event → α → α × Option UserWrite}

theorem tid_of_alone {t : Tid} {h k : List Event} (hs : k <:+ alone t h) : ∀ e ∈ k, e.tid = t :=
  fun _ he => by simpa using (List.mem_filter.1 (hs.subset he)).2

/-- A thread that has nothing in the maps is served as if it had always been alone. -/
theorem OwnKeys.write_alone (hp : p.OwnKeys own) {e : Event} {s : σ} {h : List Event}
    (hs : p.entries s e.tid = p.entries p.empty e.tid) (hr : p.keyed.RoomFor e.tid s (e :: h)) :
    (p.step e (p.keyed.runFrom s h)).2 = p.write (alone e.tid h) e := by
  have hcons : alone e.tid (e :: h) = e :: alone e.tid h := List.filter_cons_of_pos (by simp)
  have hr' : p.keyed.RoomFor e.tid p.empty (e :: alone e.tid h) :=
    hcons ▸ hp.roomFor_alone e.tid (e :: h)
  have hproj := p.keyed.project_project e.tid h
  have hleft := hp.isLocal.output_run (M := p.keyed) hr
  have hright := hp.isLocal.output_run (M := p.keyed) hr'
  refine hleft.trans (Eq.trans ?_ hright.symm)
  show (own e (KeyedMachine.ownRun own (p.entries s e.tid) (p.keyed.project e.tid h))).2 =
    (own e (KeyedMachine.ownRun own (p.entries p.empty e.tid)
      (p.keyed.project e.tid (p.keyed.project e.tid h)))).2
  rw [hproj, hs]

/-- Alone, a thread never fills a map. -/
theorem OwnKeys.neverFull_alone (hp : p.OwnKeys own) (t : Tid) (h : List Event) :
    p.NeverFull (alone t h) := by
  refine eachState_iff.2 fun k hs v hv => ?_
  have hsub : v.keys ⊆ {t} := by
    intro u hu
    by_contra hne
    exact hp.entries_empty.1 (hp.entries_alone (fun h => hne (Finset.mem_singleton.2 h.symm))
      (tid_of_alone hs)) v hv hu
  exact Nat.lt_of_le_of_lt (Finset.card_le_card hsub) (by rw [Finset.card_singleton]; decide)

/-- A thread's state is that of the run of its own events. -/
theorem threads_alone (t : Tid) (h : List Event) : threads (alone t h) t = threads h t := by
  rw [threads_own, threads_own h]
  simp [alone]

theorem uncrowded_alone (nrs : List Nr) (t : Tid) (h : List Event) :
    Uncrowded nrs (alone t h) := by
  refine eachState_iff.2 fun k hs => ?_
  have hsub : inside nrs k ⊆ {t} := by
    intro u hu
    obtain ⟨f, hf, -⟩ := mem_inside.1 hu
    obtain ⟨e, he, rfl⟩ := List.mem_map.1 (List.mem_toFinset.1 (mem_tids_of_inflight hf))
    exact Finset.mem_singleton.2 (tid_of_alone hs e he)
  exact (Finset.card_le_card hsub).trans (by rw [Finset.card_singleton]; decide)

end Program

namespace App

open Program

theorem ownKeys (a : App) : ∃ own, a.program.OwnKeys own := by
  cases a with
  | modifyTime => exact ⟨_, ModifyTime.ownKeys⟩
  | preloadFilter => exact ⟨_, PreloadFilter.ownKeys⟩
  | modifyFileTimestamp => exact ⟨_, ModifyFileTimestamp.ownKeys⟩
  | modifyFileName => exact ⟨_, ModifyFileName.ownKeys⟩
  | modifyFileRead => exact ⟨_, ModifyFileRead.ownKeys⟩

theorem room_alone (a : App) (t : Tid) (h : List Event) : a.Room (alone t h) := by
  cases a with
  | modifyTime => exact uncrowded_alone _ t h
  | preloadFilter => exact PreloadFilter.ownKeys.neverFull_alone t h
  | modifyFileTimestamp => exact uncrowded_alone _ t h
  | modifyFileName => exact uncrowded_alone _ t h
  | modifyFileRead => exact ModifyFileRead.ownKeys.neverFull_alone t h

theorem handlers_ne_zero (a : App) : a.program.handlers.length ≠ 0 := by
  cases a <;> exact Nat.succ_ne_zero _

end App

end Bpf

namespace Loader

open Bpf History

/-! ## Processes -/

namespace Process

variable {k : Nat} {p : Process}

/-- Before the handlers are attached, none is. -/
def Unattached (p : Process) : Prop :=
  match p.pc with
  | .argpParse | .signalInt | .signalTerm | .openSkel | .loadSkel => p.attached = 0
  | _ => True

theorem unattached_step (i : Input) (hp : p.Unattached) : (step k i p).Unattached := by
  unfold Unattached at hp
  cases i with
  | signal sig =>
    show (p.signal sig).Unattached
    rcases p.signal_cases sig with ⟨-, hs⟩ | ⟨-, hs⟩ | ⟨-, hs⟩ <;> rw [hs]
    · exact hp
    · trivial
    · exact hp
  | answer r =>
    show (p.main k r).Unattached
    unfold main
    cases hpc : p.pc with
    | argpParse => rw [hpc] at hp; by_cases h0 : r = 0 <;> simp [Unattached, h0]; exact hp
    | signalInt => rw [hpc] at hp; exact hp
    | signalTerm => rw [hpc] at hp; exact hp
    | openSkel => rw [hpc] at hp; by_cases h0 : r = 0 <;> simp [Unattached, h0]; exact hp
    | loadSkel => by_cases h0 : r = 0 <;> simp [Unattached, h0]
    | attachSkel => by_cases hk : p.attached < k <;> by_cases h0 : r = 0 <;> simp [Unattached, *]
    | ringBufferNew => by_cases h0 : r = 0 <;> simp [Unattached, h0]
    | whileNotExiting => cases p.exiting <;> simp [Unattached]
    | ringBufferPoll =>
      by_cases hi : r = -EINTR <;> by_cases h0 : r < 0 <;> simp [Unattached, hi, h0]
    | ringBufferFree => trivial
    | destroySkel => by_cases hd : p.detached < p.attached <;> simp [Unattached, *]
    | exited n => unfold Unattached; rw [hpc]; trivial
    | killed sig => unfold Unattached; rw [hpc]; trivial

end Process

/-! ## Lives -/

section
variable {σ α : Type} {prog : Program σ α}

theorem unattached_life (h : List LifeEvent) : ∀ p ∈ (life prog h).process, p.Unattached := by
  induction h with
  | nil => exact fun p hp => by cases hp
  | cons x h ih =>
    cases x with
    | exec onInt =>
      intro p hp
      have hp : p ∈ (if (life prog h).Idle then some (.exec onInt) else (life prog h).process) := hp
      split at hp
      · cases hp
        exact rfl
      · exact ih p hp
    | process i =>
      intro p hp
      obtain ⟨q, hq, rfl⟩ := Option.mem_map.1 hp
      exact Process.unattached_step i (ih q hq)
    | event e => exact ih

/-- A process that makes its maps has not attached a handler. -/
theorem not_loads_of_attached {h : List LifeEvent} (hk : prog.handlers.length ≠ 0)
    (ha : (life prog h).Attached prog) (i : Input) : ¬ (life prog h).Loads i := by
  rintro ⟨p, hp, hpc, -⟩
  obtain ⟨q, hq, -, hatt, -⟩ := ha
  rw [Option.mem_unique hp hq] at hpc
  have hzero := unattached_life h q hq
  unfold Process.Unattached at hzero
  rw [hpc] at hzero
  exact hk (hatt.symm.trans hzero)

theorem Life.active_of_attached {s : Life σ} (ha : s.Attached prog) :
    s.active prog = prog.handlers := by
  obtain ⟨p, hp, ho, hatt, hdet⟩ := ha
  show s.process.elim [] (·.active prog.handlers) = _
  rw [Option.mem_def.1 hp]
  show p.active prog.handlers = _
  unfold Process.active
  rw [if_neg ho, hatt, hdet, List.take_length, List.drop_zero]

/-- What threads do in a life. -/
def LifeEvent.thread : LifeEvent → Option Event
  | .event e => some e
  | .exec _ => none
  | .process _ => none

/-- **While all handlers are attached**, the maps go on as in a run of the whole program. -/
theorem maps_of_attached (hk : prog.handlers.length ≠ 0) {h l : List LifeEvent}
    (ha : EachState (fun k => (life prog (k ++ h)).Attached prog) l) :
    (life prog (l ++ h)).maps =
      prog.keyed.runFrom (life prog h).maps (l.filterMap LifeEvent.thread) := by
  induction l with
  | nil => rfl
  | cons x l ih =>
    have ih := ih ha.2
    have hatt := ha.2.last
    cases x with
    | exec onInt => exact ih
    | process i =>
      show (if (life prog (l ++ h)).Loads i then prog.empty else (life prog (l ++ h)).maps) = _
      rw [if_neg (not_loads_of_attached hk hatt i)]
      exact ih
    | event e =>
      show (dispatch ((life prog (l ++ h)).active prog) e (life prog (l ++ h)).maps).1 = _
      rw [Life.active_of_attached hatt, ih]
      rfl

/-- There is room for the thread in a run of the whole program, too. -/
theorem roomFor_of_attached (hk : prog.handlers.length ≠ 0) {h l : List LifeEvent} {t : Tid}
    (hs : EachState (fun k => (life prog (k ++ h)).Attached prog ∧
      prog.keyed.room (life prog (k ++ h)).maps t) l) :
    prog.keyed.RoomFor t (life prog h).maps (l.filterMap LifeEvent.thread) := by
  induction l with
  | nil => trivial
  | cons x l ih =>
    cases x with
    | exec onInt => exact ih hs.2
    | process i => exact ih hs.2
    | event e =>
      have hatt : EachState (fun k => (life prog (k ++ h)).Attached prog) l :=
        eachState_iff.2 fun k hk => (eachState_iff.1 hs.2 k hk).1
      refine ⟨fun _ => ?_, ih hs.2⟩
      rw [← maps_of_attached hk hatt]
      exact hs.2.last.2

/-- So a thread that has nothing left in the maps is served as if it were alone. -/
theorem write_of_attached {own : Event → α → α × Option UserWrite}
    (hk : prog.handlers.length ≠ 0) (hown : prog.OwnKeys own) {h l : List LifeEvent} {e : Event}
    (hs : EachState (fun k => (life prog (k ++ h)).Attached prog ∧
      prog.keyed.room (life prog (k ++ h)).maps e.tid) l)
    (hfresh : prog.entries (life prog h).maps e.tid = prog.entries prog.empty e.tid) :
    lifeWrite prog (l ++ h) e =
      prog.write (Program.alone e.tid (l.filterMap LifeEvent.thread)) e := by
  have hatt : EachState (fun k => (life prog (k ++ h)).Attached prog) l :=
    eachState_iff.2 fun k hk => (eachState_iff.1 hs k hk).1
  have hmaps := maps_of_attached hk hatt
  have hroom : prog.keyed.RoomFor e.tid (life prog h).maps (e :: l.filterMap LifeEvent.thread) :=
    ⟨fun _ => hmaps ▸ hs.last.2, roomFor_of_attached hk hs⟩
  show (dispatch ((life prog (l ++ h)).active prog) e (life prog (l ++ h)).maps).2 = _
  rw [Life.active_of_attached hatt.last, hmaps]
  exact hown.write_alone hfresh hroom

end

/-! ## The programs together -/

section
variable {apps : List App}

theorem LifeEvent.withMem_mem (x : LifeEvent) : x.withMem x.mem = x := by
  cases x with
  | event e => exact congrArg LifeEvent.event (Bpf.withMem_mem e)
  | exec onInt => rfl
  | process i => rfl

theorem handled_withMem {σ : Type} (hs : List (Handler σ)) (e : Event) (m : ByteMem) :
    Handled hs (e.withMem m) ↔ Handled hs e := by
  cases e <;> exact Iff.rfl

/-- A write under the loader is the program's, if there is one. -/
theorem Life.write_cases (a : App) (e : Event) (s : Life a.Maps) :
    (s.handle a.program e).2 = none ∨ (s.handle a.program e).2 = (a.program.step e s.maps).2 := by
  rw [Life.handle_eq a.nodup_tracepoints]
  split
  · exact .inr rfl
  · exact .inl rfl

/-- Under its loader, too, no program depends on what another one writes. -/
theorem Life.handle_edit {a b : App} (hab : a ≠ b) (e : Event) (m : ByteMem) (s : Life a.Maps)
    (s' : Life b.Maps) :
    s.handle a.program (e.withMem (applyWrite (s'.handle b.program (e.withMem m)).2 m)) =
      s.handle a.program (e.withMem m) := by
  rw [Life.handle_eq a.nodup_tracepoints, Life.handle_eq a.nodup_tracepoints]
  by_cases hh : Handled (s.active a.program) e
  · rw [if_pos ((handled_withMem ..).2 hh), if_pos ((handled_withMem ..).2 hh)]
    rcases Life.write_cases b (e.withMem m) s' with hw | hw
    · rw [hw]
      rfl
    · rw [hw]
      exact independent e a b hab m s.maps s'.maps
  · rw [if_neg fun h => hh ((handled_withMem ..).1 h), if_neg fun h => hh ((handled_withMem ..).1 h)]

theorem live_independent (x : LifeEvent) : live.Independent x := by
  intro a b hab m (s : Life a.Maps) (s' : Life b.Maps)
  cases x with
  | exec onInt => rfl
  | process i => rfl
  | event e =>
    exact congrArg (fun r : Effect a.Maps => (({ s with maps := r.1 } : Life a.Maps), r.2))
      (Life.handle_edit hab e m s s')

theorem nodup_acts (hd : apps.Nodup) (x : LiveEvent apps) : x.acts.2.Nodup := by
  cases x with
  | exec a onInt => exact List.nodup_singleton a
  | process a i => exact List.nodup_singleton a
  | event e => exact e.isOrder.nodup_iff.2 hd

/-- **A program lives as if it were alone with its loader.** -/
theorem liveRun_apply (hd : apps.Nodup) (h : List (LiveEvent apps)) (a : App) :
    liveRun h a = life a.program (lifeOf a h) := by
  have hh : ∀ x ∈ h.map LiveEvent.acts, live.Steady x.1 ∧ x.2.Nodup := by
    intro x hx
    obtain ⟨y, -, rfl⟩ := List.mem_map.1 hx
    exact ⟨(live_independent _).steady, nodup_acts hd y⟩
  have hstep : (fun x s => (live.step a x (live.mem x) s).1) = Life.step a.program := by
    funext x s
    exact congrArg (fun x => Life.step a.program x s) x.withMem_mem
  refine (live.run_apply hh).trans ?_
  rw [hstep]
  rfl

theorem lifeOf_append (a : App) (l h : List (LiveEvent apps)) :
    lifeOf a (l ++ h) = lifeOf a l ++ lifeOf a h := by
  simp [lifeOf]

theorem lifeOf_cons (a : App) (x : LiveEvent apps) (h : List (LiveEvent apps)) :
    lifeOf a (x :: h) = (if a ∈ x.acts.2 then [x.acts.1] else []) ++ lifeOf a h := by
  by_cases hx : a ∈ x.acts.2 <;> simp [lifeOf, hx]

/-- Its threads are everybody's. -/
theorem thread_lifeOf {a : App} (ha : a ∈ apps) (h : List (LiveEvent apps)) :
    (lifeOf a h).filterMap LifeEvent.thread = threadEvents h := by
  induction h with
  | nil => rfl
  | cons x h ih =>
    rw [lifeOf_cons, List.filterMap_append, ih]
    cases x with
    | exec b onInt =>
      split
      · rfl
      · rfl
    | process b i =>
      split
      · rfl
      · rfl
    | event e =>
      have hmem : a ∈ (LiveEvent.event e).acts.2 := e.isOrder.mem_iff.2 ha
      rw [if_pos hmem]
      rfl

/-- What holds in each state of the run holds in each state of the program's life. -/
theorem eachState_lifeOf {I : List LifeEvent → Prop} (a : App) {l : List (LiveEvent apps)}
    (hI : EachState (fun k => I (lifeOf a k)) l) : EachState I (lifeOf a l) := by
  induction l with
  | nil => exact hI
  | cons x l ih =>
    have hx : I (lifeOf a (x :: l)) := hI.1
    have hl := ih hI.2
    rw [lifeOf_cons] at hx ⊢
    by_cases hmem : a ∈ x.acts.2
    · rw [if_pos hmem] at hx ⊢
      exact ⟨hx, hl⟩
    · rw [if_neg hmem]
      exact hl

/-- **Service**: while all handlers of all programs are attached, with room for the thread, the
writes at an event of a thread that has nothing left in the maps are those of the programs run on its
own events. -/
theorem write_of_serves (hd : apps.Nodup) {h l : List (LiveEvent apps)} {e : Event}
    (hserves : EachState (fun k => Serves apps e.tid (liveRun (k ++ h))) l) {a : App} (ha : a ∈ apps)
    (hfresh : a.program.entries ((liveRun h a).maps) e.tid =
      a.program.entries a.program.empty e.tid) :
    ((liveRun (l ++ h) a).handle a.program e).2 =
      a.program.write (Program.alone e.tid (threadEvents l)) e := by
  obtain ⟨own, hown⟩ := a.ownKeys
  have hlife : EachState (fun k => (life a.program (k ++ lifeOf a h)).Attached a.program ∧
      a.program.keyed.room (life a.program (k ++ lifeOf a h)).maps e.tid) (lifeOf a l) := by
    refine eachState_lifeOf a (eachState_iff.2 fun k hs => ?_)
    have hk := eachState_iff.1 hserves k hs a ha
    rwa [liveRun_apply hd, lifeOf_append] at hk
  rw [liveRun_apply hd, lifeOf_append, ← thread_lifeOf ha]
  refine write_of_attached a.handlers_ne_zero hown hlife ?_
  rwa [liveRun_apply hd] at hfresh

/-- An event leaves the memory that the specification says. -/
theorem liveMem_eq_specMem (hd : apps.Nodup) {h k : List (LiveEvent apps)} {t : Tid}
    (hserves : EachState (fun k => Serves apps t (liveRun (k ++ h))) k)
    (hfresh : ∀ a ∈ apps, a.program.entries (liveRun h a).maps t =
      a.program.entries a.program.empty t)
    {e : SystemEvent apps} (ht : e.event.tid = t)
    (ha : Alternating (e.event :: Program.alone t (threadEvents k))) :
    liveMem (k ++ h) e = specMem apps (threads (threadEvents k) t) e.event := by
  subst ht
  refine (congrArg Prod.snd
    (live.actAll_eq (live_independent _) (e.isOrder.nodup_iff.2 hd) (liveRun (k ++ h)))).trans ?_
  rw [← Program.threads_alone, ← foldl_writes_eq_specMem ha fun a _ => a.room_alone _ _,
    ← foldl_writes_perm ha e.isOrder]
  refine List.foldl_ext _ _ _ fun m a hmem => ?_
  have hmem : a ∈ apps := e.isOrder.mem_iff.1 hmem
  have hwrite := write_of_serves hd hserves hmem (hfresh a hmem)
  show applyWrite ((liveRun (k ++ h) a).handle a.program (e.event.withMem e.event.mem)).2 m = _
  rw [Bpf.withMem_mem]
  exact congrArg (applyWrite · m) hwrite

/-- **Refinement, under the loaders**: whatever the loaders have been through, from the moment on
that all handlers of all programs are attached, and as long as they stay so with room for the
thread, a thread that begins its calls then, with nothing left in the maps under its id, sees the
memory that the specification says after each of its events. -/
theorem live_refines (hd : apps.Nodup) {h l : List (LiveEvent apps)} {t : Tid}
    (hserves : EachState (fun k => Serves apps t (liveRun (k ++ h))) l)
    (hfresh : ∀ a ∈ apps, a.program.entries (liveRun h a).maps t =
      a.program.entries a.program.empty t)
    (ha : Alternating (Program.alone t (threadEvents l))) :
    EachStep (fun k x => ∀ e, x = .event e → e.event.tid = t →
      liveMem (k ++ h) e = specMem apps (threads (threadEvents k) t) e.event) l := by
  refine eachStep_iff.2 fun x k hs e hx ht => ?_
  subst hx
  refine liveMem_eq_specMem hd (hserves.suffix ((List.suffix_cons _ k).trans hs)) hfresh ht ?_
  have hsuffix : Program.alone t (threadEvents (.event e :: k)) <:+
      Program.alone t (threadEvents l) := ((hs.filterMap _).map _).filter _
  have hcons : Program.alone t (threadEvents (.event e :: k)) =
      e.event :: Program.alone t (threadEvents k) :=
    List.filter_cons_of_pos (by simpa using ht)
  rw [← hcons]
  exact ha.suffix hsuffix

end

/-- The loader of a program is started and attaches all handlers. -/
def attachRun (a : App) : List (LiveEvent bpfApps) :=
  List.replicate (handlers a) (.process a (.answer 0)) ++
    [.process a (.answer 0), .process a (.answer 1), .process a (.answer 0),
      .process a (.answer 0), .process a (.answer 0), .exec a .ign]

/-- The loaders of all four programs do, one after the other. -/
def startedRun : List (LiveEvent bpfApps) := bpfApps.flatMap attachRun

/-- The compiler asks for the time. -/
def askedRun : List (LiveEvent bpfApps) :=
  [.event ⟨.exit (cc1Task 1) .clockGettime 0, bpfApps.reverse, List.reverse_perm _⟩,
    .event ⟨.enter (cc1Task 1) .clockGettime ⟨0, 0x1000, 0, 0, 0, 0⟩, bpfApps, .refl _⟩]

theorem serves_askedRun :
    EachState (fun k => Serves bpfApps 1 (liveRun (k ++ startedRun))) askedRun := by
  decide +kernel

theorem fresh_startedRun (a : App) (t : Tid) :
    a.program.entries (liveRun startedRun a).maps t = a.program.entries a.program.empty t := by
  rw [liveRun_apply (by decide)]
  cases a <;> rfl

theorem live_refines_askedRun :
    EachStep (fun k x => ∀ e, x = .event e → e.event.tid = 1 →
      liveMem (k ++ startedRun) e = specMem bpfApps (threads (threadEvents k) 1) e.event) askedRun :=
  live_refines (by decide) serves_askedRun (fun a _ => fresh_startedRun a 1) (by decide)

end Loader
