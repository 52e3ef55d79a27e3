import DetBuilds.Loader.Life
import DetBuilds.Bpf.Proof.Confine

/-!
# What a program writes under its loader

The handlers that are attached are some of the program's, and no two handlers share a tracepoint, so
an event is handled as by the whole program or not at all (`dispatch_sublist`). The maps are then
those of a run of the events handled since they were made (`life_maps`): nothing of an earlier
process is left in them. So whatever a program writes goes to a buffer that the same thread passed
to a call that the running process has seen (`life_provenance`).
-/

set_option autoImplicit false

namespace Bpf

open History

/-! ## Some of the handlers -/

section
variable {σ : Type} {hs handlers : List (Handler σ)} {hd : Handler σ} {e : Event}

theorem Handler.fire_of_ne (hne : e.tracepoint ≠ some hd.tracepoint) (s : σ) :
    hd.fire e s = none := by
  cases hd <;> cases e <;> simp_all [Handler.fire, Handler.tracepoint, Event.tracepoint]

theorem Handler.fire_of_eq (heq : e.tracepoint = some hd.tracepoint) (s : σ) :
    (hd.fire e s).isSome := by
  cases hd <;> cases e <;> simp_all [Handler.fire, Handler.tracepoint, Event.tracepoint]

theorem handled_cons : Handled (hd :: hs) e ↔ e.tracepoint = some hd.tracepoint ∨ Handled hs e := by
  simp [Handled]

/-- Some of the handlers handle an event as all of them do, or not at all. -/
theorem dispatch_sublist (hsub : hs.Sublist handlers)
    (hp : (handlers.map Handler.tracepoint).Nodup) (e : Event) (s : σ) :
    dispatch hs e s = if Handled hs e then dispatch handlers e s else (s, none) := by
  induction hsub with
  | slnil => exact (ite_self _).symm
  | @cons hs handlers a hsub ih =>
    obtain ⟨ha, hp⟩ := List.nodup_cons.1 hp
    rw [ih hp]
    refine if_ctx_congr Iff.rfl (fun hh => ?_) fun _ => rfl
    have hne : e.tracepoint ≠ some a.tracepoint := by
      intro heq
      obtain ⟨t, ht, het⟩ := hh
      rw [heq] at het
      cases het
      exact ha ((hsub.map _).subset ht)
    show _ = (a.fire e s).getD _
    rw [Handler.fire_of_ne hne]
    rfl
  | @cons_cons hs handlers a hsub ih =>
    obtain ⟨-, hp⟩ := List.nodup_cons.1 hp
    show (a.fire e s).getD (dispatch hs e s) =
      if _ then (a.fire e s).getD (dispatch handlers e s) else _
    by_cases heq : e.tracepoint = some a.tracepoint
    · obtain ⟨r, hr⟩ := Option.isSome_iff_exists.1 (Handler.fire_of_eq heq s)
      rw [if_pos (handled_cons.2 (.inl heq)), hr]
      rfl
    · rw [Handler.fire_of_ne heq, Option.getD_none, Option.getD_none, ih hp]
      exact if_congr (by rw [handled_cons, or_iff_right heq]) rfl rfl

end

/-- The handlers of each program belong to different tracepoints. -/
theorem App.nodup_tracepoints (a : App) : (a.program.handlers.map Handler.tracepoint).Nodup := by
  cases a with
  | modifyTime => exact show (ModifyTime.program.handlers.map _).Nodup by decide
  | modifyFileTimestamp => exact show (ModifyFileTimestamp.program.handlers.map _).Nodup by decide
  | modifyFileName => exact show (ModifyFileName.program.handlers.map _).Nodup by decide
  | modifyFileRead => exact show (ModifyFileRead.program.handlers.map _).Nodup by decide
  | preloadFilter => exact show (PreloadFilter.program.handlers.map _).Nodup by decide

/-! ## Where pointers come from -/

/-- Where entering a call records a pointer that it passes, if any, and returning takes out at most,
every pointer on record was passed by its thread. -/
theorem Program.pointer_origin {σ α : Type} {p : Program σ α} {m : σ → TidMap Addr}
    {P : Frame → Addr → Prop} (hempty : ∀ t, (m p.empty).lookup t = none)
    (henter : ∀ task nr args s, m (p.step (.enter task nr args) s).1 = m s ∨
      ∃ v flag, m (p.step (.enter task nr args) s).1 = (m s).update task.tid v flag ∧
        P ⟨task, nr, args⟩ v)
    (hexit : ∀ {task nr ret s t a}, (m (p.step (.exit task nr ret) s).1).lookup t = some a →
      (m s).lookup t = some a)
    {h : List Event} {t : Tid} {a : Addr} (hl : (m (p.run h)).lookup t = some a) :
    ∃ f : Frame, .enter f.task f.nr f.args ∈ h ∧ f.task.tid = t ∧ P f a := by
  have hcons : ∀ {e : Event} {h : List Event},
      (∃ f : Frame, .enter f.task f.nr f.args ∈ h ∧ f.task.tid = t ∧ P f a) →
      ∃ f : Frame, .enter f.task f.nr f.args ∈ e :: h ∧ f.task.tid = t ∧ P f a :=
    fun ⟨f, hmem, hf⟩ => ⟨f, List.mem_cons_of_mem _ hmem, hf⟩
  induction h with
  | nil => rw [show p.run [] = p.empty from rfl, hempty] at hl; cases hl
  | cons e h ih =>
    rw [p.run_cons] at hl
    cases e with
    | enter task nr args =>
      rcases henter task nr args (p.run h) with hm | ⟨v, flag, hm, hp⟩
      · exact hcons (ih (hm ▸ hl))
      · rw [hm] at hl
        rcases BoundedMap.lookup_of_update hl with ⟨rfl, rfl⟩ | hl
        · exact ⟨⟨task, nr, args⟩, List.mem_cons_self .., rfl, hp⟩
        · exact hcons (ih hl)
    | exit task nr ret => exact hcons (ih (hexit hl))
    | spawn u => rw [p.step_spawn] at hl; exact hcons (ih hl)
    | die u => rw [p.step_die] at hl; exact hcons (ih hl)

theorem HandOff.pointer_origin {σ α : Type} {p : Program σ α} (H : HandOff p) {h : List Event}
    {t : Tid} {a : Addr} (hl : H.entry h t = some a) :
    ∃ f : Frame, .enter f.task f.nr f.args ∈ h ∧ f.task.tid = t ∧ H.pointer f = some a := by
  refine Program.pointer_origin (m := H.map) (P := fun f a => H.pointer f = some a)
    H.map_empty (fun task nr args s => ?_) (fun {task nr ret s t a} hl => ?_) hl
  · rw [H.enter_map]
    cases hp : H.pending task.comm nr args with
    | none => exact .inl rfl
    | some b => exact .inr ⟨b, H.flag, rfl, hp⟩
  · rw [H.exit_lookup] at hl
    exact (Option.ite_none_left_eq_some.1 hl).2

namespace ModifyFileRead

/-- A return takes records out, if it changes any. -/
theorem exit_record {task : Task} {nr : Nr} {ret : Int} {s : Maps} {t : Tid} {a : Addr} :
    ((program.step (.exit task nr ret) s).1.statPs.lookup t = some a →
      s.statPs.lookup t = some a) ∧
    ((program.step (.exit task nr ret) s).1.contentPs.lookup t = some a →
      s.contentPs.lookup t = some a) := by
  cases nr with
  | newfstatat =>
    rw [step_exit_newfstatat]
    split
    · cases s.statPs.lookup task.tid with
      | none => exact ⟨id, id⟩
      | some b =>
        refine ⟨fun hl => ?_, id⟩
        rw [BoundedMap.lookup_delete] at hl
        exact (Option.ite_none_left_eq_some.1 hl).2
    · exact ⟨id, id⟩
  | read =>
    rw [step_exit_read]
    split <;> exact ⟨id, id⟩
  | gettimeofday | clockGettime | openat => exact ⟨id, id⟩

theorem statP_origin {h : List Event} {t : Tid} {a : Addr} (hl : statP h t = some a) :
    ∃ f : Frame, .enter f.task f.nr f.args ∈ h ∧ f.task.tid = t ∧
      f.nr = .newfstatat ∧ f.args.arg2 = a := by
  refine Program.pointer_origin (m := Maps.statPs)
    (P := fun f a => f.nr = .newfstatat ∧ f.args.arg2 = a) (fun _ => rfl)
    (fun task nr args s => ?_) exit_record.1 hl
  rw [step_enter]
  dsimp only
  split
  · rename_i hc
    exact .inr ⟨_, _, rfl, hc.1, rfl⟩
  · exact .inl rfl

theorem contentP_origin {h : List Event} {t : Tid} {a : Addr} (hl : contentP h t = some a) :
    ∃ f : Frame, .enter f.task f.nr f.args ∈ h ∧ f.task.tid = t ∧
      f.nr = .read ∧ f.args.arg1 = a := by
  refine Program.pointer_origin (m := Maps.contentPs)
    (P := fun f a => f.nr = .read ∧ f.args.arg1 = a) (fun _ => rfl)
    (fun task nr args s => ?_) exit_record.2 hl
  rw [step_enter]
  dsimp only
  split
  · rename_i hc
    exact .inr ⟨_, _, rfl, hc.1, rfl⟩
  · exact .inl rfl

end ModifyFileRead

namespace PreloadFilter

theorem exit_record {task : Task} {nr : Nr} {ret : Int} {s : Maps} {t : Tid} {a : Addr}
    (hl : (program.step (.exit task nr ret) s).1.statPs.lookup t = some a) :
    s.statPs.lookup t = some a := by
  revert hl
  cases nr with
  | newfstatat =>
    rw [step_exit_newfstatat]
    split
    · cases s.statPs.lookup task.tid with
      | none => exact id
      | some b =>
        intro hl
        rw [BoundedMap.lookup_delete] at hl
        exact (Option.ite_none_left_eq_some.1 hl).2
    · exact id
  | gettimeofday | clockGettime | openat | read => exact id

theorem statP_origin {h : List Event} {t : Tid} {a : Addr} (hl : statP h t = some a) :
    ∃ f : Frame, .enter f.task f.nr f.args ∈ h ∧ f.task.tid = t ∧
      f.nr = .newfstatat ∧ f.args.arg2 = a := by
  refine Program.pointer_origin (m := Maps.statPs)
    (P := fun f a => f.nr = .newfstatat ∧ f.args.arg2 = a) (fun _ => rfl)
    (fun task nr args s => ?_) exit_record hl
  rw [step_enter]
  dsimp only
  split
  · rename_i hc
    exact .inr ⟨_, _, rfl, hc.1, rfl⟩
  · exact .inl rfl

end PreloadFilter

/-- What a program that hands pointers over writes goes through a pointer of the thread's own. -/
theorem HandOff.write_origin {σ α : Type} {p : Program σ α} (H : HandOff p) {h : List Event}
    {task : Task} {nr : Nr} {ret : Int} {w : UserWrite}
    (hw : p.write h (.exit task nr ret) = some w) :
    ∃ f : Frame, .enter f.task f.nr f.args ∈ h ∧ f.task.tid = task.tid ∧
      (H.pointer f).bind (H.through task.mem) = some w := by
  unfold Program.write at hw
  rw [H.exit_write] at hw
  obtain ⟨-, hw⟩ := Option.ite_none_right_eq_some.1 hw
  obtain ⟨a, hl, hthrough⟩ := Option.bind_eq_some_iff.1 hw
  obtain ⟨f, hmem, ht, hp⟩ := H.pointer_origin hl
  exact ⟨f, hmem, ht, by rw [hp]; exact hthrough⟩

/-- **Whatever a program writes goes to a buffer that the same thread has passed to a call**, also
if its events do not alternate. -/
theorem App.write_origin (a : App) {h : List Event} {task : Task} {nr : Nr} {ret : Int}
    {w : UserWrite} (hw : a.program.write h (.exit task nr ret) = some w) :
    ∃ f : Frame, .enter f.task f.nr f.args ∈ h ∧ f.task.tid = task.tid ∧
      (w.addr, w.bytes.length) ∈ f.sites := by
  have hsite : ∀ {f : Frame} {b : App} {u : ThreadState}, b.rewrite u f task.mem = some w →
      (w.addr, w.bytes.length) ∈ f.sites := fun h => (App.site_mem h).2
  cases a with
  | modifyTime =>
    obtain ⟨f, hmem, ht, hf⟩ := ModifyTime.handOff.write_origin hw
    exact ⟨f, hmem, ht, hsite (u := .start) ((rewrite_modifyTime _ f _).trans hf)⟩
  | modifyFileTimestamp =>
    obtain ⟨f, hmem, ht, hf⟩ := ModifyFileTimestamp.handOff.write_origin hw
    exact ⟨f, hmem, ht, hsite (u := .start) ((rewrite_modifyFileTimestamp _ f _).trans hf)⟩
  | modifyFileName =>
    obtain ⟨f, hmem, ht, hf⟩ := ModifyFileName.handOff.write_origin hw
    exact ⟨f, hmem, ht, hsite (u := .start) ((rewrite_modifyFileName _ f _).trans hf)⟩
  | modifyFileRead =>
    have hw : ModifyFileRead.program.write h (.exit task nr ret) = some w := hw
    by_cases h₁ : nr = .newfstatat
    · subst h₁
      rw [ModifyFileRead.write_newfstatat_eq] at hw
      obtain ⟨-, hw⟩ := Option.ite_none_right_eq_some.1 hw
      obtain ⟨b, hl, rfl⟩ := Option.map_eq_some_iff.1 hw
      obtain ⟨f, hmem, ht, hnr, rfl⟩ := ModifyFileRead.statP_origin hl
      exact ⟨f, hmem, ht, by simp [Frame.sites, hnr]⟩
    · by_cases h₂ : nr = .read
      · subst h₂
        rw [ModifyFileRead.write_read_eq] at hw
        obtain ⟨-, hw⟩ := Option.ite_none_right_eq_some.1 hw
        obtain ⟨b, hl, rfl⟩ := Option.map_eq_some_iff.1 hw
        obtain ⟨f, hmem, ht, hnr, rfl⟩ := ModifyFileRead.contentP_origin hl
        refine ⟨f, hmem, ht, ?_⟩
        rw [Frame.sites, hnr]
        exact List.mem_singleton.2 (congrArg _ ModifyFileRead.length_localtimeContent)
      · rw [ModifyFileRead.write_exit_other h task ret h₁ h₂] at hw
        cases hw
  | preloadFilter =>
    have hw : PreloadFilter.program.write h (.exit task nr ret) = some w := hw
    by_cases h₁ : nr = .newfstatat
    · subst h₁
      rw [PreloadFilter.write_newfstatat_eq] at hw
      obtain ⟨-, hw⟩ := Option.ite_none_right_eq_some.1 hw
      obtain ⟨b, hl, rfl⟩ := Option.map_eq_some_iff.1 hw
      obtain ⟨f, hmem, ht, hnr, rfl⟩ := PreloadFilter.statP_origin hl
      exact ⟨f, hmem, ht, by simp [Frame.sites, hnr]⟩
    · rw [PreloadFilter.write_exit_other h task ret h₁] at hw
      cases hw

end Bpf

namespace Loader

open Bpf History

section
variable {σ α : Type} {prog : Program σ α}

theorem Process.active_sublist (p : Process) (handlers : List (Handler σ)) :
    (p.active handlers).Sublist handlers := by
  unfold active
  split
  · exact List.nil_sublist _
  · exact (List.drop_sublist ..).trans (List.take_sublist ..)

theorem Life.active_sublist (s : Life σ) : (s.active prog).Sublist prog.handlers := by
  unfold active
  cases s.process with
  | none => exact List.nil_sublist _
  | some p => exact p.active_sublist _

/-- An event is handled as by the whole program, or not at all. -/
theorem Life.handle_eq (hp : (prog.handlers.map Handler.tracepoint).Nodup) (s : Life σ)
    (e : Event) : s.handle prog e =
      if Handled (s.active prog) e then prog.step e s.maps else (s.maps, none) :=
  dispatch_sublist s.active_sublist hp e s.maps

/-- **The maps are those of a run of what was handled since they were made**: nothing of an earlier
process is left in them. -/
theorem life_maps (hp : (prog.handlers.map Handler.tracepoint).Nodup) (h : List LifeEvent) :
    (life prog h).maps = prog.run (handled prog h) := by
  induction h with
  | nil => rfl
  | cons x h ih =>
    cases x with
    | exec onInt => exact ih
    | process i =>
      show (if (life prog h).Loads i then prog.empty else (life prog h).maps) =
        prog.run (if (life prog h).Loads i then [] else handled prog h)
      split
      · rfl
      · exact ih
    | event e =>
      show ((life prog h).handle prog e).1 = prog.run (if _ then _ else _)
      rw [Life.handle_eq hp]
      split
      · rw [ih]
        rfl
      · exact ih

/-- A write is that of the program after a run of what was handled. -/
theorem lifeWrite_eq (hp : (prog.handlers.map Handler.tracepoint).Nodup) (h : List LifeEvent)
    (e : Event) : lifeWrite prog h e =
      if Handled ((life prog h).active prog) e then prog.write (handled prog h) e else none := by
  unfold lifeWrite
  rw [Life.handle_eq hp, life_maps hp]
  split <;> rfl

end

/-- Handlers are attached in a running process only, between attach and detach. -/
theorem running_of_handled {σ α : Type} {prog : Program σ α} {s : Life σ} {e : Event}
    (hh : Handled (s.active prog) e) :
    ∃ p ∈ s.process, ¬ p.Over ∧ p.detached < p.attached := by
  obtain ⟨t, ht, -⟩ := hh
  unfold Life.active at ht
  cases hp : s.process with
  | none => rw [hp] at ht; cases ht
  | some p =>
    rw [hp] at ht
    have ht : t ∈ (p.active prog.handlers).map Handler.tracepoint := ht
    refine ⟨p, rfl, ?_, ?_⟩
    · intro ho
      rw [show p.active prog.handlers = [] from if_pos ho] at ht
      cases ht
    · by_contra hle
      have hnil : p.active prog.handlers = [] := by
        unfold Process.active
        split
        · rfl
        · refine List.drop_eq_nil_of_le (Nat.le_trans (List.length_take_le ..) ?_)
          omega
      rw [hnil] at ht
      cases ht

/-- **A program under its loader** is, through all attaching, detaching, ending and restarting, the
program run on the events that found their handler attached since its maps were made, and writes at
such events only. -/
theorem life_run (a : App) (h : List LifeEvent) :
    (life a.program h).maps = a.program.run (handled a.program h) ∧
    ∀ e, lifeWrite a.program h e =
      if Handled ((life a.program h).active a.program) e then
        a.program.write (handled a.program h) e
      else none :=
  ⟨life_maps a.nodup_tracepoints h, lifeWrite_eq a.nodup_tracepoints h⟩

/-- **Provenance**: whatever a program writes under its loader, through all attaching, detaching,
ending and restarting, is written while the process runs, at the return of a call, to a buffer that
the same thread has passed to a call since the maps were made. -/
theorem life_provenance (a : App) {h : List LifeEvent} {e : Event} {w : UserWrite}
    (hw : lifeWrite a.program h e = some w) :
    (∃ p ∈ (life a.program h).process, ¬ p.Over ∧ p.detached < p.attached) ∧
    (∃ task nr ret, e = .exit task nr ret) ∧
    ∃ f : Frame, .enter f.task f.nr f.args ∈ handled a.program h ∧ f.task.tid = e.tid ∧
      (w.addr, w.bytes.length) ∈ f.sites := by
  rw [lifeWrite_eq a.nodup_tracepoints] at hw
  obtain ⟨hh, hw⟩ := Option.ite_none_right_eq_some.1 hw
  refine ⟨running_of_handled hh, ?_⟩
  cases e with
  | enter task nr args =>
    rw [show a.program.write _ _ = none from a.write_enter task nr args _] at hw
    cases hw
  | exit task nr ret => exact ⟨⟨task, nr, ret, rfl⟩, a.write_origin hw⟩
  | spawn t =>
    rw [show a.program.write _ _ = none from congrArg Prod.snd (a.program.step_spawn t _)] at hw
    cases hw
  | die t =>
    rw [show a.program.write _ _ = none from congrArg Prod.snd (a.program.step_die t _)] at hw
    cases hw

/-- The loader of `modify_time` has attached its handlers, and the compiler asks for the time. -/
def servedRun : List LifeEvent :=
  [.event (.enter (cc1Task 1) .clockGettime ⟨0, 0x1000, 0, 0, 0, 0⟩),
   .process (.answer 0), .process (.answer 0), .process (.answer 0), .process (.answer 0),
   .process (.answer 0), .process (.answer 1), .process (.answer 0), .process (.answer 0),
   .process (.answer 0), .exec .ign]

theorem life_provenance_servedRun :
    ∃ f : Frame, .enter f.task f.nr f.args ∈ handled App.modifyTime.program servedRun ∧
      f.task.tid = 1 ∧ ((0x1000 : Addr), 16) ∈ f.sites :=
  (life_provenance .modifyTime (h := servedRun) (e := .exit (cc1Task 1) .clockGettime 0)
    (w := ⟨0x1000, ModifyTime.clockBytes⟩)
    (show lifeWrite ModifyTime.program _ _ = _ by decide)).2.2

end Loader
