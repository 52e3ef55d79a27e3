import DetBuilds.Bpf.Spec
import DetBuilds.Bpf.Proof.Order
import DetBuilds.Bpf.Proof.Product

/-!
# The programs do what they are for

However full the maps are, a program writes what `App.rewrite` says or nothing (`rewrite_of_write`).
So the writes of two programs at one event never overlap, and the order of the handlers does not
matter at any event (`system_product`). As long as the maps have room (`App.Room`), every rewrite is
made (`write_eq_rewrite`), and the maps are no more than a representation of the threads' states
(`App.Represents`): the system refines its specification (`system_refines`).
-/

set_option autoImplicit false

namespace Bpf

open History

/-! ## Marks -/

/-- What is set by marking calls and taken back by clearing ones is the mark that is due. -/
theorem Marking.eq_armed {σ α : Type} {p : Program σ α} (M : Marking p)
    {D : List Event → Tid → Bool} (hnil : ∀ t, D [] t = false)
    (hother : ∀ e h t, e.tid ≠ t → D (e :: h) t = D h t)
    (henter : ∀ task nr args h, D (.enter task nr args :: h) task.tid =
      if M.Marks task nr args then true else D h task.tid)
    (hexit : ∀ task nr ret h, D (.exit task nr ret :: h) task.tid =
      if M.Clears task.comm nr then false else D h task.tid)
    (hspawn : ∀ t h, D (.spawn t :: h) t = D h t)
    (hdie : ∀ t h, D (.die t :: h) t = D h t) (h : List Event) (t : Tid) :
    D h t = M.armed h t := by
  induction h with
  | nil => exact hnil t
  | cons e h ih =>
    by_cases he : e.tid = t
    · cases e with
      | enter task nr args =>
        have he : task.tid = t := he
        rw [← he, henter, he, ih]
        simp only [armed, he, true_and]
      | exit task nr ret =>
        have he : task.tid = t := he
        rw [← he, hexit, he, ih]
        simp only [armed, he, true_and]
      | spawn u =>
        have he : u = t := he
        rw [← he, hspawn, he, ih]
        rfl
      | die u =>
        have he : u = t := he
        rw [← he, hdie, he, ih]
        rfl
    · rw [hother e h t he, ih]
      cases e with
      | enter task nr args => exact (if_neg fun hm => he hm.1).symm
      | exit task nr ret => exact (if_neg fun hm => he hm.1).symm
      | spawn u => rfl
      | die u => rfl

/-- A thread waits for the zone file as long as it is armed. -/
theorem threads_zone (h : List Event) (t : Tid) :
    (threads h t).zone = ModifyFileRead.marking.armed h t := by
  refine ModifyFileRead.marking.eq_armed (D := fun h t => (threads h t).zone) (fun _ => rfl)
    (fun e h t he => ?_) (fun task nr args h => ?_) (fun task nr ret h => ?_) (fun u h => ?_)
    (fun u h => ?_) h t
  · rw [threads_of_ne h he]
  · exact congrArg ThreadState.zone (threads_self (.enter task nr args) h)
  · exact congrArg ThreadState.zone (threads_self (.exit task nr ret) h)
  · exact congrArg ThreadState.zone (threads_self (.spawn u) h)
  · exact congrArg ThreadState.zone (threads_self (.die u) h)

/-- The same of the preload file. -/
theorem threads_preload (h : List Event) (t : Tid) :
    (threads h t).preload = PreloadFilter.marking.armed h t := by
  refine PreloadFilter.marking.eq_armed (D := fun h t => (threads h t).preload) (fun _ => rfl)
    (fun e h t he => ?_) (fun task nr args h => ?_) (fun task nr ret h => ?_) (fun u h => ?_)
    (fun u h => ?_) h t
  · rw [threads_of_ne h he]
  · exact congrArg ThreadState.preload (threads_self (.enter task nr args) h)
  · exact congrArg ThreadState.preload (threads_self (.exit task nr ret) h)
  · exact congrArg ThreadState.preload (threads_self (.spawn u) h)
  · exact congrArg ThreadState.preload (threads_self (.die u) h)

/-! ## Writes -/

/-- The rewrites of the programs that hand a pointer over go through the call's pointer. -/
theorem rewrite_modifyTime (u : ThreadState) (f : Frame) (m : ByteMem) :
    App.modifyTime.rewrite u f m =
      (ModifyTime.handOff.pointer f).bind (ModifyTime.handOff.through m) := by
  show (if _ then _ else _) = Option.bind (if _ then _ else _) _
  split <;> rfl

theorem rewrite_modifyFileTimestamp (u : ThreadState) (f : Frame) (m : ByteMem) :
    App.modifyFileTimestamp.rewrite u f m =
      (ModifyFileTimestamp.handOff.pointer f).bind (ModifyFileTimestamp.handOff.through m) := by
  show (if _ then _ else _) = Option.bind (if _ then _ else _) _
  split <;> rfl

theorem rewrite_modifyFileName (u : ThreadState) (f : Frame) (m : ByteMem) :
    App.modifyFileName.rewrite u f m =
      (ModifyFileName.handOff.pointer f).bind (ModifyFileName.handOff.through m) := by
  show (if _ then _ else _) = Option.bind (if _ then _ else _) _
  split <;> rfl

/-- What leads a program that hands a pointer over to write is the call's own pointer. -/
theorem HandOff.write_of_exit {σ α : Type} {p : Program σ α} (H : HandOff p) {h : List Event}
    (ha : Alternating h) {task : Task} {nr : Nr} {ret : Int} {f : Frame} {w : UserWrite}
    (hf : inflight h task.tid = some f) (hw : p.write h (.exit task nr ret) = some w) :
    (H.pointer f).bind (H.through task.mem) = some w := by
  obtain ⟨f', a, hf', hp, hthr⟩ := H.write_exit_sub ha hw
  rw [hf] at hf'
  cases hf'
  rw [hp]
  exact hthr

section
variable {h : List Event} {task : Task} {nr : Nr} {ret : Int} {f : Frame} {w : UserWrite}

theorem rewrite_of_write_fileRead (ha : Alternates h (.exit task nr ret))
    (hf : inflight h task.tid = some f)
    (hw : ModifyFileRead.program.write h (.exit task nr ret) = some w) :
    App.modifyFileRead.rewrite (threads h task.tid) f task.mem = some w := by
  obtain ⟨hnr, hc⟩ := alternates_frame ha hf
  have hzone := threads_zone h task.tid
  by_cases h₁ : nr = .newfstatat
  · subst h₁
    obtain ⟨hcc1, harm, hown⟩ := ModifyFileRead.of_write_newfstatat hf hnr hw
    rw [hown (hc ▸ hcc1)]
    simp [App.rewrite, hnr, hc, hcc1, hzone, harm]
  · by_cases h₂ : nr = .read
    · subst h₂
      obtain ⟨hcc1, harm, hown⟩ := ModifyFileRead.of_write_read hf hnr hw
      rw [hown (hc ▸ hcc1)]
      simp [App.rewrite, hnr, hc, hcc1, hzone, harm]
    · rw [ModifyFileRead.write_exit_other h task ret h₁ h₂] at hw
      cases hw

theorem rewrite_of_write_preload (ha : Alternates h (.exit task nr ret))
    (hf : inflight h task.tid = some f)
    (hw : PreloadFilter.program.write h (.exit task nr ret) = some w) :
    App.preloadFilter.rewrite (threads h task.tid) f task.mem = some w := by
  obtain ⟨hnr, hc⟩ := alternates_frame ha hf
  have hpreload := threads_preload h task.tid
  by_cases h₁ : nr = .newfstatat
  · subst h₁
    obtain ⟨hno, harm, hown⟩ := PreloadFilter.of_write_newfstatat hf hnr hw
    rw [hown (hc ▸ hno)]
    simp [App.rewrite, hnr, hc, hno, hpreload, harm]
  · rw [PreloadFilter.write_exit_other h task ret h₁] at hw
    cases hw

/-- **A program writes its rewrite or nothing**, however full its maps are. -/
theorem rewrite_of_write (ha : Alternating (.exit task nr ret :: h))
    (hf : inflight h task.tid = some f) (a : App)
    (hw : a.program.write h (.exit task nr ret) = some w) :
    a.rewrite (threads h task.tid) f task.mem = some w := by
  cases a with
  | modifyTime =>
    rw [rewrite_modifyTime]
    exact ModifyTime.handOff.write_of_exit ha.2 hf hw
  | modifyFileTimestamp =>
    rw [rewrite_modifyFileTimestamp]
    exact ModifyFileTimestamp.handOff.write_of_exit ha.2 hf hw
  | modifyFileName =>
    rw [rewrite_modifyFileName]
    exact ModifyFileName.handOff.write_of_exit ha.2 hf hw
  | modifyFileRead => exact rewrite_of_write_fileRead ha.1 hf hw
  | preloadFilter => exact rewrite_of_write_preload ha.1 hf hw

/-! ## Writes with room in the maps -/

theorem App.Room.suffix {a : App} {h k : List Event} (hr : a.Room h) (hs : k <:+ h) :
    a.Room k := by
  cases a with
  | modifyTime => exact EachState.suffix hr hs
  | preloadFilter => exact EachState.suffix hr hs
  | modifyFileTimestamp => exact EachState.suffix hr hs
  | modifyFileName => exact EachState.suffix hr hs
  | modifyFileRead => exact EachState.suffix hr hs

/-- What room in the maps is for the programs that `start.sh` starts. -/
theorem App.room_bpfApps {h : List Event} (ht : Uncrowded ModifyTime.calls h)
    (hs : Uncrowded [.newfstatat] h) (hr : ModifyFileRead.program.NeverFull h)
    (hp : PreloadFilter.program.NeverFull h) : ∀ a ∈ bpfApps, a.Room h := by
  intro a ha
  cases a with
  | modifyTime => exact ht
  | modifyFileTimestamp => exact hs
  | modifyFileName => exact absurd ha (by decide)
  | modifyFileRead => exact hr
  | preloadFilter => exact hp

theorem write_eq_rewrite_fileRead (ha : Alternates h (.exit task nr ret))
    (hn : ModifyFileRead.program.NeverFull h) (hf : inflight h task.tid = some f) :
    ModifyFileRead.program.write h (.exit task nr ret) =
      App.modifyFileRead.rewrite (threads h task.tid) f task.mem := by
  obtain ⟨hnr, hc⟩ := alternates_frame ha hf
  have hzone := threads_zone h task.tid
  cases nr with
  | newfstatat =>
    rw [ModifyFileRead.write_newfstatat ret hn hf hnr hc]
    simp [App.rewrite, hnr, hc, hzone]
  | read =>
    rw [ModifyFileRead.write_read ret hn hf hnr hc]
    simp [App.rewrite, hnr, hc, hzone]
  | gettimeofday | clockGettime | openat =>
    rw [ModifyFileRead.write_exit_other h task ret (by decide) (by decide)]
    simp [App.rewrite, hnr]

theorem write_eq_rewrite_preload (ha : Alternates h (.exit task nr ret))
    (hn : PreloadFilter.program.NeverFull h) (hf : inflight h task.tid = some f) :
    PreloadFilter.program.write h (.exit task nr ret) =
      App.preloadFilter.rewrite (threads h task.tid) f task.mem := by
  obtain ⟨hnr, hc⟩ := alternates_frame ha hf
  have hpreload := threads_preload h task.tid
  cases nr with
  | newfstatat =>
    rw [PreloadFilter.write_newfstatat ret hn hf hnr hc]
    simp [App.rewrite, hnr, hc, hpreload]
  | gettimeofday | clockGettime | openat | read =>
    rw [PreloadFilter.write_exit_other h task ret (by decide)]
    simp [App.rewrite, hnr]

/-- **With room in its maps, a program makes every rewrite.** -/
theorem write_eq_rewrite (ha : Alternating (.exit task nr ret :: h))
    (hf : inflight h task.tid = some f) {a : App} (hr : a.Room h) :
    a.program.write h (.exit task nr ret) = a.rewrite (threads h task.tid) f task.mem := by
  cases a with
  | modifyTime =>
    rw [rewrite_modifyTime]
    exact ModifyTime.handOff.write_exit ha hr hf
  | modifyFileTimestamp =>
    rw [rewrite_modifyFileTimestamp]
    exact ModifyFileTimestamp.handOff.write_exit ha hr hf
  | modifyFileName =>
    rw [rewrite_modifyFileName]
    exact ModifyFileName.handOff.write_exit ha hr hf
  | modifyFileRead => exact write_eq_rewrite_fileRead ha.1 hr hf
  | preloadFilter => exact write_eq_rewrite_preload ha.1 hr hf

end

/-! ## The order of the handlers -/

namespace App

/-- The calls whose return a program handles. -/
def handles : App → List Nr
  | .modifyTime => ModifyTime.calls
  | .preloadFilter => [.newfstatat]
  | .modifyFileTimestamp => [.newfstatat]
  | .modifyFileName => [.openat]
  | .modifyFileRead => [.newfstatat, .read]

/-- No return but that of `newfstatat` is handled by two programs. -/
theorem handles_unique {a b : App} {nr : Nr} (ha : nr ∈ a.handles) (hb : nr ∈ b.handles)
    (hnr : nr ≠ .newfstatat) : a = b := by
  cases a <;> cases b <;> cases nr <;> simp_all [handles, ModifyTime.calls]

variable {u : ThreadState} {f : Frame} {m : ByteMem} {a b : App} {w v : UserWrite}

theorem nr_of_rewrite (hw : a.rewrite u f m = some w) : f.nr ∈ a.handles := by
  cases a with
  | modifyTime =>
    obtain ⟨h, -⟩ := Option.ite_none_right_eq_some.1 hw
    exact h.1
  | preloadFilter =>
    obtain ⟨h, -⟩ := Option.ite_none_right_eq_some.1 hw
    exact List.mem_singleton.2 h.1
  | modifyFileTimestamp =>
    obtain ⟨h, -⟩ := Option.ite_none_right_eq_some.1 hw
    exact List.mem_singleton.2 h.1
  | modifyFileName =>
    obtain ⟨h, -⟩ := Option.ite_none_right_eq_some.1 hw
    exact List.mem_singleton.2 h.1
  | modifyFileRead =>
    obtain ⟨-, h⟩ := Option.ite_none_right_eq_some.1 hw
    cases hnr : f.nr with
    | newfstatat | read => simp [handles]
    | gettimeofday | clockGettime | openat => rw [hnr] at h; cases h

/-- The rewrite of a `struct stat` goes to the time stamps under `cc1`, and to the size under a comm
that only one of the other two programs accepts. -/
theorem site_of_rewrite (hnr : f.nr = .newfstatat) (hw : a.rewrite u f m = some w) :
    (a = .modifyFileTimestamp ∧ w.addr = ByteMem.off f.args.arg2 72 ∧ w.bytes.length = 32) ∨
      (a = (if commFilter f.task.comm = true then .modifyFileRead else .preloadFilter) ∧
        w.addr = ByteMem.off f.args.arg2 48 ∧ w.bytes.length = 8) := by
  cases a with
  | modifyTime =>
    obtain ⟨h, -⟩ := Option.ite_none_right_eq_some.1 hw
    exact absurd h.1 (by rw [hnr]; decide)
  | modifyFileName =>
    obtain ⟨h, -⟩ := Option.ite_none_right_eq_some.1 hw
    exact absurd h.1 (by rw [hnr]; decide)
  | modifyFileTimestamp =>
    obtain ⟨-, h⟩ := Option.ite_none_right_eq_some.1 hw
    cases h
    exact .inl ⟨rfl, rfl, rfl⟩
  | preloadFilter =>
    obtain ⟨hc, h⟩ := Option.ite_none_right_eq_some.1 hw
    cases h
    exact .inr ⟨by simp [hc.2.1], rfl, rfl⟩
  | modifyFileRead =>
    obtain ⟨hc, h⟩ := Option.ite_none_right_eq_some.1 hw
    rw [hnr] at h
    cases h
    exact .inr ⟨by simp [hc.1], rfl, rfl⟩

/-- **The rewrites of two programs do not overlap.** -/
theorem sep_of_rewrite (hab : a ≠ b) (hw : a.rewrite u f m = some w)
    (hv : b.rewrite u f m = some v) :
    ByteMem.Sep w.addr w.bytes.length v.addr v.bytes.length := by
  by_cases hnr : f.nr = .newfstatat
  · have hfields : ByteMem.Sep (ByteMem.off f.args.arg2 48) 8 (ByteMem.off f.args.arg2 72) 32 :=
      ByteMem.sep_off _ (by decide) (by decide)
    rcases site_of_rewrite hnr hw with ⟨ha, hwa, hwl⟩ | ⟨ha, hwa, hwl⟩ <;>
      rcases site_of_rewrite hnr hv with ⟨hb, hva, hvl⟩ | ⟨hb, hva, hvl⟩
    · exact absurd (ha.trans hb.symm) hab
    · rw [hwa, hwl, hva, hvl]
      exact hfields.symm
    · rw [hwa, hwl, hva, hvl]
      exact hfields
    · exact absurd (ha.trans hb.symm) hab
  · exact absurd (handles_unique (nr_of_rewrite hw) (nr_of_rewrite hv) hnr) hab

end App

/-- But for returns, a program writes nothing. -/
theorem App.write_of_no_exit (a : App) (h : List Event) {e : Event}
    (he : ∀ task nr ret, e ≠ .exit task nr ret) : a.program.write h e = none := by
  cases e with
  | enter task nr args => exact a.write_enter task nr args _
  | exit task nr ret => exact absurd rfl (he task nr ret)
  | spawn t => exact congrArg Prod.snd (a.program.step_spawn t _)
  | die t => exact congrArg Prod.snd (a.program.step_die t _)

/-- What two programs write at an event does not overlap, so it does not matter which comes first. -/
theorem write_comm {h : List Event} {e : Event} (ha : Alternating (e :: h)) {a b : App}
    (hab : a ≠ b) (m : ByteMem) :
    applyWrite (a.program.write h e) (applyWrite (b.program.write h e) m) =
      applyWrite (b.program.write h e) (applyWrite (a.program.write h e) m) := by
  refine applyWrite_comm m fun v hv w hw => ?_
  by_cases he : ∀ task nr ret, e ≠ .exit task nr ret
  · rw [a.write_of_no_exit h he] at hw
    cases hw
  · obtain ⟨task, nr, ret, rfl⟩ : ∃ task nr ret, e = .exit task nr ret := by simpa using he
    obtain ⟨f, hf, -⟩ := alternates_exit.1 ha.1
    exact App.sep_of_rewrite (Ne.symm hab) (rewrite_of_write ha hf b hv)
      (rewrite_of_write ha hf a hw)

open ModifyFileRead (localtimeTask) in
/-- `cc1` opens the zone file and asks for its size, under the four programs of `start.sh`. -/
def zoneSizeRun : List (SystemEvent bpfApps) :=
  [⟨.exit (localtimeTask 1) .newfstatat 0,
    [.preloadFilter, .modifyFileRead, .modifyTime, .modifyFileTimestamp], by decide⟩,
   ⟨.enter (localtimeTask 1) .newfstatat ⟨3, 0x5000, 0x2000, 0x1000, 0, 0⟩, bpfApps, .refl _⟩,
   ⟨.exit (localtimeTask 1) .openat 3, bpfApps.reverse, List.reverse_perm _⟩,
   ⟨.enter (localtimeTask 1) .openat ⟨0, 0x1000, 0, 0, 0, 0⟩, bpfApps, .refl _⟩]

/-- **The system is a product**: each loaded program has the maps of a run of its own, and in every
state that the programs reach together, the handlers of every event leave the same maps and the
same memory in whichever order they run. -/
theorem system_product {apps : List App} (hd : apps.Nodup) {h : List (SystemEvent apps)}
    (ha : Alternating (systemEvents h)) :
    (∀ a ∈ apps, systemRun h a = a.program.run (systemEvents h)) ∧
    ∀ e, Alternates (systemEvents h) e → ∀ o₁ o₂ : List App, o₁.Perm apps → o₂.Perm apps →
      system.actAll o₁ e (systemRun h) = system.actAll o₂ e (systemRun h) := by
  refine ⟨fun a => systemRun_apply hd h, fun e he o₁ o₂ ho₁ ho₂ => ?_⟩
  refine system.actAll_perm (independent e) (ho₁.nodup_iff.2 hd) (ho₁.trans ho₂.symm) ?_
  intro a hmem b hmem' hab m
  have hwrite : ∀ c ∈ apps, (system.step c e (system.mem e) (systemRun h c)).2 =
      c.program.write (systemEvents h) e := by
    intro c hc
    show (c.program.step (e.withMem e.mem) (systemRun h c)).2 = _
    rw [withMem_mem, systemRun_apply hd h hc]
    rfl
  rw [hwrite a (ho₁.mem_iff.1 hmem), hwrite b (ho₁.mem_iff.1 hmem')]
  exact write_comm ⟨he, ha⟩ hab m

open ModifyFileRead (localtimeTask) in
theorem system_product_zoneSizeRun :
    system.actAll bpfApps (.exit (localtimeTask 1) .newfstatat 0) (systemRun zoneSizeRun.tail) =
      system.actAll bpfApps.reverse (.exit (localtimeTask 1) .newfstatat 0)
        (systemRun zoneSizeRun.tail) :=
  (system_product (by decide) (h := zoneSizeRun.tail) (by decide)).2 _ (by decide) _ _
    (List.Perm.refl _) (List.reverse_perm _)

/-! ## The maps -/

/-- A program's maps represent the states of the threads. -/
def App.Represents : (a : App) → a.Maps → (Tid → ThreadState) → Prop
  | .modifyTime, s, u => ∀ t, BoundedMap.lookup s.timePMap t =
    (u t).call.bind fun f => ModifyTime.pending f.task.comm f.nr f.args
  | .modifyFileTimestamp, s, u => ∀ t, BoundedMap.lookup s.statPs t =
    (u t).call.bind fun f => ModifyFileTimestamp.pending f.task.comm f.nr f.args
  | .modifyFileName, s, u => ∀ t, BoundedMap.lookup s.filenames t =
    (u t).call.bind fun f => ModifyFileName.pending f.task.comm f.nr f.args
  | .modifyFileRead, s, u => ∀ t,
    ((BoundedMap.lookup s.tids t).isSome ↔ (u t).zone = true) ∧
    (BoundedMap.lookup s.statPs t = (u t).call.bind fun f =>
      if (f.nr = .newfstatat ∧ commFilter f.task.comm = true) ∧ (u t).zone = true then
        some f.args.arg2
      else none) ∧
    ∀ f, (u t).call = some f → f.nr = .read → commFilter f.task.comm = true →
      (u t).zone = true → BoundedMap.lookup s.contentPs t = some f.args.arg1
  | .preloadFilter, s, u => ∀ t,
    ((BoundedMap.lookup s.tids t).isSome ↔ (u t).preload = true) ∧
    BoundedMap.lookup s.statPs t = (u t).call.bind fun f =>
      if (f.nr = .newfstatat ∧ commFilter f.task.comm = false) ∧ (u t).preload = true then
        some f.args.arg2
      else none

/-- What is recorded for marked threads in calls `C`, and for no others, is what such a thread's
call in flight left. -/
theorem Marking.record_eq {σ α : Type} {p : Program σ α} (M : Marking p) {h : List Event} {t : Tid}
    {o : Option Addr} {C : Frame → Prop} [DecidablePred C] {arg : Frame → Addr}
    (hn : p.NeverFull h)
    (hsub : o.isSome → ∃ f, inflight h t = some f ∧ C f ∧ (M.mark h t).isSome)
    (hrec : ∀ f, inflight h t = some f → C f → (M.mark h t).isSome →
      o = some (arg f) ∨ (o = none ∧ ¬ p.NeverFull h)) :
    o = (inflight h t).bind fun f => if C f ∧ M.armed h t = true then some (arg f) else none := by
  cases hf : inflight h t with
  | none =>
    cases o with
    | none => rfl
    | some a =>
      obtain ⟨f, hf', -⟩ := hsub rfl
      rw [hf] at hf'; cases hf'
  | some f =>
    show o = if _ then _ else _
    by_cases hC : C f ∧ M.armed h t = true
    · rw [if_pos hC]
      have hm := (M.mark_iff_armed hn t).2 hC.2
      exact (hrec f hf hC.1 hm).resolve_right fun h' => h'.2 hn
    · rw [if_neg hC]
      cases o with
      | none => rfl
      | some a =>
        obtain ⟨f', hf', hC', hm⟩ := hsub rfl
        rw [hf] at hf'; cases hf'
        exact absurd ⟨hC', M.armed_of_mark hm⟩ hC

theorem represents_fileRead {h : List Event} (ha : Alternating h)
    (hn : ModifyFileRead.program.NeverFull h) :
    App.modifyFileRead.Represents (ModifyFileRead.program.run h) (threads h) := by
  intro t
  rw [threads_zone, threads_call]
  refine ⟨ModifyFileRead.marking.mark_iff_armed hn t, ?_, fun f hf hnr hc harm => ?_⟩
  · refine ModifyFileRead.marking.record_eq hn (fun hl => ?_) fun f hf hC hm => ?_
    · exact ModifyFileRead.statP_sub ha hl
    · exact ModifyFileRead.statP_inflight hf hC.1 hC.2 hm
  · have hm := (ModifyFileRead.marking.mark_iff_armed hn t).2 harm
    exact (ModifyFileRead.contentP_inflight hf hnr hc hm).resolve_right fun h' => h'.2 hn

theorem represents_preload {h : List Event} (ha : Alternating h)
    (hn : PreloadFilter.program.NeverFull h) :
    App.preloadFilter.Represents (PreloadFilter.program.run h) (threads h) := by
  intro t
  rw [threads_preload, threads_call]
  refine ⟨PreloadFilter.marking.mark_iff_armed hn t, ?_⟩
  refine PreloadFilter.marking.record_eq hn (fun hl => ?_) fun f hf hC hm => ?_
  · exact PreloadFilter.statP_sub ha hl
  · exact PreloadFilter.statP_inflight hf hC.1 hC.2 hm

/-- **With room in its maps, a program represents the threads by them.** -/
theorem represents {h : List Event} (ha : Alternating h) (a : App) (hr : a.Room h) :
    a.Represents (a.program.run h) (threads h) := by
  cases a with
  | modifyTime => exact fun t => by rw [threads_call]; exact ModifyTime.handOff.exact ha hr t
  | modifyFileTimestamp =>
    exact fun t => by rw [threads_call]; exact ModifyFileTimestamp.handOff.exact ha hr t
  | modifyFileName => exact fun t => by rw [threads_call]; exact ModifyFileName.handOff.exact ha hr t
  | modifyFileRead => exact represents_fileRead ha hr
  | preloadFilter => exact represents_preload ha hr

/-! ## Refinement -/

/-- In whichever order the writes of an event are made, they leave the same memory. -/
theorem foldl_writes_perm {h : List Event} {e : Event} (ha : Alternating (e :: h))
    {o₁ o₂ : List App} (hp : o₁.Perm o₂) (m : ByteMem) :
    o₁.foldl (fun m a => applyWrite (a.program.write h e) m) m =
      o₂.foldl (fun m a => applyWrite (a.program.write h e) m) m := by
  refine hp.foldl_eq' (fun a _ b _ m => ?_) _
  by_cases hab : a = b
  · rw [hab]
  · exact write_comm ha (Ne.symm hab) m

theorem specMem_of_no_exit (apps : List App) (u : ThreadState) {e : Event}
    (he : ∀ task nr ret, e ≠ .exit task nr ret) : specMem apps u e = e.mem := by
  cases e with
  | exit task nr ret => exact absurd rfl (he task nr ret)
  | enter task nr args | spawn t | die t => rfl

/-- A return leaves the rewrites that the programs make. -/
theorem specMem_exit {apps : List App} {u : ThreadState} {f : Frame} (hf : u.call = some f)
    (task : Task) (nr : Nr) (ret : Int) : specMem apps u (.exit task nr ret) =
      apps.foldl (fun m a => applyWrite (a.rewrite u f task.mem) m) task.mem := by
  unfold specMem
  rw [hf]

/-- The writes of an event leave the memory that the specification says. -/
theorem foldl_writes_eq_specMem {apps : List App} {h : List Event} {e : Event}
    (ha : Alternating (e :: h)) (hr : ∀ a ∈ apps, a.Room h) :
    apps.foldl (fun m a => applyWrite (a.program.write h e) m) e.mem =
      specMem apps (threads h e.tid) e := by
  by_cases he : ∀ task nr ret, e ≠ .exit task nr ret
  · rw [specMem_of_no_exit apps _ he]
    exact List.foldl_fixed' (fun a => by rw [a.write_of_no_exit h he]; rfl) apps
  · obtain ⟨task, nr, ret, rfl⟩ : ∃ task nr ret, e = .exit task nr ret := by simpa using he
    obtain ⟨f, hf, -⟩ := alternates_exit.1 ha.1
    refine Eq.trans ?_ (specMem_exit ((threads_call ..).trans hf) task nr ret).symm
    refine List.foldl_ext _ _ _ fun m a hmem => ?_
    exact congrArg (applyWrite · m) (write_eq_rewrite ha hf (hr a hmem))

/-- A step leaves what the programs write, in whichever order. -/
theorem systemMem_eq_writes {apps : List App} (hd : apps.Nodup) {h : List (SystemEvent apps)}
    {e : SystemEvent apps} (ha : Alternating (systemEvents (e :: h))) :
    systemMem h e =
      apps.foldl (fun m a => applyWrite (a.program.write (systemEvents h) e.event) m)
        e.event.mem := by
  rw [systemMem_eq hd]
  exact foldl_writes_perm ha e.isOrder _

/-- But for returns, it leaves memory as it is. -/
theorem systemMem_of_no_exit {apps : List App} (hd : apps.Nodup) {h : List (SystemEvent apps)}
    {e : SystemEvent apps} (ha : Alternating (systemEvents (e :: h)))
    (he : ∀ task nr ret, e.event ≠ .exit task nr ret) : systemMem h e = e.event.mem := by
  rw [systemMem_eq_writes hd ha]
  exact List.foldl_fixed' (fun a => by rw [a.write_of_no_exit _ he]; rfl) apps

/-- A step leaves the memory that the specification says. -/
theorem systemMem_eq_specMem {apps : List App} (hd : apps.Nodup) {h : List (SystemEvent apps)}
    {e : SystemEvent apps} (ha : Alternating (systemEvents (e :: h)))
    (hr : ∀ a ∈ apps, a.Room (systemEvents h)) :
    systemMem h e = specMem apps (threads (systemEvents h) e.event.tid) e.event :=
  (systemMem_eq_writes hd ha).trans (foldl_writes_eq_specMem ha hr)

/-- **Refinement**: in every run of the programs together in which no map lacks room, in whichever
orders the handlers run, the maps represent the states of the threads, and every event leaves the
memory that the specification says. -/
theorem system_refines {apps : List App} (hd : apps.Nodup) {h : List (SystemEvent apps)}
    (ha : Alternating (systemEvents h)) (hr : ∀ a ∈ apps, a.Room (systemEvents h)) :
    EachState (fun k => ∀ a ∈ apps,
      a.Represents (systemRun k a) (threads (systemEvents k))) h ∧
    EachStep (fun k e => systemMem k e =
      specMem apps (threads (systemEvents k) e.event.tid) e.event) h := by
  have hsuffix : ∀ {k : List (SystemEvent apps)}, k <:+ h → systemEvents k <:+ systemEvents h :=
    fun hs => hs.map _
  refine ⟨eachState_iff.2 fun k hs a hmem => ?_, eachStep_iff.2 fun e k hs => ?_⟩
  · rw [systemRun_apply hd k hmem]
    exact represents (ha.suffix (hsuffix hs)) a ((hr a hmem).suffix (hsuffix hs))
  · have hk : k <:+ h := (List.suffix_cons e k).trans hs
    exact systemMem_eq_specMem hd (ha.suffix (hsuffix hs)) fun a hmem =>
      (hr a hmem).suffix (hsuffix hk)

theorem system_refines_zoneSizeRun :
    EachStep (fun k e => systemMem k e =
      specMem bpfApps (threads (systemEvents k) e.event.tid) e.event) zoneSizeRun := by
  have hr : ModifyFileRead.program.NeverFull (systemEvents zoneSizeRun) := by
    unfold Program.NeverFull; decide
  have hp : PreloadFilter.program.NeverFull (systemEvents zoneSizeRun) := by
    unfold Program.NeverFull; decide
  exact (system_refines (by decide) (h := zoneSizeRun) (by decide)
    (App.room_bpfApps (by decide) (by decide) hr hp)).2

end Bpf
