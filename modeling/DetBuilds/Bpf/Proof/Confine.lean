import DetBuilds.Bpf.Proof.Refine

/-!
# What goes wrong stays small

However full the maps are, the programs do less than they are for and nothing else: an event leaves
what the specification says for some of the loaded programs (`system_degrades`). So what they change
lies in a buffer that the returning call itself was given, and the call is one of `cc1` or the first
`newfstatat` after an `openat` of the preload file (`system_confined`); a thread of which neither is
ever the case is left alone (`bystander_untouched`).
-/

set_option autoImplicit false

namespace Bpf

open History

section
variable {apps : List App} {h : List (SystemEvent apps)}

/-- A step leaves what the specification says for the programs that write. -/
theorem systemMem_degrades (hd : apps.Nodup) {k : List (SystemEvent apps)} {e : SystemEvent apps}
    (ha : Alternating (systemEvents (e :: k))) :
    ∃ working : List App, working.Sublist apps ∧
      systemMem k e = specMem working (threads (systemEvents k) e.event.tid) e.event := by
  by_cases he : ∀ task nr ret, e.event ≠ .exit task nr ret
  · exact ⟨[], List.nil_sublist _, by
      rw [systemMem_of_no_exit hd ha he, specMem_of_no_exit [] _ he]⟩
  · obtain ⟨task, nr, ret, hev⟩ : ∃ task nr ret, e.event = .exit task nr ret := by
      simpa using he
    have hstep : Alternating (.exit task nr ret :: systemEvents k) := hev ▸ ha
    obtain ⟨f, hf, -⟩ := alternates_exit.1 hstep.1
    refine ⟨apps.filter fun a => (a.program.write (systemEvents k) e.event).isSome,
      List.filter_sublist, ?_⟩
    rw [systemMem_eq_writes hd ha, hev]
    refine Eq.trans ?_ (specMem_exit ((threads_call ..).trans hf) task nr ret).symm
    rw [List.foldl_filter]
    refine List.foldl_ext _ _ _ fun m a _ => ?_
    cases hw : a.program.write (systemEvents k) (.exit task nr ret) with
    | none => exact (if_neg (by simp)).symm
    | some w =>
      rw [if_pos (by simp)]
      exact congrArg (applyWrite · m) (rewrite_of_write hstep hf a hw).symm

/-- **Graceful degradation**: however full the maps are, every event leaves what the specification
says for a part of the loaded programs. -/
theorem system_degrades (hd : apps.Nodup) (ha : Alternating (systemEvents h)) :
    EachStep (fun k e => ∃ working : List App, working.Sublist apps ∧
      systemMem k e = specMem working (threads (systemEvents k) e.event.tid) e.event) h :=
  eachStep_iff.2 fun _ _ hs => systemMem_degrades hd (ha.suffix (hs.map _))

theorem system_degrades_zoneSizeRun :
    EachStep (fun k e => ∃ working : List App, working.Sublist bpfApps ∧
      systemMem k e = specMem working (threads (systemEvents k) e.event.tid) e.event)
      zoneSizeRun :=
  system_degrades (by decide) (by decide)

/-! ## Confinement -/

/-- The parts of user memory that are rewritten at the return of a call at most. -/
def Frame.sites (f : Frame) : List (Addr × Nat) :=
  match f.nr with
  | .gettimeofday => [(f.args.arg0, 16)]
  | .clockGettime => [(f.args.arg1, 16)]
  | .openat => [(f.args.arg1, 1)]
  | .newfstatat => [(f.args.arg2 + 48, 8), (f.args.arg2 + 72, 32)]
  | .read => [(f.args.arg1, ModifyFileRead.localtimeSize)]

/-- A call of the compiler, or the `newfstatat` of a thread that has opened the preload file. -/
def ThreadState.Concerned (u : ThreadState) (f : Frame) : Prop :=
  commFilter f.task.comm = true ∨ (f.nr = .newfstatat ∧ u.preload = true)

theorem App.site_mem {u : ThreadState} {f : Frame} {m : ByteMem} {a : App} {w : UserWrite}
    (hw : a.rewrite u f m = some w) :
    u.Concerned f ∧ (w.addr, w.bytes.length) ∈ f.sites := by
  cases a with
  | modifyTime =>
    obtain ⟨⟨hnr, hc, -⟩, h⟩ := Option.ite_none_right_eq_some.1 hw
    cases h
    refine ⟨.inl hc, ?_⟩
    rcases List.mem_pair.1 hnr with hnr | hnr <;>
      simp [Frame.sites, hnr, ModifyTime.timeArg, ModifyTime.clockBytes]
  | preloadFilter =>
    obtain ⟨⟨hnr, -, hp⟩, h⟩ := Option.ite_none_right_eq_some.1 hw
    cases h
    exact ⟨.inr ⟨hnr, hp⟩, by simp [Frame.sites, hnr]⟩
  | modifyFileTimestamp =>
    obtain ⟨⟨hnr, hc⟩, h⟩ := Option.ite_none_right_eq_some.1 hw
    cases h
    have hlen : (ModifyFileTimestamp.replaceFileTimes.bytes.take 32).length = 32 := rfl
    exact ⟨.inl hc, by simp [Frame.sites, hnr, hlen]⟩
  | modifyFileName =>
    obtain ⟨⟨hnr, hc⟩, h⟩ := Option.ite_none_right_eq_some.1 hw
    obtain ⟨-, rfl⟩ := ModifyFileName.emptied_eq_some.1 h
    exact ⟨.inl hc, by simp [Frame.sites, hnr]⟩
  | modifyFileRead =>
    obtain ⟨⟨hc, -⟩, h⟩ := Option.ite_none_right_eq_some.1 hw
    refine ⟨.inl hc, ?_⟩
    cases hnr : f.nr with
    | newfstatat =>
      rw [hnr] at h
      cases h
      simp [Frame.sites, hnr]
    | read =>
      rw [hnr] at h
      cases h
      rw [Frame.sites, hnr]
      exact List.mem_singleton.2 (congrArg _ ModifyFileRead.length_localtimeContent)
    | gettimeofday | clockGettime | openat => rw [hnr] at h; cases h

/-- What writes change lies in the range of one of them. -/
theorem exists_of_changed (r : App → Option UserWrite) {x : Addr} :
    ∀ {apps : List App} {m : ByteMem},
      (apps.foldl (fun m a => applyWrite (r a) m) m).byte x ≠ m.byte x →
      ∃ a ∈ apps, ∃ w, r a = some w ∧ InRange x w.addr w.bytes.length
  | [], _, hx => absurd rfl hx
  | a :: apps, m, hx => by
    by_cases hfirst : (applyWrite (r a) m).byte x = m.byte x
    · rw [List.foldl_cons, ← hfirst] at hx
      obtain ⟨b, hb, w, hw⟩ := exists_of_changed r hx
      exact ⟨b, List.mem_cons_of_mem a hb, w, hw⟩
    · cases hr : r a with
      | none => rw [hr] at hfirst; exact absurd rfl hfirst
      | some w =>
        refine ⟨a, List.mem_cons_self .., w, hr, Decidable.byContradiction fun hout => ?_⟩
        rw [hr] at hfirst
        exact hfirst (ByteMem.store_frame hout)

/-- **Confinement**: however full the maps are, a byte that the programs change belongs to a buffer
of the call that returns, and the call is one of the compiler, or the `newfstatat` of a thread that
has opened the preload file. -/
theorem system_confined (hd : apps.Nodup) (ha : Alternating (systemEvents h)) :
    EachStep (fun k e => ∀ x, (systemMem k e).byte x ≠ e.event.mem.byte x →
      ∃ f, inflight (systemEvents k) e.event.tid = some f ∧
        (threads (systemEvents k) e.event.tid).Concerned f ∧
        ∃ r ∈ f.sites, InRange x r.1 r.2) h := by
  refine eachStep_iff.2 fun e k hs x hx => ?_
  obtain ⟨working, -, hmem⟩ := systemMem_degrades hd (ha.suffix (hs.map SystemEvent.event))
  rw [hmem] at hx
  cases hev : e.event with
  | enter task nr args => rw [hev] at hx; exact absurd rfl hx
  | spawn t => rw [hev] at hx; exact absurd rfl hx
  | die t => rw [hev] at hx; exact absurd rfl hx
  | exit task nr ret =>
    rw [hev] at hx
    cases hf : (threads (systemEvents k) task.tid).call with
    | none =>
      have hx : (specMem working (threads (systemEvents k) task.tid) _).byte x ≠ _ := hx
      unfold specMem at hx
      rw [hf] at hx
      exact absurd rfl hx
    | some f =>
      have hx : (specMem working (threads (systemEvents k) task.tid) _).byte x ≠ _ := hx
      rw [specMem_exit hf] at hx
      obtain ⟨a, -, w, hw, hin⟩ := exists_of_changed _ hx
      obtain ⟨hc, hsite⟩ := App.site_mem hw
      exact ⟨f, (threads_call ..).symm.trans hf, hc, _, hsite, hin⟩

theorem system_confined_zoneSizeRun :
    EachStep (fun k e => ∀ x, (systemMem k e).byte x ≠ e.event.mem.byte x →
      ∃ f, inflight (systemEvents k) e.event.tid = some f ∧
        (threads (systemEvents k) e.event.tid).Concerned f ∧
        ∃ r ∈ f.sites, InRange x r.1 r.2) zoneSizeRun :=
  system_confined (by decide) (by decide)

/-! ## Bystanders -/

/-- Thread `t` does not enter a call as the compiler, nor an `openat` of the preload file. -/
def Bystander (t : Tid) : Event → Prop
  | .enter task nr args =>
    task.tid = t → commFilter task.comm = false ∧ ¬ PreloadFilter.Marks task nr args
  | _ => True

instance (t : Tid) : ∀ e, Decidable (Bystander t e)
  | .enter _ _ _ => inferInstanceAs (Decidable (_ → _))
  | .exit _ _ _ => inferInstanceAs (Decidable True)
  | .spawn _ => inferInstanceAs (Decidable True)
  | .die _ => inferInstanceAs (Decidable True)

/-- A bystander is never concerned. -/
theorem not_concerned {t : Tid} {k : List Event} (hb : ∀ e ∈ k, Bystander t e) :
    (threads k t).preload = false ∧
      ∀ f, (threads k t).call = some f → commFilter f.task.comm = false := by
  induction k with
  | nil => exact ⟨rfl, fun f hf => by cases hf⟩
  | cons e k ih =>
    obtain ⟨hpreload, hcall⟩ := ih fun e' he' => hb e' (List.mem_cons_of_mem e he')
    have he := hb e (List.mem_cons_self ..)
    by_cases ht : e.tid = t
    · subst ht
      rw [threads_self]
      cases e with
      | enter task nr args =>
        obtain ⟨hc, hm⟩ := he rfl
        refine ⟨(if_neg hm).trans hpreload, fun f hf => ?_⟩
        cases hf
        exact hc
      | exit task nr ret =>
        refine ⟨?_, fun f hf => by cases hf⟩
        show (if _ then false else _) = false
        rw [hpreload, ite_self]
      | spawn u => exact ⟨hpreload, hcall⟩
      | die u => exact ⟨hpreload, hcall⟩
    · rw [threads_of_ne k ht]
      exact ⟨hpreload, hcall⟩

/-- **Bystanders**: a thread that never enters a call as the compiler, and never opens the preload
file, gets its memory back untouched at every event of its own, whatever other threads do. -/
theorem bystander_untouched (hd : apps.Nodup) (ha : Alternating (systemEvents h)) {t : Tid}
    (hb : ∀ e ∈ systemEvents h, Bystander t e) :
    EachStep (fun k e => e.event.tid = t → systemMem k e = e.event.mem) h := by
  refine eachStep_iff.2 fun e k hs ht => ?_
  obtain ⟨working, -, hmem⟩ := systemMem_degrades hd (ha.suffix (hs.map SystemEvent.event))
  obtain ⟨hpreload, hcall⟩ := not_concerned (k := systemEvents k) fun e' he' =>
    hb e' (((hs.map SystemEvent.event).subset) (List.mem_cons_of_mem _ he'))
  rw [hmem, ht]
  cases hev : e.event with
  | enter task nr args => rfl
  | spawn t => rfl
  | die t => rfl
  | exit task nr ret =>
    cases hf : (threads (systemEvents k) t).call with
    | none => unfold specMem; rw [hf]; rfl
    | some f =>
      rw [specMem_exit hf]
      refine List.foldl_fixed' (fun a => ?_) working
      cases hw : a.rewrite (threads (systemEvents k) t) f task.mem with
      | none => rfl
      | some w =>
        rcases (App.site_mem hw).1 with hc | ⟨-, hp⟩
        · rw [hcall f hf] at hc; cases hc
        · rw [hpreload] at hp; cases hp

end

open PreloadFilter (preloadTask) in
/-- While the compiler is at work, a shell asks for the status of a file. -/
def shellRun : List (SystemEvent bpfApps) :=
  ⟨.exit (preloadTask 2) .newfstatat 0, bpfApps.reverse, List.reverse_perm _⟩ ::
  ⟨.enter (preloadTask 2) .newfstatat ⟨3, 0x5000, 0x2000, 0x1000, 0, 0⟩, bpfApps, .refl _⟩ ::
  zoneSizeRun

theorem bystander_untouched_shellRun :
    EachStep (fun k e => e.event.tid = 2 → systemMem k e = e.event.mem) shellRun :=
  bystander_untouched (by decide) (by decide) (by decide)

end Bpf
