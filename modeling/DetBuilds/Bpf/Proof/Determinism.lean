import DetBuilds.Bpf.Client
import DetBuilds.Bpf.Proof.Refine

/-!
# Builds cannot tell their hosts apart

The specification says the same of two hosts: a rewrite does not depend on the thread id
(`rewrite_congr`), and two memories that differ in hidden bytes only are the same memory after the
rewrites (`specMem_eq`). The programs refine it, so a client that is asked for its state after
equally many steps of its own has the same one in both builds (`build_deterministic`).
-/

set_option autoImplicit false

namespace Bpf

open History

/-! ## Rewrites -/

namespace App

variable {u v : ThreadState} {f g : Frame}

/-- A rewrite does not depend on who makes the call. -/
theorem rewrite_congr (hu : u.Alike v) (hf : f.request = g.request) (m : ByteMem) (a : App) :
    a.rewrite u f m = a.rewrite v g m := by
  have hcomm : f.task.comm = g.task.comm := congrArg Request.comm hf
  have hnr : f.nr = g.nr := congrArg Request.nr hf
  have hargs : f.args = g.args := congrArg Request.args hf
  cases a <;> simp only [rewrite, hcomm, hnr, hargs, hu.zone, hu.preload]

/-- Only what is done to a path depends on user memory. -/
theorem rewrite_mem (hnr : f.nr ≠ .openat) (m m' : ByteMem) (a : App) :
    a.rewrite u f m = a.rewrite u f m' := by
  cases a with
  | modifyFileName => exact (if_neg fun h => hnr h.1).trans (if_neg fun h => hnr h.1).symm
  | modifyTime | preloadFilter | modifyFileTimestamp | modifyFileRead => rfl

/-- No byte is replaced whatever it is when an `openat` returns. -/
theorem not_rewrite_openat (hnr : f.nr = .openat) (a : App) {w : UserWrite} :
    ¬ ∀ m, a.rewrite u f m = some w := by
  intro hw
  have ha : a = .modifyFileName := by
    have hmem := nr_of_rewrite (hw f.task.mem)
    rw [hnr] at hmem
    cases a <;> simp_all [handles, ModifyTime.calls]
  subst ha
  have hblank := hw { f.task.mem with readable := fun _ => false }
  obtain ⟨-, hempty⟩ := Option.ite_none_right_eq_some.1 hblank
  rw [ModifyFileName.emptied_eq_some] at hempty
  have hwindow : bpfProbeReadUser { f.task.mem with readable := fun _ => false } f.args.arg1 32 =
      List.replicate 32 0 :=
    if_neg (by simpa [ByteMem.readableFor, ByteMem.addrs] using ⟨0, by decide⟩)
  rw [hwindow] at hempty
  exact absurd hempty.1 (by decide)

end App

/-- What agrees but for `S` agrees after the same writes where they landed, too. -/
theorem agreeOff_writes (r : App → Option UserWrite) :
    ∀ (apps : List App) {S : Addr → Prop} {m₁ m₂ : ByteMem}, ByteMem.AgreeOff S m₁ m₂ →
      ByteMem.AgreeOff
        (fun x => S x ∧ ∀ a ∈ apps, ∀ w, r a = some w →
          ¬ InRange x w.addr (m₁.landed w.addr w.bytes.length))
        (apps.foldl (fun m a => applyWrite (r a) m) m₁)
        (apps.foldl (fun m a => applyWrite (r a) m) m₂)
  | [], _, _, _, h => h.mono fun _ hx => ⟨hx, fun _ ha => absurd ha List.not_mem_nil⟩
  | a :: apps, S, m₁, m₂, h => by
    cases hr : r a with
    | none =>
      simp only [List.foldl_cons, hr, applyWrite]
      refine (agreeOff_writes r apps h).mono fun x ⟨hs, hx⟩ => ⟨hs, fun b hb w hw => ?_⟩
      rcases List.mem_cons.1 hb with rfl | hb
      · rw [hr] at hw; cases hw
      · exact hx b hb w hw
    | some v =>
      simp only [List.foldl_cons, hr, applyWrite]
      refine (agreeOff_writes r apps (h.store v.addr v.bytes)).mono
        fun x ⟨⟨hs, hv⟩, hx⟩ => ⟨hs, fun b hb w hw => ?_⟩
      rcases List.mem_cons.1 hb with rfl | hb
      · rw [hr] at hw; cases hw; exact hv
      · exact hx b hb w hw

/-- **Answers that are alike leave the same memory.** -/
theorem specMem_eq {apps : List App} {u v : ThreadState} (hu : u.Alike v) {task₁ task₂ : Task}
    {nr₁ nr₂ : Nr} {ret₁ ret₂ : Int} (hcall : u.call.isSome)
    (ha : ByteMem.AgreeOff (Hidden apps u task₁.mem) task₁.mem task₂.mem) :
    specMem apps u (.exit task₁ nr₁ ret₁) = specMem apps v (.exit task₂ nr₂ ret₂) := by
  obtain ⟨f, hf⟩ := Option.isSome_iff_exists.1 hcall
  obtain ⟨g, hg, hfg⟩ : ∃ g, v.call = some g ∧ f.request = g.request := by
    have hc := hu.call
    rw [hf] at hc
    obtain ⟨g, hg, hgf⟩ := Option.map_eq_some_iff.1 hc.symm
    exact ⟨g, hg, hgf.symm⟩
  have hsame : ∀ a : App, a.rewrite v g task₂.mem = a.rewrite u f task₁.mem := by
    intro a
    rw [← App.rewrite_congr hu hfg]
    by_cases hnr : f.nr = .openat
    · have hmem : task₁.mem = task₂.mem := ha.eq fun x hx => by
        obtain ⟨f', hf', a, -, w, hw, -⟩ := hx
        rw [hf] at hf'; cases hf'
        exact App.not_rewrite_openat hnr a hw
      rw [hmem]
    · exact App.rewrite_mem hnr _ _ a
  simp only [specMem, hf, hg, hsame]
  refine (agreeOff_writes (fun a => a.rewrite u f task₁.mem) apps ha).eq fun x ⟨hx, hout⟩ => ?_
  obtain ⟨f', hf', a, hmem, w, hw, hin⟩ := hx
  rw [hf] at hf'; cases hf'
  exact hout a hmem w (hw task₁.mem) hin

/-! ## Threads -/

/-- The same call makes alike states of alike ones. -/
theorem ThreadState.Alike.enter {u v : ThreadState} (hu : u.Alike v) {task₁ task₂ : Task}
    {nr₁ nr₂ : Nr} {args₁ args₂ : Args}
    (hr : (⟨task₁.comm, task₁.mem, nr₁, args₁⟩ : Request) = ⟨task₂.comm, task₂.mem, nr₂, args₂⟩) :
    (u.step (.enter task₁ nr₁ args₁)).Alike (v.step (.enter task₂ nr₂ args₂)) := by
  obtain ⟨t₁, comm, mem⟩ := task₁
  obtain ⟨t₂, comm₂, mem₂⟩ := task₂
  cases hr
  refine ⟨rfl, ?_, ?_⟩
  · exact if_congr Iff.rfl rfl hu.zone
  · exact if_congr Iff.rfl rfl hu.preload

theorem ThreadState.Alike.exit {u v : ThreadState} (hu : u.Alike v) {task₁ task₂ : Task} {nr : Nr}
    (ret₁ ret₂ : Int) (hcomm : task₁.comm = task₂.comm) :
    (u.step (.exit task₁ nr ret₁)).Alike (v.step (.exit task₂ nr ret₂)) := by
  refine ⟨rfl, ?_, ?_⟩
  · simp only [step, hcomm, hu.zone]
  · simp only [step, hcomm, hu.preload]

/-- An event that is not a call of the thread leaves its state. -/
theorem threads_of_spares {e : Event} {t : Tid} (h : List Event) (he : Spares t e) :
    threads (e :: h) t = threads h t := by
  cases e with
  | enter task nr args => exact threads_of_ne h he
  | exit task nr ret => exact threads_of_ne h he
  | spawn u =>
    by_cases hu : u = t
    · rw [← hu]; exact threads_self (.spawn u) h
    · exact threads_of_ne h hu
  | die u =>
    by_cases hu : u = t
    · rw [← hu]; exact threads_self (.die u) h
    · exact threads_of_ne h hu

/-! ## Builds -/

section
variable {ρ : Type} {apps : List App} {c : Client ρ}

namespace Build

/-- What does not belong to the client does not reach it. -/
theorem idle (b : Build c apps) {e : SystemEvent apps} (k : List (SystemEvent apps))
    (he : Spares b.tid e.event) :
    b.state (e :: k) = b.state k ∧ b.requests (e :: k) = b.requests k ∧
      b.thread (e :: k) = b.thread k := by
  refine ⟨?_, ?_, threads_of_spares _ he⟩
  · show (if e.event.tid = b.tid then c.step _ _ e.event else _) = _
    obtain ⟨event, order, ho⟩ := e
    cases event with
    | enter task nr args => exact if_neg he
    | exit task nr ret => exact if_neg he
    | spawn u => exact ite_self _
    | die u => exact ite_self _
  · obtain ⟨event, order, ho⟩ := e
    refine List.filterMap_cons_none ?_
    cases event with
    | enter task nr args => exact if_neg he
    | exit task nr ret => rfl
    | spawn u => rfl
    | die u => rfl

/-- What is the case in both builds after equally many steps. -/
structure Agrees (b₁ b₂ : Build c apps) (k₁ k₂ : List (SystemEvent apps)) : Prop where
  state : b₁.state k₁ = b₂.state k₂
  requests : b₁.requests k₁ = b₂.requests k₂
  thread : (b₁.thread k₁).Alike (b₂.thread k₂)

variable {b b₁ b₂ : Build c apps} {k k₁ k₂ : List (SystemEvent apps)} {e e₁ e₂ : SystemEvent apps}

/-- A step of the build is one of its thread, in a run of the system. -/
theorem alternates (b : Build c apps) (hs : e :: k <:+ b.events) :
    Alternating (systemEvents (e :: (k ++ b.before))) := by
  obtain ⟨l, hl⟩ := hs
  exact b.alternating.suffix (List.IsSuffix.map _ ⟨l, by rw [← hl, List.append_assoc]; rfl⟩)

/-- The maps have room at every step of the build. -/
theorem roomFor (b : Build c apps) (hs : e :: k <:+ b.events) :
    ∀ a ∈ apps, a.Room (systemEvents (k ++ b.before)) := by
  intro a ha
  obtain ⟨l, hl⟩ := hs
  exact (b.room a ha).suffix
    (List.IsSuffix.map _ ⟨l ++ [e], by rw [← hl]; simp only [List.append_assoc]; rfl⟩)

/-- What the handlers leave of memory is what the specification says. -/
theorem systemMem_eq (b : Build c apps) (hd : apps.Nodup) (hs : e :: k <:+ b.events)
    (he : e.event.tid = b.tid) :
    systemMem (k ++ b.before) e = specMem apps (b.thread k) e.event := by
  rw [systemMem_eq_specMem hd (b.alternates hs) (b.roomFor hs), he]
  rfl

theorem state_self (b : Build c apps) (he : e.event.tid = b.tid) (k : List (SystemEvent apps)) :
    b.state (e :: k) = c.step (systemMem (k ++ b.before) e) (b.state k) e.event := if_pos he

theorem thread_self (b : Build c apps) (he : e.event.tid = b.tid) (k : List (SystemEvent apps)) :
    b.thread (e :: k) = (b.thread k).step e.event := by
  show threads (e.event :: systemEvents (k ++ b.before)) b.tid = _
  rw [← he, threads_self, he]
  rfl

theorem requests_cons (b : Build c apps) {r : Request} (he : e.event.request b.tid = some r)
    (k : List (SystemEvent apps)) : b.requests (e :: k) = r :: b.requests k :=
  List.filterMap_cons_some he

theorem requests_of_none (b : Build c apps) (he : e.event.request b.tid = none)
    (k : List (SystemEvent apps)) : b.requests (e :: k) = b.requests k :=
  List.filterMap_cons_none he

/-- A step of the thread enters a call out of none, or returns from the call in flight. -/
theorem own_cases (b : Build c apps) (hs : e :: k <:+ b.events) (he : ¬ Spares b.tid e.event) :
    e.event.tid = b.tid ∧
    ((∃ task nr args, e.event = .enter task nr args ∧ (b.thread k).call = none ∧
        e.event.request b.tid = some (c.next (b.state k).1 (b.state k).2).2) ∨
      ∃ task nr ret f, e.event = .exit task nr ret ∧ (b.thread k).call = some f ∧ f.nr = nr ∧
        f.task.comm = task.comm) := by
  have ha := (b.alternates hs).1
  have hcall : (b.thread k).call = inflight (systemEvents (k ++ b.before)) b.tid :=
    threads_call ..
  have hfollows := eachStep_iff.1 b.follows e k hs
  obtain ⟨event, order, ho⟩ := e
  cases event with
  | enter task nr args =>
    have ht : task.tid = b.tid := not_not.1 he
    refine ⟨ht, .inl ⟨task, nr, args, rfl, ?_, ?_⟩⟩
    · rw [hcall, ← ht]
      exact alternates_enter.1 ha
    · have hreq : (Event.enter task nr args).request b.tid =
          some ⟨task.comm, task.mem, nr, args⟩ := if_pos ht
      rw [hreq, hfollows _ hreq]
      rfl
  | exit task nr ret =>
    have ht : task.tid = b.tid := not_not.1 he
    obtain ⟨f, hf, hnr, hcomm⟩ := alternates_exit.1 ha
    exact ⟨ht, .inr ⟨task, nr, ret, f, rfl, by rw [hcall, ← ht]; exact hf, hnr, hcomm⟩⟩
  | spawn u => exact absurd trivial he
  | die u => exact absurd trivial he

/-- Alike clients make the same call. -/
theorem Agrees.enter (h : Agrees b₁ b₂ k₁ k₂) {task₁ task₂ : Task} {nr₁ nr₂ : Nr}
    {args₁ args₂ : Args} (hev₁ : e₁.event = .enter task₁ nr₁ args₁)
    (hev₂ : e₂.event = .enter task₂ nr₂ args₂) (ht₁ : e₁.event.tid = b₁.tid)
    (ht₂ : e₂.event.tid = b₂.tid)
    (hr₁ : e₁.event.request b₁.tid = some (c.next (b₁.state k₁).1 (b₁.state k₁).2).2)
    (hr₂ : e₂.event.request b₂.tid = some (c.next (b₂.state k₂).1 (b₂.state k₂).2).2) :
    Agrees b₁ b₂ (e₁ :: k₁) (e₂ :: k₂) := by
  rw [← h.state] at hr₂
  have hsame : (⟨task₁.comm, task₁.mem, nr₁, args₁⟩ : Request) =
      ⟨task₂.comm, task₂.mem, nr₂, args₂⟩ := by
    rw [hev₁] at hr₁ ht₁
    rw [hev₂] at hr₂ ht₂
    have h₁ := (if_pos ht₁).symm.trans hr₁
    have h₂ := (if_pos ht₂).symm.trans hr₂
    exact Option.some.inj (h₁.trans h₂.symm)
  refine ⟨?_, ?_, ?_⟩
  · rw [b₁.state_self ht₁, b₂.state_self ht₂, hev₁, hev₂, h.state]
    exact congrArg (Prod.mk _) (congrArg Request.mem hsame)
  · rw [b₁.requests_cons hr₁, b₂.requests_cons hr₂, h.requests]
  · rw [b₁.thread_self ht₁, b₂.thread_self ht₂, hev₁, hev₂]
    exact h.thread.enter hsame

/-- Alike answers to the same call leave the clients alike. -/
theorem Agrees.exit (hd : apps.Nodup) (hans : SameAnswers b₁ b₂) (h : Agrees b₁ b₂ k₁ k₂)
    (hs₁ : e₁ :: k₁ <:+ b₁.events) (hs₂ : e₂ :: k₂ <:+ b₂.events) (ht₁ : e₁.event.tid = b₁.tid)
    (ht₂ : e₂.event.tid = b₂.tid) {task₁ task₂ : Task} {nr₁ nr₂ : Nr} {ret₁ ret₂ : Int}
    {f g : Frame} (hev₁ : e₁.event = .exit task₁ nr₁ ret₁) (hev₂ : e₂.event = .exit task₂ nr₂ ret₂)
    (hc₁ : (b₁.thread k₁).call = some f) (hc₂ : (b₂.thread k₂).call = some g)
    (hf : f.nr = nr₁ ∧ f.task.comm = task₁.comm) (hg : g.nr = nr₂ ∧ g.task.comm = task₂.comm) :
    Agrees b₁ b₂ (e₁ :: k₁) (e₂ :: k₂) := by
  have hfg : f.request = g.request := by
    have hcall := h.thread.call
    rw [hc₁, hc₂] at hcall
    exact Option.some.inj hcall
  have hcomm : task₁.comm = task₂.comm := hf.2.symm.trans ((congrArg Request.comm hfg).trans hg.2)
  have hnr : nr₁ = nr₂ := hf.1.symm.trans ((congrArg Request.nr hfg).trans hg.1)
  have halike := hans e₁ k₁ e₂ k₂ hs₁ hs₂ ht₁ ht₂ h.requests
  rw [hev₁, hev₂] at halike
  obtain ⟨hret, hagree⟩ := halike
  have hmem : systemMem (k₁ ++ b₁.before) e₁ = systemMem (k₂ ++ b₂.before) e₂ := by
    rw [b₁.systemMem_eq hd hs₁ ht₁, b₂.systemMem_eq hd hs₂ ht₂, hev₁, hev₂]
    exact specMem_eq h.thread (by rw [hc₁]; rfl) hagree
  refine ⟨?_, ?_, ?_⟩
  · rw [b₁.state_self ht₁, b₂.state_self ht₂, hev₁, hev₂, h.state, hmem, hret]
    rfl
  · have hr₁ : e₁.event.request b₁.tid = none := by rw [hev₁]; rfl
    have hr₂ : e₂.event.request b₂.tid = none := by rw [hev₂]; rfl
    rw [b₁.requests_of_none hr₁, b₂.requests_of_none hr₂, h.requests]
  · rw [b₁.thread_self ht₁, b₂.thread_self ht₂, hev₁, hev₂, hnr]
    exact h.thread.exit ret₁ ret₂ hcomm

/-- **One step in each build** keeps the builds alike. -/
theorem Agrees.step (hd : apps.Nodup) (hans : SameAnswers b₁ b₂) (h : Agrees b₁ b₂ k₁ k₂)
    (hs₁ : e₁ :: k₁ <:+ b₁.events) (hs₂ : e₂ :: k₂ <:+ b₂.events)
    (he₁ : ¬ Spares b₁.tid e₁.event) (he₂ : ¬ Spares b₂.tid e₂.event) :
    Agrees b₁ b₂ (e₁ :: k₁) (e₂ :: k₂) := by
  obtain ⟨ht₁, hcase₁⟩ := b₁.own_cases hs₁ he₁
  obtain ⟨ht₂, hcase₂⟩ := b₂.own_cases hs₂ he₂
  have hcall := h.thread.call
  rcases hcase₁ with ⟨_, _, _, hev₁, hc₁, hr₁⟩ | ⟨_, _, _, f, hev₁, hc₁, hf⟩ <;>
    rcases hcase₂ with ⟨_, _, _, hev₂, hc₂, hr₂⟩ | ⟨_, _, _, g, hev₂, hc₂, hg⟩
  · exact h.enter hev₁ hev₂ ht₁ ht₂ hr₁ hr₂
  -- a thread is in a call in both builds, or in none
  · rw [hc₁, hc₂] at hcall
    cases hcall
  · rw [hc₁, hc₂] at hcall
    cases hcall
  · exact h.exit hd hans hs₁ hs₂ ht₁ ht₂ hev₁ hev₂ hc₁ hc₂ hf hg

end Build

/-- **The run lemma**: two builds agree after equally many steps. -/
theorem Build.agrees_of_steps (hd : apps.Nodup) {b₁ b₂ : Build c apps}
    (hu : (b₁.thread []).Alike (b₂.thread [])) (hans : SameAnswers b₁ b₂)
    {k₁ k₂ : List (SystemEvent apps)} (hk₁ : k₁ <:+ b₁.events) (hk₂ : k₂ <:+ b₂.events)
    (hsteps : b₁.steps k₁ = b₂.steps k₂) : Build.Agrees b₁ b₂ k₁ k₂ := by
  refine EachStep.lockstep (P := fun k e => e :: k <:+ b₁.events)
    (Q := fun k e => e :: k <:+ b₂.events) ⟨rfl, rfl, hu⟩ ?_ ?_ ?_
    (eachStep_iff.2 fun e k hs => hs.trans hk₁) (eachStep_iff.2 fun e k hs => hs.trans hk₂) hsteps
  · intro k₁ e k₂ _ he h
    obtain ⟨hstate, hreq, hthread⟩ := b₁.idle k₁ (not_not.1 he)
    exact ⟨hstate.trans h.state, hreq.trans h.requests, hthread ▸ h.thread⟩
  · intro k₁ k₂ e _ he h
    obtain ⟨hstate, hreq, hthread⟩ := b₂.idle k₂ (not_not.1 he)
    exact ⟨h.state.trans hstate.symm, h.requests.trans hreq.symm, hthread ▸ h.thread⟩
  · exact fun k₁ e₁ k₂ e₂ hs₁ hs₂ he₁ he₂ h => h.step hd hans hs₁ hs₂ he₁ he₂

/-- **Determinism**: two builds of one client, in whichever threads of whichever hosts, with
whatever else goes on there, have made the same calls and are in the same state after equally many
steps, if the hosts answer alike but for the bytes that the programs replace. -/
theorem build_deterministic (hd : apps.Nodup) {b₁ b₂ : Build c apps}
    (hu : (b₁.thread []).Alike (b₂.thread [])) (hans : SameAnswers b₁ b₂)
    {k₁ k₂ : List (SystemEvent apps)} (hk₁ : k₁ <:+ b₁.events) (hk₂ : k₂ <:+ b₂.events)
    (hsteps : b₁.steps k₁ = b₂.steps k₂) :
    b₁.state k₁ = b₂.state k₂ ∧ b₁.requests k₁ = b₂.requests k₂ := by
  have hagrees := Build.agrees_of_steps hd hu hans hk₁ hk₂ hsteps
  exact ⟨hagrees.state, hagrees.requests⟩

end

/-- Asks for the time, over and over. -/
def clockClient : Client Int where
  start := (0, (cc1Task 0).mem)
  next ret m := (ret, ⟨cc1, m, .clockGettime, ⟨0, 0x1000, 0, 0, 0, 0⟩⟩)
  resume _ ret := ret

/-- Memory with a time at 0x1000. -/
def timeMem (v : Byte) : ByteMem :=
  { (cc1Task 0).mem with byte := fun x => if InRange x 0x1000 16 then v else 0 }

/-- Two times are where `modify_time` writes. -/
theorem answersAlike_time {u : ThreadState} {t : Tid}
    (hu : u.call = some ⟨cc1Task t, .clockGettime, ⟨0, 0x1000, 0, 0, 0, 0⟩⟩) (t₁ t₂ : Tid)
    (v₁ v₂ : Byte) : AnswersAlike bpfApps u (.exit ⟨t₁, cc1, timeMem v₁⟩ .clockGettime 0)
      (.exit ⟨t₂, cc1, timeMem v₂⟩ .clockGettime 0) := by
  refine ⟨rfl, rfl, rfl, fun x hx => ?_⟩
  have hland : (timeMem v₁).landed 0x1000 16 = 16 :=
    ByteMem.landed_of_writableFor (by simp [ByteMem.writableFor, timeMem, cc1Task])
  have hout : ¬ InRange x 0x1000 16 := fun hin =>
    hx ⟨_, hu, .modifyTime, by decide, ⟨0x1000, ModifyTime.clockBytes⟩, fun _ => rfl,
      hland.symm ▸ hin⟩
  exact (if_neg hout).trans (if_neg hout).symm

/-- It asks once, in thread 1. -/
def aloneEvents : List (SystemEvent bpfApps) :=
  [⟨.exit ⟨1, cc1, timeMem 5⟩ .clockGettime 0, bpfApps, .refl _⟩,
   ⟨.enter (cc1Task 1) .clockGettime ⟨0, 0x1000, 0, 0, 0, 0⟩, bpfApps, .refl _⟩]

/-- It asks once, in thread 7, while a shell in thread 1 opens a file. -/
def sharedEvents : List (SystemEvent bpfApps) :=
  [⟨.exit ⟨7, cc1, timeMem 9⟩ .clockGettime 0, bpfApps.reverse, List.reverse_perm _⟩,
   ⟨.enter (PreloadFilter.preloadTask 1) .openat ⟨0, 0x1000, 0, 0, 0, 0⟩, bpfApps, .refl _⟩,
   ⟨.enter (cc1Task 7) .clockGettime ⟨0, 0x1000, 0, 0, 0, 0⟩, bpfApps, .refl _⟩]

def aloneBuild : Build clockClient bpfApps where
  tid := 1
  before := []
  events := aloneEvents
  alternating := by decide
  room := App.room_bpfApps (by decide) (by decide) (by unfold Program.NeverFull; decide)
    (by unfold Program.NeverFull; decide)
  follows := ⟨fun _ hr => (by cases hr), fun _ hr => (by cases hr; rfl), trivial⟩

def sharedBuild : Build clockClient bpfApps where
  tid := 7
  before := []
  events := sharedEvents
  alternating := by decide
  room := App.room_bpfApps (by decide) (by decide) (by unfold Program.NeverFull; decide)
    (by unfold Program.NeverFull; decide)
  follows := ⟨fun _ hr => (by cases hr), fun _ hr => (by cases hr), fun _ hr => (by cases hr; rfl),
    trivial⟩

theorem sameAnswers_clock : SameAnswers aloneBuild sharedBuild := by
  intro e₁ k₁ e₂ k₂ hs₁ hs₂ ht₁ ht₂ _
  rcases List.suffix_cons_iff.1 hs₁ with h₁ | hs₁
  · rcases List.suffix_cons_iff.1 hs₂ with h₂ | hs₂
    · cases h₁
      cases h₂
      exact answersAlike_time rfl 1 7 5 9
    · obtain ⟨task, nr, args, hev⟩ : ∃ task nr args, e₂.event = .enter task nr args := by
        rcases List.suffix_cons_iff.1 hs₂ with h₂ | hs₂
        · cases h₂; exact ⟨_, _, _, rfl⟩
        · rcases List.suffix_cons_iff.1 hs₂ with h₂ | hs₂
          · cases h₂; exact ⟨_, _, _, rfl⟩
          · cases List.suffix_nil.1 hs₂
      rw [hev]
      cases e₁.event <;> trivial
  · rcases List.suffix_cons_iff.1 hs₁ with h₁ | hs₁
    · cases h₁
      trivial
    · cases List.suffix_nil.1 hs₁

theorem build_deterministic_clock :
    aloneBuild.state aloneEvents = sharedBuild.state sharedEvents := by
  have hd : bpfApps.Nodup := by decide
  have hu : (aloneBuild.thread []).Alike (sharedBuild.thread []) := ⟨rfl, rfl, rfl⟩
  have hsteps : aloneBuild.steps aloneEvents = sharedBuild.steps sharedEvents := by decide
  exact (build_deterministic hd hu sameAnswers_clock (List.suffix_refl _)
    (List.suffix_refl _) hsteps).1

end Bpf
