import DetBuilds.Loader.Build
import DetBuilds.Loader.Proof.Live
import DetBuilds.Bpf.Proof.Determinism

/-!
# Builds under the loaders are deterministic

A build under the loaders is, to its client, a build with the programs that has its thread to itself
and begins with nothing in the maps (`alone`, `state_alone`): the memory after each of its events is
what the specification says in both. So two of them agree as `build_deterministic` says, whatever
the loaders of the two hosts have been through (`live_build_deterministic`).
-/

set_option autoImplicit false

namespace Loader

open Bpf History

section
variable {ρ : Type} {c : Client ρ} {apps : List App}

theorem own_eq_some {t : Tid} {x : LiveEvent apps} {e : SystemEvent apps} :
    x.own t = some e ↔ x = .event e ∧ e.event.tid = t := by
  cases x with
  | event e' =>
    simp only [LiveEvent.own, LiveEvent.system, Option.filter_eq_some_iff, Option.some.injEq,
      LiveEvent.event.injEq, decide_eq_true_eq]
  | exec a onInt => simp [LiveEvent.own, LiveEvent.system]
  | process a i => simp [LiveEvent.own, LiveEvent.system]

/-- Its own events are those that are left of the threads' events. -/
theorem systemEvents_ownEvents (t : Tid) (h : List (LiveEvent apps)) :
    systemEvents (ownEvents t h) = Program.alone t (threadEvents h) := by
  induction h with
  | nil => rfl
  | cons x h ih =>
    cases x with
    | exec a onInt => exact ih
    | process a i => exact ih
    | event e =>
      have hevents : threadEvents (.event e :: h) = e.event :: threadEvents h := rfl
      by_cases ht : e.event.tid = t
      · have hown : (LiveEvent.event e).own t = some e := own_eq_some.2 ⟨rfl, ht⟩
        rw [ownEvents, List.filterMap_cons_some hown, hevents, Program.alone,
          List.filter_cons_of_pos (by simpa using ht)]
        exact congrArg (e.event :: ·) ih
      · have hown : (LiveEvent.event e).own t = none :=
          Option.eq_none_iff_forall_ne_some.2 fun e' he' => ht (by
            obtain ⟨heq, he⟩ := own_eq_some.1 he'
            cases heq
            exact he)
        rw [ownEvents, List.filterMap_cons_none hown, hevents, Program.alone,
          List.filter_cons_of_neg (by simpa using ht)]
        exact ih

namespace LiveBuild

variable (b : LiveBuild c apps) {k : List (LiveEvent apps)}

theorem alternating_own : Alternating (systemEvents (ownEvents b.tid b.events)) := by
  rw [systemEvents_ownEvents]
  exact b.alternating

/-- The handlers leave of memory what they would leave if the thread were alone. -/
theorem liveMem_eq (hd : apps.Nodup) {e : SystemEvent apps} (hs : .event e :: k <:+ b.events)
    (he : e.event.tid = b.tid) :
    liveMem (k ++ b.before) e = systemMem (ownEvents b.tid k) e := by
  have hserves : EachState (fun k => Serves apps b.tid (liveRun (k ++ b.before))) k :=
    b.serves.suffix ((List.suffix_cons _ k).trans hs)
  have hown : ownEvents b.tid (.event e :: k) = e :: ownEvents b.tid k :=
    List.filterMap_cons_some (own_eq_some.2 ⟨rfl, he⟩)
  have halt : Alternating (systemEvents (e :: ownEvents b.tid k)) := by
    rw [← hown]
    exact b.alternating_own.suffix ((hs.filterMap _).map _)
  have hroom : ∀ a ∈ apps, a.Room (systemEvents (ownEvents b.tid k)) := fun a _ => by
    rw [systemEvents_ownEvents]
    exact a.room_alone _ _
  have halone : Alternating (e.event :: Program.alone b.tid (threadEvents k)) :=
    systemEvents_ownEvents b.tid k ▸ halt
  rw [liveMem_eq_specMem hd hserves b.fresh he halone, systemMem_eq_specMem hd halt hroom, he,
    systemEvents_ownEvents, Program.threads_alone]

/-- So the client does what it would do then. -/
theorem clientState_eq (hd : apps.Nodup) (hk : k <:+ b.events) :
    b.state k = c.state b.tid [] (ownEvents b.tid k) := by
  induction k with
  | nil => rfl
  | cons x k ih =>
    have ih := ih ((List.suffix_cons x k).trans hk)
    cases x with
    | exec a onInt => exact ih
    | process a i => exact ih
    | event e =>
      by_cases he : e.event.tid = b.tid
      · have hown : ownEvents b.tid (.event e :: k) = e :: ownEvents b.tid k :=
          List.filterMap_cons_some (own_eq_some.2 ⟨rfl, he⟩)
        rw [hown]
        show (if _ then c.step (liveMem (k ++ b.before) e) (b.state k) e.event else _) =
          if _ then c.step (systemMem (ownEvents b.tid k ++ []) e) _ e.event else _
        rw [if_pos he, if_pos he, ih, b.liveMem_eq hd hk he, List.append_nil]
      · have hown : (LiveEvent.event e).own b.tid = none :=
          Option.eq_none_iff_forall_ne_some.2 fun e' he' => he (by
            obtain ⟨heq, he⟩ := own_eq_some.1 he'
            cases heq
            exact he)
        rw [ownEvents, List.filterMap_cons_none hown]
        exact (if_neg he).trans ih

/-- The build as one of a thread that has the programs to itself. -/
def alone (hd : apps.Nodup) : Build c apps where
  tid := b.tid
  before := []
  events := ownEvents b.tid b.events
  alternating := by
    rw [List.append_nil]
    exact b.alternating_own
  room a _ := by
    rw [List.append_nil, systemEvents_ownEvents]
    exact a.room_alone _ _
  follows := by
    refine EachStep.filterMap (eachStep_iff.2 fun x k hs e he r hr => ?_)
    have hk : k <:+ b.events := (List.suffix_cons x k).trans hs
    have hstate := b.clientState_eq hd hk
    have hfollows := eachStep_iff.1 b.follows x k hs e he r hr
    rw [hfollows]
    exact congrArg (fun s => (c.next s.1 s.2).2) hstate

theorem thread_alone (hd : apps.Nodup) (k : List (LiveEvent apps)) :
    (b.alone hd).thread (ownEvents b.tid k) = b.thread k := by
  show threads (systemEvents (ownEvents b.tid k ++ [])) b.tid = _
  rw [List.append_nil, systemEvents_ownEvents, Program.threads_alone]
  rfl

/-- The events of a thread, each with those of the run before it. -/
theorem event_of_own {e : SystemEvent apps} {k : List (SystemEvent apps)}
    (hs : e :: k <:+ ownEvents b.tid b.events) :
    ∃ l, .event e :: l <:+ b.events ∧ e.event.tid = b.tid ∧ ownEvents b.tid l = k := by
  have hall : EachStep (fun k e => ∃ l, .event e :: l <:+ b.events ∧ e.event.tid = b.tid ∧
      ownEvents b.tid l = k) (ownEvents b.tid b.events) := by
    refine EachStep.filterMap (eachStep_iff.2 fun x l hl e he => ?_)
    obtain ⟨rfl, ht⟩ := own_eq_some.1 he
    exact ⟨l, hl, ht, rfl⟩
  exact eachStep_iff.1 hall e k hs

end LiveBuild

/-- Hosts that answer alike do so to threads that are alone. -/
theorem SameLiveAnswers.alone (hd : apps.Nodup) {b₁ b₂ : LiveBuild c apps}
    (h : SameLiveAnswers b₁ b₂) : SameAnswers (b₁.alone hd) (b₂.alone hd) := by
  intro e₁ k₁ e₂ k₂ hs₁ hs₂ _ _ hreq
  obtain ⟨l₁, hl₁, ht₁, rfl⟩ := b₁.event_of_own hs₁
  obtain ⟨l₂, hl₂, ht₂, rfl⟩ := b₂.event_of_own hs₂
  rw [b₁.thread_alone hd]
  exact h e₁ l₁ e₂ l₂ hl₁ hl₂ ht₁ ht₂ hreq

/-- **Determinism, under the loaders**: two builds of one client on two hosts, whatever the loaders
there have been through before and whatever goes on in other threads, have made the same calls and
are in the same state after equally many steps, if the hosts answer alike but for the bytes that the
programs replace. -/
theorem live_build_deterministic (hd : apps.Nodup) {b₁ b₂ : LiveBuild c apps}
    (hans : SameLiveAnswers b₁ b₂) {k₁ k₂ : List (LiveEvent apps)} (hk₁ : k₁ <:+ b₁.events)
    (hk₂ : k₂ <:+ b₂.events) (hsteps : b₁.steps k₁ = b₂.steps k₂) :
    b₁.state k₁ = b₂.state k₂ ∧ b₁.requests k₁ = b₂.requests k₂ := by
  have hu : ((b₁.alone hd).thread []).Alike ((b₂.alone hd).thread []) := ⟨rfl, rfl, rfl⟩
  have hagrees := Build.agrees_of_steps hd hu (hans.alone hd) (hk₁.filterMap _) (hk₂.filterMap _)
    hsteps
  rw [b₁.clientState_eq hd hk₁, b₂.clientState_eq hd hk₂]
  exact ⟨hagrees.state, hagrees.requests⟩

end

/-- On one host, the client asks for the time once. -/
def oneBuild : LiveBuild clockClient bpfApps where
  tid := 1
  before := startedRun
  events :=
    [.event ⟨.exit ⟨1, cc1, timeMem 5⟩ .clockGettime 0, bpfApps, .refl _⟩,
     .event ⟨.enter (cc1Task 1) .clockGettime ⟨0, 0x1000, 0, 0, 0, 0⟩, bpfApps, .refl _⟩]
  serves := by decide +kernel
  fresh a _ := fresh_startedRun a 1
  alternating := by decide
  follows := ⟨fun _ he _ hr => (by cases he; cases hr), fun _ he _ hr => (by cases he; cases hr; rfl),
    trivial⟩

/-- On another one, where a loader has been killed and started again and one goes on in between. -/
def otherBuild : LiveBuild clockClient bpfApps where
  tid := 7
  before := attachRun .modifyTime ++ .process .modifyTime (.signal .kill) :: startedRun
  events :=
    [.event ⟨.exit ⟨7, cc1, timeMem 9⟩ .clockGettime 0, bpfApps.reverse, List.reverse_perm _⟩,
     .process .preloadFilter (.answer 0),
     .event ⟨.enter (cc1Task 7) .clockGettime ⟨0, 0x1000, 0, 0, 0, 0⟩, bpfApps, .refl _⟩]
  serves := by decide +kernel
  fresh a _ := by
    rw [liveRun_apply (by decide)]
    cases a <;> rfl
  alternating := by decide
  follows := ⟨fun _ he _ hr => (by cases he; cases hr), fun _ he _ _ => (by cases he),
    fun _ he _ hr => (by cases he; cases hr; rfl), trivial⟩

theorem sameLiveAnswers_clock : SameLiveAnswers oneBuild otherBuild := by
  intro e₁ k₁ e₂ k₂ hs₁ hs₂ _ _ _
  rcases List.suffix_cons_iff.1 hs₁ with h₁ | hs₁
  · cases h₁
    rcases List.suffix_cons_iff.1 hs₂ with h₂ | hs₂
    · cases h₂
      exact answersAlike_time rfl 1 7 5 9
    · rcases List.suffix_cons_iff.1 hs₂ with h₂ | hs₂
      · cases h₂
      · rcases List.suffix_cons_iff.1 hs₂ with h₂ | hs₂
        · cases h₂
          trivial
        · cases List.suffix_nil.1 hs₂
  · rcases List.suffix_cons_iff.1 hs₁ with h₁ | hs₁
    · cases h₁
      trivial
    · cases List.suffix_nil.1 hs₁

theorem live_build_deterministic_clock :
    oneBuild.state oneBuild.events = otherBuild.state otherBuild.events := by
  have hsteps : oneBuild.steps oneBuild.events = otherBuild.steps otherBuild.events := by decide
  exact (live_build_deterministic (by decide) sameLiveAnswers_clock (List.suffix_refl _)
    (List.suffix_refl _) hsteps).1

end Loader
