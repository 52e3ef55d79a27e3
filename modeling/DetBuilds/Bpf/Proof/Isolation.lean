import DetBuilds.Bpf.Proof.OwnKeys

/-!
# Threads do not see each other

`thread_isolation`: in runs that never fill a map, a thread's writes and entries are those of the
run of its own events. It follows from the projection rules, because each program is local to its
threads' keys (`Program.OwnKeys`).
-/

set_option autoImplicit false

namespace Bpf

open History

/-! ## Runs of one thread -/

namespace Program

variable {σ α : Type} {p : Program σ α} {own : Event → α → α × Option UserWrite}

/-- The writes made on behalf of a thread, one place for each of its events, the latest first. -/
def writesOf (p : Program σ α) (t : Tid) (h : List Event) : List (Option UserWrite) :=
  p.keyed.outputs t p.empty h

/-- The run that contains only the thread's own events. -/
def alone (t : Tid) (h : List Event) : List Event := h.filter fun e => e.tid = t

/-- Maps that never fill up have room for everyone. -/
theorem NeverFull.roomFor {h : List Event} (hn : p.NeverFull h) (t : Tid) :
    p.keyed.RoomFor t p.empty h := by
  refine eachStep_iff.2 fun e k hs _ v hv => .inr ?_
  exact eachState_iff.1 hn k ((List.suffix_cons e k).trans hs) v hv

theorem OwnKeys.roomFor_alone (hp : p.OwnKeys own) (t : Tid) (h : List Event) :
    p.keyed.RoomFor t p.empty (alone t h) := by
  refine eachStep_iff.2 fun e k hs _ => hp.room_alone fun e' he' => ?_
  simpa using (List.mem_filter.1 (hs.subset (List.mem_cons_of_mem e he'))).2

/-- Each thread's writes and entries are those of the run of its own events, so two runs in which
every thread has the same events give every thread the same writes. -/
def ThreadIsolation (p : Program σ α) : Prop :=
  (∀ h t, p.NeverFull h → p.writesOf t h = p.writesOf t (alone t h) ∧
    EachStep (fun k e => e.tid = t →
      p.entries (p.run (e :: k)) t = p.entries (p.run (alone t (e :: k))) t) h) ∧
  ∀ h₁ h₂, p.NeverFull h₁ → p.NeverFull h₂ → (∀ t, alone t h₁ = alone t h₂) →
    ∀ t, p.writesOf t h₁ = p.writesOf t h₂

theorem OwnKeys.threadIsolation (hp : p.OwnKeys own) : p.ThreadIsolation := by
  refine ⟨fun h t hn => ⟨?_, ?_⟩, fun h₁ h₂ hn₁ hn₂ hsame t => ?_⟩
  · exact (hp.isLocal.project (hn.roomFor t) (hp.roomFor_alone t h)).2
  · refine hn.each.mono fun k e hk _ => ?_
    exact (hp.isLocal.project (NeverFull.roomFor hk t) (hp.roomFor_alone t _)).1
  · exact hp.isLocal.interleave (hsame t) (hn₁.roomFor t) (hn₂.roomFor t)

end Program

/-- **Thread isolation** of the five programs. -/
theorem thread_isolation :
    ModifyTime.program.ThreadIsolation ∧ ModifyFileTimestamp.program.ThreadIsolation ∧
    ModifyFileRead.program.ThreadIsolation ∧ ModifyFileName.program.ThreadIsolation ∧
    PreloadFilter.program.ThreadIsolation :=
  ⟨ModifyTime.ownKeys.threadIsolation, ModifyFileTimestamp.ownKeys.threadIsolation,
    ModifyFileRead.ownKeys.threadIsolation, ModifyFileName.ownKeys.threadIsolation,
    PreloadFilter.ownKeys.threadIsolation⟩

/-- The calls of `twoThreadRun` with those of thread 2 behind those of thread 1. -/
def inTurnRun : List Event :=
  Program.alone 2 twoThreadRun ++ Program.alone 1 twoThreadRun

theorem thread_isolation_twoThreadRun :
    (∀ t, ModifyTime.program.writesOf t twoThreadRun =
      ModifyTime.program.writesOf t (Program.alone t twoThreadRun)) ∧
    ∀ t, ModifyTime.program.writesOf t twoThreadRun =
      ModifyTime.program.writesOf t inTurnRun := by
  have hfull : ModifyTime.program.NeverFull twoThreadRun ∧
      ModifyTime.program.NeverFull inTurnRun := by
    unfold Program.NeverFull
    decide
  refine ⟨fun t => (thread_isolation.1.1 twoThreadRun t hfull.1).1,
    thread_isolation.1.2 twoThreadRun inTurnRun hfull.1 hfull.2 fun t => ?_⟩
  by_cases h₁ : t = 1
  · subst h₁
    rfl
  · by_cases h₂ : t = 2
    · subst h₂
      rfl
    · simp [inTurnRun, twoThreadRun, Program.alone, Event.tid, cc1Task, Ne.symm h₁, Ne.symm h₂]

end Bpf
