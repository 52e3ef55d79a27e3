import DetBuilds.Loader.Proof.Ending
import DetBuilds.Loader.Proof.Live

/-!
# How a loader comes to serve

A loader that goes on is, after `n` answered calls, at the place that `n` says (`Place`).
So it has attached the handlers one by one, and after `k + 5` calls all of them (`attach_complete`),
and none is taken away before it is told to end. Whatever the loaders of the programs have been
through before, the programs serve as soon as each of the present processes has got this far, and
not earlier (`serves_iff`).
-/

set_option autoImplicit false

namespace Loader

open Bpf History

namespace Process

variable {k n : Nat} {onInt : Disposition} {h : List Input} {p : Process}

/-- Where a loader is after `n` answers that were no failures. -/
def Place (k n : Nat) (p : Process) : Prop :=
  p.detached = 0 ∧
  match p.pc with
  | .argpParse => n = 0 ∧ p.attached = 0
  | .signalInt => n = 1 ∧ p.attached = 0
  | .signalTerm => n = 2 ∧ p.attached = 0
  | .openSkel => n = 3 ∧ p.attached = 0
  | .loadSkel => n = 4 ∧ p.attached = 0
  | .attachSkel => n = 5 + p.attached ∧ p.attached ≤ k
  | .ringBufferNew | .whileNotExiting | .ringBufferPoll => k + 5 < n ∧ p.attached = k
  | _ => False

theorem place_main {r : Int} (hp : Place k n p) (hf : failed k r p = none)
    (hi : ¬ (p.pc = .ringBufferPoll ∧ r = -EINTR)) (he : p.exiting = false) :
    Place k (n + 1) (p.main k r) := by
  obtain ⟨hdet, hp⟩ := hp
  unfold failed at hf
  unfold main
  cases hpc : p.pc with
  | argpParse =>
    rw [hpc] at hp hf
    have hr : r = 0 := by simpa using hf
    simp [Place, hr, hp, hdet]
  | signalInt => rw [hpc] at hp; simp [Place, hp, hdet]
  | signalTerm => rw [hpc] at hp; simp [Place, hp, hdet]
  | openSkel =>
    rw [hpc] at hp hf
    have hr : r ≠ 0 := by simpa using hf
    simp [Place, hr, hp, hdet]
  | loadSkel =>
    rw [hpc] at hp hf
    have hr : r = 0 := by simpa using hf
    simp [Place, hr, hp, hdet]
  | attachSkel =>
    rw [hpc] at hp hf
    obtain ⟨hn, hle⟩ := hp
    by_cases hk : p.attached < k
    · have hle' : p.attached + 1 ≤ k := hk
      have hr : r = 0 := by simpa [hk] using hf
      simp [Place, hk, hr, hdet, hn, Nat.add_assoc, hle']
    · have hk' : p.attached = k := Nat.le_antisymm hle (Nat.not_lt.1 hk)
      simp [Place, hdet, hn, hk', Nat.add_comm]
  | ringBufferNew =>
    rw [hpc] at hp hf
    have hr : r ≠ 0 := by simpa using hf
    simpa [Place, hr, hdet, hp.2] using Nat.lt_succ_of_lt hp.1
  | whileNotExiting =>
    rw [hpc] at hp
    simpa [Place, he, hdet, hp.2] using Nat.lt_succ_of_lt hp.1
  | ringBufferPoll =>
    have hi : r ≠ -EINTR := fun h => hi ⟨hpc, h⟩
    rw [hpc] at hp hf
    have hneg : ¬ r < 0 := by simpa [hi] using hf
    simpa [Place, hi, hneg, hdet, hp.2] using Nat.lt_succ_of_lt hp.1
  | ringBufferFree | destroySkel | exited _ | killed _ => rw [hpc] at hp; exact hp.elim

theorem place_run (hh : EachStep (Healthy k onInt) h) (ht : EachStep (Untold k onInt) h) :
    Place k (h.countP (IsAnswer ·)) (run k onInt h) := by
  induction h with
  | nil => exact ⟨rfl, rfl, rfl⟩
  | cons i h ih =>
    have hp := ih hh.2 ht.2
    cases i with
    | answer r =>
      have hexit := (not_or.1 (not_ending_of_untold hh.2 ht.2)).1
      rw [List.countP_cons]
      exact place_main hp hh.1 ht.1 (Bool.eq_false_of_not_eq_true hexit)
    | signal sig =>
      rw [List.countP_cons]
      show Place k _ ((run k onInt h).signal sig)
      rw [signal_eq_self hh.1 ht.1]
      exact hp

theorem attached_of_place (hp : Place k n p) : p.attached = min k (n - 5) := by
  obtain ⟨-, hp⟩ := hp
  cases hpc : p.pc <;> rw [hpc] at hp <;> dsimp only at hp <;> omega

theorem not_over_of_untold (hh : EachStep (Healthy k onInt) h) (ht : EachStep (Untold k onInt) h) :
    ¬ (run k onInt h).Over :=
  not_over_of_serving (not_not.1 (not_or.1 (not_ending_of_untold hh ht)).2)

/-- **Attaching**: a loader of which no call has failed, and that is neither killed nor told to end,
has attached, after `n` answered calls, `n - 5` of its handlers or all of them, and keeps them. -/
theorem attach_complete (hh : EachStep (Healthy k onInt) h) (ht : EachStep (Untold k onInt) h) :
    (run k onInt h).attached = min k (h.countP (IsAnswer ·) - 5) ∧ (run k onInt h).detached = 0 ∧
      ¬ (run k onInt h).Over := by
  have hp := place_run hh ht
  exact ⟨attached_of_place hp, hp.1, not_over_of_untold hh ht⟩

/-- A loader in the background, half attached, that has not heard of the first `SIGINT`. -/
def attachingRun : List Input :=
  [.answer 0, .answer 0, .answer 0, .answer 1, .answer 0, .answer 0, .signal .int, .answer 0]

theorem attach_complete_attachingRun :
    (run 4 .ign attachingRun).attached = min 4 (attachingRun.countP (IsAnswer ·) - 5) ∧
      (run 4 .ign attachingRun).detached = 0 ∧ ¬ (run 4 .ign attachingRun).Over :=
  attach_complete (by decide) (by decide)

end Process

/-! ## When the programs serve -/

section
variable {σ α : Type} (prog : Program σ α)

/-- What the latest process of the loader has been through, if it was ever started. -/
def sinceExec : List LifeEvent → Option (Disposition × List Input)
  | [] => none
  | .exec onInt :: h => if (life prog h).Idle then some (onInt, []) else sinceExec h
  | .process i :: h => (sinceExec h).map fun x => (x.1, i :: x.2)
  | .event _ :: h => sinceExec h

/-- How many of its calls have been answered. -/
def answered (h : List LifeEvent) : Nat :=
  (sinceExec prog h).elim 0 fun x => x.2.countP (Process.IsAnswer ·)

/-- No call of it has failed, and it has been neither killed nor told to end. -/
def GoesWell (h : List LifeEvent) : Prop :=
  ∃ x ∈ sinceExec prog h, EachStep (Process.Healthy prog.handlers.length x.1) x.2 ∧
    EachStep (Process.Untold prog.handlers.length x.1) x.2

instance (h : List LifeEvent) : Decidable (GoesWell prog h) :=
  inferInstanceAs (Decidable (∃ x ∈ sinceExec prog h, _ ∧ _))

variable {prog} {h : List LifeEvent}

theorem life_process : (life prog h).process =
    (sinceExec prog h).map fun x => Process.run prog.handlers.length x.1 x.2 := by
  induction h with
  | nil => rfl
  | cons e h ih =>
    cases e with
    | exec onInt =>
      show (if (life prog h).Idle then some (Process.exec onInt) else (life prog h).process) = _
      rw [sinceExec]
      split
      · rfl
      · exact ih
    | process i =>
      show (life prog h).process.map _ = _
      rw [ih, sinceExec, Option.map_map, Option.map_map]
      rfl
    | event e => exact ih

theorem attached_iff (hw : GoesWell prog h) (hk : prog.handlers.length ≠ 0) :
    (life prog h).Attached prog ↔ prog.handlers.length + 5 ≤ answered prog h := by
  obtain ⟨x, hx, hh, ht⟩ := hw
  have hplace := Process.place_run hh ht
  have hover := Process.not_over_of_untold hh ht
  have hprocess : (life prog h).process = some (Process.run prog.handlers.length x.1 x.2) := by
    rw [life_process, hx]
    rfl
  have hanswered : answered prog h = x.2.countP (Process.IsAnswer ·) := by
    rw [answered, hx]
    rfl
  have hmin := Process.attached_of_place hplace
  rw [hanswered]
  constructor
  · rintro ⟨p, hp, -, hatt, -⟩
    rw [hprocess] at hp
    cases hp
    omega
  · intro hle
    exact ⟨_, hprocess, hover, by omega, hplace.1⟩

end

/-- **Serving**: whatever their loaders have been through before, the programs serve a thread exactly
when each of the present processes, of which no call has failed and which were neither killed nor told
to end, is through its first calls, and the maps have room. -/
theorem serves_iff {apps : List App} (hd : apps.Nodup) {h : List (LiveEvent apps)}
    (hw : ∀ a ∈ apps, GoesWell a.program (lifeOf a h)) (t : Tid) :
    Serves apps t (liveRun h) ↔ ∀ a ∈ apps,
      handlers a + 5 ≤ answered a.program (lifeOf a h) ∧
      a.program.keyed.room (a.program.run (handled a.program (lifeOf a h))) t := by
  refine forall₂_congr fun a ha => ?_
  rw [liveRun_apply hd, attached_iff (hw a ha) a.handlers_ne_zero, life_maps a.nodup_tracepoints]
  rfl

/-- One of the loaders has been killed and started again. -/
def restartedRun : List (LiveEvent bpfApps) :=
  attachRun .modifyTime ++ .process .modifyTime (.signal .kill) :: startedRun

theorem serves_iff_restartedRun :
    Serves bpfApps 1 (liveRun restartedRun) ↔ ∀ a ∈ bpfApps,
      handlers a + 5 ≤ answered a.program (lifeOf a restartedRun) ∧
      a.program.keyed.room (a.program.run (handled a.program (lifeOf a restartedRun))) 1 :=
  serves_iff (by decide) (by decide +kernel) 1

end Loader
