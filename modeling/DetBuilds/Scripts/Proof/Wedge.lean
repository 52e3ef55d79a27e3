import DetBuilds.Scripts.Proof.Stop
import Mathlib.Data.List.TakeWhile

/-!
# When `stop.sh` cannot get any further

`stop.sh` gives up at the first program that it finds nothing for. So once a loader has died, and
until something carries its name again (`Brings`), each `stop.sh` ends early: it interrupts what
carries the name of an earlier program and nothing else, and the preload file stays as it is
(`stop_wedged`).
-/

set_option autoImplicit false

namespace Scripts

open Bpf Preload Loader History

variable {files : Files} {h l : List Op} {host : Host} {op : Op} {env : Env}
  {seen : App → Option Nat} {a : App}

/-- After the operation, or to it, something carries the name of the program that did not before. -/
def Op.Brings (a : App) : Op → Prop
  | .start env made _ => Starts env made
  | .stop _ seen => seen a ≠ none
  | .input _ _ => False
  | .spawn _ command _ => appName a <:+: command
  | .quit _ => False

instance (a : App) : ∀ op : Op, Decidable (op.Brings a)
  | .start _ _ _ => inferInstanceAs (Decidable (Starts _ _))
  | .stop _ _ => inferInstanceAs (Decidable (_ ≠ _))
  | .input _ _ | .quit _ => inferInstanceAs (Decidable False)
  | .spawn _ _ _ => inferInstanceAs (Decidable (_ <:+: _))

/-- Nothing that runs carries the name of the program. -/
def Host.Misses (host : Host) (a : App) : Prop := ∀ p ∈ host.procs, ¬ p.Matches a

instance (host : Host) (a : App) : Decidable (host.Misses a) :=
  inferInstanceAs (Decidable (∀ p ∈ host.procs, _))

/-! ## One operation -/

theorem brings_of_launched {p : Proc} (hp : p ∈ op.launched) (hm : p.Matches a) :
    op.Brings a := by
  cases op with
  | start env made pids =>
    by_cases hs : Starts env made
    · exact hs
    · rw [Op.launched, if_neg hs] at hp
      cases hp
  | stop env seen => cases hp
  | input pid i => cases hp
  | spawn pid command fatal =>
    cases List.mem_singleton.1 hp
    exact hm.2
  | quit pid => cases hp

/-- What is missing stays so. -/
theorem misses_run (hs : host.Sane) (hfresh : host.Fresh op) (hm : host.Misses a)
    (hno : ¬ op.Brings a) : (op.run host).Misses a := by
  intro p hp hmatch
  rw [procs_run op hs hfresh] at hp
  rcases List.mem_append.1 hp with hp | hp
  · obtain ⟨q, hq, rfl⟩ := List.mem_map.1 hp
    have halive := alive_of_on op hmatch.1
    have hcommand : (op.on host q).command = q.command := command_on op
    exact hm q hq ⟨halive, hcommand ▸ hmatch.2⟩
  · exact hno (brings_of_launched hp hmatch)

theorem not_found (hm : host.Misses a) (hseen : seen a = none) : ¬ Found seen host.procs a := by
  have hleft : ∀ p ∈ left host.procs a, ¬ p.Matches a := by
    rintro p hp hmatch
    obtain ⟨q, hq, rfl⟩ := List.mem_map.1 hp
    exact hm q hq (matches_of_signalled _ hmatch)
  have hnil : (left host.procs a).filter (fun p => p.Matches a) = [] :=
    List.filter_eq_nil_iff.2 fun p hp => by simpa using hleft p hp
  unfold Found processes
  rw [hnil, hseen]
  exact not_not.2 rfl

/-- Without `start.sh` getting to its end, and with a program missing, the files are left alone. -/
theorem files_run (hs : host.Sane) (hfresh : host.Fresh op) (ha : a ∈ bpfApps)
    (hm : host.Misses a) (hno : ¬ op.Brings a) : (op.run host).files = host.files := by
  cases op with
  | start env made pids =>
    have hno : ¬ Starts env made := hno
    show (start env made pids host).1.files = _
    rw [start_eq, if_neg hno]
  | stop env seen =>
    show (stop env seen host).1.files = _
    by_cases hroot : env.whoami = root
    · rw [stop_eq hs hroot hfresh]
      exact if_neg fun hall => not_found hm (not_not.1 hno) (hall a ha)
    · rw [stop, if_pos hroot]
  | input pid i => rfl
  | spawn pid command fatal => rfl
  | quit pid => rfl

/-! ## The loop -/

/-- The loop does not get past a program that it finds nothing for. -/
theorem reached_subset (hf : ¬ Found seen host.procs a) :
    reached seen host.procs ⊆ before a := by
  have hboth : reached seen host.procs =
      (before a).takeWhile fun b => Found seen host.procs b := by
    unfold reached before
    rw [List.takeWhile_takeWhile]
    congr 1
    funext b
    have hne : Found seen host.procs b → b ≠ a := fun hb heq => hf (heq ▸ hb)
    by_cases hb : Found seen host.procs b
    · simp [hb, hne hb]
    · simp [hb]
  rw [hboth]
  exact List.takeWhile_subset _

/-- It ends there, or earlier. -/
theorem ends_early (ha : a ∈ bpfApps) (hf : ¬ Found seen host.procs a) :
    ∃ b ∈ before a ++ [a], (bpfApps.find? fun b => ¬ Found seen host.procs b) = some b := by
  cases hfind : bpfApps.find? fun b => ¬ Found seen host.procs b with
  | none => exact absurd (List.find?_eq_none.1 hfind a ha) (by simpa using hf)
  | some b =>
    refine ⟨b, ?_, rfl⟩
    obtain ⟨-, as, bs, happs, has⟩ := List.find?_eq_some_iff_append.1 hfind
    by_cases hba : b = a
    · rw [hba]
      exact List.mem_append_right _ (List.mem_singleton_self a)
    · refine List.mem_append_left _ ?_
      have hne : ∀ c ∈ as, decide (c ≠ a) = true := fun c hc => by
        have hfound : Found seen host.procs c := by simpa using has c hc
        simpa using fun heq : c = a => hf (heq ▸ hfound)
      unfold before
      rw [happs, List.takeWhile_append_of_pos hne, List.takeWhile_cons_of_pos (by simpa using hba)]
      exact List.mem_append_right _ (List.mem_cons_self ..)

/-! ## Runs -/

/-- What a program that is missing stands for, over every run that does not bring it back. -/
theorem misses_hostAfter (hf : EachStep (FreshPids files) (l ++ h)) (ha : a ∈ bpfApps)
    (hm : (hostAfter files h).Misses a) (hl : ∀ op ∈ l, ¬ op.Brings a) :
    (hostAfter files (l ++ h)).Misses a ∧
      (hostAfter files (l ++ h)).files = (hostAfter files h).files := by
  induction l with
  | nil => exact ⟨hm, rfl⟩
  | cons op l ih =>
    obtain ⟨hmiss, hfiles⟩ := ih hf.2 fun op hop => hl op (List.mem_cons_of_mem _ hop)
    have hs : (hostAfter files (l ++ h)).Sane := sane_hostAfter hf.2
    have hno := hl op (List.mem_cons_self ..)
    exact ⟨misses_run hs hf.1 hmiss hno, (files_run hs hf.1 ha hmiss hno).trans hfiles⟩

/-- **Wedged**: when nothing carries the name of a program, then in every run that does not bring it
back the preload file stays as it is, and each `stop.sh` ends at this program or an earlier one, and
leaves every process alone that does not carry the name of an earlier one. -/
theorem stop_wedged (hf : EachStep (FreshPids files) (l ++ h)) (ha : a ∈ bpfApps)
    (hm : (hostAfter files h).Misses a) (hl : ∀ op ∈ l, ¬ op.Brings a) :
    (hostAfter files (l ++ h)).files = (hostAfter files h).files ∧
    ∀ env seen, env.whoami = root → seen a = none → FreshPids files (l ++ h) (.stop env seen) →
      (∃ b ∈ before a ++ [a], (stop env seen (hostAfter files (l ++ h))).2 = .processEmpty b) ∧
      ∀ (i : Nat) (p : Proc), (hostAfter files (l ++ h)).procs[i]? = some p →
        (∀ b ∈ before a, ¬ appName b <:+: p.command) →
        (stop env seen (hostAfter files (l ++ h))).1.procs[i]? = some p := by
  obtain ⟨hmiss, hfiles⟩ := misses_hostAfter hf ha hm hl
  have hs : (hostAfter files (l ++ h)).Sane := sane_hostAfter hf
  refine ⟨hfiles, fun env seen hroot hseen hfresh => ?_⟩
  have hfound := not_found hmiss hseen
  rw [stop_eq hs hroot hfresh]
  constructor
  · obtain ⟨b, hb, hfind⟩ := ends_early ha hfound
    exact ⟨b, hb, by rw [hfind]; rfl⟩
  · intro i p hp hnames
    have hsame : signalled (reached seen (hostAfter files (l ++ h)).procs) p = p :=
      if_neg fun ⟨b, hb, hmatch⟩ => hnames b (reached_subset hfound hb) hmatch.2
    rw [List.getElem?_map, hp]
    exact congrArg some hsame

/-- The killed loader comes before two others, which no `stop.sh` reaches. -/
def wedgedRun : List Op := [.input 13 (.answer 0), .stop rootEnv fun _ => none, .quit 99]

theorem stop_wedged_wedgedRun :
    (hostAfter ⟨none, none⟩ (wedgedRun ++ deadRun)).files = (hostAfter ⟨none, none⟩ deadRun).files ∧
    ∀ env seen, env.whoami = root → seen .modifyFileTimestamp = none →
      FreshPids ⟨none, none⟩ (wedgedRun ++ deadRun) (.stop env seen) →
      (∃ b ∈ before .modifyFileTimestamp ++ [.modifyFileTimestamp],
        (stop env seen (hostAfter ⟨none, none⟩ (wedgedRun ++ deadRun))).2 = .processEmpty b) ∧
      ∀ (i : Nat) (p : Proc), (hostAfter ⟨none, none⟩ (wedgedRun ++ deadRun)).procs[i]? = some p →
        (∀ b ∈ before .modifyFileTimestamp, ¬ appName b <:+: p.command) →
        (stop env seen (hostAfter ⟨none, none⟩ (wedgedRun ++ deadRun))).1.procs[i]? = some p :=
  stop_wedged ⟨trivial, fun _ _ => nofun, trivial, freshPids_deadRun _⟩ (by decide) (by decide)
    (by decide)

end Scripts
