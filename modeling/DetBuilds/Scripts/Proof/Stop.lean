import DetBuilds.Scripts.Proof.Sane

/-!
# What `stop.sh` ends

* `stop_reaches`: of the processes, `stop.sh` interrupts those that carry the name of a program
  before the first one whose round finds nothing.
* `stop_ends_iff`: of the loaders that are on their way to their loop or in it, it ends those that it
  reaches and that have already asked for `SIGINT`. For the others no number of calls is enough.
-/

set_option autoImplicit false

namespace Scripts

open Bpf Preload Loader History

variable {files : Files} {h : List Op} {env : Env} {seen : App → Option Nat}

/-! ## What is interrupted -/

/-- No program's name occurs in the command of another one. -/
theorem infix_command : ∀ a ∈ bpfApps, ∀ b ∈ bpfApps, appName b <:+: command a ↔ b = a := by
  decide

/-- A loader is interrupted exactly if its program is reached. -/
theorem signalled_loader {p : Proc} (hp : p.Sane) {a : App} {q : Process}
    (hb : p.body = .loader a q) {apps : List App} (hsub : ∀ b ∈ apps, b ∈ bpfApps) :
    signalled apps p = { p with body := .loader a (if a ∈ apps then q.signal .int else q) } := by
  obtain ⟨hc, ha, -⟩ := hp a q hb
  have hmatch : (∃ b ∈ apps, p.Matches b) ↔ p.Alive ∧ a ∈ apps := by
    constructor
    · rintro ⟨b, hmem, hal, hin⟩
      rw [hc] at hin
      rw [(infix_command a ha b (hsub b hmem)).1 hin] at hmem
      exact ⟨hal, hmem⟩
    · rintro ⟨hal, hmem⟩
      exact ⟨a, hmem, hal, by rw [hc]; exact (infix_command a ha a ha).2 rfl⟩
  unfold signalled
  rw [if_congr hmatch rfl rfl]
  obtain ⟨pid, command, body⟩ := p
  cases hb
  by_cases hal : Proc.Alive ⟨pid, command, .loader a q⟩
  · by_cases hmem : a ∈ apps
    · simp [hal, hmem, Proc.interrupt, Body.interrupt]
    · simp [hmem]
  · have hsame : q.signal .int = q := if_pos (not_not.1 hal)
    simp [hal, hsame]

theorem signalled_reached {p : Proc} (hp : p.Sane) {a : App} {q : Process}
    (hb : p.body = .loader a q) (procs : List Proc) :
    signalled (reached seen procs) p =
      { p with body := .loader a (if a ∈ reached seen procs then q.signal .int else q) } :=
  signalled_loader hp hb fun _ hb' => (List.takeWhile_subset _) hb'

/-- **What `stop.sh` reaches**: after every run of scripts and processes, it interrupts the processes
that carry the name of a program before the first one that its round finds nothing for; of the
loaders, those of the programs before it. It ends well exactly if there is no such program, and then,
and only then, it empties the preload file. -/
theorem stop_reaches (hf : EachStep (FreshPids files) h) (hroot : env.whoami = root)
    (hseen : FreshPids files h (.stop env seen)) :
    (stop env seen (hostAfter files h)).1 =
      { files :=
          if ∀ a ∈ bpfApps, Found seen (hostAfter files h).procs a then
            { (hostAfter files h).files with preload := some (echo []) }
          else (hostAfter files h).files
        procs := (hostAfter files h).procs.map
          (signalled (reached seen (hostAfter files h).procs)) } ∧
    ((stop env seen (hostAfter files h)).2 = .done ↔
      ∀ a ∈ bpfApps, Found seen (hostAfter files h).procs a) ∧
    ∀ p ∈ (hostAfter files h).procs, ∀ a q, p.body = .loader a q →
      (signalled (reached seen (hostAfter files h).procs) p).body =
        .loader a (if a ∈ reached seen (hostAfter files h).procs then q.signal .int else q) := by
  have hs := sane_hostAfter hf
  have hnone : (bpfApps.find? fun a => ¬ Found seen (hostAfter files h).procs a) = none ↔
      ∀ a ∈ bpfApps, Found seen (hostAfter files h).procs a := by
    simp [List.find?_eq_none]
  have hstop := stop_eq hs hroot hseen
  refine ⟨congrArg Prod.fst hstop, Iff.trans ?_ hnone, fun p hp a q hb => ?_⟩
  · rw [hstop]
    cases bpfApps.find? fun a => ¬ Found seen (hostAfter files h).procs a <;> simp
  · rw [signalled_reached (hs.each p hp) hb]

def somePids : App → Nat
  | .modifyTime => 11
  | .preloadFilter => 14
  | .modifyFileTimestamp => 12
  | .modifyFileName => 15
  | .modifyFileRead => 13

/-- One loader asks for its signals, and another one is killed. -/
def deadRun : List Op :=
  [.input 12 (.signal .kill), .input 11 (.answer 0), .input 11 (.answer 0),
    .start rootEnv (fun _ => true) somePids]

theorem freshPids_deadRun (files : Files) : EachStep (FreshPids files) deadRun :=
  ⟨trivial, trivial, trivial, ⟨by decide, fun _ _ => List.not_mem_nil⟩, trivial⟩

/-- The name of the killed one is not found any more. -/
theorem stop_reaches_deadRun :
    (stop rootEnv (fun _ => none) (hostAfter ⟨none, none⟩ deadRun)).1 =
      { files :=
          if ∀ a ∈ bpfApps, Found (fun _ => none) (hostAfter ⟨none, none⟩ deadRun).procs a then
            { (hostAfter ⟨none, none⟩ deadRun).files with preload := some (echo []) }
          else (hostAfter ⟨none, none⟩ deadRun).files
        procs := (hostAfter ⟨none, none⟩ deadRun).procs.map (signalled
          (reached (fun _ => none) (hostAfter ⟨none, none⟩ deadRun).procs)) } ∧
    ((stop rootEnv (fun _ => none) (hostAfter ⟨none, none⟩ deadRun)).2 = .done ↔
      ∀ a ∈ bpfApps, Found (fun _ => none) (hostAfter ⟨none, none⟩ deadRun).procs a) ∧
    ∀ p ∈ (hostAfter ⟨none, none⟩ deadRun).procs, ∀ a q, p.body = .loader a q →
      (signalled (reached (fun _ => none) (hostAfter ⟨none, none⟩ deadRun).procs) p).body =
        .loader a (if a ∈ reached (fun _ => none) (hostAfter ⟨none, none⟩ deadRun).procs
          then q.signal .int else q) :=
  stop_reaches (freshPids_deadRun _) rfl fun _ _ => nofun

/-- A process that carries two names is gone after the first round if `SIGINT` ends it. -/
example (files : Files) (fatal : Bool) :
    (stop rootEnv (fun _ => none) ⟨files, [⟨50, appName .modifyTime ++ appName .modifyFileTimestamp,
      .other fatal false⟩]⟩).2 =
        if fatal then .processEmpty .modifyFileTimestamp else .processEmpty .modifyFileRead := by
  cases fatal <;> rfl

/-! ## What one process goes through -/

/-- A call of the process with this pid answers. -/
def Op.Answers (pid : Nat) : Op → Prop
  | .input pid' i => pid' = pid ∧ Process.IsAnswer i
  | _ => False

instance (pid : Nat) : DecidablePred (Op.Answers pid)
  | .start _ _ _ | .stop _ _ | .spawn _ _ _ | .quit _ => inferInstanceAs (Decidable False)
  | .input _ _ => inferInstanceAs (Decidable (_ ∧ _))

/-- An operation is a step of a loader, or a few steps that are no answers. -/
theorem on_loader (host : Host) {p : Proc} (hp : p.Sane) {a : App} {q : Process}
    (hb : p.body = .loader a q) (op : Op) :
    ∃ l, op.on host p = { p with body := .loader a (after (Process.step (handlers a)) q l) } ∧
      l.countP (Process.IsAnswer ·) = if op.Answers p.pid then 1 else 0 := by
  have hsame : p = { p with body := .loader a (after (Process.step (handlers a)) q []) } := by
    obtain ⟨pid, command, body⟩ := p
    cases hb
    rfl
  cases op with
  | start env made pids => exact ⟨[], hsame, rfl⟩
  | stop env seen =>
    rw [Op.on]
    split
    · rw [signalled_reached hp hb]
      by_cases hmem : a ∈ reached seen host.procs
      · exact ⟨[.signal .int], by rw [if_pos hmem]; rfl, rfl⟩
      · exact ⟨[], by rw [if_neg hmem]; rfl, rfl⟩
    · exact ⟨[], hsame, rfl⟩
  | input pid i =>
    rw [Op.on, only]
    by_cases hpid : p.pid = pid
    · refine ⟨[i], by rw [if_pos hpid, hb]; rfl, ?_⟩
      rw [List.countP_singleton]
      exact if_congr (by simp [Op.Answers, hpid]) rfl rfl
    · refine ⟨[], by rw [if_neg hpid]; exact hsame, ?_⟩
      exact (if_neg fun hans : pid = p.pid ∧ _ => hpid hans.1.symm).symm
  | spawn pid command fatal => exact ⟨[], hsame, rfl⟩
  | quit pid =>
    rw [Op.on, only]
    refine ⟨[], ?_, rfl⟩
    split
    · rw [hb]; rfl
    · exact hsame

/-- To a loader, a run of the host is a run of its `main`, with the answers that it gets. -/
theorem loader_run {l : List Op} (hf : EachStep (FreshPids files) (l ++ h)) {i : Nat} {p : Proc}
    (hp : (hostAfter files h).procs[i]? = some p) {a : App} {q : Process}
    (hb : p.body = .loader a q) :
    ∃ l', (hostAfter files (l ++ h)).procs[i]? =
        some { p with body := .loader a (after (Process.step (handlers a)) q l') } ∧
      l'.countP (Process.IsAnswer ·) = l.countP (Op.Answers p.pid ·) := by
  induction l with
  | nil =>
    refine ⟨[], ?_, rfl⟩
    rw [List.nil_append, hp]
    obtain ⟨pid, command, body⟩ := p
    cases hb
    rfl
  | cons op l ih =>
    obtain ⟨l₁, hl₁, hcount₁⟩ := ih hf.2
    have hs := sane_hostAfter (h := l ++ h) hf.2
    have hsane := hs.each _ (List.mem_of_getElem? hl₁)
    obtain ⟨l₂, hl₂, hcount₂⟩ := on_loader (hostAfter files (l ++ h)) hsane rfl op
    refine ⟨l₂ ++ l₁, ?_, ?_⟩
    · show (op.run (hostAfter files (l ++ h))).procs[i]? = _
      rw [getElem?_run op hs hf.1 hl₁, hl₂]
      exact congrArg (fun q => some { p with body := .loader a q }) List.foldr_append.symm
    · rw [List.countP_append, hcount₁, hcount₂, List.countP_cons, Nat.add_comm]
      simp only [decide_eq_true_eq]

/-- The calls of one loader answer, and nothing else happens. -/
theorem hostAfter_inputs {i : Nat} {p : Proc} (hp : (hostAfter files h).procs[i]? = some p)
    {a : App} {q : Process} (hb : p.body = .loader a q) (l : List Input) :
    (hostAfter files (l.map (.input p.pid) ++ h)).procs[i]? =
      some { p with body := .loader a (after (Process.step (handlers a)) q l) } := by
  induction l with
  | nil =>
    rw [List.map_nil, List.nil_append, hp]
    obtain ⟨pid, command, body⟩ := p
    cases hb
    rfl
  | cons j l ih =>
    show ((hostAfter files (l.map (.input p.pid) ++ h)).procs.map (only p.pid (.step j)))[i]? = _
    rw [List.getElem?_map, ih]
    exact congrArg some (if_pos rfl)

/-! ## What ends -/

/-- Some number of answers to its calls ends the process at a place, whatever else happens. -/
def BoundToEnd (files : Files) (h : List Op) (i : Nat) : Prop :=
  ∃ n, ∀ l, EachStep (FreshPids files) (l ++ h) →
    ∀ p, (hostAfter files (l ++ h)).procs[i]? = some p → n ≤ l.countP (Op.Answers p.pid ·) → ¬ p.Alive

/-- A loader that has been told to end is bound to. -/
theorem boundToEnd_of_exiting {i : Nat} {p : Proc} (hp : (hostAfter files h).procs[i]? = some p)
    {a : App} {q : Process} (hb : p.body = .loader a q) (he : q.exiting = true) :
    BoundToEnd files h i := by
  refine ⟨Process.callsLeft (handlers a) q, fun l hf p' hp' hn => ?_⟩
  obtain ⟨l', hl', hcount⟩ := loader_run hf hp hb
  rw [hl'] at hp'
  cases hp'
  exact not_not.2 (Process.over_after_callsLeft (.inl he) (hn.trans_eq hcount.symm))

/-- One that all can go well for, and has not been told to, is not. -/
theorem not_boundToEnd {i : Nat} (hf : EachStep (FreshPids files) h) {p : Proc}
    (hp : (hostAfter files h).procs[i]? = some p) {a : App} {q : Process}
    (hb : p.body = .loader a q) (hserving : q.Serving) (he : q.exiting = false) :
    ¬ BoundToEnd files h i := by
  rintro ⟨n, hn⟩
  obtain ⟨-, -, hq, rfl⟩ := (sane_hostAfter hf).each p (List.mem_of_getElem? hp) a q hb
  obtain ⟨l, hl, hcount⟩ := Process.serve_append (handlers a) .ign n hq
  have hrun : after (Process.step (handlers a)) (Process.run (handlers a) .ign hq) l =
      Process.run (handlers a) .ign (Process.serve (handlers a) .ign n hq) := by
    rw [hl]
    exact List.foldr_append.symm
  have hfresh : ∀ l : List Input, EachStep (FreshPids files) (l.map (.input p.pid) ++ h) := by
    intro l
    induction l with
    | nil => exact hf
    | cons j l ih => exact ⟨trivial, ih⟩
  have hplace := hostAfter_inputs hp hb l
  rw [hrun] at hplace
  refine hn (l.map (.input p.pid)) (hfresh l) _ hplace ?_ ?_
  · rw [List.countP_map]
    refine Nat.le_of_eq (hcount.symm.trans (List.countP_congr fun j _ => ?_))
    simp [Op.Answers]
  · exact Process.not_over_of_serving (Process.serving_serve n hserving he).1

/-- **What `stop.sh` ends**: after every run, a loader that is on its way to its loop or in it is
bound to end by `stop.sh` exactly if it has been told to before, or if `stop.sh` reaches its program
and finds it past the call that asks for `SIGINT`. -/
theorem stop_ends_iff (hf : EachStep (FreshPids files) (.stop env seen :: h))
    (hroot : env.whoami = root) {i : Nat} {p : Proc}
    (hp : (hostAfter files h).procs[i]? = some p) {a : App} {q : Process}
    (hb : p.body = .loader a q) (hserving : q.Serving) :
    BoundToEnd files (.stop env seen :: h) i ↔
      q.exiting = true ∨
        (a ∈ reached seen (hostAfter files h).procs ∧ q.onInt = .sigHandler) := by
  have hs := sane_hostAfter (h := h) hf.2
  have hsane := hs.each p (List.mem_of_getElem? hp)
  have hplace : (hostAfter files (.stop env seen :: h)).procs[i]? = some { p with
      body := .loader a
        (if a ∈ reached seen (hostAfter files h).procs then q.signal .int else q) } := by
    show ((Op.stop env seen).run (hostAfter files h)).procs[i]? = _
    rw [getElem?_run _ hs hf.1 hp, ← signalled_reached hsane hb]
    exact congrArg some (if_pos hroot)
  have hint := Process.signal_int (hsane.onInt hb)
  by_cases htold : q.exiting = true ∨
      (a ∈ reached seen (hostAfter files h).procs ∧ q.onInt = .sigHandler)
  · refine iff_of_true (boundToEnd_of_exiting hplace rfl ?_) htold
    rcases htold with he | ⟨hmem, hd⟩
    · split
      · exact Process.exiting_signal .int he
      · exact he
    · rw [if_pos hmem, hint, if_pos ⟨hd, Process.not_over_of_serving hserving⟩]
  · have hsame : (if a ∈ reached seen (hostAfter files h).procs then q.signal .int else q) =
        q := by
      split
      · rename_i hmem
        rw [hint, if_neg fun hd => htold (.inr ⟨hmem, hd.1⟩)]
      · rfl
    rw [hsame] at hplace
    have he : q.exiting = false := by simpa using fun he => htold (.inl he)
    exact iff_of_false (not_boundToEnd hf hplace rfl hserving he) htold

/-- The loader that has asked for its signals. -/
theorem stop_ends_iff_deadRun :
    BoundToEnd ⟨none, none⟩ (.stop rootEnv (fun _ => none) :: deadRun) 0 ↔
      Process.exiting { Process.exec .ign with pc := .signalTerm, onInt := .sigHandler } = true ∨
        (App.modifyTime ∈ reached (fun _ => none) (hostAfter ⟨none, none⟩ deadRun).procs ∧
          Disposition.sigHandler = .sigHandler) :=
  have hfresh : FreshPids ⟨none, none⟩ deadRun (.stop rootEnv fun _ => none) := fun _ _ => nofun
  stop_ends_iff (p := ⟨11, command .modifyTime,
      .loader .modifyTime { Process.exec .ign with pc := .signalTerm, onInt := .sigHandler }⟩)
    ⟨hfresh, freshPids_deadRun _⟩ rfl rfl rfl trivial

end Scripts
