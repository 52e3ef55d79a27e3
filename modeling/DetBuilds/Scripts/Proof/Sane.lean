import DetBuilds.Scripts.StartStop
import DetBuilds.Loader.Proof.Ending

/-!
# What the scripts keep

A process keeps its pid and its command. A loader was started by `start.sh` and has gone through a
run of its `main`, so it does not die of a `SIGINT` (`Sane`, `sane_hostAfter`); other processes may.
Each round of the loop of `stop.sh` finds what the rounds before it have left (`left`, `Found`), and
the loop gets as far as the first program that its round finds nothing for (`stopApps_eq`). `start_eq`
and `stop_eq` say what a script does to the host, and `procs_run` what any operation does to its
processes.
-/

set_option autoImplicit false

namespace Scripts

open Bpf Preload Loader History

/-! ## Interrupts -/

/-- What is known of a process: `start.sh` has started it if it is a loader. -/
def Proc.Sane (p : Proc) : Prop :=
  ∀ a q, p.body = .loader a q →
    p.command = Scripts.command a ∧ a ∈ bpfApps ∧ ∃ h, q = Process.run (handlers a) .ign h

/-- Running processes have pids of their own. -/
structure Host.Sane (host : Host) : Prop where
  nodup : host.pids.Nodup
  each : ∀ p ∈ host.procs, p.Sane

namespace Proc

variable {p : Proc}

theorem Sane.onInt (hp : p.Sane) {a : App} {q : Process} (hb : p.body = .loader a q) :
    q.onInt ≠ .dfl := by
  obtain ⟨-, -, h, rfl⟩ := hp a q hb
  exact Process.onInt_run h

/-- The process of a loader goes on. -/
theorem sane_step (hp : p.Sane) (i : Input) : Sane { p with body := p.body.step i } := by
  intro a q hq
  cases hb : p.body with
  | loader b q' =>
    rw [hb] at hq
    cases hq
    obtain ⟨hc, ha, h, rfl⟩ := hp _ _ hb
    exact ⟨hc, ha, i :: h, rfl⟩
  | other fatal interrupted => rw [hb] at hq; cases hq
  | ended => rw [hb] at hq; cases hq

/-- To a loader, `kill -2` is a step. -/
theorem interrupt_loader {a : App} {q : Process} (hb : p.body = .loader a q) :
    p.interrupt = { p with body := p.body.step (.signal .int) } := by
  unfold interrupt
  rw [hb]
  rfl

theorem sane_interrupt (hp : p.Sane) : p.interrupt.Sane := by
  cases hb : p.body with
  | loader a q => rw [interrupt_loader hb]; exact sane_step hp _
  | other fatal interrupted =>
    intro a q hq
    unfold interrupt at hq
    rw [hb] at hq
    cases fatal <;> cases hq
  | ended => intro a q hq; unfold interrupt at hq; rw [hb] at hq; cases hq

/-- What has ended cannot be interrupted. -/
theorem interrupt_of_not_alive (ho : ¬ p.Alive) : p.interrupt = p := by
  obtain ⟨pid, command, body⟩ := p
  cases body with
  | loader a q =>
    have ho : q.Over := not_not.1 ho
    exact congrArg (fun q => (⟨pid, command, .loader a q⟩ : Proc)) (if_pos ho)
  | other fatal interrupted => exact absurd trivial ho
  | ended => rfl

theorem alive_of_interrupt (h : p.interrupt.Alive) : p.Alive := by
  by_contra ho
  rw [interrupt_of_not_alive ho] at h
  exact ho h

theorem interrupt_interrupt (hp : p.Sane) : p.interrupt.interrupt = p.interrupt := by
  obtain ⟨pid, command, body⟩ := p
  cases body with
  | loader a q =>
    have hd : q.onInt ≠ .dfl := hp.onInt rfl
    have hd' : (q.signal .int).onInt ≠ .dfl := by rw [Process.onInt_signal]; exact hd
    have hsame : (q.signal .int).signal .int = q.signal .int := by
      rw [Process.signal_int hd', Process.signal_int hd]
      split
      · exact ite_self _
      · rfl
    exact congrArg (fun q => (⟨pid, command, .loader a q⟩ : Proc)) hsame
  | other fatal interrupted => cases fatal <;> rfl
  | ended => rfl

end Proc

/-- A process that carries the name of one of the programs is interrupted. -/
def signalled (apps : List App) (p : Proc) : Proc :=
  if ∃ a ∈ apps, p.Matches a then p.interrupt else p

theorem map_signalled_nil (procs : List Proc) : procs.map (signalled []) = procs :=
  (List.map_congr_left fun _ _ => if_neg (by simp)).trans (List.map_id procs)

section
variable {p : Proc} (apps : List App)

theorem pid_signalled : (signalled apps p).pid = p.pid := by
  unfold signalled
  split <;> rfl

theorem alive_of_signalled (h : (signalled apps p).Alive) : p.Alive := by
  unfold signalled at h
  split at h
  · exact Proc.alive_of_interrupt h
  · exact h

theorem sane_signalled (hp : p.Sane) : (signalled apps p).Sane := by
  unfold signalled
  split
  · exact Proc.sane_interrupt hp
  · exact hp

theorem command_signalled : (signalled apps p).command = p.command := by
  unfold signalled
  split <;> rfl

theorem matches_of_signalled {a : App} (h : (signalled apps p).Matches a) : p.Matches a :=
  ⟨alive_of_signalled apps h.1, command_signalled apps (p := p) ▸ h.2⟩

theorem signalled_interrupt (hp : p.Sane) : signalled apps p.interrupt = p.interrupt := by
  unfold signalled
  split
  · exact Proc.interrupt_interrupt hp
  · rfl

/-- One round after the other. -/
theorem signalled_signalled (hp : p.Sane) (apps' : List App) :
    signalled apps' (signalled apps p) = signalled (apps ++ apps') p := by
  by_cases ha : ∃ a ∈ apps, p.Matches a
  · obtain ⟨a, hmem, hmatch⟩ := ha
    have hone : signalled apps p = p.interrupt := if_pos ⟨a, hmem, hmatch⟩
    have hboth : signalled (apps ++ apps') p = p.interrupt :=
      if_pos ⟨a, List.mem_append_left _ hmem, hmatch⟩
    rw [hone, hboth, signalled_interrupt apps' hp]
  · have hone : signalled apps p = p := if_neg ha
    have hor : (∃ a ∈ apps ++ apps', p.Matches a) ↔ ∃ a ∈ apps', p.Matches a := by
      constructor
      · rintro ⟨a, hmem, hmatch⟩
        rcases List.mem_append.1 hmem with hmem | hmem
        · exact absurd ⟨a, hmem, hmatch⟩ ha
        · exact ⟨a, hmem, hmatch⟩
      · rintro ⟨a, hmem, hmatch⟩
        exact ⟨a, List.mem_append_right _ hmem, hmatch⟩
    rw [hone, signalled, signalled, if_congr hor rfl rfl]

end

/-! ## The loop -/

/-- The programs that `stop.sh` comes to before this one. -/
def before (a : App) : List App := bpfApps.takeWhile fun b => b ≠ a

/-- What the rounds before a program's have left of the processes. -/
def left (procs : List Proc) (a : App) : List Proc := procs.map (signalled (before a))

/-- Something is found by the name of the program in its round. -/
def Found (seen : App → Option Nat) (procs : List Proc) (a : App) : Prop :=
  processes (seen a) (left procs a) a ≠ []

instance (seen : App → Option Nat) (procs : List Proc) (a : App) : Decidable (Found seen procs a) :=
  inferInstanceAs (Decidable (_ ≠ _))

/-- The programs before the first whose round finds nothing. -/
def reached (seen : App → Option Nat) (procs : List Proc) : List App :=
  bpfApps.takeWhile fun a => Found seen procs a

/-- No program comes twice. -/
theorem before_eq {pre apps : List App} {a : App} (h : bpfApps = pre ++ a :: apps) :
    before a = pre := by
  have hne : ∀ b ∈ pre, decide (b ≠ a) = true := by
    have hnodup : (pre ++ a :: apps).Nodup := h ▸ (by decide)
    rintro b hb
    have hdisjoint := (List.nodup_append.1 hnodup).2.2 b hb a (List.mem_cons_self ..)
    simpa using hdisjoint
  unfold before
  rw [h, List.takeWhile_append_of_pos hne, List.takeWhile_cons_of_neg (by simp), List.append_nil]

section
variable {procs : List Proc}

/-- Interrupts start nothing. -/
theorem pids_signalled (files : Files) (apps : List App) :
    (Host.pids ⟨files, procs.map (signalled apps)⟩).Sublist (Host.pids ⟨files, procs⟩) := by
  have hfilter : procs.filter ((fun p => decide p.Alive) ∘ signalled apps) =
      (procs.filter fun p => p.Alive).filter ((fun p => decide p.Alive) ∘ signalled apps) := by
    rw [List.filter_filter]
    refine List.filter_congr fun p _ => ?_
    by_cases ha : (signalled apps p).Alive
    · simp [ha, alive_of_signalled apps ha]
    · simp [ha]
  have hmap : (procs.filter ((fun p => decide p.Alive) ∘ signalled apps)).map
      (Proc.pid ∘ signalled apps) =
      (procs.filter ((fun p => decide p.Alive) ∘ signalled apps)).map Proc.pid :=
    List.map_congr_left fun p _ => pid_signalled apps
  unfold Host.pids
  rw [List.filter_map, List.map_map, hmap, hfilter]
  exact List.filter_sublist.map _

theorem sane_map_signalled {host : Host} (hs : host.Sane) (apps : List App) :
    Host.Sane ⟨host.files, host.procs.map (signalled apps)⟩ where
  nodup := hs.nodup.sublist (pids_signalled host.files apps)
  each p hp := by
    obtain ⟨q, hq, rfl⟩ := List.mem_map.1 hp
    exact sane_signalled apps (hs.each q hq)

/-- The kills of one round, together. -/
theorem foldl_kill (hs : ∀ p ∈ procs, p.Sane) (pids : List Nat) :
    pids.foldl kill procs = procs.map fun p => if p.pid ∈ pids then p.interrupt else p := by
  induction pids generalizing procs with
  | nil => simp
  | cons pid pids ih =>
    have hkill : ∀ p ∈ kill procs pid, p.Sane := by
      intro p hp
      obtain ⟨q, hq, rfl⟩ := List.mem_map.1 hp
      unfold only
      split
      · exact Proc.sane_interrupt (hs q hq)
      · exact hs q hq
    rw [List.foldl_cons, ih hkill, kill, List.map_map]
    refine List.map_congr_left fun p hp => ?_
    show (if (only pid .interrupt p).pid ∈ pids then _ else _) = _
    by_cases hpid : p.pid = pid
    · have honly : only pid .interrupt p = p.interrupt := if_pos hpid
      rw [honly, if_pos (show p.pid ∈ pid :: pids by simp [hpid]), Proc.interrupt_interrupt (hs p hp)]
      exact ite_self _
    · have honly : only pid .interrupt p = p := if_neg hpid
      rw [honly]
      exact if_congr (by simp [hpid]) rfl rfl

/-- What is killed in a round is what carries the name. -/
theorem foldl_kill_processes {host : Host} (hs : host.Sane) {seen : Option Nat}
    (hseen : ∀ pid ∈ seen, pid ∉ host.pids) (a : App) :
    (processes seen host.procs a).foldl kill host.procs = host.procs.map (signalled [a]) := by
  rw [foldl_kill hs.each]
  refine List.map_congr_left fun p hp => ?_
  have hone : (∃ b ∈ [a], p.Matches b) ↔ p.Matches a := by simp
  unfold signalled
  rw [if_congr hone rfl rfl]
  by_cases halive : p.Alive
  · refine if_congr ?_ rfl rfl
    have hpid : p.pid ∈ host.pids :=
      List.mem_map_of_mem (List.mem_filter.2 ⟨hp, by simpa using halive⟩)
    constructor
    · intro hmem
      rcases List.mem_append.1 hmem with hmem | hmem
      · obtain ⟨q, hq, hqp⟩ := List.mem_map.1 hmem
        obtain ⟨hq, hmatch⟩ := List.mem_filter.1 hq
        have hmatch : q.Matches a := by simpa using hmatch
        have heq : q = p := List.inj_on_of_nodup_map hs.nodup
          (List.mem_filter.2 ⟨hq, by simpa using hmatch.1⟩)
          (List.mem_filter.2 ⟨hp, by simpa using halive⟩) hqp
        rwa [← heq]
      · exact absurd hpid (hseen _ (Option.mem_toList.1 hmem))
    · intro hmatch
      exact List.mem_append_left _
        (List.mem_map_of_mem (List.mem_filter.2 ⟨hp, by simpa using hmatch⟩))
  · rw [Proc.interrupt_of_not_alive halive, ite_self, ite_self]

/-- **The loop** interrupts what carries the name of a program that it reaches, and ends early at the
first program that its round finds nothing for. -/
theorem stopApps_eq {seen : App → Option Nat} {host : Host} (hs : host.Sane)
    (hseen : ∀ a, ∀ pid ∈ seen a, pid ∉ host.pids) {apps : List App} :
    ∀ {pre : List App}, bpfApps = pre ++ apps →
      stopApps seen apps (host.procs.map (signalled pre)) =
        (host.procs.map (signalled (pre ++ apps.takeWhile fun a => Found seen host.procs a)),
          apps.find? fun a => ¬ Found seen host.procs a) := by
  induction apps with
  | nil =>
    intro pre _
    rw [List.takeWhile_nil, List.append_nil]
    rfl
  | cons a apps ih =>
    intro pre hpre
    have hleft : host.procs.map (signalled pre) = left host.procs a := by
      rw [left, before_eq hpre]
    unfold stopApps
    by_cases hf : Found seen host.procs a
    · have hround : (processes (seen a) (host.procs.map (signalled pre)) a).foldl kill
          (host.procs.map (signalled pre)) = host.procs.map (signalled (pre ++ [a])) := by
        have hpid : ∀ pid ∈ seen a,
            pid ∉ Host.pids { host with procs := host.procs.map (signalled pre) } :=
          fun pid hpid hmem => hseen a pid hpid ((pids_signalled host.files pre).subset hmem)
        have hkill := foldl_kill_processes (sane_map_signalled hs pre) hpid a
        rw [hkill, List.map_map]
        exact List.map_congr_left fun p hp => signalled_signalled pre (hs.each p hp) [a]
      rw [if_neg (hleft ▸ hf), hround, ih (by rw [hpre, List.append_assoc, List.singleton_append]),
        List.takeWhile_cons_of_pos (by simpa using hf), List.find?_cons_of_neg (by simpa using hf),
        List.append_assoc, List.singleton_append]
    · have hnil : processes (seen a) (host.procs.map (signalled pre)) a = [] := by
        rw [hleft]
        exact not_not.1 hf
      rw [if_pos hnil, List.takeWhile_cons_of_neg (by simpa using hf),
        List.find?_cons_of_pos (by simpa using hf), List.append_nil]

end

/-! ## What the scripts do -/

/-- `start.sh` gets to its end. -/
def Starts (env : Env) (made : Content → Bool) : Prop :=
  env.whoami = root ∧ made (preloadDirPath ++ modifyTimeSo) = true ∧
    ∀ a ∈ bpfApps, made (command a) = true

instance (env : Env) (made : Content → Bool) : Decidable (Starts env made) :=
  inferInstanceAs (Decidable (_ ∧ _ ∧ _))

/-- It does all or nothing. -/
theorem start_eq (env : Env) (made : Content → Bool) (pids : App → Nat) (host : Host) :
    (start env made pids host).1 =
      if Starts env made then
        { files := loadModify (inPreload env) host.files
          procs := host.procs ++ bpfApps.map (launch pids) }
      else host := by
  unfold start
  by_cases hroot : env.whoami = root
  · by_cases hso : made (preloadDirPath ++ modifyTimeSo) = true
    · rw [if_neg (not_not.2 hroot), if_neg (by simp [hso])]
      cases hfind : bpfApps.find? fun a => !made (command a) with
      | some a =>
        have hmem := List.mem_of_find?_eq_some hfind
        have hmade : made (command a) = false := by simpa using List.find?_some hfind
        rw [if_neg fun hall => absurd (hmade.symm.trans (hall.2.2 a hmem)) (by decide)]
      | none =>
        rw [if_pos ⟨hroot, hso, by simpa using hfind⟩]
    · rw [if_neg (not_not.2 hroot), if_pos (by simpa using hso), if_neg fun hall => hso hall.2.1]
  · rw [if_pos hroot, if_neg fun hall => hroot hall.1]

/-- `stop.sh` interrupts what it reaches, ends well if it finds something for each program, and then
empties the preload file. -/
theorem stop_eq {host : Host} (hs : host.Sane) {env : Env} {seen : App → Option Nat}
    (hroot : env.whoami = root) (hseen : ∀ a, ∀ pid ∈ seen a, pid ∉ host.pids) :
    stop env seen host =
      ({ files :=
          if ∀ a ∈ bpfApps, Found seen host.procs a then
            { host.files with preload := some (echo []) }
          else host.files
         procs := host.procs.map (signalled (reached seen host.procs)) },
        (bpfApps.find? fun a => ¬ Found seen host.procs a).elim .done .processEmpty) := by
  have hroot' : (inPreload env).whoami = root := hroot
  unfold stop
  have hloop : stopApps seen bpfApps host.procs =
      (host.procs.map (signalled (reached seen host.procs)),
        bpfApps.find? fun a => ¬ Found seen host.procs a) := by
    have hfirst := stopApps_eq hs hseen (List.nil_append bpfApps).symm
    rwa [map_signalled_nil] at hfirst
  rw [if_neg (not_not.2 hroot), hloop]
  cases hfind : bpfApps.find? fun a => ¬ Found seen host.procs a with
  | none =>
    rw [if_pos (by simpa using hfind)]
    simp [unloadModify, hroot']
  | some a =>
    have hmem := List.mem_of_find?_eq_some hfind
    have hno : ¬ Found seen host.procs a := by simpa using List.find?_some hfind
    rw [if_neg fun hall => hno (hall a hmem)]
    rfl

/-! ## What an operation does to one process -/

/-- What an operation does to a process that is there already. -/
def Op.on (host : Host) : Op → Proc → Proc
  | .start _ _ _, p => p
  | .stop env seen, p =>
    if env.whoami = root then signalled (reached seen host.procs) p else p
  | .input pid i, p => only pid (.step i) p
  | .spawn _ _ _, p => p
  | .quit pid, p => only pid .quit p

section
variable {host : Host} {p : Proc} (op : Op)

theorem pid_on : (op.on host p).pid = p.pid := by
  cases op with
  | start env made pids => rfl
  | stop env seen =>
    rw [Op.on]
    split
    · exact pid_signalled _
    · rfl
  | input pid i => rw [Op.on, only]; split <;> rfl
  | spawn pid command fatal => rfl
  | quit pid => rw [Op.on, only]; split <;> rfl

theorem command_on : (op.on host p).command = p.command := by
  cases op with
  | start env made pids => rfl
  | stop env seen =>
    rw [Op.on]
    split
    · exact command_signalled _
    · rfl
  | input pid i => rw [Op.on, only]; split <;> rfl
  | spawn pid command fatal => rfl
  | quit pid => rw [Op.on, only]; split <;> rfl

/-- What has ended does not run again. -/
theorem alive_of_on (h : (op.on host p).Alive) : p.Alive := by
  cases op with
  | start env made pids => exact h
  | stop env seen =>
    rw [Op.on] at h
    split at h
    · exact alive_of_signalled _ h
    · exact h
  | input pid i =>
    rw [Op.on, only] at h
    split at h
    · unfold Proc.Alive at h ⊢
      cases hb : p.body with
      | loader a q =>
        intro ho
        rw [hb] at h
        refine h ?_
        rwa [Process.over_step i ho]
      | other fatal interrupted => trivial
      | ended => rw [hb] at h; exact h
    · exact h
  | spawn pid command fatal => exact h
  | quit pid =>
    rw [Op.on, only] at h
    split at h
    · unfold Proc.Alive at h ⊢
      cases hb : p.body with
      | loader a q => rw [hb] at h; exact h
      | other fatal interrupted => trivial
      | ended => rw [hb] at h; exact h
    · exact h

theorem sane_on (hp : p.Sane) : (op.on host p).Sane := by
  cases op with
  | start env made pids => exact hp
  | stop env seen =>
    rw [Op.on]
    split
    · exact sane_signalled _ hp
    · exact hp
  | input pid i =>
    rw [Op.on, only]
    split
    · exact Proc.sane_step hp i
    · exact hp
  | spawn pid command fatal => exact hp
  | quit pid =>
    rw [Op.on, only]
    split
    · intro a q hq
      cases hb : p.body with
      | loader b q' => rw [hb] at hq; exact hp a q (hb.trans hq)
      | other fatal interrupted => rw [hb] at hq; cases hq
      | ended => rw [hb] at hq; cases hq
    · exact hp

/-- The processes that an operation starts. -/
def Op.launched : Op → List Proc
  | .start env made pids => if Starts env made then bpfApps.map (launch pids) else []
  | .stop _ _ => []
  | .input _ _ => []
  | .spawn pid command fatal => [⟨pid, command, .other fatal false⟩]
  | .quit _ => []

/-- They have pids of their own. -/
theorem launched_fresh (hfresh : host.Fresh op) :
    (op.launched.map Proc.pid).Nodup ∧ ∀ p ∈ op.launched, p.pid ∉ host.pids ∧ p.Sane := by
  cases op with
  | start env made pids =>
    rw [Op.launched]
    split
    · refine ⟨by rw [List.map_map]; exact hfresh.1, fun p hp => ?_⟩
      obtain ⟨a, ha, rfl⟩ := List.mem_map.1 hp
      refine ⟨hfresh.2 a ha, fun b q hb => ?_⟩
      cases hb
      exact ⟨rfl, ha, [], rfl⟩
    · exact ⟨List.nodup_nil, fun p hp => by cases hp⟩
  | stop env seen => exact ⟨List.nodup_nil, fun p hp => by cases hp⟩
  | input pid i => exact ⟨List.nodup_nil, fun p hp => by cases hp⟩
  | spawn pid command fatal =>
    refine ⟨List.nodup_singleton _, fun p hp => ?_⟩
    cases List.mem_singleton.1 hp
    exact ⟨hfresh, fun a q hq => by cases hq⟩
  | quit pid => exact ⟨List.nodup_nil, fun p hp => by cases hp⟩

/-- What a step of the host is to its processes: those there go on, and others may be started. -/
theorem procs_run (hs : host.Sane) (hfresh : host.Fresh op) :
    (op.run host).procs = host.procs.map (op.on host) ++ op.launched := by
  cases op with
  | start env made pids =>
    show (start env made pids host).1.procs = host.procs.map id ++ _
    rw [start_eq, List.map_id, Op.launched]
    split
    · rfl
    · exact (List.append_nil _).symm
  | stop env seen =>
    show (stop env seen host).1.procs = host.procs.map (fun p => ite _ _ p) ++ []
    rw [List.append_nil]
    by_cases hroot : env.whoami = root
    · rw [stop_eq hs hroot hfresh]
      simp only [hroot, if_true]
    · rw [stop, if_pos hroot]
      simp [hroot]
  | input pid i => exact (List.append_nil _).symm
  | spawn pid command fatal =>
    show _ = host.procs.map id ++ _
    rw [List.map_id]
    rfl
  | quit pid => exact (List.append_nil _).symm

/-- The step lemma. -/
theorem sane_run (hs : host.Sane) (hfresh : host.Fresh op) : (op.run host).Sane := by
  have hprocs := procs_run op hs hfresh
  obtain ⟨hnew, heach⟩ := launched_fresh op hfresh
  have hold : (((host.procs.map (op.on host)).filter fun p => p.Alive).map Proc.pid).Sublist
      host.pids := by
    have hmap : ((host.procs.filter ((fun p => decide p.Alive) ∘ op.on host)).map
        (Proc.pid ∘ op.on host)) =
        (host.procs.filter ((fun p => decide p.Alive) ∘ op.on host)).map Proc.pid :=
      List.map_congr_left fun p _ => pid_on op
    have hfilter : host.procs.filter ((fun p => decide p.Alive) ∘ op.on host) =
        (host.procs.filter fun p => p.Alive).filter ((fun p => decide p.Alive) ∘ op.on host) := by
      rw [List.filter_filter]
      refine List.filter_congr fun p hp => ?_
      by_cases ha : (op.on host p).Alive
      · simp [ha, alive_of_on op ha]
      · simp [ha]
    rw [List.filter_map, List.map_map, hmap, hfilter]
    exact List.filter_sublist.map _
  constructor
  · unfold Host.pids
    rw [hprocs, List.filter_append, List.map_append]
    refine List.nodup_append'.2 ⟨hs.nodup.sublist hold,
      hnew.sublist (List.filter_sublist.map _), fun pid hmem hmem' => ?_⟩
    obtain ⟨p, hp, rfl⟩ := List.mem_map.1 hmem'
    exact (heach p (List.mem_of_mem_filter hp)).1 (hold.subset hmem)
  · intro p hp
    rw [hprocs] at hp
    rcases List.mem_append.1 hp with hp | hp
    · obtain ⟨q, hq, rfl⟩ := List.mem_map.1 hp
      exact sane_on op (hs.each q hq)
    · exact (heach p hp).2

/-- What the operation makes of the process at a place. -/
theorem getElem?_run (hs : host.Sane) (hfresh : host.Fresh op) {i : Nat}
    (hp : host.procs[i]? = some p) : (op.run host).procs[i]? = some (op.on host p) := by
  have hlt : i < (host.procs.map (op.on host)).length := by
    rw [List.length_map]
    exact (List.getElem?_eq_some_iff.1 hp).1
  rw [procs_run op hs hfresh, List.getElem?_append_left hlt, List.getElem?_map, hp]
  rfl

end

/-- **The invariant** of the host, over every run. -/
theorem sane_hostAfter {files : Files} {h : List Op} (hf : EachStep (FreshPids files) h) :
    (hostAfter files h).Sane :=
  hf.invariant (I := fun h => (hostAfter files h).Sane)
    ⟨List.nodup_nil, fun _ hp => absurd hp List.not_mem_nil⟩
    fun _ op _ hs hfresh => sane_run op hs hfresh

end Scripts
