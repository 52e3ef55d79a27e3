import DetBuilds.Loader.Main
import DetBuilds.Preload.Install

/-!
# `start.sh` and `stop.sh`

`start.sh` checks that everything has been built, then starts four loaders in the background and
installs the preload library. `stop.sh` sends a `SIGINT` to whatever `ps` and `grep` find by the name
of each of the four, in a round of its own, gives up at the first that they find nothing for, and
empties the preload file at the end. What a `SIGINT` ends is gone in the next round. A script runs as
one step; between scripts the processes go on.

The scripts are run from the directory that they are in. What the two runs of `make` produce is an
input, and so is whether `ps` is early enough to list the `grep` that it is piped to.
-/

set_option autoImplicit false

namespace Scripts

open Bpf Preload Loader History

/-! ## Names -/

def appName : App → Content
  | .modifyTime => ['m', 'o', 'd', 'i', 'f', 'y', '_', 't', 'i', 'm', 'e']
  | .preloadFilter => ['p', 'r', 'e', 'l', 'o', 'a', 'd', '_', 'f', 'i', 'l', 't', 'e', 'r']
  | .modifyFileTimestamp =>
    ['m', 'o', 'd', 'i', 'f', 'y', '_', 'f', 'i', 'l', 'e', '_', 't', 'i', 'm', 'e', 's', 't', 'a',
      'm', 'p']
  | .modifyFileName => ['m', 'o', 'd', 'i', 'f', 'y', '_', 'f', 'i', 'l', 'e', '_', 'n', 'a', 'm', 'e']
  | .modifyFileRead => ['m', 'o', 'd', 'i', 'f', 'y', '_', 'f', 'i', 'l', 'e', '_', 'r', 'e', 'a', 'd']

/-- `PRELOAD_DIR_PATH`. -/
def preloadDirPath : Content := ['.', '/', 'p', 'r', 'e', 'l', 'o', 'a', 'd', '/']

/-- `BPF_DIR_PATH`. -/
def bpfDirPath : Content := ['.', '/', 'b', 'p', 'f', '/', 's', 'r', 'c', '/']

/-- The command that starts a loader. -/
def command (a : App) : Content := bpfDirPath ++ appName a

/-! ## Processes -/

/-- A loader, or a process that is none of them: whether a `SIGINT` ends it (the default), and
whether it has been sent one that did not. -/
inductive Body where
  | loader (a : App) (p : Process)
  | other (fatal interrupted : Bool)
  | ended
  deriving DecidableEq

structure Proc where
  pid : Nat
  command : Content
  body : Body
  deriving DecidableEq

namespace Body

def Alive : Body → Prop
  | .loader _ p => ¬ p.Over
  | .other _ _ => True
  | .ended => False

instance : ∀ b : Body, Decidable b.Alive
  | .loader _ _ => inferInstanceAs (Decidable (¬ _))
  | .other _ _ => inferInstanceAs (Decidable True)
  | .ended => inferInstanceAs (Decidable False)

/-- What `kill -2` does. -/
def interrupt : Body → Body
  | .loader a p => .loader a (p.signal .int)
  | .other fatal _ => if fatal then .ended else .other fatal true
  | .ended => .ended

/-- A loader goes on, or is sent a signal. -/
def step (i : Input) : Body → Body
  | .loader a p => .loader a (p.step (handlers a) i)
  | .other fatal interrupted => .other fatal interrupted
  | .ended => .ended

/-- A process that is not a loader ends. -/
def quit : Body → Body
  | .loader a p => .loader a p
  | .other _ _ => .ended
  | .ended => .ended

end Body

namespace Proc

/-- `ps` lists it. -/
def Alive (p : Proc) : Prop := p.body.Alive

instance (p : Proc) : Decidable p.Alive := inferInstanceAs (Decidable p.body.Alive)

def interrupt (p : Proc) : Proc := { p with body := p.body.interrupt }

/-- `grep` finds the name of a program in its line. -/
def Matches (a : App) (p : Proc) : Prop := p.Alive ∧ appName a <:+: p.command

instance (a : App) (p : Proc) : Decidable (p.Matches a) := inferInstanceAs (Decidable (_ ∧ _))

end Proc

/-- The process with this pid does `f`. -/
def only (pid : Nat) (f : Body → Body) (p : Proc) : Proc :=
  if p.pid = pid then { p with body := f p.body } else p

/-- The processes are those that have been started so far, in this order. -/
structure Host where
  files : Files
  procs : List Proc

/-! ## The scripts -/

/-- Where a script ends. -/
inductive Exit where
  | notRoot
  | soMissing
  | appMissing (a : App)
  | processEmpty (a : App)
  | done
  deriving DecidableEq

def Exit.status : Exit → Nat
  | .done => 0
  | _ => 1

def Exit.message : Exit → Option Content
  | .notRoot => some ['S', 'h', 'o', 'u', 'l', 'd', ' ', 'r', 'u', 'n', ' ', 'i', 'n', ' ', 'r', 'o',
      'o', 't']
  | .soMissing => some (preloadDirPath ++ modifyTimeSo ++ notExist)
  | .appMissing a => some (command a ++ notExist)
  | .processEmpty a => some (['P', 'r', 'o', 'c', 'e', 's', 's', ' ', 'a', 'b', 'o', 'u', 't', ' '] ++
      appName a ++ [' ', 'i', 's', ' ', 'e', 'm', 'p', 't', 'y'])
  | .done => none
where
  notExist : Content := [' ', 'n', 'o', 't', ' ', 'e', 'x', 'i', 's', 't', ',', ' ', 'e', 'x', 'i', 't']

/-- A script that fails says why. -/
theorem Exit.status_eq_zero_iff (e : Exit) : e.status = 0 ↔ e.message = none := by
  cases e <;> simp [status, message]

/-- What it says names the program that is missing. -/
theorem Exit.appName_infix_message {e : Exit} {a : App}
    (he : e = .appMissing a ∨ e = .processEmpty a) : ∃ m ∈ e.message, appName a <:+: m := by
  rcases he with rfl | rfl
  · exact ⟨_, rfl, (List.suffix_append _ _).isInfix.trans (List.prefix_append _ _).isInfix⟩
  · refine ⟨_, rfl, ?_⟩
    exact (List.suffix_append _ _).isInfix.trans (List.prefix_append _ _).isInfix

/-- The environment of the script that is called at the end, from within `preload`. -/
def inPreload (env : Env) : Env :=
  { env with
    pwd := (if env.pwd = ['/'] then [] else env.pwd) ++ ['/', 'p', 'r', 'e', 'l', 'o', 'a', 'd'] }

/-- A loader in the background. -/
def launch (pids : App → Nat) (a : App) : Proc := ⟨pids a, command a, .loader a (.exec .ign)⟩

/-- `start.sh`; `made` says which files are there after both runs of `make`. -/
def start (env : Env) (made : Content → Bool) (pids : App → Nat) (host : Host) : Host × Exit :=
  if env.whoami ≠ root then (host, .notRoot)
  else if !made (preloadDirPath ++ modifyTimeSo) then (host, .soMissing)
  else
    match bpfApps.find? fun a => !made (command a) with
    | some a => (host, .appMissing a)
    | none =>
      ({ files := loadModify (inPreload env) host.files
         procs := host.procs ++ bpfApps.map (launch pids) }, .done)

/-- `ps aux | grep ${app} | awk '{print $2}'`; `seen` is the `grep` if `ps` lists it. -/
def processes (seen : Option Nat) (procs : List Proc) (a : App) : List Nat :=
  (procs.filter fun p => p.Matches a).map Proc.pid ++ seen.toList

/-- `kill -2`. -/
def kill (procs : List Proc) (pid : Nat) : List Proc := procs.map (only pid .interrupt)

/-- The loop of `stop.sh`, with the program that ends it early. -/
def stopApps (seen : App → Option Nat) : List App → List Proc → List Proc × Option App
  | [], procs => (procs, none)
  | a :: apps, procs =>
    let pids := processes (seen a) procs a
    if pids = [] then (procs, some a)
    else stopApps seen apps (pids.foldl kill procs)

/-- `stop.sh`. -/
def stop (env : Env) (seen : App → Option Nat) (host : Host) : Host × Exit :=
  if env.whoami ≠ root then (host, .notRoot)
  else
    match stopApps seen bpfApps host.procs with
    | (procs, some a) => ({ host with procs := procs }, .processEmpty a)
    | (procs, none) => ({ files := unloadModify (inPreload env) host.files, procs := procs }, .done)

/-! ## Runs -/

/-- A script is run, the process of a loader goes on or is sent a signal, another process starts or
ends. -/
inductive Op where
  | start (env : Env) (made : Content → Bool) (pids : App → Nat)
  | stop (env : Env) (seen : App → Option Nat)
  | input (pid : Nat) (i : Input)
  | spawn (pid : Nat) (command : Content) (fatal : Bool)
  | quit (pid : Nat)

def Op.run : Op → Host → Host
  | .start env made pids, host => (Scripts.start env made pids host).1
  | .stop env seen, host => (Scripts.stop env seen host).1
  | .input pid i, host => { host with procs := host.procs.map (only pid (.step i)) }
  | .spawn pid command fatal, host =>
    { host with procs := host.procs ++ [⟨pid, command, .other fatal false⟩] }
  | .quit pid, host => { host with procs := host.procs.map (only pid .quit) }

/-- The host after a run that began without processes of interest. -/
def hostAfter (files : Files) (h : List Op) : Host := after Op.run ⟨files, []⟩ h

/-- The pids of what runs. -/
def Host.pids (host : Host) : List Nat := (host.procs.filter fun p => p.Alive).map Proc.pid

/-- A new process gets a pid that no running one has. -/
def Host.Fresh (host : Host) : Op → Prop
  | .start _ _ pids => (bpfApps.map pids).Nodup ∧ ∀ a ∈ bpfApps, pids a ∉ host.pids
  | .stop _ seen => ∀ a, ∀ pid ∈ seen a, pid ∉ host.pids
  | .spawn pid _ _ => pid ∉ host.pids
  | .input _ _ => True
  | .quit _ => True

def FreshPids (files : Files) (h : List Op) (op : Op) : Prop := (hostAfter files h).Fresh op

end Scripts
