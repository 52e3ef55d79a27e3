import DetBuilds.Bpf.System

/-!
# The loaders

The `main` of the five loaders is the same but for the skeleton it opens. A process is at one of the
calls of `main` (`Pc`) and goes on with what the call answers: an error number, or a pointer that is
0 for `NULL`. Signals come in between, at any time. Inside `X_bpf__attach` and `X_bpf__destroy` the
library attaches and detaches the handlers one at a time.

What `argp_parse` does with the arguments is part of its answer, and what is printed is left out.
-/

set_option autoImplicit false

namespace Loader

open History

inductive Sig where
  | int
  | term
  | kill
  deriving DecidableEq, Repr

/-- What a signal does to a process. A shell starts a process in the background with `SIGINT`
ignored. -/
inductive Disposition where
  | dfl
  | ign
  | sigHandler
  deriving DecidableEq, Repr

/-- Where `main` is: the call it makes next, or how it has ended. -/
inductive Pc where
  | argpParse
  | signalInt
  | signalTerm
  | openSkel
  | loadSkel
  | attachSkel
  | ringBufferNew
  | whileNotExiting
  | ringBufferPoll
  | ringBufferFree
  | destroySkel
  | exited (status : Int)
  | killed (sig : Sig)
  deriving DecidableEq, Repr

structure Process where
  pc : Pc
  err : Int
  exiting : Bool
  rb : Bool
  onInt : Disposition
  onTerm : Disposition
  attached : Nat
  detached : Nat
  deriving DecidableEq, Repr

/-- A signal arrives, or the call at hand answers. -/
inductive Input where
  | signal (sig : Sig)
  | answer (r : Int)
  deriving DecidableEq, Repr

def EINTR : Int := 4

namespace Process

/-- A process that has been started with this disposition of `SIGINT`. -/
def exec (onInt : Disposition) : Process where
  pc := .argpParse
  err := 0
  exiting := false
  rb := false
  onInt := onInt
  onTerm := .dfl
  attached := 0
  detached := 0

def disposition (p : Process) : Sig → Disposition
  | .int => p.onInt
  | .term => p.onTerm
  | .kill => .dfl

/-- `main` has ended. -/
def Over (p : Process) : Prop :=
  match p.pc with
  | .exited _ => True
  | .killed _ => True
  | _ => False

instance (p : Process) : Decidable p.Over := by
  unfold Over
  split <;> infer_instance

def signal (sig : Sig) (p : Process) : Process :=
  if p.Over then p
  else
    match p.disposition sig with
    | .dfl => { p with pc := .killed sig }
    | .ign => p
    | .sigHandler => { p with exiting := true }

/-- A signal is lost, kills the process, or sets `exiting`. -/
theorem signal_cases (sig : Sig) (p : Process) :
    (p.Over ∨ p.disposition sig = .ign) ∧ p.signal sig = p ∨
    (¬ p.Over ∧ p.disposition sig = .dfl) ∧ p.signal sig = { p with pc := .killed sig } ∨
    (¬ p.Over ∧ p.disposition sig = .sigHandler) ∧ p.signal sig = { p with exiting := true } := by
  unfold signal
  by_cases ho : p.Over
  · exact .inl ⟨.inl ho, if_pos ho⟩
  · rw [if_neg ho]
    cases p.disposition sig with
    | dfl => exact .inr (.inl ⟨⟨ho, rfl⟩, rfl⟩)
    | ign => exact .inl ⟨.inr rfl, rfl⟩
    | sigHandler => exact .inr (.inr ⟨⟨ho, rfl⟩, rfl⟩)

/-- `main` of a loader for `k` handlers, from one call to the next. -/
def main (k : Nat) (r : Int) (p : Process) : Process :=
  match p.pc with
  | .argpParse => { p with err := r, pc := if r ≠ 0 then .exited r else .signalInt }
  | .signalInt => { p with onInt := .sigHandler, pc := .signalTerm }
  | .signalTerm => { p with onTerm := .sigHandler, pc := .openSkel }
  | .openSkel => { p with pc := if r = 0 then .exited 1 else .loadSkel }
  | .loadSkel => { p with err := r, pc := if r ≠ 0 then .ringBufferFree else .attachSkel }
  | .attachSkel =>
    if p.attached < k then
      if r ≠ 0 then { p with err := r, pc := .ringBufferFree }
      else { p with attached := p.attached + 1 }
    else { p with err := 0, pc := .ringBufferNew }
  | .ringBufferNew =>
    if r = 0 then { p with err := -1, pc := .ringBufferFree }
    else { p with rb := true, pc := .whileNotExiting }
  | .whileNotExiting => { p with pc := if p.exiting then .ringBufferFree else .ringBufferPoll }
  | .ringBufferPoll =>
    if r = -EINTR then { p with err := 0, pc := .ringBufferFree }
    else { p with err := r, pc := if r < 0 then .ringBufferFree else .whileNotExiting }
  | .ringBufferFree => { p with rb := false, pc := .destroySkel }
  | .destroySkel =>
    if p.detached < p.attached then { p with detached := p.detached + 1 }
    else { p with pc := .exited (if p.err < 0 then -p.err else 0) }
  | .exited _ => p
  | .killed _ => p

def step (k : Nat) : Input → Process → Process
  | .signal sig, p => p.signal sig
  | .answer r, p => p.main k r

/-- The process after what has happened since it was started. -/
def run (k : Nat) (onInt : Disposition) (h : List Input) : Process := after (step k) (exec onInt) h

end Process

/-- How many handlers a loader attaches. -/
def handlers (a : Bpf.App) : Nat := a.program.handlers.length

end Loader
