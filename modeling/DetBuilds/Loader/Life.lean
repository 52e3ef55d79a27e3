import DetBuilds.Loader.Main

/-!
# A program under its loader

While a loader runs, threads make calls. The kernel makes a program's maps when they are loaded, and
hands an event to the handlers that are attached by then and not yet detached; when the process is
gone, so are its links. A run may see the loader started and ended many times over.
-/

set_option autoImplicit false

namespace Bpf

inductive Tracepoint where
  | sysEnter (nr : Nr)
  | sysExit (nr : Nr)
  deriving DecidableEq, Repr

def Handler.tracepoint {σ : Type} : Handler σ → Tracepoint
  | .sysEnter nr _ => .sysEnter nr
  | .sysExit nr _ => .sysExit nr

/-- The tracepoint that an event passes, if any. -/
def Event.tracepoint : Event → Option Tracepoint
  | .enter _ nr _ => some (.sysEnter nr)
  | .exit _ nr _ => some (.sysExit nr)
  | .spawn _ => none
  | .die _ => none

/-- One of the handlers is attached to the tracepoint of the event. -/
def Handled {σ : Type} (hs : List (Handler σ)) (e : Event) : Prop :=
  ∃ t ∈ hs.map Handler.tracepoint, e.tracepoint = some t

instance {σ : Type} (hs : List (Handler σ)) (e : Event) : Decidable (Handled hs e) :=
  inferInstanceAs (Decidable (∃ t ∈ hs.map Handler.tracepoint, e.tracepoint = some t))

end Bpf

namespace Loader

open Bpf History

/-- The loader is started, its process goes on, or a thread does something. -/
inductive LifeEvent where
  | exec (onInt : Disposition)
  | process (i : Input)
  | event (e : Event)

/-- The latest process of the loader, if it was ever started, and the maps made last. -/
structure Life (σ : Type) where
  process : Option Process
  maps : σ

/-- The handlers attached to their tracepoints. -/
def Process.active {σ : Type} (p : Process) (handlers : List (Handler σ)) : List (Handler σ) :=
  if p.Over then [] else (handlers.take p.attached).drop p.detached

namespace Life

variable {σ α : Type} (prog : Program σ α)

def active (s : Life σ) : List (Handler σ) := s.process.elim [] (·.active prog.handlers)

/-- No process is running. -/
def Idle (s : Life σ) : Prop := ∀ p ∈ s.process, p.Over

instance (s : Life σ) : Decidable s.Idle := inferInstanceAs (Decidable (∀ p ∈ s.process, p.Over))

/-- The process makes its maps. -/
def Loads (i : Input) (s : Life σ) : Prop :=
  ∃ p ∈ s.process, p.pc = .loadSkel ∧ i = .answer 0

instance (i : Input) (s : Life σ) : Decidable (s.Loads i) :=
  inferInstanceAs (Decidable (∃ p ∈ s.process, p.pc = .loadSkel ∧ i = .answer 0))

/-- What the attached handlers do at an event. -/
def handle (e : Event) (s : Life σ) : Effect σ := dispatch (s.active prog) e s.maps

def step : LifeEvent → Life σ → Life σ
  | .exec onInt, s => { s with process := if s.Idle then some (.exec onInt) else s.process }
  | .process i, s =>
    { process := s.process.map (·.step prog.handlers.length i)
      maps := if s.Loads i then prog.empty else s.maps }
  | .event e, s => { s with maps := (s.handle prog e).1 }

end Life

section
variable {σ α : Type} (prog : Program σ α)

/-- A program and its loader after a run, from before the loader was ever started. -/
def life (h : List LifeEvent) : Life σ := after (Life.step prog) ⟨none, prog.empty⟩ h

/-- The write made at an event. -/
def lifeWrite (h : List LifeEvent) (e : Event) : Option UserWrite := ((life prog h).handle prog e).2

/-- The events that found their handler attached, of those since the maps were made. -/
def handled : List LifeEvent → List Event
  | [] => []
  | .exec _ :: h => handled h
  | .process i :: h => if (life prog h).Loads i then [] else handled h
  | .event e :: h =>
    if Handled ((life prog h).active prog) e then e :: handled h else handled h

end

end Loader
