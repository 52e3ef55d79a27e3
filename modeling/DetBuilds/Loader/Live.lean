import DetBuilds.Loader.Life

/-!
# The programs under their loaders

`Bpf.system` with its loaders: each of the programs is in a life of its own, in which its loader is
started, attaches the handlers one at a time, and ends, while threads make their calls. An event of a
thread is handled by whatever is attached then, one program after the other, and each sees the user
memory that those before it have left.
-/

set_option autoImplicit false

namespace Bpf

instance (v : MapView) (t : Tid) : Decidable (v.Room t) := inferInstanceAs (Decidable (_ ∨ _))

end Bpf

namespace Loader

open Bpf History

namespace LifeEvent

def mem : LifeEvent → ByteMem
  | .event e => e.mem
  | .exec _ => (Event.spawn 0).mem
  | .process _ => (Event.spawn 0).mem

/-- The same event, with other contents of user memory. -/
def withMem (m : ByteMem) : LifeEvent → LifeEvent
  | .event e => .event (e.withMem m)
  | .exec onInt => .exec onInt
  | .process i => .process i

end LifeEvent

def Life.write {σ α : Type} (prog : Program σ α) : LifeEvent → Life σ → Option UserWrite
  | .event e, s => (s.handle prog e).2
  | .exec _, _ => none
  | .process _, _ => none

/-- The programs under their loaders as machines on user memory. -/
def live : SideBySide App LifeEvent ByteMem (Option UserWrite) where
  State a := Life a.Maps
  start a := ⟨none, a.program.empty⟩
  step a x m s := (Life.step a.program (x.withMem m) s, Life.write a.program (x.withMem m) s)
  edit := applyWrite
  mem := LifeEvent.mem

/-- The loader of a program is started or goes on, or a thread does something. -/
inductive LiveEvent (apps : List App) where
  | exec (a : App) (onInt : Disposition)
  | process (a : App) (i : Input)
  | event (e : SystemEvent apps)

section
variable {apps : List App}

/-- What it is to the programs that it concerns. -/
def LiveEvent.acts : LiveEvent apps → LifeEvent × List App
  | .exec a onInt => (.exec onInt, [a])
  | .process a i => (.process i, [a])
  | .event e => (.event e.event, e.order)

/-- The programs and their loaders after a run. -/
def liveRun (h : List (LiveEvent apps)) : ∀ a : App, Life a.Maps := live.run (h.map LiveEvent.acts)

/-- User memory after an event of a thread. -/
def liveMem (h : List (LiveEvent apps)) (e : SystemEvent apps) : ByteMem :=
  (live.actAll e.order (.event e.event) (liveRun h)).2

/-- What one program goes through. -/
def lifeOf (a : App) (h : List (LiveEvent apps)) : List LifeEvent :=
  ((h.map LiveEvent.acts).filter fun x => a ∈ x.2).map Prod.fst

/-- What a thread does. -/
def LiveEvent.system : LiveEvent apps → Option (SystemEvent apps)
  | .event e => some e
  | .exec _ _ => none
  | .process _ _ => none

/-- What the threads do. -/
def threadEvents (h : List (LiveEvent apps)) : List Event :=
  systemEvents (h.filterMap LiveEvent.system)

end

/-- All handlers are attached. -/
def Life.Attached {σ α : Type} (prog : Program σ α) (s : Life σ) : Prop :=
  ∃ p ∈ s.process, ¬ p.Over ∧ p.attached = prog.handlers.length ∧ p.detached = 0

instance {σ α : Type} (prog : Program σ α) (s : Life σ) : Decidable (s.Attached prog) :=
  inferInstanceAs (Decidable (∃ p ∈ s.process, _))

instance {σ α : Type} (prog : Program σ α) (s : σ) (t : Tid) : Decidable (prog.keyed.room s t) :=
  inferInstanceAs (Decidable (∀ v ∈ prog.views s, v.Room t))

/-- All the programs are attached, with room in their maps for a thread. -/
def Serves (apps : List App) (t : Tid) (s : ∀ a : App, Life a.Maps) : Prop :=
  ∀ a ∈ apps, (s a).Attached a.program ∧ a.program.keyed.room (s a).maps t

instance (apps : List App) (t : Tid) (s : ∀ a : App, Life a.Maps) : Decidable (Serves apps t s) :=
  inferInstanceAs (Decidable (∀ a ∈ apps, _ ∧ _))

end Loader
