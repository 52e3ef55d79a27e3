import DetBuilds.Bpf.Threads

/-!
# A program while it is being attached

Attaching a program makes its handlers active one at a time, in source order, while the threads go
on making calls. A run from before the first attachment mixes `attach` steps with events, and an
event is handled by the handlers that are active by then.
-/

set_option autoImplicit false

namespace Bpf

open History

/-- The next handler becomes active, or a thread does something. -/
inductive AttachEvent where
  | attach
  | event (e : Event)

/-- How many handlers are active. -/
def attached : List AttachEvent → Nat
  | [] => 0
  | .attach :: h => attached h + 1
  | .event _ :: h => attached h

def AttachEvent.event? : AttachEvent → Option Event
  | .attach => none
  | .event e => some e

/-- What the threads do in a run. -/
def events (h : List AttachEvent) : List Event := h.filterMap AttachEvent.event?

/-- How many handlers were active when the thread entered the call it is in. -/
def enteredWith : List AttachEvent → Tid → Nat
  | [], _ => 0
  | .attach :: h, t => enteredWith h t
  | .event (.enter task _ _) :: h, t => if task.tid = t then attached h else enteredWith h t
  | .event (.exit _ _ _) :: h, t => enteredWith h t
  | .event (.spawn _) :: h, t => enteredWith h t
  | .event (.die _) :: h, t => enteredWith h t

namespace Program

variable {σ α : Type} (p : Program σ α)

/-- What the active handlers do at an event. -/
def attachStep (h : List AttachEvent) (e : Event) (s : σ) : Effect σ :=
  dispatch (p.handlers.take (attached h)) e s

/-- The maps after a run, from empty maps before the first attachment. -/
def attachRun : List AttachEvent → σ
  | [] => p.empty
  | .attach :: h => attachRun h
  | .event e :: h => (p.attachStep h e (attachRun h)).1

/-- The write made at an event. -/
def attachWrite (h : List AttachEvent) (e : Event) : Option UserWrite :=
  (p.attachStep h e (p.attachRun h)).2

end Program

@[simp] theorem events_event (e : Event) (h : List AttachEvent) :
    events (.event e :: h) = e :: events h := rfl

/-- What the threads do up to each step of a run alternates enter and exit. -/
theorem alternating_each {h : List AttachEvent} (ha : Alternating (events h)) :
    EachStep (fun k x => Alternating (events (x :: k))) h :=
  eachStep_iff.2 fun _ _ hs => ha.suffix (hs.filterMap _)

theorem enteredWith_le (h : List AttachEvent) (t : Tid) : enteredWith h t ≤ attached h := by
  induction h with
  | nil => exact Nat.le_refl 0
  | cons x h ih =>
    cases x with
    | attach => exact Nat.le_succ_of_le ih
    | event e =>
      cases e with
      | enter task nr args =>
        show (if task.tid = t then attached h else enteredWith h t) ≤ attached h
        split
        · exact Nat.le_refl _
        · exact ih
      | exit task nr ret => exact ih
      | spawn u => exact ih
      | die u => exact ih

end Bpf
