import DetBuilds.Loader.Live
import DetBuilds.Bpf.Client
import DetBuilds.Bpf.Proof.Isolation

/-!
# Compilers under the loaders

A client in a thread of a host on which the loaders have been started, have ended and have been
started again, in whatever way. It begins when all programs are attached, in a thread id under which
nothing is left in their maps, and they stay attached while it runs (`LiveBuild`).
-/

set_option autoImplicit false

namespace Loader

open Bpf History

section
variable {ρ : Type} {apps : List App}

/-- The registers and the memory of a client in thread `t`, after a run that began after `before`. -/
def clientState (c : Client ρ) (t : Tid) (before : List (LiveEvent apps)) :
    List (LiveEvent apps) → ρ × ByteMem
  | [] => c.start
  | .event e :: h =>
    if e.event.tid = t then c.step (liveMem (h ++ before) e) (clientState c t before h) e.event
    else clientState c t before h
  | .exec _ _ :: h => clientState c t before h
  | .process _ _ :: h => clientState c t before h

/-- What thread `t` does. -/
def LiveEvent.own (t : Tid) (x : LiveEvent apps) : Option (SystemEvent apps) :=
  x.system.filter fun e => e.event.tid = t

def ownEvents (t : Tid) (h : List (LiveEvent apps)) : List (SystemEvent apps) :=
  h.filterMap (LiveEvent.own t)

/-- The calls that thread `t` enters are those of the client. -/
def Follows (c : Client ρ) (t : Tid) (before h : List (LiveEvent apps)) (x : LiveEvent apps) : Prop :=
  ∀ e, x.own t = some e → ∀ r, e.event.request t = some r →
    r = (c.next (clientState c t before h).1 (clientState c t before h).2).2

/-- A run of a client in a thread of a host while the loaders serve. -/
structure LiveBuild (c : Client ρ) (apps : List App) where
  tid : Tid
  before : List (LiveEvent apps)
  events : List (LiveEvent apps)
  serves : EachState (fun k => Serves apps tid (liveRun (k ++ before))) events
  fresh : ∀ a ∈ apps, a.program.entries (liveRun before a).maps tid =
    a.program.entries a.program.empty tid
  alternating : Alternating (Program.alone tid (threadEvents events))
  follows : EachStep (Follows c tid before) events

namespace LiveBuild

variable {c : Client ρ} (b : LiveBuild c apps)

/-- The client after the first events `k` of the build. -/
def state (k : List (LiveEvent apps)) : ρ × ByteMem := clientState c b.tid b.before k

/-- What it has asked for so far. -/
def requests (k : List (LiveEvent apps)) : List Request :=
  (ownEvents b.tid k).filterMap fun e => e.event.request b.tid

/-- How many of the events are its own. -/
def steps (k : List (LiveEvent apps)) : Nat :=
  (ownEvents b.tid k).countP fun e => ¬ Spares b.tid e.event

/-- What the programs have to know of its thread. -/
def thread (k : List (LiveEvent apps)) : ThreadState := threads (threadEvents k) b.tid

end LiveBuild

/-- Asked the same so far, the two hosts answer alike. -/
def SameLiveAnswers {c : Client ρ} (b₁ b₂ : LiveBuild c apps) : Prop :=
  ∀ e₁ k₁ e₂ k₂, .event e₁ :: k₁ <:+ b₁.events → .event e₂ :: k₂ <:+ b₂.events →
    e₁.event.tid = b₁.tid → e₂.event.tid = b₂.tid → b₁.requests k₁ = b₂.requests k₂ →
    AnswersAlike apps (b₁.thread k₁) e₁.event e₂.event

end

end Loader
