import DetBuilds.Bpf.Spec

/-!
# Compilers as clients

A deterministic thread (`Client`): its registers and its memory determine what it does up to its
next call, and the result of the call and the memory at its return what it goes on with. Everything
else about a run belongs to the host: the thread id, the other threads, when their calls fall
between its own, in which order the handlers run, and what the kernel answers. A `Build` is a run on
some host of a client that all loaded programs have room for.
-/

set_option autoImplicit false

namespace Bpf

open History

/-- A call as its thread makes it. -/
structure Request where
  comm : Comm
  mem : ByteMem
  nr : Nr
  args : Args

def Frame.request (f : Frame) : Request := ⟨f.task.comm, f.task.mem, f.nr, f.args⟩

/-- The call that thread `t` enters at an event. -/
def Event.request (t : Tid) : Event → Option Request
  | .enter task nr args => if task.tid = t then some ⟨task.comm, task.mem, nr, args⟩ else none
  | _ => none

/-- A deterministic thread, with registers in `ρ`. -/
structure Client (ρ : Type) where
  start : ρ × ByteMem
  next : ρ → ByteMem → ρ × Request
  resume : ρ → Int → ρ

section
variable {ρ : Type} {apps : List App}

/-- What an event of its thread that leaves memory `m` makes of a client. -/
def Client.step (c : Client ρ) (m : ByteMem) (s : ρ × ByteMem) : Event → ρ × ByteMem
  | .enter task _ _ => ((c.next s.1 s.2).1, task.mem)
  | .exit _ _ ret => (c.resume s.1 ret, m)
  | .spawn _ => s
  | .die _ => s

/-- The registers and the memory of a client in thread `t`, after a run that began after `before`.
What a call has left of its memory is what the handlers have left. -/
def Client.state (c : Client ρ) (t : Tid) (before : List (SystemEvent apps)) :
    List (SystemEvent apps) → ρ × ByteMem
  | [] => c.start
  | e :: h =>
    if e.event.tid = t then c.step (systemMem (h ++ before) e) (c.state t before h) e.event
    else c.state t before h

/-- The calls that thread `t` enters are those of the client. -/
def Client.Follows (c : Client ρ) (t : Tid) (before h : List (SystemEvent apps))
    (e : SystemEvent apps) : Prop :=
  ∀ r, e.event.request t = some r →
    r = (c.next (c.state t before h).1 (c.state t before h).2).2

/-- A run of a client in a thread of some host. -/
structure Build (c : Client ρ) (apps : List App) where
  tid : Tid
  before : List (SystemEvent apps)
  events : List (SystemEvent apps)
  alternating : Alternating (systemEvents (events ++ before))
  room : ∀ a ∈ apps, a.Room (systemEvents (events ++ before))
  follows : EachStep (c.Follows tid before) events

namespace Build

variable {c : Client ρ} (b : Build c apps)

/-- The client after the first events `k` of the build. -/
def state (k : List (SystemEvent apps)) : ρ × ByteMem := c.state b.tid b.before k

/-- What it has asked for so far. -/
def requests (k : List (SystemEvent apps)) : List Request :=
  k.filterMap fun e => e.event.request b.tid

/-- How many of the events are its own. -/
def steps (k : List (SystemEvent apps)) : Nat := k.countP fun e => ¬ Spares b.tid e.event

/-- What the programs have to know of its thread. -/
def thread (k : List (SystemEvent apps)) : ThreadState :=
  threads (systemEvents (k ++ b.before)) b.tid

end Build

/-- Two thread states that differ in nothing but the thread id. -/
structure ThreadState.Alike (u v : ThreadState) : Prop where
  call : u.call.map Frame.request = v.call.map Frame.request
  zone : u.zone = v.zone
  preload : u.preload = v.preload

/-- The bytes that a program replaces when the call of a thread in state `u` returns with memory
`m`, whatever they are. -/
def Hidden (apps : List App) (u : ThreadState) (m : ByteMem) (x : Addr) : Prop :=
  ∃ f, u.call = some f ∧ ∃ a ∈ apps, ∃ w, (∀ m', a.rewrite u f m' = some w) ∧
    InRange x w.addr (m.landed w.addr w.bytes.length)

/-- The same answer, but for what is hidden. -/
def AnswersAlike (apps : List App) (u : ThreadState) : Event → Event → Prop
  | .exit task₁ _ ret₁, .exit task₂ _ ret₂ =>
    ret₁ = ret₂ ∧ ByteMem.AgreeOff (Hidden apps u task₁.mem) task₁.mem task₂.mem
  | _, _ => True

/-- Asked the same so far, the two hosts answer alike. -/
def SameAnswers {c : Client ρ} (b₁ b₂ : Build c apps) : Prop :=
  ∀ e₁ k₁ e₂ k₂, e₁ :: k₁ <:+ b₁.events → e₂ :: k₂ <:+ b₂.events →
    e₁.event.tid = b₁.tid → e₂.event.tid = b₂.tid → b₁.requests k₁ = b₂.requests k₂ →
    AnswersAlike apps (b₁.thread k₁) e₁.event e₂.event

end

end Bpf
