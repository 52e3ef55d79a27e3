import DetBuilds.Lib.BoundedMap
import DetBuilds.Lib.ByteMem
import DetBuilds.Lib.Keyed

/-!
# What the kernel offers a tracing program

The five programs are sets of handlers attached to `sys_enter`/`sys_exit` tracepoints. A handler
sees the task it runs in (`Task`: thread id, comm and user memory), the arguments or the return
value of the call, and its program's hash maps; it leaves new maps and at most one
`bpf_probe_write_user`. A `Program` is the list of its handlers in source order, and `step` lets
the handler of the event's tracepoint act. The handlers of one event run as one step: a
tracepoint handler is not preempted by another event of its thread, and an entry it has looked
up keeps its value until the handler returns.

What only feeds `bpf_printk` (the reads of the old values and their texts) is left out: it
reaches neither a map nor user memory.
-/

set_option autoImplicit false

namespace Bpf

open History

/-- A thread id, the low half of `bpf_get_current_pid_tgid()` that `tid_t` keeps. -/
abbrev Tid := Nat

/-- The name of a task, as `bpf_get_current_comm` fills it in. -/
abbrev Comm := Vector Byte 16

/-- The `args` of `struct trace_event_raw_sys_enter`. -/
structure Args where
  arg0 : BitVec 64
  arg1 : BitVec 64
  arg2 : BitVec 64
  arg3 : BitVec 64
  arg4 : BitVec 64
  arg5 : BitVec 64

/-- The system calls with attached handlers. -/
inductive Nr where
  | gettimeofday
  | clockGettime
  | openat
  | newfstatat
  | read
  deriving DecidableEq, Repr

/-- The task an event happens in, with its user memory at that moment: after what the kernel
stored for the call, before what a handler writes. -/
structure Task where
  tid : Tid
  comm : Comm
  mem : ByteMem

/-- A thread enters or leaves a system call, is born or dies. -/
inductive Event where
  | enter (task : Task) (nr : Nr) (args : Args)
  | exit (task : Task) (nr : Nr) (ret : Int)
  | spawn (tid : Tid)
  | die (tid : Tid)

def Event.tid : Event → Tid
  | .enter task _ _ => task.tid
  | .exit task _ _ => task.tid
  | .spawn t => t
  | .die t => t

/-- The user memory at an event; the birth and the death of a thread have none. -/
def Event.mem : Event → ByteMem
  | .enter task _ _ => task.mem
  | .exit task _ _ => task.mem
  | .spawn _ => { byte := fun _ => 0, readable := fun _ => false, writable := fun _ => false }
  | .die _ => { byte := fun _ => 0, readable := fun _ => false, writable := fun _ => false }

/-- The same event, with other contents of user memory. -/
def Event.withMem (m : ByteMem) : Event → Event
  | .enter task nr args => .enter { task with mem := m } nr args
  | .exit task nr ret => .exit { task with mem := m } nr ret
  | .spawn t => .spawn t
  | .die t => .die t

/-! ## Helpers -/

/-- The bytes of a text. -/
def ascii (s : List Char) : List Byte := s.map fun c => BitVec.ofNat 8 c.toNat

/-- The eight bytes of a 64-bit word in memory. -/
def le64 (x : BitVec 64) : List Byte := (List.range 8).map fun i => x.extractLsb' (8 * i) 8

/-- The difference at the first of `n` bytes that differs; reading past an end counts as one. -/
def memcmp : List Byte → List Byte → Nat → Int
  | _, _, 0 => 0
  | a :: as, b :: bs, n + 1 => if a = b then memcmp as bs n else (a.toNat : Int) - b.toNat
  | _, _, _ + 1 => 1

/-- A copy of `n` user bytes: if one of them cannot be read, the buffer is zeroed. -/
def bpfProbeReadUser (m : ByteMem) (a : Addr) (n : Nat) : List Byte :=
  if m.readableFor a n then m.load a n else List.replicate n 0

/-- A `bpf_probe_write_user` of some bytes. -/
structure UserWrite where
  addr : Addr
  bytes : List Byte
  deriving DecidableEq

def UserWrite.apply (w : UserWrite) (m : ByteMem) : ByteMem := m.store w.addr w.bytes

/-- User memory after the write a handler made, if it made one. -/
def applyWrite : Option UserWrite → ByteMem → ByteMem
  | none, m => m
  | some w, m => w.apply m

theorem memcmp_eq_zero : ∀ {n : Nat} {a b : List Byte}, n ≤ a.length → n ≤ b.length →
    (memcmp a b n = 0 ↔ a.take n = b.take n)
  | 0, _, _, _, _ => by simp [memcmp]
  | n + 1, [], _, ha, _ => by simp at ha
  | n + 1, _ :: _, [], _, hb => by simp at hb
  | n + 1, a :: as, b :: bs, ha, hb => by
    have ih := memcmp_eq_zero (n := n) (a := as) (b := bs) (by simpa using ha) (by simpa using hb)
    by_cases hab : a = b
    · simp [memcmp, hab, ih]
    · have hne : a.toNat ≠ b.toNat := fun h => hab (BitVec.eq_of_toNat_eq h)
      simp only [memcmp, hab, if_false, List.take_succ_cons, List.cons.injEq, false_and, iff_false]
      omega

@[simp] theorem length_le64 (x : BitVec 64) : (le64 x).length = 8 := by simp [le64]

@[simp] theorem length_bpfProbeReadUser (m : ByteMem) (a : Addr) (n : Nat) :
    (bpfProbeReadUser m a n).length = n := by
  unfold bpfProbeReadUser
  split <;> simp

/-! ## Hash maps -/

/-- The `max_entries` of every hash map. -/
abbrev maxEntries : Nat := 8192

/-- A `BPF_MAP_TYPE_HASH` with thread ids for keys. -/
abbrev TidMap (ν : Type) := BoundedMap Tid ν maxEntries

/-- What can be said of a hash map without its values: its keys, and for which of them an update
would not fail for lack of room. -/
structure MapView where
  keys : Finset Tid
  admits : Tid → Prop

def mapView {ν : Type} (m : TidMap ν) : MapView :=
  ⟨m.keys, fun t => ∀ v flag, m.tryUpdate t v flag ≠ .error .full⟩

/-- The key is there already, or a new one still fits. -/
def MapView.Room (v : MapView) (t : Tid) : Prop := t ∈ v.keys ∨ v.keys.card < maxEntries

theorem mapView_room {ν : Type} {m : TidMap ν} {t : Tid} : (mapView m).Room t ↔ m.HasRoom t := by
  simp only [MapView.Room, mapView, BoundedMap.mem_keys, BoundedMap.card_keys, BoundedMap.HasRoom]

theorem mapView_keys {ν : Type} {m : TidMap ν} {t : Tid} :
    t ∉ (mapView m).keys ↔ m.lookup t = none := by
  rw [mapView, BoundedMap.mem_keys, Bool.not_eq_true, Option.isSome_eq_false_iff,
    Option.isNone_iff_eq_none]

theorem mapView_admits {ν : Type} {m : TidMap ν} {t : Tid} (h : (mapView m).Room t) :
    (mapView m).admits t := fun v flag => BoundedMap.tryUpdate_ne_full v flag (mapView_room.1 h)

/-! ## Programs -/

/-- The new maps and the write to user memory, if any. -/
abbrev Effect (σ : Type) := σ × Option UserWrite

/-- A handler with the tracepoint its section names. -/
inductive Handler (σ : Type) where
  | sysEnter (nr : Nr) (body : Task → Args → σ → Effect σ)
  | sysExit (nr : Nr) (body : Task → Int → σ → Effect σ)

/-- What the handler does at an event of its tracepoint. -/
def Handler.fire {σ : Type} : Handler σ → Event → σ → Option (Effect σ)
  | .sysEnter nr body, .enter task nr' args, s => if nr' = nr then some (body task args s) else none
  | .sysExit nr body, .exit task nr' ret, s => if nr' = nr then some (body task ret s) else none
  | _, _, _ => none

/-- The handler of the event's tracepoint acts; without one, nothing happens. -/
def dispatch {σ : Type} : List (Handler σ) → Event → σ → Effect σ
  | [], _, s => (s, none)
  | hd :: hds, e, s => (hd.fire e s).getD (dispatch hds e s)

/-- A program: its maps at load time, its handlers in source order, the views of its maps, and
the entries of one thread in all of them. -/
structure Program (σ α : Type) where
  empty : σ
  handlers : List (Handler σ)
  views : σ → List MapView
  entries : σ → Tid → α

namespace Program

variable {σ α : Type} (p : Program σ α)

def step (e : Event) (s : σ) : Effect σ := dispatch p.handlers e s

/-- No handler is attached to the birth or the death of a thread. -/
theorem dispatch_spawn {σ : Type} (hds : List (Handler σ)) (t : Tid) (s : σ) :
    dispatch hds (.spawn t) s = (s, none) := by
  induction hds with
  | nil => rfl
  | cons hd hds ih => cases hd <;> exact ih

theorem dispatch_die {σ : Type} (hds : List (Handler σ)) (t : Tid) (s : σ) :
    dispatch hds (.die t) s = (s, none) := by
  induction hds with
  | nil => rfl
  | cons hd hds ih => cases hd <;> exact ih

@[simp] theorem step_spawn (t : Tid) (s : σ) : p.step (.spawn t) s = (s, none) :=
  dispatch_spawn p.handlers t s

@[simp] theorem step_die (t : Tid) (s : σ) : p.step (.die t) s = (s, none) :=
  dispatch_die p.handlers t s

/-- The maps after a run, from empty maps. -/
def run (h : List Event) : σ := after (fun e s => (p.step e s).1) p.empty h

/-- The write made at an event. -/
def write (h : List Event) (e : Event) : Option UserWrite := (p.step e (p.run h)).2

/-- User memory after an event. -/
def memAfter (h : List Event) (e : Event) : ByteMem := applyWrite (p.write h e) e.mem

/-- A byte that an event changes lies in the range of its write. -/
theorem write_of_changed {h : List Event} {e : Event} {x : Addr}
    (hx : (p.memAfter h e).byte x ≠ e.mem.byte x) :
    ∃ w, p.write h e = some w ∧ InRange x w.addr w.bytes.length := by
  cases hw : p.write h e with
  | none => unfold memAfter at hx; rw [hw] at hx; exact absurd rfl hx
  | some w =>
    refine ⟨w, rfl, ?_⟩
    by_contra hout
    unfold memAfter at hx
    rw [hw] at hx
    exact hx (ByteMem.store_frame hout)

theorem memAfter_of_write_none {h : List Event} {e : Event} (hw : p.write h e = none) :
    p.memAfter h e = e.mem := congrArg (applyWrite · e.mem) hw

/-- What is written is in memory afterwards, where the bytes can be written. -/
theorem replaced_of_write {h : List Event} {e : Event} {w : UserWrite} {n : Nat}
    (hw : p.write h e = some w) (hlen : w.bytes.length = n) (hn : n ≤ 2 ^ 64)
    (hm : e.mem.writableFor w.addr n = true) :
    e.mem.Replaced (p.memAfter h e) w.addr w.bytes := by
  have hmem : p.memAfter h e = e.mem.store w.addr w.bytes := congrArg (applyWrite · e.mem) hw
  rw [hmem]
  exact ByteMem.replaced_store hlen hn hm

@[simp] theorem run_nil : p.run [] = p.empty := rfl

@[simp] theorem run_cons (e : Event) (h : List Event) : p.run (e :: h) = (p.step e (p.run h)).1 :=
  rfl

/-- No map ever holds `max_entries` keys. -/
def NeverFull (h : List Event) : Prop :=
  EachState (fun h => ∀ v ∈ p.views (p.run h), v.keys.card < maxEntries) h

/-- The program with its threads for keys. -/
def keyed : KeyedMachine Event Tid σ α (Option UserWrite) where
  key := Event.tid
  step := p.step
  view := p.entries
  room s t := ∀ v ∈ p.views s, v.Room t

end Program

end Bpf
