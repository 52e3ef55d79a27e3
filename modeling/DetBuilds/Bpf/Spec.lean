import DetBuilds.Bpf.System
import DetBuilds.Bpf.Threads

/-!
# What the programs are for

The programs without their maps: a thread is in a call or in none, and it may be waiting for the
size and the content of the zone file, or for the size of the preload file (`ThreadState`). Its own
events alone decide this, there is no limit to the number of threads, and when a call returns, each
program that is loaded makes one rewrite at most, which the state and the call determine
(`App.rewrite`).
-/

set_option autoImplicit false

namespace Bpf

open History

/-- What the programs have to know of a thread. -/
structure ThreadState where
  call : Option Frame
  zone : Bool
  preload : Bool

namespace ThreadState

/-- A thread that has done nothing. -/
def start : ThreadState := ⟨none, false, false⟩

/-- What an event of its own makes of a thread. -/
def step (u : ThreadState) : Event → ThreadState
  | .enter task nr args =>
    { call := some ⟨task, nr, args⟩
      zone := if ModifyFileRead.Marks task nr args then true else u.zone
      preload := if PreloadFilter.Marks task nr args then true else u.preload }
  | .exit task nr _ =>
    { call := none
      zone := if nr = .read ∧ commFilter task.comm = true then false else u.zone
      preload := if nr = .newfstatat ∧ commFilter task.comm = false then false else u.preload }
  | .spawn _ => u
  | .die _ => u

end ThreadState

/-- An event concerns its own thread. -/
def threadStep (e : Event) (u : Tid → ThreadState) : Tid → ThreadState :=
  Function.update u e.tid ((u e.tid).step e)

/-- The threads after a run. -/
def threads (h : List Event) : Tid → ThreadState := after threadStep (fun _ => .start) h

namespace App

/-- What a program writes when call `f` of a thread in state `u` returns with memory `m`. -/
def rewrite (u : ThreadState) (f : Frame) (m : ByteMem) : App → Option UserWrite
  | .modifyTime =>
    if f.nr ∈ ModifyTime.calls ∧ commFilter f.task.comm = true ∧
        ModifyTime.timeArg f.nr f.args ≠ 0 then
      some ⟨ModifyTime.timeArg f.nr f.args, ModifyTime.clockBytes⟩
    else none
  | .preloadFilter =>
    if f.nr = .newfstatat ∧ commFilter f.task.comm = false ∧ u.preload = true then
      some ⟨f.args.arg2 + 48, le64 0⟩
    else none
  | .modifyFileTimestamp =>
    if f.nr = .newfstatat ∧ commFilter f.task.comm = true then
      some ⟨f.args.arg2 + 72, ModifyFileTimestamp.replaceFileTimes.bytes.take 32⟩
    else none
  | .modifyFileName =>
    if f.nr = .openat ∧ commFilter f.task.comm = true then
      ModifyFileName.emptied m f.args.arg1
    else none
  | .modifyFileRead =>
    if commFilter f.task.comm = true ∧ u.zone = true then
      match f.nr with
      | .newfstatat =>
        some ⟨f.args.arg2 + 48, le64 (BitVec.ofNat 64 ModifyFileRead.localtimeSize)⟩
      | .read =>
        some ⟨f.args.arg1, ModifyFileRead.localtimeContent.take ModifyFileRead.localtimeSize⟩
      | _ => none
    else none

end App

/-- User memory after an event of a thread in state `u`. -/
def specMem (apps : List App) (u : ThreadState) : Event → ByteMem
  | .exit task _ _ =>
    match u.call with
    | none => task.mem
    | some f => apps.foldl (fun m a => applyWrite (a.rewrite u f task.mem) m) task.mem
  | e => e.mem

/-- The maps of a program never lack room. For a pointer that is handed over it is enough that at
most 8192 threads are inside its calls. -/
def App.Room : App → List Event → Prop
  | .modifyTime => Uncrowded ModifyTime.calls
  | .preloadFilter => PreloadFilter.program.NeverFull
  | .modifyFileTimestamp => Uncrowded [.newfstatat]
  | .modifyFileName => Uncrowded [.openat]
  | .modifyFileRead => ModifyFileRead.program.NeverFull

/-! ## Threads on their own -/

theorem threads_self (e : Event) (h : List Event) :
    threads (e :: h) e.tid = (threads h e.tid).step e := Function.update_self ..

/-- Other threads' events are of no concern. -/
theorem threads_of_ne {e : Event} {t : Tid} (h : List Event) (hne : e.tid ≠ t) :
    threads (e :: h) t = threads h t := Function.update_of_ne (Ne.symm hne) ..

/-- A thread's state comes from its own events. -/
theorem threads_own (h : List Event) (t : Tid) :
    threads h t = after (fun e u => u.step e) .start (h.filter fun e => e.tid = t) := by
  induction h with
  | nil => rfl
  | cons e h ih =>
    by_cases he : e.tid = t
    · rw [List.filter_cons_of_pos (by simpa using he), ← he, threads_self, he, ih]
      rfl
    · rw [List.filter_cons_of_neg (by simpa using he), threads_of_ne h he, ih]

/-- The call of the thread's state is the call in flight. -/
theorem threads_call (h : List Event) (t : Tid) : (threads h t).call = inflight h t := by
  induction h with
  | nil => rfl
  | cons e h ih =>
    by_cases he : e.tid = t
    · subst he
      rw [threads_self]
      cases e with
      | enter task nr args => exact (inflight_enter_self task nr args h).symm
      | exit task nr ret => exact (inflight_exit_self task nr ret h).symm
      | spawn u => exact ih
      | die u => exact ih
    · rw [threads_of_ne h he, inflight_of_ne h he, ih]

end Bpf
