import DetBuilds.Bpf.Proof.Clock
import DetBuilds.Preload.Time

/-!
# The channels of the time

A compiler asks for the time through the functions of the preload libraries and through the
system calls that `modify_time` rewrites. A run has library calls among the events of the kernel
(`TimeEvent`); what a thread obtains from each is `Obtains`.

`channels_agree_iff`: a `cc1` thread gets one time from all of them, and from each substitute what
the function it stands for gives, exactly if it never calls `f4ke`, which returns 0, calls
`getf4keofday` only with a place for the time, and whatever the kernel answers without the
handlers is the same time.
-/

set_option autoImplicit false

namespace Preload

open Bpf History

/-- An event of the kernel, or a call of a library function. -/
inductive TimeEvent where
  | kernel (e : Event)
  | library (task : Task) (call : Call)

/-- What the kernel sees of a run. -/
def kernelEvents : List TimeEvent → List Event
  | [] => []
  | .kernel e :: h => e :: kernelEvents h
  | .library _ _ :: h => kernelEvents h

/-! ## The functions that are intercepted -/

/-- The kernel stores its time and its time zone, each if there is a place for it. -/
def kernelGettimeofday (now sysTz : List Byte) (tv tz : Addr) (m : ByteMem) : ByteMem :=
  let m := if tv ≠ 0 then m.store tv now else m
  if tz ≠ 0 then m.store tz sysTz else m

/-- `gettimeofday` of a `cc1` thread: what the kernel stores, then the exit handler. -/
def interceptedGettimeofday (now sysTz : List Byte) (tv tz : Addr) (task : Task) : Outcome :=
  some (0, ModifyTime.program.memAfter [.enter task .gettimeofday ⟨tv, tz, 0, 0, 0, 0⟩]
    (.exit { task with mem := kernelGettimeofday now sysTz tv tz task.mem } .gettimeofday 0))

/-- `clock_gettime` of a `cc1` thread. -/
def interceptedClockGettime (now : List Byte) (clockId : BitVec 64) (res : Addr) (task : Task) :
    Outcome :=
  some (0, ModifyTime.program.memAfter [.enter task .clockGettime ⟨clockId, res, 0, 0, 0, 0⟩]
    (.exit { task with mem := task.mem.store res now } .clockGettime 0))

/-- What the function a call stands for leaves, where the kernel has the time `now` and the time
zone `sysTz`. -/
def Call.standsFor (now sysTz : List Byte) : Call → Task → Outcome
  | .time t, task => Preload.time t task.mem
  | .f4ke t, task => Preload.time t task.mem
  | .clockGetf4ke clockId res, task => interceptedClockGettime now clockId res task
  | .getf4keofday tv tz, task => interceptedGettimeofday now sysTz tv tz task

/-! ## What a thread obtains -/

/-- A system call for the time succeeds, with a place to put it. -/
def TimeAnswer (h : List TimeEvent) (task : Task) (ret : Int) (f : Frame) : Prop :=
  inflight (kernelEvents h) task.tid = some f ∧ f.nr ∈ ModifyTime.calls ∧ ret = 0 ∧
    ModifyTime.timeArg f.nr f.args ≠ 0

/-- At an event thread `t` obtains a number of seconds, and perhaps a part of a second, as they
are stored in memory: from a return value, from what a library call stores, or from what a system
call leaves. -/
inductive Obtains (t : Tid) (h : List TimeEvent) : TimeEvent → List Byte → Option (List Byte) → Prop
  | returned {task : Task} {call : Call} {ret : BitVec 64} {m : ByteMem} (ht : task.tid = t)
      (hrun : call.run task.mem = some (ret, m)) (hret : call.returnsTime = true) :
      Obtains t h (.library task call) (le64 ret) none
  | stored {task : Task} {call : Call} {ret : BitVec 64} {m : ByteMem} (ht : task.tid = t)
      (hrun : call.run task.mem = some (ret, m)) (h0 : call.timeP ≠ 0) :
      Obtains t h (.library task call) (m.load call.timeP 8)
        (if call.returnsTime then none else some (m.load (ByteMem.off call.timeP 8) 8))
  | answered {task : Task} {nr : Nr} {ret : Int} {f : Frame} (ht : task.tid = t)
      (hans : TimeAnswer h task ret f) :
      Obtains t h (.kernel (.exit task nr ret))
        ((ModifyTime.program.memAfter (kernelEvents h) (.exit task nr ret)).load
          (ModifyTime.timeArg f.nr f.args) 8)
        (some ((ModifyTime.program.memAfter (kernelEvents h) (.exit task nr ret)).load
          (ByteMem.off (ModifyTime.timeArg f.nr f.args) 8) 8))

/-- What thread `t` obtains at an event is `sec`, without a part of a second; what a function
returns is what it stores; and a substitute leaves what the function does that it stands for. -/
structure AgreesAt (sysTz sec : List Byte) (t : Tid) (h : List TimeEvent) (e : TimeEvent) :
    Prop where
  same : ∀ s sub, Obtains t h e s sub → s = sec ∧ ∀ b ∈ sub, b = le64 0
  returns : ∀ task call ret m, e = .library task call → task.tid = t →
    call.run task.mem = some (ret, m) → call.returnsTime = true → call.timeP ≠ 0 →
      m.load call.timeP 8 = le64 ret
  substitutes : ∀ task call, e = .library task call → task.tid = t →
    ∀ now, now.length = 16 → call.run task.mem = call.standsFor now sysTz task

/-- The arguments that the real functions admit, and memory that the kernel has stored a time
in. -/
def AdmittedAt (t : Tid) (h : List TimeEvent) : TimeEvent → Prop
  | .library task call => task.tid = t → call.Admitted task.mem
  | .kernel (.exit task _ ret) => task.tid = t → ∀ f, TimeAnswer h task ret f →
    task.mem.writableFor (ModifyTime.timeArg f.nr f.args) 16 = true
  | _ => True

/-- Thread `t` is `cc1`, enters and leaves system calls in turn, and makes its library calls
outside of them. -/
def Cc1Thread (t : Tid) (h : List TimeEvent) : TimeEvent → Prop
  | .library task _ => task.tid = t →
    commFilter task.comm = true ∧ inflight (kernelEvents h) t = none
  | .kernel (.enter task nr args) => task.tid = t →
    commFilter task.comm = true ∧ Alternates (kernelEvents h) (.enter task nr args)
  | .kernel (.exit task nr ret) => task.tid = t →
    commFilter task.comm = true ∧ Alternates (kernelEvents h) (.exit task nr ret)
  | .kernel e => e.tid = t → Alternates (kernelEvents h) e

/-- The call is not of `f4ke`, nor of `getf4keofday` without a place for the time, or with a place
for a time zone that the kernel's is not in already. -/
def Call.Faithful (sysTz : List Byte) (m : ByteMem) : Call → Prop
  | .time _ => True
  | .f4ke _ => False
  | .clockGetf4ke _ _ => True
  | .getf4keofday tv tz => tv ≠ 0 ∧ (tz ≠ 0 → ∀ x, InRange x tz 8 → ¬ InRange x tv 16 →
    m.byte x = sysTz.getD (x - tz).toNat 0)

/-- The thread makes library calls of this kind only, and if it makes any `sec` is the fixed
timestamp; so it is if an exit handler finds the thread's pointer, and where none does, the
kernel's own answer is `sec` and no part of a second. -/
def KeepsTime (sysTz sec : List Byte) (t : Tid) (h : List TimeEvent) : TimeEvent → Prop
  | .library task call => task.tid = t →
    sec = le64 modifiedCurrentTimestamp ∧ call.Faithful sysTz task.mem
  | .kernel (.exit task _ ret) => task.tid = t → ∀ f, TimeAnswer h task ret f →
    if (ModifyTime.handOff.entry (kernelEvents h) t).isSome then
      sec = le64 modifiedCurrentTimestamp
    else
      task.mem.load (ModifyTime.timeArg f.nr f.args) 8 = sec ∧
        task.mem.load (ByteMem.off (ModifyTime.timeArg f.nr f.args) 8) 8 = le64 0
  | _ => True

/-! ## The exit handlers -/

variable {m : ByteMem} {a : Addr}

/-- The two halves of what an exit handler stores. -/
theorem load_clockBytes (hw : m.writableFor a 16 = true) :
    (m.store a ModifyTime.clockBytes).load a 8 = le64 modifiedCurrentTimestamp ∧
      (m.store a ModifyTime.clockBytes).load (ByteMem.off a 8) 8 = le64 0 := by
  have hload : (m.store a ModifyTime.clockBytes).load a 16 = ModifyTime.clockBytes :=
    ByteMem.load_store ModifyTime.length_clockBytes (by decide) hw
  rw [show (16 : Nat) = 8 + 8 from rfl, ByteMem.load_add] at hload
  exact List.append_inj hload (by simp)

/-- An exit handler stores the time at the pointer on record, if there is one. -/
theorem memAfter_exit {h : List Event} {task : Task} {nr : Nr} (ret : Int)
    (hnr : nr ∈ ModifyTime.calls) (hc : commFilter task.comm = true) :
    ModifyTime.program.memAfter h (.exit task nr ret) =
      match ModifyTime.handOff.entry h task.tid with
      | none => task.mem
      | some timeP => task.mem.store timeP ModifyTime.clockBytes := by
  unfold Program.memAfter
  rw [ModifyTime.handOff.write_exit_eq, if_pos ⟨hnr, hc⟩]
  cases ModifyTime.handOff.entry h task.tid <;> rfl

/-- A call made with the map empty finds its pointer again. -/
theorem memAfter_alone {task : Task} (nr : Nr) (args : Args) (m : ByteMem)
    (hnr : nr ∈ ModifyTime.calls) (hc : commFilter task.comm = true) :
    ModifyTime.program.memAfter [.enter task nr args] (.exit { task with mem := m } nr 0) =
      if ModifyTime.timeArg nr args ≠ 0 then
        m.store (ModifyTime.timeArg nr args) ModifyTime.clockBytes
      else m := by
  have hexit := memAfter_exit (h := [.enter task nr args]) 0 hnr
    (show commFilter { task with mem := m }.comm = true from hc)
  rw [hexit]
  have hnil : ModifyTime.handOff.entry [] task.tid = none := rfl
  by_cases h0 : ModifyTime.timeArg nr args ≠ 0
  · have hp : ModifyTime.pending task.comm nr args = some (ModifyTime.timeArg nr args) :=
      if_pos ⟨hnr, hc, h0⟩
    have hentry := ModifyTime.handOff.entry_enter_some hnil hp
    rw [if_pos (by decide)] at hentry
    rw [if_pos h0, show ModifyTime.handOff.entry _ _ = _ from hentry]
  · have hp : ModifyTime.pending task.comm nr args = none := if_neg fun hc => h0 hc.2.2
    have hentry := ModifyTime.handOff.entry_enter_none (h := []) task.tid hp
    rw [if_neg h0, show ModifyTime.handOff.entry _ _ = _ from hentry, hnil]

theorem interceptedClockGettime_eq {task : Task} {now : List Byte} (clockId : BitVec 64)
    (hc : commFilter task.comm = true) (hnow : now.length = 16) (h0 : a ≠ 0) :
    interceptedClockGettime now clockId a task =
      some (0, task.mem.store a ModifyTime.clockBytes) := by
  have hmem := memAfter_alone .clockGettime ⟨clockId, a, 0, 0, 0, 0⟩ (task.mem.store a now)
    (by decide) hc
  rw [if_pos (show ModifyTime.timeArg .clockGettime ⟨clockId, a, 0, 0, 0, 0⟩ ≠ 0 from h0)] at hmem
  unfold interceptedClockGettime
  rw [hmem]
  show some (_, (task.mem.store a now).store a ModifyTime.clockBytes) = _
  rw [ByteMem.store_store_self (hnow.trans ModifyTime.length_clockBytes.symm)]

/-- The kernel's time zone stays, where the time is not stored over it. -/
theorem interceptedGettimeofday_eq_iff {task : Task} {now sysTz : List Byte} {tz : Addr}
    (hc : commFilter task.comm = true) (hnow : now.length = 16) (htz : sysTz.length = 8)
    (h0 : a ≠ 0) (hw : task.mem.writableFor a 16 = true)
    (hwtz : tz ≠ 0 → task.mem.writableFor tz 8 = true) :
    some (0, task.mem.store a ModifyTime.clockBytes) =
        interceptedGettimeofday now sysTz a tz task ↔
      (tz ≠ 0 → ∀ x, InRange x tz 8 → ¬ InRange x a 16 →
        task.mem.byte x = sysTz.getD (x - tz).toNat 0) := by
  have hlen := ModifyTime.length_clockBytes
  have hself := ByteMem.store_store_self (m := task.mem) (a := a) (hnow.trans hlen.symm)
  have hmem := memAfter_alone .gettimeofday ⟨a, tz, 0, 0, 0, 0⟩
    (kernelGettimeofday now sysTz a tz task.mem) (by decide) hc
  rw [if_pos (show ModifyTime.timeArg .gettimeofday ⟨a, tz, 0, 0, 0, 0⟩ ≠ 0 from h0)] at hmem
  unfold interceptedGettimeofday
  rw [hmem]
  simp only [Option.some.injEq, Prod.mk.injEq, true_and]
  show _ = ByteMem.store _ a ModifyTime.clockBytes ↔ _
  unfold kernelGettimeofday
  simp only [if_pos h0]
  by_cases htz0 : tz ≠ 0
  · have hwtz : (task.mem.store a now).writableFor tz 8 = true := hwtz htz0
    have hiff := ByteMem.store_store_eq_iff hlen htz hwtz hw
    rw [hself] at hiff
    rw [if_pos htz0, eq_comm, hiff]
    refine ⟨fun h _ x hx hout => ?_, fun h x hx hout => ?_⟩
    · rw [← h x hx hout, ByteMem.store_frame (by rw [hnow]; exact hout)]
    · rw [ByteMem.store_frame (by rw [hnow]; exact hout)]
      exact h htz0 x hx hout
  · rw [if_neg htz0, hself]
    exact iff_of_true rfl fun h => absurd h htz0

/-! ## One event -/

section

variable {sysTz sec : List Byte} {t : Tid} {h : List TimeEvent} {task : Task}

/-- A library call that stores the fixed timestamp, and returns it if it returns the time. -/
theorem agreesAt_of_run {call : Call} {ret : BitVec 64} {m : ByteMem}
    (hrun : call.run task.mem = some (ret, m))
    (hret : call.returnsTime = true → ret = modifiedCurrentTimestamp)
    (hsec : call.timeP ≠ 0 → m.load call.timeP 8 = le64 modifiedCurrentTimestamp)
    (hsub : call.timeP ≠ 0 → call.returnsTime = false →
      m.load (ByteMem.off call.timeP 8) 8 = le64 0)
    (hstands : ∀ now, now.length = 16 → call.run task.mem = call.standsFor now sysTz task) :
    AgreesAt sysTz (le64 modifiedCurrentTimestamp) t h (.library task call) where
  same s sub hobt := by
    cases hobt with
    | returned ht hrun' hret' =>
      rw [hrun] at hrun'
      cases hrun'
      exact ⟨by rw [hret hret'], fun b hb => by cases hb⟩
    | stored ht hrun' h0 =>
      rw [hrun] at hrun'
      cases hrun'
      refine ⟨hsec h0, fun b hb => ?_⟩
      cases hr : call.returnsTime with
      | true => rw [hr] at hb; cases hb
      | false =>
        rw [hr] at hb
        cases hb
        exact hsub h0 hr
  returns task' call' ret' m' he _ hrun' hret' h0 := by
    cases he
    rw [hrun] at hrun'
    cases hrun'
    rw [hsec h0, hret hret']
  substitutes task' call' he _ now hnow := by
    cases he
    exact hstands now hnow

theorem agreesAt_time_iff (ht : task.tid = t) (hadm : (Call.time a).Admitted task.mem) :
    AgreesAt sysTz sec t h (.library task (.time a)) ↔ sec = le64 modifiedCurrentTimestamp := by
  have hw : a ≠ 0 → task.mem.writableFor a 8 = true := hadm.2.1
  have hrun := time_eq hw
  constructor
  · exact fun hag => (hag.same _ _ (.returned ht hrun rfl)).1.symm
  · rintro rfl
    refine agreesAt_of_run hrun (fun _ => rfl) (fun h0 => ?_) (fun _ h => by cases h) fun _ _ => rfl
    have h0 : a ≠ 0 := h0
    rw [if_pos h0]
    exact ByteMem.load_store (length_le64 _) (by decide) (hw h0)

/-- What `f4ke` returns is not what `time` does. -/
theorem not_agreesAt_f4ke (ht : task.tid = t) (hadm : (Call.f4ke a).Admitted task.mem) :
    ¬ AgreesAt sysTz sec t h (.library task (.f4ke a)) := by
  intro hag
  have heq := hag.substitutes task _ rfl ht (List.replicate 16 0) (by decide)
  have hrun : f4ke a task.mem = time a task.mem := heq
  have hw : a ≠ 0 → task.mem.writableFor a 8 = true := hadm.2.1
  rw [f4ke_eq hw, time_eq hw, Option.some.injEq, Prod.mk.injEq] at hrun
  exact absurd hrun.1 (by decide)

theorem agreesAt_clockGetf4ke_iff {clockId : BitVec 64} (ht : task.tid = t)
    (hc : commFilter task.comm = true) (hadm : (Call.clockGetf4ke clockId a).Admitted task.mem) :
    AgreesAt sysTz sec t h (.library task (.clockGetf4ke clockId a)) ↔
      sec = le64 modifiedCurrentTimestamp := by
  obtain ⟨-, hw, h0⟩ := hadm
  have hw : task.mem.writableFor a 16 = true := hw h0
  have hrun := clockGetf4ke_eq clockId hw
  have hload := load_clockBytes hw
  constructor
  · intro hag
    rw [← (hag.same _ _ (.stored ht hrun h0)).1]
    exact hload.1
  · rintro rfl
    refine agreesAt_of_run hrun (fun h => by cases h) (fun _ => hload.1) (fun _ _ => hload.2) ?_
    intro now hnow
    exact hrun.trans (interceptedClockGettime_eq clockId hc hnow h0).symm

theorem agreesAt_getf4keofday_iff {tz : Addr} (ht : task.tid = t)
    (hc : commFilter task.comm = true) (htz : sysTz.length = 8)
    (hadm : (Call.getf4keofday a tz).Admitted task.mem) :
    AgreesAt sysTz sec t h (.library task (.getf4keofday a tz)) ↔
      sec = le64 modifiedCurrentTimestamp ∧ (Call.getf4keofday a tz).Faithful sysTz task.mem := by
  obtain ⟨hnull, hw, hwtz⟩ := hadm
  by_cases h0 : a = 0
  · subst h0
    refine iff_of_false (fun hag => ?_) fun hf => hf.2.1 rfl
    have heq := hag.substitutes task _ rfl ht (List.replicate 16 0) (by decide)
    have hrun : getf4keofday 0 tz task.mem = interceptedGettimeofday _ sysTz 0 tz task := heq
    rw [getf4keofday_null tz hnull] at hrun
    cases hrun
  · have hw : task.mem.writableFor a 16 = true := hw h0
    have hrun := getf4keofday_eq tz hw
    have hload := load_clockBytes hw
    have hzone : ∀ now, now.length = 16 → (getf4keofday a tz task.mem =
        interceptedGettimeofday now sysTz a tz task ↔ (tz ≠ 0 → ∀ x, InRange x tz 8 →
          ¬ InRange x a 16 → task.mem.byte x = sysTz.getD (x - tz).toNat 0)) := by
      intro now hnow
      rw [hrun]
      exact interceptedGettimeofday_eq_iff hc hnow htz h0 hw hwtz
    constructor
    · intro hag
      refine ⟨?_, h0, ?_⟩
      · rw [← (hag.same _ _ (.stored ht hrun h0)).1]
        exact hload.1
      · have hlen : (List.replicate 16 (0 : Byte)).length = 16 := by decide
        exact (hzone _ hlen).1 (hag.substitutes task _ rfl ht _ hlen)
    · rintro ⟨rfl, -, hf⟩
      refine agreesAt_of_run hrun (fun h => by cases h) (fun _ => hload.1) (fun _ _ => hload.2) ?_
      exact fun now hnow => (hzone now hnow).2 hf

theorem agreesAt_library_iff {call : Call} (ht : task.tid = t) (hc : commFilter task.comm = true)
    (htz : sysTz.length = 8) (hadm : call.Admitted task.mem) :
    AgreesAt sysTz sec t h (.library task call) ↔
      sec = le64 modifiedCurrentTimestamp ∧ call.Faithful sysTz task.mem := by
  cases call with
  | time a => exact (agreesAt_time_iff ht hadm).trans (and_iff_left trivial).symm
  | f4ke a => exact iff_of_false (not_agreesAt_f4ke ht hadm) And.right
  | clockGetf4ke clockId a =>
    exact (agreesAt_clockGetf4ke_iff ht hc hadm).trans (and_iff_left trivial).symm
  | getf4keofday a tz => exact agreesAt_getf4keofday_iff ht hc htz hadm

/-- What an event of the kernel gives comes from system calls alone. -/
theorem agreesAt_kernel_iff {e : Event} :
    AgreesAt sysTz sec t h (.kernel e) ↔
      ∀ s sub, Obtains t h (.kernel e) s sub → s = sec ∧ ∀ b ∈ sub, b = le64 0 :=
  ⟨fun hag => hag.same,
    fun hs => ⟨hs, fun _ _ _ _ he => (nomatch he), fun _ _ he => (nomatch he)⟩⟩

/-- The time of a system call is the fixed one if its pointer is on record, and else the
kernel's. -/
theorem answer_iff {nr : Nr} {ret : Int} {f : Frame} (ht : task.tid = t)
    (hc : commFilter task.comm = true) (ha : Alternates (kernelEvents h) (.exit task nr ret))
    (hown : ModifyTime.handOff.OwnEntry (kernelEvents h) t) (hans : TimeAnswer h task ret f)
    (hw : task.mem.writableFor (ModifyTime.timeArg f.nr f.args) 16 = true) :
    ((ModifyTime.program.memAfter (kernelEvents h) (.exit task nr ret)).load
          (ModifyTime.timeArg f.nr f.args) 8 = sec ∧
        (ModifyTime.program.memAfter (kernelEvents h) (.exit task nr ret)).load
          (ByteMem.off (ModifyTime.timeArg f.nr f.args) 8) 8 = le64 0) ↔
      if (ModifyTime.handOff.entry (kernelEvents h) t).isSome then
        sec = le64 modifiedCurrentTimestamp
      else
        task.mem.load (ModifyTime.timeArg f.nr f.args) 8 = sec ∧
          task.mem.load (ByteMem.off (ModifyTime.timeArg f.nr f.args) 8) 8 = le64 0 := by
  subst ht
  obtain ⟨hnr, -⟩ := alternates_frame ha hans.1
  rw [memAfter_exit ret (hnr ▸ hans.2.1) hc]
  cases hentry : ModifyTime.handOff.entry (kernelEvents h) task.tid with
  | none => exact Iff.rfl
  | some b =>
    obtain ⟨f', hf', hp⟩ := hown b hentry
    rw [hans.1] at hf'
    cases hf'
    obtain ⟨-, rfl⟩ := ModifyTime.pointer_some hp
    obtain ⟨hlow, hhigh⟩ := load_clockBytes hw
    show (_ = sec ∧ _) ↔ sec = _
    rw [hlow, and_iff_left hhigh]
    exact eq_comm

theorem agreesAt_exit_iff {nr : Nr} {ret : Int}
    (hc1 : Cc1Thread t h (.kernel (.exit task nr ret)))
    (hown : ModifyTime.handOff.OwnEntry (kernelEvents h) t)
    (hadm : AdmittedAt t h (.kernel (.exit task nr ret))) :
    AgreesAt sysTz sec t h (.kernel (.exit task nr ret)) ↔
      KeepsTime sysTz sec t h (.kernel (.exit task nr ret)) := by
  rw [agreesAt_kernel_iff]
  constructor
  · intro hs ht f hans
    obtain ⟨hc, ha⟩ := hc1 ht
    obtain ⟨hsec, hsub⟩ := hs _ _ (.answered ht hans)
    exact (answer_iff ht hc ha hown hans (hadm ht f hans)).1 ⟨hsec, hsub _ rfl⟩
  · intro hkeep s sub hobt
    cases hobt with
    | @answered _ _ _ f ht hans =>
      obtain ⟨hc, ha⟩ := hc1 ht
      obtain ⟨hsec, hsub⟩ := (answer_iff ht hc ha hown hans (hadm ht f hans)).2 (hkeep ht f hans)
      refine ⟨hsec, fun b hb => ?_⟩
      cases hb
      exact hsub

theorem agreesAt_iff {e : TimeEvent} (htz : sysTz.length = 8) (hc1 : Cc1Thread t h e)
    (hown : ModifyTime.handOff.OwnEntry (kernelEvents h) t) (hadm : AdmittedAt t h e) :
    AgreesAt sysTz sec t h e ↔ KeepsTime sysTz sec t h e := by
  cases e with
  | library task call =>
    by_cases ht : task.tid = t
    · rw [agreesAt_library_iff ht (hc1 ht).1 htz (hadm ht)]
      exact (imp_iff_right ht).symm
    · refine iff_of_true ⟨fun s sub hobt => ?_, fun _ _ _ _ he ht' => ?_, fun _ _ he ht' => ?_⟩
        fun ht' => absurd ht' ht
      · cases hobt with
        | returned ht' => exact absurd ht' ht
        | stored ht' => exact absurd ht' ht
      · cases he; exact absurd ht' ht
      · cases he; exact absurd ht' ht
  | kernel e =>
    cases e with
    | exit task nr ret => exact agreesAt_exit_iff hc1 hown hadm
    | enter task nr args => exact iff_of_true (agreesAt_kernel_iff.2 fun _ _ ho => nomatch ho) trivial
    | spawn u => exact iff_of_true (agreesAt_kernel_iff.2 fun _ _ ho => nomatch ho) trivial
    | die u => exact iff_of_true (agreesAt_kernel_iff.2 fun _ _ ho => nomatch ho) trivial

end

/-! ## Runs -/

/-- What the kernel sees of a `cc1` thread alternates. -/
theorem alternates_kernelEvents {t : Tid} {h : List TimeEvent} (hc : EachStep (Cc1Thread t) h) :
    EachStep (fun h e => e.tid = t → Alternates h e) (kernelEvents h) := by
  induction h with
  | nil => trivial
  | cons e h ih =>
    have ih := ih hc.2
    have hstep := hc.1
    cases e with
    | library task call => exact ih
    | kernel e =>
      refine ⟨fun ht => ?_, ih⟩
      cases e with
      | enter task nr args => exact (hstep ht).2
      | exit task nr ret => exact (hstep ht).2
      | spawn u => exact hstep ht
      | die u => exact hstep ht

/-- **All time channels agree**: a `cc1` thread obtains one number of seconds, and no part of a
second, from every library and system call, each with the result of the function it stands for,
exactly if its calls keep to one time. -/
theorem channels_agree_iff {sysTz : List Byte} {t : Tid} {h : List TimeEvent}
    (htz : sysTz.length = 8) (hc : EachStep (Cc1Thread t) h) (hadm : EachStep (AdmittedAt t) h) :
    (∃ sec, EachStep (AgreesAt sysTz sec t) h) ↔ ∃ sec, EachStep (KeepsTime sysTz sec t) h := by
  refine exists_congr fun sec => (hc.each.and hadm).congr fun k e hs => ?_
  obtain ⟨⟨hstep, hbefore⟩, hadm⟩ := hs
  exact agreesAt_iff htz hstep (ModifyTime.handOff.ownEntry (alternates_kernelEvents hbefore)) hadm

/-- `cc1` in thread 1, with nothing mapped at the null pointer. -/
def clockTask : Task :=
  { cc1Task 1 with mem := { (cc1Task 1).mem with writable := fun a => a ≠ 0 } }

/-- It asks through three functions and through a system call. -/
def clockRun : List TimeEvent :=
  [.kernel (.exit clockTask .clockGettime 0),
   .kernel (.enter clockTask .clockGettime ⟨0, 0x2000, 0, 0, 0, 0⟩),
   .library clockTask (.getf4keofday 0x3000 0),
   .library clockTask (.clockGetf4ke 0 0x3000),
   .library clockTask (.time 0)]

theorem channels_agree_iff_clockRun :
    ∃ sec, EachStep (AgreesAt (List.replicate 8 0) sec 1) clockRun := by
  have hc : EachStep (Cc1Thread 1) clockRun :=
    ⟨fun _ => ⟨by decide, by decide⟩, fun _ => ⟨by decide, by decide⟩, fun _ => ⟨by decide, rfl⟩,
      fun _ => ⟨by decide, rfl⟩, fun _ => ⟨by decide, rfl⟩, trivial⟩
  have hadm : EachStep (AdmittedAt 1) clockRun := by
    refine ⟨fun _ f hans => ?_, trivial, fun _ => ⟨by decide, fun _ => by decide, ?_⟩,
      fun _ => ⟨by decide, fun _ => by decide, ?_⟩, fun _ => ⟨by decide, fun h => absurd rfl h, ?_⟩,
      trivial⟩
    · cases hans.1
      decide
    · exact fun h => absurd rfl h
    · exact show (0x3000 : Addr) ≠ 0 by decide
    · trivial
  refine (channels_agree_iff (by decide) hc hadm).2 ⟨le64 modifiedCurrentTimestamp, ?_⟩
  refine ⟨fun _ f hans => ?_, trivial, fun _ => ⟨rfl, by decide, fun h => absurd rfl h⟩,
    fun _ => ⟨rfl, trivial⟩, fun _ => ⟨rfl, trivial⟩, trivial⟩
  exact (if_pos (by decide)).mpr rfl

/-- `f4ke` returns 0 where `time` returns the timestamp, and `getf4keofday` faults where
`gettimeofday` succeeds. -/
theorem channels_disagree :
    (¬ ∃ sec, EachStep (AgreesAt (List.replicate 8 0) sec 1) [.library clockTask (.f4ke 0)]) ∧
      ¬ ∃ sec, EachStep (AgreesAt (List.replicate 8 0) sec 1)
        [.library clockTask (.getf4keofday 0 0)] := by
  refine ⟨fun ⟨sec, hag⟩ => ?_, fun ⟨sec, hag⟩ => ?_⟩
  · have hadm : (Call.f4ke 0).Admitted clockTask.mem :=
      ⟨by decide, fun h => absurd rfl h, trivial⟩
    exact not_agreesAt_f4ke rfl hadm hag.1
  · have hadm : (Call.getf4keofday 0 0).Admitted clockTask.mem :=
      ⟨by decide, fun h => absurd rfl h, fun h => absurd rfl h⟩
    exact ((agreesAt_getf4keofday_iff rfl (by decide) (by decide) hadm).1 hag.1).2.1 rfl

end Preload
