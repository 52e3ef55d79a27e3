import DetBuilds.Bpf.Threads
import DetBuilds.Bpf.ModifyTime
import DetBuilds.Bpf.ModifyFileTimestamp
import DetBuilds.Bpf.ModifyFileName

/-!
# Handing a pointer from the enter to the exit handler

`modify_time`, `modify_file_timestamp` and `modify_file_name` each keep one map, in which the enter
handler leaves a pointer argument for the exit handler of the same call. `HandOff p` says so of a
program: which calls leave what (`pending`), and that the exit handler takes the entry out and
acts through it. The map then is the abstract object it stands for, the calls in flight:

* `HandOff.sub`: whatever the map holds, a call in flight has left (with any number of threads);
* `HandOff.exact`: with at most 8192 threads inside the calls, the map holds exactly what the
  calls in flight left.

`pointer_hand_off` states this for the three programs.
-/

set_option autoImplicit false

namespace Bpf

open History

/-- A program whose enter handlers leave a pointer in a map for the exit handlers. -/
structure HandOff {σ α : Type} (p : Program σ α) where
  map : σ → TidMap Addr
  calls : List Nr
  flag : UpdateFlag
  /-- What a call leaves, from the comm, call and arguments it is entered with. -/
  pending : Comm → Nr → Args → Option Addr
  /-- What an exit handler writes through the pointer it finds. -/
  through : ByteMem → Addr → Option UserWrite
  map_empty : ∀ t, (map p.empty).lookup t = none
  pending_some : ∀ {comm nr args a}, pending comm nr args = some a →
    nr ∈ calls ∧ commFilter comm = true
  enter_map : ∀ task nr args s, map (p.step (.enter task nr args) s).1 =
    match pending task.comm nr args with
    | none => map s
    | some a => (map s).update task.tid a flag
  enter_write : ∀ task nr args s, (p.step (.enter task nr args) s).2 = none
  exit_lookup : ∀ task nr ret s t, (map (p.step (.exit task nr ret) s).1).lookup t =
    if t = task.tid ∧ nr ∈ calls ∧ commFilter task.comm = true then none else (map s).lookup t
  exit_write : ∀ task nr ret s, (p.step (.exit task nr ret) s).2 =
    if nr ∈ calls ∧ commFilter task.comm = true then
      ((map s).lookup task.tid).bind (through task.mem)
    else none

namespace HandOff

variable {σ α : Type} {p : Program σ α} (H : HandOff p)

/-- What a call in flight has left. -/
def pointer (f : Frame) : Option Addr := H.pending f.task.comm f.nr f.args

/-- The thread's entry after a run. -/
def entry (h : List Event) (t : Tid) : Option Addr := (H.map (p.run h)).lookup t

/-! ## One step -/

theorem entry_enter_ne {h : List Event} {task : Task} {nr : Nr} {args : Args} {t : Tid}
    (ht : t ≠ task.tid) : H.entry (.enter task nr args :: h) t = H.entry h t := by
  unfold entry
  rw [Program.run_cons, H.enter_map]
  split
  · rfl
  · exact BoundedMap.lookup_update_ne _ _ _ ht

/-- Entering a call that leaves nothing keeps the entry. -/
theorem entry_enter_none {h : List Event} {task : Task} {nr : Nr} {args : Args} (t : Tid)
    (hp : H.pending task.comm nr args = none) :
    H.entry (.enter task nr args :: h) t = H.entry h t := by
  unfold entry
  rw [Program.run_cons, H.enter_map, hp]

/-- Entering a call that leaves a pointer, with no entry there, leaves it or nothing. -/
theorem entry_enter_some {h : List Event} {task : Task} {nr : Nr} {args : Args} {a : Addr}
    (hn : H.entry h task.tid = none) (hp : H.pending task.comm nr args = some a) :
    H.entry (.enter task nr args :: h) task.tid =
      if (H.map (p.run h)).size < maxEntries then some a else none := by
  unfold entry at *
  rw [Program.run_cons, H.enter_map, hp]
  show ((H.map (p.run h)).update task.tid a H.flag).lookup task.tid = _
  rw [BoundedMap.lookup_update_self, hn]

theorem entry_exit {h : List Event} {task : Task} {nr : Nr} {ret : Int} (t : Tid) :
    H.entry (.exit task nr ret :: h) t =
      if t = task.tid ∧ nr ∈ H.calls ∧ commFilter task.comm = true then none
      else H.entry h t := by
  unfold entry
  rw [Program.run_cons, H.exit_lookup]

@[simp] theorem entry_spawn (h : List Event) (u t : Tid) :
    H.entry (.spawn u :: h) t = H.entry h t := by
  unfold entry; rw [Program.run_cons, p.step_spawn]

@[simp] theorem entry_die (h : List Event) (u t : Tid) :
    H.entry (.die u :: h) t = H.entry h t := by
  unfold entry; rw [Program.run_cons, p.step_die]

/-- Other threads' calls keep the thread's entry. -/
theorem entry_spares {e : Event} {h : List Event} {t : Tid} (he : Spares t e) :
    H.entry (e :: h) t = H.entry h t := by
  cases e with
  | enter task nr args => exact H.entry_enter_ne fun ht => he ht.symm
  | exit task nr ret => exact (H.entry_exit t).trans (if_neg fun hc => he hc.1.symm)
  | spawn u => exact H.entry_spawn h u t
  | die u => exact H.entry_die h u t

/-- Entries that are made with `BPF_ANY` are those of the call in flight, however full the map is
and whatever was left in it. -/
theorem entry_inflight (hflag : H.flag = .any) {h : List Event} {t : Tid} {f : Frame} {a : Addr}
    (hf : inflight h t = some f) (hp : H.pointer f = some a) :
    H.entry h t = some a ∨ H.entry h t = none := by
  refine while_inflight (I := fun h => H.entry h t = some a ∨ H.entry h t = none)
    (fun k => ?_) (fun e k he hk => ?_) hf
  · have ht := inflight_tid hf
    subst ht
    unfold entry
    rw [Program.run_cons, H.enter_map, show H.pending f.task.comm f.nr f.args = some a from hp]
    show (BoundedMap.update _ _ _ H.flag).lookup _ = _ ∨ _
    rw [hflag]
    exact (BoundedMap.lookup_update_any_or _ _ a).imp_right And.left
  · rw [H.entry_spares he]
    exact hk

/-- A return that leaves an entry on record for its thread leaves the calls without one. -/
theorem pointer_none_of_exit {f : Frame} {comm : Comm} {nr : Nr} (hnr : f.nr = nr)
    (hc : f.task.comm = comm) (h : ¬ (nr ∈ H.calls ∧ commFilter comm = true)) :
    H.pointer f = none := by
  cases hp : H.pointer f with
  | none => rfl
  | some a =>
    obtain ⟨h1, h2⟩ := H.pending_some hp
    rw [hnr] at h1; rw [hc] at h2
    exact absurd ⟨h1, h2⟩ h

/-! ## The map and the calls in flight -/

/-- The thread's entry, if it has one, is the pointer of its call in flight. -/
def OwnEntry (h : List Event) (t : Tid) : Prop := ∀ a, H.entry h t = some a →
  ∃ f, inflight h t = some f ∧ H.pointer f = some a

/-- Every entry is the pointer of its thread's call in flight. -/
def EntriesInFlight (h : List Event) : Prop := ∀ t a, H.entry h t = some a →
  ∃ f, inflight h t = some f ∧ H.pointer f = some a

/-- Then a thread in no call has no entry. -/
theorem entry_none {h : List Event} {t : Tid} (hi : H.OwnEntry h t)
    (hn : inflight h t = none) : H.entry h t = none := by
  cases hc : H.entry h t with
  | none => rfl
  | some b =>
    obtain ⟨f, hf, -⟩ := hi b hc
    rw [hn] at hf; cases hf

/-- It stays so if the thread itself alternates, whatever the other threads do. -/
theorem ownEntry_step {h : List Event} {e : Event} {t : Tid} (hi : H.OwnEntry h t)
    (ha : e.tid = t → Alternates h e) : H.OwnEntry (e :: h) t := by
  intro a hl
  by_cases he : e.tid = t
  · replace ha := ha he
    subst he
    cases e with
    | enter task nr args =>
      have hnone := H.entry_none hi (alternates_enter.1 ha)
      refine ⟨_, inflight_enter_self task nr args h, ?_⟩
      cases hp : H.pending task.comm nr args with
      | none =>
        rw [H.entry_enter_none _ hp] at hl
        cases hnone.symm.trans hl
      | some b =>
        have hl : H.entry (.enter task nr args :: h) task.tid = some a := hl
        rw [H.entry_enter_some hnone hp] at hl
        split at hl
        · cases hl; exact hp
        · cases hl
    | exit task nr ret =>
      obtain ⟨f, hf, hnr, hc⟩ := alternates_exit.1 ha
      rw [H.entry_exit] at hl
      split at hl
      · cases hl
      · rename_i hno
        obtain ⟨f', hf', hp⟩ := hi a hl
        have hf : inflight h (Event.exit task nr ret).tid = some f := hf
        rw [hf] at hf'; cases hf'
        rw [H.pointer_none_of_exit hnr hc fun h' => hno ⟨rfl, h'⟩] at hp
        cases hp
    | spawn u => exact hi a (by simpa using hl)
    | die u => exact hi a (by simpa using hl)
  · have hs : Spares t e := by cases e <;> first | exact he | trivial
    rw [H.entry_spares hs] at hl
    rw [inflight_of_ne h he]
    exact hi a hl

theorem ownEntry {h : List Event} {t : Tid}
    (ha : EachStep (fun h e => e.tid = t → Alternates h e) h) : H.OwnEntry h t := by
  refine ha.invariant (I := fun h => H.OwnEntry h t) (fun a hl => ?_) fun _ _ _ hi hs =>
    H.ownEntry_step hi hs
  rw [entry, Program.run_nil, H.map_empty] at hl
  cases hl

/-- **Every entry is some call in flight's pointer**, however many threads there are. -/
theorem sub {h : List Event} (ha : Alternating h) : H.EntriesInFlight h := by
  exact fun t => H.ownEntry (ha.mono fun _ _ hs _ => hs)

/-- The threads with an entry are inside the calls. -/
theorem entry_inside {h : List Event} (ha : Alternating h) :
    ∀ t, ((H.map (p.run h)).lookup t).isSome → t ∈ inside H.calls h := by
  intro t ht
  obtain ⟨a, hl⟩ := Option.isSome_iff_exists.1 ht
  obtain ⟨f, hf, hp⟩ := H.sub ha t a hl
  exact mem_inside.2 ⟨f, hf, (H.pending_some hp).1⟩

/-- Whoever enters a call that leaves a pointer finds no entry and a map that is not full. -/
theorem room_of_enter {h : List Event} {task : Task} {nr : Nr} {args : Args} {a : Addr}
    (ha : Alternating (.enter task nr args :: h))
    (hu : Uncrowded H.calls (.enter task nr args :: h))
    (hp : H.pending task.comm nr args = some a) :
    H.entry h task.tid = none ∧ (H.map (p.run h)).size < maxEntries := by
  have hn := alternates_enter.1 ha.1
  have hsize := BoundedMap.size_le_card (H.entry_inside ha.2)
  have hcard := card_inside_enter args hn (H.pending_some hp).1
  have hle : (inside H.calls (.enter task nr args :: h)).card ≤ maxEntries := hu.1
  exact ⟨H.entry_none (H.sub ha.2 _) hn, by omega⟩

/-- The entry of each thread is what its call in flight left. -/
def EntriesExact (h : List Event) : Prop := ∀ t, H.entry h t = (inflight h t).bind H.pointer

theorem entriesExact_step {h : List Event} {e : Event} (hi : H.EntriesExact h)
    (ha : Alternating (e :: h)) (hu : Uncrowded H.calls (e :: h)) : H.EntriesExact (e :: h) := by
  intro t
  cases e with
  | enter task nr args =>
    by_cases ht : t = task.tid
    · subst ht
      rw [inflight_enter_self]
      show _ = H.pending task.comm nr args
      cases hp : H.pending task.comm nr args with
      | none =>
        rw [H.entry_enter_none _ hp, hi, alternates_enter.1 ha.1]
        rfl
      | some a =>
        obtain ⟨hnone, hsize⟩ := H.room_of_enter ha hu hp
        rw [H.entry_enter_some hnone hp, if_pos hsize]
    · rw [H.entry_enter_ne ht, inflight_of_ne h (fun h' => ht h'.symm)]
      exact hi t
  | exit task nr ret =>
    obtain ⟨f, hf, hnr, hc⟩ := alternates_exit.1 ha.1
    rw [H.entry_exit]
    by_cases ht : t = task.tid
    · subst ht
      rw [inflight_exit_self]
      split
      · rfl
      · rename_i hno
        rw [hi, hf]
        exact H.pointer_none_of_exit hnr hc fun h' => hno ⟨rfl, h'⟩
    · rw [if_neg fun h' => ht h'.1, inflight_of_ne h (fun h' => ht h'.symm)]
      exact hi t
  | spawn u => rw [entry_spawn, inflight_spawn]; exact hi t
  | die u => rw [entry_die, inflight_die]; exact hi t

/-- **The map is the calls in flight**: with at most 8192 threads inside the calls, the entry of a
thread is what its call in flight left. -/
theorem exact {h : List Event} (ha : Alternating h) (hu : Uncrowded H.calls h) :
    H.EntriesExact h := by
  refine (ha.each.and hu.each).invariant (fun t => ?_) fun _ _ _ hi hs =>
    H.entriesExact_step hi hs.1 hs.2
  rw [entry, Program.run_nil, H.map_empty]
  rfl

/-! ## Writes -/

/-- An exit handler acts through the entry of the thread. -/
theorem write_exit_eq (h : List Event) (task : Task) (nr : Nr) (ret : Int) :
    p.write h (.exit task nr ret) =
      if nr ∈ H.calls ∧ commFilter task.comm = true then
        (H.entry h task.tid).bind (H.through task.mem)
      else none := H.exit_write task nr ret _

/-- An exit handler writes only what the returning call's own pointer leads it to write. -/
theorem write_exit_sub {h : List Event} (ha : Alternating h) {task : Task} {nr : Nr} {ret : Int}
    {w : UserWrite} (hw : p.write h (.exit task nr ret) = some w) :
    ∃ f a, inflight h task.tid = some f ∧ H.pointer f = some a ∧ H.through task.mem a = some w := by
  unfold Program.write at hw
  rw [H.exit_write] at hw
  split at hw
  · obtain ⟨a, hl, hthr⟩ := Option.bind_eq_some_iff.1 hw
    obtain ⟨f, hf, hp⟩ := H.sub ha _ _ hl
    exact ⟨f, a, hf, hp, hthr⟩
  · cases hw

/-- With at most 8192 threads inside the calls, it writes exactly that. -/
theorem write_exit {h : List Event} {task : Task} {nr : Nr} {ret : Int} {f : Frame}
    (ha : Alternating (.exit task nr ret :: h)) (hu : Uncrowded H.calls h)
    (hf : inflight h task.tid = some f) :
    p.write h (.exit task nr ret) = (H.pointer f).bind (H.through task.mem) := by
  obtain ⟨hnr, hc⟩ := alternates_frame ha.1 hf
  have hl : (H.map (p.run h)).lookup task.tid = H.pointer f := by
    have := H.exact ha.2 hu task.tid
    rw [hf] at this
    exact this
  unfold Program.write
  rw [H.exit_write, hl]
  split
  · rfl
  · rename_i hno
    rw [H.pointer_none_of_exit hnr hc hno]; rfl

include H in
theorem write_enter (h : List Event) (task : Task) (nr : Nr) (args : Args) :
    p.write h (.enter task nr args) = none := H.enter_write task nr args _

/-! ## The property -/

/-- What a step does with the map: an enter event that leaves a pointer inserts it without
failing, a return acts exactly through the pointer of the call that returns, and nothing else
writes. -/
def StepOk (h : List Event) (e : Event) : Prop :=
  match e with
  | .enter task nr args =>
    p.write h e = none ∧ ∀ a, H.pending task.comm nr args = some a →
      ∃ m, (H.map (p.run h)).tryUpdate task.tid a H.flag = .ok m
  | .exit task _ _ =>
    p.write h e = (inflight h task.tid).bind fun f => (H.pointer f).bind (H.through task.mem)
  | .spawn _ => p.write h e = none
  | .die _ => p.write h e = none

/-- The map holds exactly the pointers that the calls in flight left, so it is empty when no call
in flight left one. -/
def StateOk (h : List Event) : Prop :=
  (∀ t, (H.map (p.run h)).lookup t = (inflight h t).bind H.pointer) ∧
    ((∀ t f, inflight h t = some f → H.pointer f = none) → (H.map (p.run h)).size = 0)

theorem stateOk {h : List Event} (ha : Alternating h) (hu : Uncrowded H.calls h) :
    H.StateOk h := by
  refine ⟨H.exact ha hu, fun hnone => ?_⟩
  have hle : (H.map (p.run h)).size ≤ (∅ : Finset Tid).card :=
    BoundedMap.size_le_card fun t ht => by
      have hex := H.exact ha hu t
      rw [show (H.map (p.run h)).lookup t = H.entry h t from rfl, hex] at ht
      obtain ⟨a, ht⟩ := Option.isSome_iff_exists.1 ht
      obtain ⟨f, hf, hp⟩ := Option.bind_eq_some_iff.1 ht
      rw [hnone t f hf] at hp; cases hp
  simpa using hle

theorem stepOk {e : Event} {h : List Event} (ha : Alternating (e :: h))
    (hu : Uncrowded H.calls (e :: h)) : H.StepOk h e := by
  cases e with
  | enter task nr args =>
    refine ⟨H.write_enter h task nr args, fun a hp => ?_⟩
    obtain ⟨hnone, hsize⟩ := H.room_of_enter ha hu hp
    exact BoundedMap.tryUpdate_isOk a H.flag hnone hsize
  | exit task nr ret =>
    obtain ⟨f, hf, -⟩ := alternates_exit.1 ha.1
    show p.write h _ = _
    rw [hf]
    exact H.write_exit ha hu.2 hf
  | spawn t => show p.write h _ = none; unfold Program.write; rw [p.step_spawn]
  | die t => show p.write h _ = none; unfold Program.write; rw [p.step_die]

/-- In every state of the run and at every step of it. -/
def Holds (h : List Event) : Prop := EachState H.StateOk h ∧ EachStep H.StepOk h

theorem holds {h : List Event} (ha : Alternating h) (hu : Uncrowded H.calls h) : H.Holds h := by
  constructor
  · exact eachState_iff.2 fun h' hs => H.stateOk (ha.suffix hs) (hu.suffix hs)
  · exact (ha.each.and hu.each).mono fun h e hh => H.stepOk hh.1 hh.2

end HandOff

/-! ## The three programs -/

def ModifyTime.handOff : HandOff ModifyTime.program where
  map s := s.timePMap
  calls := ModifyTime.calls
  flag := .noexist
  pending := ModifyTime.pending
  through _ timeP := some ⟨timeP, ModifyTime.clockBytes⟩
  map_empty _ := rfl
  pending_some := by
    intro comm nr args a h
    obtain ⟨⟨hnr, hc, -⟩, -⟩ := ModifyTime.pending_eq_some.1 h
    exact ⟨hnr, hc⟩
  enter_map task nr args s := by
    rw [ModifyTime.step_enter]
    cases ModifyTime.pending task.comm nr args <;> rfl
  enter_write task nr args s := by
    rw [ModifyTime.step_enter]
    cases ModifyTime.pending task.comm nr args <;> rfl
  exit_lookup task nr ret s t := by
    rw [ModifyTime.step_exit]
    by_cases hc : nr ∈ ModifyTime.calls ∧ commFilter task.comm = true
    · rw [if_pos hc]
      simp only [hc, and_true]
      cases hl : s.timePMap.lookup task.tid with
      | none => exact BoundedMap.lookup_of_none hl t
      | some a => exact BoundedMap.lookup_delete _ _ t
    · rw [if_neg hc, if_neg fun ht => hc ht.2]
  exit_write task nr ret s := by
    rw [ModifyTime.step_exit]
    split
    · cases s.timePMap.lookup task.tid <;> rfl
    · rfl

def ModifyFileTimestamp.handOff : HandOff ModifyFileTimestamp.program where
  map s := s.statPs
  calls := [.newfstatat]
  flag := .any
  pending := ModifyFileTimestamp.pending
  through _ statP := some ⟨statP + 72, ModifyFileTimestamp.replaceFileTimes.bytes.take 32⟩
  map_empty _ := rfl
  pending_some := by
    intro comm nr args a h
    obtain ⟨⟨rfl, hc⟩, -⟩ := ModifyFileTimestamp.pending_eq_some.1 h
    exact ⟨List.mem_singleton.2 rfl, hc⟩
  enter_map task nr args s := by
    rw [ModifyFileTimestamp.step_enter]
    cases ModifyFileTimestamp.pending task.comm nr args <;> rfl
  enter_write task nr args s := by
    rw [ModifyFileTimestamp.step_enter]
    cases ModifyFileTimestamp.pending task.comm nr args <;> rfl
  exit_lookup task nr ret s t := by
    rw [ModifyFileTimestamp.step_exit]
    simp only [List.mem_singleton]
    by_cases hc : nr = .newfstatat ∧ commFilter task.comm = true
    · rw [if_pos hc]
      simp only [hc, and_true]
      cases hl : s.statPs.lookup task.tid with
      | none => exact BoundedMap.lookup_of_none hl t
      | some a => exact BoundedMap.lookup_delete _ _ t
    · rw [if_neg hc, if_neg fun ht => hc ht.2]
  exit_write task nr ret s := by
    rw [ModifyFileTimestamp.step_exit]
    simp only [List.mem_singleton]
    split
    · cases s.statPs.lookup task.tid <;> rfl
    · rfl

def ModifyFileName.handOff : HandOff ModifyFileName.program where
  map s := s.filenames
  calls := [.openat]
  flag := .any
  pending := ModifyFileName.pending
  through := ModifyFileName.emptied
  map_empty _ := rfl
  pending_some := by
    intro comm nr args a h
    obtain ⟨⟨rfl, hc⟩, -⟩ := ModifyFileName.pending_eq_some.1 h
    exact ⟨List.mem_singleton.2 rfl, hc⟩
  enter_map task nr args s := by
    rw [ModifyFileName.step_enter]
    cases ModifyFileName.pending task.comm nr args <;> rfl
  enter_write task nr args s := by
    rw [ModifyFileName.step_enter]
    cases ModifyFileName.pending task.comm nr args <;> rfl
  exit_lookup task nr ret s t := by
    rw [ModifyFileName.step_exit]
    simp only [List.mem_singleton]
    by_cases hc : nr = .openat ∧ commFilter task.comm = true
    · rw [if_pos hc]
      simp only [hc, and_true]
      cases hl : s.filenames.lookup task.tid with
      | none => exact BoundedMap.lookup_of_none hl t
      | some a => exact BoundedMap.lookup_delete _ _ t
    · rw [if_neg hc, if_neg fun ht => hc ht.2]
  exit_write task nr ret s := by
    rw [ModifyFileName.step_exit]
    simp only [List.mem_singleton]
    split
    · cases s.filenames.lookup task.tid <;> rfl
    · rfl

/-- **Pointer hand-off**: in every run of threads that alternate enter and exit, with at most 8192
of them inside a program's calls, the program's map holds exactly the pointers of the calls in
flight, no insertion fails, and an exit handler acts through the pointer of the call that
returns. -/
theorem pointer_hand_off (h : List Event) (ha : Alternating h) :
    (Uncrowded ModifyTime.calls h → ModifyTime.handOff.Holds h) ∧
    (Uncrowded [.newfstatat] h → ModifyFileTimestamp.handOff.Holds h) ∧
    (Uncrowded [.openat] h → ModifyFileName.handOff.Holds h) :=
  ⟨ModifyTime.handOff.holds ha, ModifyFileTimestamp.handOff.holds ha,
    ModifyFileName.handOff.holds ha⟩

/-- A run in which two `cc1` threads are in calls at once, `clock_gettime` of the one and
`newfstatat` and `openat` of the other, each with a return. -/
def twoThreadRun : List Event :=
  [.exit (cc1Task 2) .openat 3,
   .exit (cc1Task 1) .clockGettime 0,
   .enter (cc1Task 2) .openat ⟨0, 0x3000, 0, 0, 0, 0⟩,
   .exit (cc1Task 2) .newfstatat 0,
   .enter (cc1Task 1) .clockGettime ⟨0, 0x1000, 0, 0, 0, 0⟩,
   .enter (cc1Task 2) .newfstatat ⟨0, 0, 0x2000, 0, 0, 0⟩]

theorem pointer_hand_off_twoThreadRun :
    ModifyTime.handOff.Holds twoThreadRun ∧ ModifyFileTimestamp.handOff.Holds twoThreadRun ∧
      ModifyFileName.handOff.Holds twoThreadRun :=
  ⟨(pointer_hand_off twoThreadRun (by decide)).1 (by decide),
    (pointer_hand_off twoThreadRun (by decide)).2.1 (by decide),
    (pointer_hand_off twoThreadRun (by decide)).2.2 (by decide)⟩

end Bpf
