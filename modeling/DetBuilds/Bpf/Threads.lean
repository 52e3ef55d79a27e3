import DetBuilds.Bpf.Kernel

/-!
# Threads and their calls

What a history of events says about the threads, independently of any program: the call a thread
is in (`inflight`), the threads inside given calls (`inside`), the threads alive (`alive`). The
assumptions about threads are conditions on each step: `Alternates` (a thread enters one call at
a time, leaves the call it entered, and has the comm it entered with) and `Lives` (only living
threads make calls, a tid is given out again only after its thread has died).
-/

set_option autoImplicit false

namespace Bpf

open History

/-- A call in flight, as it was entered. -/
structure Frame where
  task : Task
  nr : Nr
  args : Args

/-- The call a thread is in. -/
def inflight : List Event → Tid → Option Frame
  | [], _ => none
  | .enter task nr args :: h, t => if task.tid = t then some ⟨task, nr, args⟩ else inflight h t
  | .exit task _ _ :: h, t => if task.tid = t then none else inflight h t
  | .spawn _ :: h, t => inflight h t
  | .die _ :: h, t => inflight h t

/-- The history before a thread entered the call it is in. -/
def beforeCall : List Event → Tid → List Event
  | [], _ => []
  | .enter task _ _ :: h, t => if task.tid = t then h else beforeCall h t
  | .exit _ _ _ :: h, t => beforeCall h t
  | .spawn _ :: h, t => beforeCall h t
  | .die _ :: h, t => beforeCall h t

/-- A return from call `nr` under comm `comm` ends the call in flight. -/
def Frame.Returns (f : Frame) (comm : Comm) (nr : Nr) : Prop := f.nr = nr ∧ f.task.comm = comm

instance (f : Frame) (comm : Comm) (nr : Nr) : Decidable (f.Returns comm nr) :=
  inferInstanceAs (Decidable (_ ∧ _))

/-- Each thread alternates enter and exit of one call, under one comm, and is in no call when it
is born or dies. -/
def Alternates (h : List Event) : Event → Prop
  | .enter task _ _ => (inflight h task.tid).isNone
  | .exit task nr _ => (inflight h task.tid).any fun f => f.Returns task.comm nr
  | .spawn t => (inflight h t).isNone
  | .die t => (inflight h t).isNone

instance (h : List Event) : ∀ e, Decidable (Alternates h e)
  | .enter _ _ _ => inferInstanceAs (Decidable (_ = true))
  | .exit _ _ _ => inferInstanceAs (Decidable (_ = true))
  | .spawn _ => inferInstanceAs (Decidable (_ = true))
  | .die _ => inferInstanceAs (Decidable (_ = true))

/-- A run of threads that alternate enter and exit. -/
abbrev Alternating (h : List Event) : Prop := EachStep Alternates h

/-- `Alternates`, but for the comm, which another thread may have changed during the call. -/
def Pairs (h : List Event) : Event → Prop
  | .enter task _ _ => (inflight h task.tid).isNone
  | .exit task nr _ => (inflight h task.tid).any fun f => f.nr = nr
  | .spawn t => (inflight h t).isNone
  | .die t => (inflight h t).isNone

instance (h : List Event) : ∀ e, Decidable (Pairs h e)
  | .enter _ _ _ => inferInstanceAs (Decidable (_ = true))
  | .exit _ _ _ => inferInstanceAs (Decidable (_ = true))
  | .spawn _ => inferInstanceAs (Decidable (_ = true))
  | .die _ => inferInstanceAs (Decidable (_ = true))

/-- The threads inside one of the calls `nrs`. -/
def inside (nrs : List Nr) (h : List Event) : Finset Tid :=
  (h.map Event.tid).toFinset.filter fun t => (inflight h t).any fun f => f.nr ∈ nrs

/-- At most `max_entries` threads are inside the calls `nrs` at once. -/
def Uncrowded (nrs : List Nr) (h : List Event) : Prop :=
  EachState (fun h => (inside nrs h).card ≤ maxEntries) h

instance (nrs : List Nr) (h : List Event) : Decidable (Uncrowded nrs h) :=
  inferInstanceAs (Decidable (EachState _ _))

/-- The threads alive, of `start` and those born since. -/
def alive (start : Finset Tid) : List Event → Finset Tid
  | [] => start
  | .spawn t :: h => insert t (alive start h)
  | .die t :: h => (alive start h).erase t
  | .enter _ _ _ :: h => alive start h
  | .exit _ _ _ :: h => alive start h

/-- Calls are made by living threads, a thread is born with a tid that no living thread has. -/
def Lives (start : Finset Tid) (h : List Event) : Event → Prop
  | .enter task _ _ => task.tid ∈ alive start h
  | .exit task _ _ => task.tid ∈ alive start h
  | .spawn t => t ∉ alive start h
  | .die t => t ∈ alive start h

instance (start : Finset Tid) (h : List Event) : ∀ e, Decidable (Lives start h e)
  | .enter _ _ _ => inferInstanceAs (Decidable (_ ∈ _))
  | .exit _ _ _ => inferInstanceAs (Decidable (_ ∈ _))
  | .spawn _ => inferInstanceAs (Decidable (¬ _))
  | .die _ => inferInstanceAs (Decidable (_ ∈ _))

/-! ## The call in flight -/

@[simp] theorem inflight_enter_self (task : Task) (nr : Nr) (args : Args) (h : List Event) :
    inflight (.enter task nr args :: h) task.tid = some ⟨task, nr, args⟩ := by simp [inflight]

@[simp] theorem inflight_exit_self (task : Task) (nr : Nr) (ret : Int) (h : List Event) :
    inflight (.exit task nr ret :: h) task.tid = none := by simp [inflight]

/-- Another thread's event leaves the call in flight. -/
theorem inflight_of_ne {e : Event} {t : Tid} (h : List Event) (hne : e.tid ≠ t) :
    inflight (e :: h) t = inflight h t := by
  cases e <;> simp_all [inflight, Event.tid]

@[simp] theorem inflight_spawn (u t : Tid) (h : List Event) :
    inflight (.spawn u :: h) t = inflight h t := rfl

@[simp] theorem inflight_die (u t : Tid) (h : List Event) :
    inflight (.die u :: h) t = inflight h t := rfl

theorem alternates_enter {h : List Event} {task : Task} {nr : Nr} {args : Args} :
    Alternates h (.enter task nr args) ↔ inflight h task.tid = none := by
  simp [Alternates]

/-- A return ends the call in flight, under the comm it was entered with. -/
theorem alternates_exit {h : List Event} {task : Task} {nr : Nr} {ret : Int} :
    Alternates h (.exit task nr ret) ↔
      ∃ f, inflight h task.tid = some f ∧ f.nr = nr ∧ f.task.comm = task.comm := by
  simp only [Alternates, Option.any_eq_true, decide_eq_true_eq]
  rfl

/-- What the frame in flight says of a return. -/
theorem alternates_frame {h : List Event} {task : Task} {nr : Nr} {ret : Int} {f : Frame}
    (ha : Alternates h (.exit task nr ret)) (hf : inflight h task.tid = some f) :
    f.nr = nr ∧ f.task.comm = task.comm := by
  obtain ⟨f', hf', hcall⟩ := alternates_exit.1 ha
  rw [hf] at hf'
  cases hf'
  exact hcall

theorem pairs_exit {h : List Event} {task : Task} {nr : Nr} {ret : Int} :
    Pairs h (.exit task nr ret) ↔ ∃ f, inflight h task.tid = some f ∧ f.nr = nr := by
  simp [Pairs, Option.any_eq_true]

theorem pairs_frame {h : List Event} {task : Task} {nr : Nr} {ret : Int} {f : Frame}
    (hp : Pairs h (.exit task nr ret)) (hf : inflight h task.tid = some f) : f.nr = nr := by
  obtain ⟨f', hf', hnr⟩ := pairs_exit.1 hp
  rw [hf] at hf'
  cases hf'
  exact hnr

/-- The frame on record for a thread is that thread's. -/
theorem inflight_tid {h : List Event} {t : Tid} {f : Frame} (hf : inflight h t = some f) :
    f.task.tid = t := by
  induction h with
  | nil => simp [inflight] at hf
  | cons e h ih =>
    cases e with
    | enter task nr args =>
      by_cases ht : task.tid = t
      · simp only [inflight, ht, if_true, Option.some.injEq] at hf
        subst hf; exact ht
      · exact ih (by simpa [inflight, ht] using hf)
    | exit task nr ret =>
      by_cases ht : task.tid = t
      · simp [inflight, ht] at hf
      · exact ih (by simpa [inflight, ht] using hf)
    | spawn u => exact ih hf
    | die u => exact ih hf

/-- Neither the entry nor the return of a call of `t`. -/
def Spares (t : Tid) : Event → Prop
  | .enter task _ _ => task.tid ≠ t
  | .exit task _ _ => task.tid ≠ t
  | .spawn _ => True
  | .die _ => True

instance (t : Tid) : ∀ e, Decidable (Spares t e)
  | .enter _ _ _ => inferInstanceAs (Decidable (_ ≠ _))
  | .exit _ _ _ => inferInstanceAs (Decidable (_ ≠ _))
  | .spawn _ => inferInstanceAs (Decidable True)
  | .die _ => inferInstanceAs (Decidable True)

theorem beforeCall_spares {e : Event} {h : List Event} {t : Tid} (he : Spares t e) :
    beforeCall (e :: h) t = beforeCall h t := by
  cases e with
  | enter task nr args => exact if_neg he
  | exit task nr ret => rfl
  | spawn u => rfl
  | die u => rfl

theorem beforeCall_suffix (h : List Event) (t : Tid) : beforeCall h t <:+ h := by
  induction h with
  | nil => exact List.suffix_rfl
  | cons e h ih =>
    cases e with
    | enter task nr args =>
      unfold beforeCall
      split
      · exact List.suffix_cons _ _
      · exact ih.trans (List.suffix_cons _ _)
    | exit task nr ret => exact ih.trans (List.suffix_cons _ _)
    | spawn u => exact ih.trans (List.suffix_cons _ _)
    | die u => exact ih.trans (List.suffix_cons _ _)

/-- What entering a call establishes, and no event but the thread's own calls breaks, holds while
the thread is in the call. -/
theorem while_inflight {I : List Event → Prop} {h : List Event} {t : Tid} {f : Frame}
    (henter : ∀ k, I (.enter f.task f.nr f.args :: k))
    (hkeep : ∀ e k, Spares t e → I k → I (e :: k)) (hf : inflight h t = some f) : I h := by
  induction h with
  | nil => simp [inflight] at hf
  | cons e h ih =>
    cases e with
    | enter task nr args =>
      by_cases ht : task.tid = t
      · simp only [inflight, ht, if_true, Option.some.injEq] at hf
        subst hf; exact henter h
      · exact hkeep _ h ht (ih (by simpa [inflight, ht] using hf))
    | exit task nr ret =>
      by_cases ht : task.tid = t
      · simp [inflight, ht] at hf
      · exact hkeep _ h ht (ih (by simpa [inflight, ht] using hf))
    | spawn u => exact hkeep _ h trivial (ih hf)
    | die u => exact hkeep _ h trivial (ih hf)

/-- A thread in a call has entered it. -/
theorem mem_tids_of_inflight {h : List Event} {t : Tid} {f : Frame}
    (hf : inflight h t = some f) : t ∈ (h.map Event.tid).toFinset := by
  induction h with
  | nil => simp [inflight] at hf
  | cons e h ih =>
    by_cases he : e.tid = t
    · simp [he]
    · rw [inflight_of_ne h he] at hf
      have := ih hf
      simp only [List.map_cons, List.toFinset_cons, Finset.mem_insert]
      exact .inr this

theorem mem_inside {nrs : List Nr} {h : List Event} {t : Tid} :
    t ∈ inside nrs h ↔ ∃ f, inflight h t = some f ∧ f.nr ∈ nrs := by
  simp only [inside, Finset.mem_filter, Option.any_eq_true, decide_eq_true_eq]
  constructor
  · exact fun ht => ht.2
  · exact fun ⟨f, hf, hnr⟩ => ⟨mem_tids_of_inflight hf, f, hf, hnr⟩

/-- Entering one of the calls makes one more thread inside them. -/
theorem card_inside_enter {nrs : List Nr} {h : List Event} {task : Task} {nr : Nr} (args : Args)
    (hn : inflight h task.tid = none) (hnr : nr ∈ nrs) :
    (inside nrs (.enter task nr args :: h)).card = (inside nrs h).card + 1 := by
  have hins : inside nrs (.enter task nr args :: h) = insert task.tid (inside nrs h) := by
    ext t
    simp only [mem_inside, Finset.mem_insert]
    by_cases ht : task.tid = t
    · subst ht; simp [hnr]
    · rw [inflight_of_ne h (by exact ht)]
      simp [Ne.symm ht]
  rw [hins, Finset.card_insert_of_notMem]
  simp [mem_inside, hn]

/-! ## Threads alive -/

/-- A thread in a call is alive. -/
theorem alive_of_inflight {start : Finset Tid} {h : List Event} {t : Tid} {f : Frame}
    (ha : Alternating h) (hl : EachStep (Lives start) h) (hf : inflight h t = some f) :
    t ∈ alive start h := by
  induction h with
  | nil => simp [inflight] at hf
  | cons e h ih =>
    by_cases he : e.tid = t
    · cases e with
      | enter task nr args => rw [← he]; exact hl.1
      | exit task nr ret => rw [← he] at hf; simp [Event.tid] at hf
      | spawn u => rw [← he]; simp [alive, Event.tid]
      | die u =>
        have hn : (inflight h u).isNone := ha.1
        rw [← he] at hf
        simp only [Event.tid, inflight_die] at hf
        simp [hf] at hn
    · have := ih ha.2 hl.2 (by rwa [inflight_of_ne h he] at hf)
      cases e with
      | enter task nr args => exact this
      | exit task nr ret => exact this
      | spawn u => exact Finset.mem_insert_of_mem this
      | die u => exact Finset.mem_erase.2 ⟨fun h' => he h'.symm, this⟩

end Bpf
