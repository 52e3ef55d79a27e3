import DetBuilds.Bpf.Proof.Refine

/-!
# Loading a program again changes nothing

`start.sh` can be run twice, and then each program is loaded twice. All copies of a program get into
the same state (`copiesRun_apply`), and what the first of them has written the others leave as it is:
the only one that looks at memory when a call returns, `modify_file_name`, writes the same byte again
or nothing (`pass_pass`). So every event leaves what it leaves with each program loaded once
(`copies_eq_once`).
-/

set_option autoImplicit false

namespace Bpf

open History

theorem applyWrite_applyWrite (w : Option UserWrite) (m : ByteMem) :
    applyWrite w (applyWrite w m) = applyWrite w m := by
  cases w with
  | none => rfl
  | some w => exact ByteMem.store_store_self rfl

/-- The only write that `modify_file_name` makes through a pointer. -/
theorem ModifyFileName.write_eq {task : Task} {nr : Nr} {ret : Int} {s : Maps} {w : UserWrite}
    (hw : (program.step (.exit task nr ret) s).2 = some w) :
    ∃ filenameP, s.filenames.lookup task.tid = some filenameP ∧ w = ⟨filenameP, [0]⟩ := by
  rw [step_exit] at hw
  split at hw
  · cases hl : s.filenames.lookup task.tid with
    | none => rw [hl] at hw; cases hw
    | some filenameP =>
      rw [hl] at hw
      exact ⟨filenameP, rfl, (emptied_eq_some.1 hw).2.symm⟩
  · cases hw

/-- Once more at the same event, a program in the same state writes the same again, or nothing. -/
theorem App.write_again (a : App) (e : Event) (s : a.Maps) (m : ByteMem) :
    (a.program.step (e.withMem (applyWrite (a.program.step (e.withMem m) s).2 m)) s).2 = none ∨
    (a.program.step (e.withMem (applyWrite (a.program.step (e.withMem m) s).2 m)) s).2 =
      (a.program.step (e.withMem m) s).2 := by
  cases e with
  | enter task nr args => exact .inl (a.write_enter _ nr args s)
  | spawn t => exact .inl (congrArg Prod.snd (a.program.step_spawn t s))
  | die t => exact .inl (congrArg Prod.snd (a.program.step_die t s))
  | exit task nr ret =>
    by_cases ha : a = .modifyFileName
    · subst ha
      -- the name it reads is the one that it has written to
      have key : ∀ w w₂ : Option UserWrite,
          (ModifyFileName.program.step (.exit { task with mem := m } nr ret) s).2 = w →
          (ModifyFileName.program.step (.exit { task with mem := applyWrite w m } nr ret) s).2 = w₂ →
          w₂ = none ∨ w₂ = w := by
        intro w w₂ hw hw₂
        cases w with
        | none => exact .inr (hw₂.symm.trans hw)
        | some v =>
          cases w₂ with
          | none => exact .inl rfl
          | some v₂ =>
            obtain ⟨p, hp, rfl⟩ := ModifyFileName.write_eq hw
            obtain ⟨p₂, hp₂, rfl⟩ := ModifyFileName.write_eq hw₂
            cases hp.symm.trans hp₂
            exact .inr rfl
      exact key _ _ rfl rfl
    · refine .inr (congrArg Prod.snd ?_)
      exact (step_exit_withMem ha task nr ret _ s).trans (step_exit_withMem ha task nr ret m s).symm

/-- **A program leaves what it has written as it is.** -/
theorem pass_pass (e : Event) (s : system.All) (m : ByteMem) (a : App) :
    system.pass e s a (system.pass e s a m) = system.pass e s a m := by
  have hleft : ∀ s : a.Maps,
      applyWrite (a.program.step (e.withMem (applyWrite (a.program.step (e.withMem m) s).2 m)) s).2
        (applyWrite (a.program.step (e.withMem m) s).2 m) =
      applyWrite (a.program.step (e.withMem m) s).2 m := by
    intro s
    rcases a.write_again e s m with hw | hw
    · rw [hw]
      rfl
    · rw [hw]
      exact applyWrite_applyWrite _ m
  exact hleft (s a)

theorem alternates_withMem {h : List Event} {e : Event} (m : ByteMem) :
    Alternates h (e.withMem m) ↔ Alternates h e := by
  cases e <;> exact Iff.rfl

/-- It does not matter which of two programs comes first. -/
theorem pass_comm {h : List Event} {e : Event} (ha : Alternates h e) (halt : Alternating h)
    (m : ByteMem) (a b : App) :
    system.pass e (fun c => c.program.run h) b (system.pass e (fun c => c.program.run h) a m) =
      system.pass e (fun c => c.program.run h) a
        (system.pass e (fun c => c.program.run h) b m) := by
  by_cases hab : a = b
  · rw [hab]
  · have hnext : ∀ {a b : App}, a ≠ b →
        system.pass e (fun c => c.program.run h) b (system.pass e (fun c => c.program.run h) a m) =
          applyWrite (b.program.write h (e.withMem m))
            (applyWrite (a.program.write h (e.withMem m)) m) := fun {a b} hab =>
      congrArg (fun r => applyWrite (Prod.snd r) (applyWrite (a.program.write h (e.withMem m)) m))
        (independent e b a (Ne.symm hab) m (b.program.run h) (a.program.run h))
    rw [hnext hab, hnext (Ne.symm hab)]
    exact write_comm ⟨(alternates_withMem m).2 ha, halt⟩ (Ne.symm hab) m

/-- The maps that a return leaves do not depend on user memory. -/
theorem App.state_exit_withMem (a : App) (task : Task) (nr : Nr) (ret : Int) (m : ByteMem)
    (s : a.Maps) : (a.program.step (.exit { task with mem := m } nr ret) s).1 =
      (a.program.step (.exit task nr ret) s).1 := by
  by_cases ha : a = .modifyFileName
  · subst ha
    have hsame : ∀ s : ModifyFileName.Maps,
        (ModifyFileName.program.step (.exit { task with mem := m } nr ret) s).1 =
          (ModifyFileName.program.step (.exit task nr ret) s).1 := by
      intro s
      rw [ModifyFileName.step_exit, ModifyFileName.step_exit]
      dsimp only
      split
      · cases s.filenames.lookup task.tid <;> rfl
      · rfl
    exact hsame s
  · exact congrArg Prod.fst (step_exit_withMem ha task nr ret m s)

/-- The next state of a copy does not depend on what another one writes. -/
theorem copies_steady (e : Event) : copies.Steady e := by
  rintro ⟨a, i⟩ ⟨b, j⟩ - m s s'
  cases e with
  | enter task nr args =>
    have hnone : (b.program.step (Event.withMem m (.enter task nr args)) s').2 = none :=
      b.write_enter _ nr args s'
    exact congrArg (fun w => (a.program.step (Event.withMem (applyWrite w m) (.enter task nr args))
      s).1) hnone
  | exit task nr ret =>
    exact (a.state_exit_withMem task nr ret _ s).trans (a.state_exit_withMem task nr ret m s).symm
  | spawn t => rfl
  | die t => rfl

section
variable {loaded : List (App × Nat)} (hl : loaded.Nodup)

include hl

/-- **A copy of a program has the maps of a run of its own.** -/
theorem copiesRun_apply (h : List (CopiesEvent loaded)) {i : App × Nat} (hi : i ∈ loaded) :
    copiesRun h i = i.1.program.run (copiesEvents h) := by
  have hh : ∀ x ∈ h.map fun e => (e.event, e.order), copies.Steady x.1 ∧ x.2.Nodup := by
    intro x hx
    obtain ⟨e, -, rfl⟩ := List.mem_map.1 hx
    exact ⟨copies_steady e.event, e.isOrder.nodup_iff.2 hl⟩
  have hall : ∀ x ∈ h.map fun e => (e.event, e.order), i ∈ x.2 := by
    intro x hx
    obtain ⟨e, -, rfl⟩ := List.mem_map.1 hx
    exact e.isOrder.mem_iff.2 hi
  have hevents : (h.map fun e => (e.event, e.order)).map Prod.fst = copiesEvents h := List.map_map
  have hstep : (fun e s => (copies.step i e (copies.mem e) s).1) =
      fun e s => (i.1.program.step e s).1 := by
    funext e s
    exact congrArg (fun e => (i.1.program.step e s).1) (withMem_mem e)
  refine (copies.run_apply_of_mem hh hall).trans ?_
  rw [hevents, hstep]
  rfl

end

theorem systemEvents_once {loaded : List (App × Nat)} (apps : List App)
    (h : List (CopiesEvent loaded)) :
    systemEvents (h.map (CopiesEvent.once apps)) = copiesEvents h :=
  List.map_map

/-- **Loading a program again changes nothing**: however often each program is loaded, and in
whichever orders the handlers run, every copy has the maps that the program has when it is loaded
once, and every event leaves the memory that it leaves then. -/
theorem copies_eq_once {loaded : List (App × Nat)} {apps : List App} (hl : loaded.Nodup)
    (hd : apps.Nodup) (hmem : ∀ a, a ∈ apps ↔ a ∈ loaded.map Prod.fst)
    {h : List (CopiesEvent loaded)} (ha : Alternating (copiesEvents h)) :
    EachState (fun k => ∀ i ∈ loaded,
      copiesRun k i = systemRun (k.map (CopiesEvent.once apps)) i.1) h ∧
    EachStep (fun k e => copiesMem k e =
      systemMem (k.map (CopiesEvent.once apps)) (e.once apps)) h := by
  have honce : ∀ (k : List (CopiesEvent loaded)) {a : App}, a ∈ apps →
      systemRun (k.map (CopiesEvent.once apps)) a = a.program.run (copiesEvents k) := by
    intro k a ha
    rw [systemRun_apply hd _ ha, systemEvents_once]
  refine ⟨eachState_iff.2 fun k _ i hi => ?_, eachStep_iff.2 fun e k hs => ?_⟩
  · exact (copiesRun_apply hl k hi).trans (honce k ((hmem i.1).2 (List.mem_map_of_mem hi))).symm
  · have halt : Alternating (e.event :: copiesEvents k) := ha.suffix (hs.map CopiesEvent.event)
    have hpass : (copies.actAll e.order e.event (copiesRun k)).2 =
        (system.actAll apps e.event fun a => a.program.run (copiesEvents k)).2 := by
      refine system.copies_actAll_mem (e.isOrder.nodup_iff.2 hl)
        (fun i hi => copiesRun_apply hl k (e.isOrder.mem_iff.1 hi))
        (fun m a b => pass_comm halt.1 halt.2 m a b) (fun m a => pass_pass e.event _ m a) hd
        fun a => ?_
      rw [hmem, (e.isOrder.map Prod.fst).mem_iff]
    exact hpass.trans (system.actAll_mem_congr hd fun a ha => (honce k ha).symm)

/-- What is loaded after `start.sh` has been run twice. -/
def loadedTwice : List (App × Nat) := bpfApps.map (·, 0) ++ bpfApps.map (·, 1)

/-- The compiler asks for the time. -/
def loadedTwiceRun : List (CopiesEvent loadedTwice) :=
  [⟨.exit (cc1Task 1) .clockGettime 0, loadedTwice.reverse, List.reverse_perm _⟩,
   ⟨.enter (cc1Task 1) .clockGettime ⟨0, 0x1000, 0, 0, 0, 0⟩, loadedTwice, .refl _⟩]

theorem copies_eq_once_loadedTwiceRun :
    EachState (fun k => ∀ i ∈ loadedTwice,
      copiesRun k i = systemRun (k.map (CopiesEvent.once bpfApps)) i.1) loadedTwiceRun ∧
    EachStep (fun k e => copiesMem k e =
      systemMem (k.map (CopiesEvent.once bpfApps)) (e.once bpfApps)) loadedTwiceRun :=
  copies_eq_once (by decide) (by decide) (by intro a; cases a <;> decide) (by decide)

end Bpf
