import DetBuilds.Bpf.System
import DetBuilds.Bpf.Proof.HandOff

/-!
# The system is the product of its programs

At no event does what one program does depend on what another one writes (`independent`): user
memory is written when a call returns, and the only handler that then reads it, that of
`modify_file_name`, belongs to `openat`, whose return no other program handles. So each loaded
program has the maps of a run of its own (`systemRun_apply`), and what an event leaves of memory is
the sum of the writes of the programs on their own (`systemMem_eq`).
-/

set_option autoImplicit false

namespace Bpf

open History

namespace App

/-- No handler writes when a call is entered. -/
theorem write_enter (a : App) (task : Task) (nr : Nr) (args : Args) (s : a.Maps) :
    (a.program.step (.enter task nr args) s).2 = none := by
  cases a with
  | modifyTime => exact ModifyTime.handOff.enter_write task nr args s
  | modifyFileTimestamp => exact ModifyFileTimestamp.handOff.enter_write task nr args s
  | modifyFileName => exact ModifyFileName.handOff.enter_write task nr args s
  | preloadFilter => exact congrArg Prod.snd (PreloadFilter.step_enter task nr args s)
  | modifyFileRead => exact congrArg Prod.snd (ModifyFileRead.step_enter task nr args s)

/-- But for `modify_file_name`, no handler of a return looks at user memory. -/
theorem step_exit_withMem {a : App} (ha : a ≠ .modifyFileName) (task : Task) (nr : Nr) (ret : Int)
    (m : ByteMem) (s : a.Maps) : a.program.step (.exit { task with mem := m } nr ret) s =
      a.program.step (.exit task nr ret) s := by
  cases a with
  | modifyTime =>
    exact (ModifyTime.step_exit _ nr ret s).trans (ModifyTime.step_exit task nr ret s).symm
  | modifyFileTimestamp =>
    exact (ModifyFileTimestamp.step_exit _ nr ret s).trans
      (ModifyFileTimestamp.step_exit task nr ret s).symm
  | modifyFileName => exact absurd rfl ha
  | preloadFilter => cases nr <;> rfl
  | modifyFileRead => cases nr <;> rfl

/-- No other program than `modify_file_name` handles the return of `openat`. -/
theorem step_exit_openat {a : App} (ha : a ≠ .modifyFileName) (task : Task) (ret : Int)
    (s : a.Maps) : a.program.step (.exit task .openat ret) s = (s, none) := by
  cases a with
  | modifyFileName => exact absurd rfl ha
  | modifyTime | modifyFileTimestamp | preloadFilter | modifyFileRead => rfl

/-- And it handles no other return. -/
theorem step_exit_fileName {nr : Nr} (hnr : nr ≠ .openat) (task : Task) (ret : Int)
    (s : ModifyFileName.Maps) : ModifyFileName.program.step (.exit task nr ret) s = (s, none) := by
  rw [ModifyFileName.step_exit, if_neg fun h => hnr h.1]

end App

/-- **No program depends on what another one writes.** -/
theorem independent (e : Event) : system.Independent e := by
  intro a b hab m s s'
  show a.program.step (e.withMem (applyWrite (b.program.step (e.withMem m) s').2 m)) s =
    a.program.step (e.withMem m) s
  cases e with
  | enter task nr args =>
    rw [show (b.program.step (Event.withMem m (.enter task nr args)) s').2 = none from
      b.write_enter _ nr args s']
    rfl
  | exit task nr ret =>
    by_cases ha : a = .modifyFileName
    · subst ha
      by_cases hnr : nr = .openat
      · subst hnr
        rw [show b.program.step (Event.withMem m (.exit task .openat ret)) s' = (s', none) from
          b.step_exit_openat (Ne.symm hab) _ ret s']
        rfl
      · exact (App.step_exit_fileName hnr _ ret s).trans (App.step_exit_fileName hnr _ ret s).symm
    · exact (App.step_exit_withMem ha task nr ret _ s).trans
        (App.step_exit_withMem ha task nr ret m s).symm
  | spawn t => rfl
  | die t => rfl

theorem withMem_mem (e : Event) : e.withMem e.mem = e := by cases e <;> rfl

section
variable {apps : List App} (hd : apps.Nodup)

include hd

/-- **A loaded program has the maps of a run of its own**, in whichever orders the handlers run. -/
theorem systemRun_apply (h : List (SystemEvent apps)) {a : App} (ha : a ∈ apps) :
    systemRun h a = a.program.run (systemEvents h) := by
  have hh : ∀ x ∈ h.map fun e => (e.event, e.order), system.Steady x.1 ∧ x.2.Nodup := by
    intro x hx
    obtain ⟨e, -, rfl⟩ := List.mem_map.1 hx
    exact ⟨(independent e.event).steady, e.isOrder.nodup_iff.2 hd⟩
  have hall : ∀ x ∈ h.map fun e => (e.event, e.order), a ∈ x.2 := by
    intro x hx
    obtain ⟨e, -, rfl⟩ := List.mem_map.1 hx
    exact e.isOrder.mem_iff.2 ha
  have hevents : (h.map fun e => (e.event, e.order)).map Prod.fst = systemEvents h := List.map_map
  have hstep : (fun e s => (system.step a e (system.mem e) s).1) =
      fun e s => (a.program.step e s).1 := by
    funext e s
    exact congrArg (fun e => (a.program.step e s).1) (withMem_mem e)
  refine (system.run_apply_of_mem hh hall).trans ?_
  rw [hevents, hstep]
  rfl

/-- **Memory is the sum of the writes of the programs on their own.** -/
theorem systemMem_eq (h : List (SystemEvent apps)) (e : SystemEvent apps) :
    systemMem h e =
      e.order.foldl (fun m a => applyWrite (a.program.write (systemEvents h) e.event) m)
        e.event.mem := by
  unfold systemMem
  rw [system.actAll_eq (independent e.event) (e.isOrder.nodup_iff.2 hd)]
  refine List.foldl_ext _ _ _ fun m a ha => ?_
  have ha : a ∈ apps := e.isOrder.mem_iff.1 ha
  show applyWrite (a.program.step (e.event.withMem e.event.mem) (systemRun h a)).2 m = _
  rw [withMem_mem, systemRun_apply hd h ha]
  rfl

end

end Bpf
