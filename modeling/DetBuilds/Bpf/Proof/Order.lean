import DetBuilds.Bpf.Joint
import DetBuilds.Bpf.TwoRuns
import DetBuilds.Bpf.Proof.FileRead
import DetBuilds.Bpf.Proof.Preload

/-!
# The order of the handlers on `newfstatat`

`exit_newfstatat_order`: in every state that the three programs reach together, the handlers of a
returning `newfstatat` leave the same memory and the same maps in whichever order they run. Each
program's maps are those of a run of its own with the same calls (`Component.run`), so each of
them writes through the pointer of the call that returns (`write_own`), and what they write does
not overlap. Read and preload filter never both write, because the one wants the comm `cc1` and the
other any other.
-/

set_option autoImplicit false

namespace Bpf

open History

/-! ## One program of the three -/

/-- The maps of program `a` in the joint state, handled by `p` and by no other program. -/
structure Component {σ α : Type} (p : Program σ α) (a : Attached) where
  get : Joint → σ
  get_empty : get .empty = p.empty
  get_step : ∀ e s, get (a.step e s).1 = (p.step e (get s)).1
  write_step : ∀ e s, (a.step e s).2 = (p.step e (get s)).2
  get_other : ∀ b e s, b ≠ a → get (b.step e s).1 = get s

def timestampComponent : Component ModifyFileTimestamp.program .modifyFileTimestamp where
  get := Joint.timestamp
  get_empty := rfl
  get_step _ _ := rfl
  write_step _ _ := rfl
  get_other b _ _ hb := by cases b <;> first | rfl | exact absurd rfl hb

def fileReadComponent : Component ModifyFileRead.program .modifyFileRead where
  get := Joint.fileRead
  get_empty := rfl
  get_step _ _ := rfl
  write_step _ _ := rfl
  get_other b _ _ hb := by cases b <;> first | rfl | exact absurd rfl hb

def preloadComponent : Component PreloadFilter.program .preloadFilter where
  get := Joint.preload
  get_empty := rfl
  get_step _ _ := rfl
  write_step _ _ := rfl
  get_other b _ _ hb := by cases b <;> first | rfl | exact absurd rfl hb

namespace Component

variable {σ α : Type} {p : Program σ α} {a : Attached} (C : Component p a)

theorem get_handleOthers (e : Event) (order : List Attached) (ha : a ∉ order) :
    ∀ x, C.get (order.foldl (handle e) x).1 = C.get x.1 := by
  induction order with
  | nil => exact fun _ => rfl
  | cons b order ih =>
    intro x
    have hb : b ≠ a := fun h => ha (h ▸ List.mem_cons_self ..)
    rw [List.foldl_cons, ih fun h => ha (List.mem_cons_of_mem b h)]
    exact C.get_other b _ _ hb

/-- Among the handlers of an event, the program's own handler runs once, on memory that earlier
ones may have changed. -/
theorem get_handle (e : Event) {order : List Attached} (ha : a ∈ order) (hd : order.Nodup) :
    ∀ x, ∃ m, C.get (order.foldl (handle e) x).1 = (p.step (e.withMem m) (C.get x.1)).1 := by
  induction order with
  | nil => cases ha
  | cons b order ih =>
    intro x
    obtain ⟨hb, hd⟩ := List.nodup_cons.1 hd
    rw [List.foldl_cons]
    by_cases hba : b = a
    · subst hba
      exact ⟨x.2, (C.get_handleOthers e order hb _).trans (C.get_step _ _)⟩
    · obtain ⟨m, hm⟩ := ih ((List.mem_cons.1 ha).resolve_left (Ne.symm hba)) hd (handle e x b)
      refine ⟨m, hm.trans ?_⟩
      rw [show C.get (handle e x b).1 = C.get x.1 from C.get_other b _ _ hba]

/-- **A program's maps are those of a run of its own** with the same calls. -/
theorem run (h : List JointEvent) :
    ∃ k, List.Forall₂ SameCall (jointEvents h) k ∧ C.get (jointRun h) = p.run k := by
  induction h with
  | nil => exact ⟨[], .nil, C.get_empty⟩
  | cons e h ih =>
    obtain ⟨k, hk, hrun⟩ := ih
    obtain ⟨m, hm⟩ := C.get_handle e.event (e.isOrder.mem a) e.isOrder.nodup
      (jointRun h, e.event.mem)
    refine ⟨e.event.withMem m :: k, .cons ?_ hk, ?_⟩
    · cases e.event <;> simp [SameCall, SameTask, Event.withMem]
    · rw [Program.run_cons, ← hrun]
      exact hm

end Component

/-! ## What each program writes -/

/-- Where in the `struct stat` a program writes, and how many bytes. -/
def Attached.field : Attached → Nat × Nat
  | .modifyFileTimestamp => (72, 32)
  | .modifyFileRead => (48, 8)
  | .preloadFilter => (48, 8)

/-- The write goes to the program's field of the `struct stat` at `statP`. -/
def Attached.Fits (a : Attached) (statP : Addr) (w : UserWrite) : Prop :=
  w.addr = statP + BitVec.ofNat 64 a.field.1 ∧ w.bytes.length = a.field.2

/-- The comm under which a program acts. -/
def Attached.Accepts (comm : Comm) : Attached → Prop
  | .modifyFileTimestamp => commFilter comm = true
  | .modifyFileRead => commFilter comm = true
  | .preloadFilter => commFilter comm = false

/-- No comm is accepted by both programs that rewrite sizes. -/
theorem not_both {comm : Comm} (hr : Attached.modifyFileRead.Accepts comm)
    (hp : Attached.preloadFilter.Accepts comm) : False := by
  have hr : commFilter comm = true := hr
  have hp : commFilter comm = false := hp
  rw [hr] at hp
  cases hp

section
variable {h : List JointEvent} {task : Task} {ret : Int} {f : Frame}

theorem timestamp_write_own {k : List Event} {w : UserWrite} (ha : Alternating k)
    (hf : inflight k task.tid = some f) (hc : f.task.comm = task.comm)
    (hw : ModifyFileTimestamp.program.write k (.exit task .newfstatat ret) = some w) :
    Attached.modifyFileTimestamp.Fits f.args.arg2 w ∧
      Attached.modifyFileTimestamp.Accepts task.comm := by
  obtain ⟨f', a, hf', hp, hthr⟩ := ModifyFileTimestamp.handOff.write_exit_sub ha hw
  rw [hf] at hf'; cases hf'
  obtain ⟨⟨-, hcc1⟩, rfl⟩ := ModifyFileTimestamp.pending_eq_some.1 hp
  cases hthr
  exact ⟨⟨rfl, rfl⟩, hc ▸ hcc1⟩

/-- A handler that writes does so under a comm it accepts, and to its field of the call's own
`struct stat`. -/
theorem write_own (ha : Alternating (.exit task .newfstatat ret :: jointEvents h))
    (hf : inflight (jointEvents h) task.tid = some f) (a : Attached) {w : UserWrite}
    (hw : (a.step (.exit task .newfstatat ret) (jointRun h)).2 = some w) :
    a.Fits f.args.arg2 w ∧ a.Accepts task.comm := by
  obtain ⟨hnr, hc⟩ := alternates_frame ha.1 hf
  cases a with
  | modifyFileTimestamp =>
    obtain ⟨k, hk, hrun⟩ := timestampComponent.run h
    obtain ⟨g, hg, ⟨-, hgc⟩, -, hargs⟩ := inflight_same_some hk hf
    rw [timestampComponent.write_step, hrun] at hw
    rw [hargs]
    exact timestamp_write_own (alternating_same hk ha.2) hg (hgc.symm.trans hc) hw
  | modifyFileRead =>
    obtain ⟨k, hk, hrun⟩ := fileReadComponent.run h
    obtain ⟨g, hg, ⟨-, hgc⟩, hgnr, hargs⟩ := inflight_same_some hk hf
    rw [fileReadComponent.write_step, hrun] at hw
    rw [hargs]
    obtain ⟨hcc1, -, hown⟩ := ModifyFileRead.of_write_newfstatat hg (hgnr.symm.trans hnr) hw
    rw [hown (by rw [← hgc, hc]; exact hcc1)]
    exact ⟨⟨rfl, rfl⟩, hcc1⟩
  | preloadFilter =>
    obtain ⟨k, hk, hrun⟩ := preloadComponent.run h
    obtain ⟨g, hg, ⟨-, hgc⟩, hgnr, hargs⟩ := inflight_same_some hk hf
    rw [preloadComponent.write_step, hrun] at hw
    rw [hargs]
    obtain ⟨hno, -, hown⟩ := PreloadFilter.of_write_newfstatat hg (hgnr.symm.trans hnr) hw
    rw [hown (by rw [← hgc, hc]; exact hno)]
    exact ⟨⟨rfl, rfl⟩, hno⟩

/-- The handlers of a returning `newfstatat` do not look at user memory. -/
theorem step_withMem (a : Attached) (m : ByteMem) (s : Joint) :
    a.step (Event.withMem m (.exit task .newfstatat ret)) s =
      a.step (.exit task .newfstatat ret) s := by
  cases a with
  | modifyFileTimestamp =>
    simp only [Attached.step, Event.withMem, ModifyFileTimestamp.step_exit]
  | modifyFileRead =>
    simp only [Attached.step, Event.withMem, ModifyFileRead.step_exit_newfstatat]
  | preloadFilter =>
    simp only [Attached.step, Event.withMem, PreloadFilter.step_exit_newfstatat]

end

/-! ## Handlers in any order -/

theorem step_comm (e : Event) (a b : Attached) (s : Joint) :
    (a.step e (b.step e s).1).1 = (b.step e (a.step e s).1).1 := by
  cases a <;> cases b <;> rfl

theorem write_step_ne (e : Event) {a b : Attached} (hab : a ≠ b) (s : Joint) :
    (a.step e (b.step e s).1).2 = (a.step e s).2 := by
  cases a <;> cases b <;> first | rfl | exact absurd rfl hab

/-- The maps after the handlers, where none of them looks at user memory. -/
def mapsAfter (e : Event) (order : List Attached) (s : Joint) : Joint :=
  order.foldl (fun s a => (a.step e s).1) s

/-- User memory after the given writes, one for each handler. -/
def memAfterAll (writes : Attached → Option UserWrite) (order : List Attached) (m : ByteMem) :
    ByteMem :=
  order.foldl (fun m a => applyWrite (writes a) m) m

/-- Handlers that do not look at user memory each write what they would write first. -/
theorem foldl_handle {e : Event} (hmem : ∀ (a : Attached) m s, a.step (e.withMem m) s = a.step e s)
    {order : List Attached} (hd : order.Nodup) : ∀ s m, order.foldl (handle e) (s, m) =
      (mapsAfter e order s, memAfterAll (fun a => (a.step e s).2) order m) := by
  induction order with
  | nil => exact fun _ _ => rfl
  | cons a order ih =>
    intro s m
    obtain ⟨ha, hd⟩ := List.nodup_cons.1 hd
    rw [List.foldl_cons]
    have hstep : handle e (s, m) a = ((a.step e s).1, applyWrite (a.step e s).2 m) := by
      simp only [handle, hmem]
    rw [hstep, ih hd]
    refine congrArg (Prod.mk _) (List.foldl_ext _ _ _ fun m b hb => ?_)
    exact congrArg (applyWrite · m) (write_step_ne e (fun hba : b = a => ha (hba ▸ hb)) s)

/-- Writes that do not overlap commute. -/
theorem applyWrite_comm {w v : Option UserWrite} (m : ByteMem)
    (hsep : ∀ w' ∈ w, ∀ v' ∈ v, ByteMem.Sep w'.addr w'.bytes.length v'.addr v'.bytes.length) :
    applyWrite v (applyWrite w m) = applyWrite w (applyWrite v m) := by
  cases w with
  | none => rfl
  | some w' =>
    cases v with
    | none => rfl
    | some v' => exact ByteMem.store_store_comm m (hsep w' rfl v' rfl)

/-- A byte that the writes change lies in the range of one of them. -/
theorem memAfterAll_frame {writes : Attached → Option UserWrite} {x : Addr}
    (order : List Attached) : ∀ m : ByteMem, (memAfterAll writes order m).byte x ≠ m.byte x →
      ∃ a w, writes a = some w ∧ InRange x w.addr w.bytes.length := by
  induction order with
  | nil => exact fun _ h => absurd rfl h
  | cons a order ih =>
    intro m hne
    by_cases h : (applyWrite (writes a) m).byte x = m.byte x
    · exact ih (applyWrite (writes a) m) (by rw [h]; exact hne)
    · cases hw : writes a with
      | none => rw [hw] at h; exact absurd rfl h
      | some w =>
        refine ⟨a, w, hw, ?_⟩
        by_contra hout
        rw [hw] at h
        exact h (ByteMem.store_frame hout)

/-! ## The fields of a `struct stat` -/

/-- `sizeof(struct stat)`. -/
def structStatSize : Nat := 144

theorem inRange_field {x p : Addr} {off len n : Nat} (hn : off + len ≤ n) (hsize : n < 2 ^ 64)
    (hx : InRange x (p + BitVec.ofNat 64 off) len) : InRange x p n := by
  have hx := (ByteMem.inRange_off (by omega)).1 hx
  exact Nat.lt_of_lt_of_le hx.2 hn

/-- The timestamps lie behind the size. -/
theorem sep_fields (p : Addr) :
    ByteMem.Sep (p + BitVec.ofNat 64 48) 8 (p + BitVec.ofNat 64 72) 32 :=
  ByteMem.sep_off p (by decide) (by decide)

/-- Writes of two programs that accept the same comm do not overlap. -/
theorem sep_of_fits {a b : Attached} (hab : a ≠ b) {comm : Comm} {p : Addr} {w v : UserWrite}
    (hw : a.Fits p w ∧ a.Accepts comm) (hv : b.Fits p v ∧ b.Accepts comm) :
    ByteMem.Sep w.addr w.bytes.length v.addr v.bytes.length := by
  obtain ⟨⟨hwa, hwl⟩, hwc⟩ := hw
  obtain ⟨⟨hva, hvl⟩, hvc⟩ := hv
  rw [hwa, hwl, hva, hvl]
  cases a <;> cases b
  case modifyFileTimestamp.modifyFileRead => exact ByteMem.Sep.symm (sep_fields p)
  case modifyFileTimestamp.preloadFilter => exact ByteMem.Sep.symm (sep_fields p)
  case modifyFileRead.modifyFileTimestamp => exact sep_fields p
  case preloadFilter.modifyFileTimestamp => exact sep_fields p
  case modifyFileRead.preloadFilter => exact (not_both hwc hvc).elim
  case preloadFilter.modifyFileRead => exact (not_both hvc hwc).elim
  all_goals exact absurd rfl hab

/-- The handlers of a returning `newfstatat` change the maps and make their writes independently of
each other. -/
theorem handleAll_exit {task : Task} {ret : Int} (s : Joint) {order : List Attached}
    (ho : IsOrder order) : handleAll order (.exit task .newfstatat ret) s =
      (mapsAfter (.exit task .newfstatat ret) order s,
        memAfterAll (fun a => (a.step (.exit task .newfstatat ret) s).2) order task.mem) :=
  foldl_handle (fun a m s => step_withMem a m s) ho.nodup s task.mem

/-- Handlers that write to their own fields, under comms they accept, run in any order. -/
theorem handleAll_order {task : Task} {ret : Int} {s : Joint} {p : Addr}
    (hown : ∀ a w, (Attached.step (.exit task .newfstatat ret) s a).2 = some w →
      a.Fits p w ∧ a.Accepts task.comm) {o₁ o₂ : List Attached} (ho₁ : IsOrder o₁)
    (ho₂ : IsOrder o₂) : handleAll o₁ (.exit task .newfstatat ret) s =
      handleAll o₂ (.exit task .newfstatat ret) s := by
  have hp : o₁.Perm o₂ := ho₁.trans ho₂.symm
  rw [handleAll_exit s ho₁, handleAll_exit s ho₂]
  have hmaps : mapsAfter (.exit task .newfstatat ret) o₁ s =
      mapsAfter (.exit task .newfstatat ret) o₂ s :=
    hp.foldl_eq' (fun a _ b _ s => step_comm _ b a s) _
  rw [hmaps]
  refine congrArg (Prod.mk _) (hp.foldl_eq' (fun a _ b _ m => ?_) _)
  by_cases hab : a = b
  · rw [hab]
  · exact applyWrite_comm m fun w hw v hv => sep_of_fits hab (hown a w hw) (hown b v hv)

/-- **Order of the handlers**: when a `newfstatat` returns in a state that the three programs have
reached together, their handlers leave the same maps and the same memory in every order, at most
one of `modify_file_read` and `preload_filter` writes, whatever memory they are shown, and only
bytes of the `struct stat` passed to the call change. -/
theorem exit_newfstatat_order {h : List JointEvent} {task : Task} {ret : Int}
    (ha : Alternating (.exit task .newfstatat ret :: jointEvents h)) :
    (∀ o₁ o₂, IsOrder o₁ → IsOrder o₂ →
      handleAll o₁ (.exit task .newfstatat ret) (jointRun h) =
        handleAll o₂ (.exit task .newfstatat ret) (jointRun h)) ∧
    (∀ m₁ m₂,
      (ModifyFileRead.program.step (.exit { task with mem := m₁ } .newfstatat ret)
        (jointRun h).fileRead).2 = none ∨
      (PreloadFilter.program.step (.exit { task with mem := m₂ } .newfstatat ret)
        (jointRun h).preload).2 = none) ∧
    (∃ f, inflight (jointEvents h) task.tid = some f ∧ f.nr = .newfstatat ∧
      ∀ o, IsOrder o → ∀ x,
        (handleAll o (.exit task .newfstatat ret) (jointRun h)).2.byte x ≠ task.mem.byte x →
          InRange x f.args.arg2 structStatSize) := by
  obtain ⟨f, hf, hnr, -⟩ := alternates_exit.1 ha.1
  have hown := fun a w => write_own (w := w) ha hf a
  refine ⟨fun o₁ o₂ => handleAll_order hown, fun m₁ m₂ => ?_, f, hf, hnr, fun o ho x hx => ?_⟩
  · cases hw : (ModifyFileRead.program.step (.exit { task with mem := m₁ } .newfstatat ret)
        (jointRun h).fileRead).2 with
    | none => exact .inl rfl
    | some w =>
      cases hv : (PreloadFilter.program.step (.exit { task with mem := m₂ } .newfstatat ret)
          (jointRun h).preload).2 with
      | none => exact .inr rfl
      | some v =>
        have h₁ := (hown .modifyFileRead w
          ((congrArg Prod.snd (step_withMem .modifyFileRead m₁ (jointRun h))).symm.trans hw)).2
        have h₂ := (hown .preloadFilter v
          ((congrArg Prod.snd (step_withMem .preloadFilter m₂ (jointRun h))).symm.trans hv)).2
        exact (not_both h₁ h₂).elim
  · rw [handleAll_exit _ ho] at hx
    obtain ⟨a, w, hw, hin⟩ := memAfterAll_frame o task.mem hx
    obtain ⟨⟨haddr, hlen⟩, -⟩ := hown a w hw
    rw [haddr, hlen] at hin
    have hfit : a.field.1 + a.field.2 ≤ structStatSize := by cases a <;> decide
    exact inRange_field hfit (by decide) hin

/-- `cc1` has opened the zone file and is asking for its size. -/
def zoneStat : List JointEvent :=
  [.enter (ModifyFileRead.localtimeTask 1) .newfstatat ⟨3, 0x5000, 0x2000, 0x1000, 0, 0⟩,
   .exit (ModifyFileRead.localtimeTask 1) .openat 3,
   .enter (ModifyFileRead.localtimeTask 1) .openat ⟨0, 0x1000, 0, 0, 0, 0⟩].map
  fun e => ⟨e, [.modifyFileTimestamp, .modifyFileRead, .preloadFilter], .refl _⟩

theorem exit_newfstatat_order_zoneStat :
    handleAll [.modifyFileTimestamp, .modifyFileRead, .preloadFilter]
        (.exit (cc1Task 1) .newfstatat 0) (jointRun zoneStat) =
      handleAll [.preloadFilter, .modifyFileRead, .modifyFileTimestamp]
        (.exit (cc1Task 1) .newfstatat 0) (jointRun zoneStat) :=
  (exit_newfstatat_order (h := zoneStat) (by decide)).1 _ _ (.refl _)
    (by unfold IsOrder; decide)

end Bpf
