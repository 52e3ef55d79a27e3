import DetBuilds.Lib.History
import Mathlib.Data.List.Perm.Basic
import Mathlib.Logic.Function.Basic

/-!
# Machines side by side

A family of machines that share a memory and nothing else. An event finds the memory in some state;
the machines act on it one after the other, in an order that belongs to the event, and each of them
sees the memory as those before it have left it (`actAll`). If no machine's step depends on what
another one writes at the same event (`Independent`), the family is the product of its members:

* `actAll_eq`: each machine acts as if it were the first, and the edits add up;
* `actAll_perm`: if the edits commute, the order does not matter;
* `run_apply`: a machine's state after a run is that of a run of its own, for which it is enough that
  no machine's next state depends on what another one writes (`Steady`).

Of each machine there can be several `copies`, which all do the same: where acting again does nothing
more, it does not matter how many there are (`copies_actAll_mem`).
-/

set_option autoImplicit false

/-- Machines with states of their own that edit one memory. -/
structure SideBySide (ι ε μ ω : Type) where
  State : ι → Type
  start : ∀ i, State i
  step : ∀ i, ε → μ → State i → State i × ω
  edit : ω → μ → μ
  mem : ε → μ

namespace SideBySide

open History

variable {ι ε μ ω : Type} (M : SideBySide ι ε μ ω)

/-- A state for each machine. -/
abbrev All := ∀ i, M.State i

/-- What a machine in its state makes of the memory. -/
def pass (e : ε) (s : M.All) (i : ι) (m : μ) : μ := M.edit (M.step i e m (s i)).2 m

/-- No machine's next state depends on what another one writes at the event. -/
def Steady (e : ε) : Prop :=
  ∀ i j, i ≠ j → ∀ m s s',
    (M.step i e (M.edit (M.step j e m s').2 m) s).1 = (M.step i e m s).1

/-- No machine's step depends on what another one writes at the event. -/
def Independent (e : ε) : Prop :=
  ∀ i j, i ≠ j → ∀ m s s', M.step i e (M.edit (M.step j e m s').2 m) s = M.step i e m s

variable {M}

theorem Independent.steady {e : ε} (hind : M.Independent e) : M.Steady e :=
  fun i j hij m s s' => congrArg Prod.fst (hind i j hij m s s')

/-- What independent machines make of the memory, one after the other, each would make of it as the
first. -/
theorem foldl_pass {e : ε} (hind : M.Independent e) {order : List ι} (hd : order.Nodup)
    (s : M.All) : ∀ m, order.foldl (fun m i => M.pass e s i m) m =
      order.foldl (fun m' i => M.edit (M.step i e m (s i)).2 m') m := by
  induction order with
  | nil => exact fun m => rfl
  | cons a order ih =>
    intro m
    obtain ⟨ha, hd⟩ := List.nodup_cons.1 hd
    rw [List.foldl_cons, List.foldl_cons, ih hd]
    refine List.foldl_ext _ _ _ fun m' i hi => ?_
    have hne : i ≠ a := fun h => ha (h ▸ hi)
    unfold pass
    rw [hind i a hne]

/-! ## One after the other -/

variable [DecidableEq ι] (M)

/-- One machine acts on the memory as it finds it. -/
def act (e : ε) (x : M.All × μ) (i : ι) : M.All × μ :=
  let r := M.step i e x.2 (x.1 i)
  (Function.update x.1 i r.1, M.edit r.2 x.2)

/-- The machines act in the given order. -/
def actAll (order : List ι) (e : ε) (s : M.All) : M.All × μ := order.foldl (M.act e) (s, M.mem e)

/-- The states after a run whose events come with the order in which the machines act. -/
def run (h : List (ε × List ι)) : M.All := after (fun x s => (M.actAll x.2 x.1 s).1) M.start h

variable {M}

/-- From any memory, each of the machines gets into the state it would get into as the first. -/
theorem foldl_act_state {e : ε} (hst : M.Steady e) {order : List ι} (hd : order.Nodup) :
    ∀ s m, (order.foldl (M.act e) (s, m)).1 =
      fun i => if i ∈ order then (M.step i e m (s i)).1 else s i := by
  induction order with
  | nil => exact fun s m => by simp
  | cons a order ih =>
    intro s m
    obtain ⟨ha, hd⟩ := List.nodup_cons.1 hd
    rw [List.foldl_cons]
    show (order.foldl (M.act e) (Function.update s a (M.step a e m (s a)).1, _)).1 = _
    rw [ih hd]
    funext i
    by_cases hi : i = a
    · subst hi
      simp [ha]
    · by_cases hmem : i ∈ order
      · simp [hmem, Function.update_of_ne hi, hst i a hi]
      · simp [hmem, hi]

/-- The machines pass the memory on. -/
theorem foldl_act_mem {e : ε} {order : List ι} (hd : order.Nodup) :
    ∀ s m, (order.foldl (M.act e) (s, m)).2 = order.foldl (fun m i => M.pass e s i m) m := by
  induction order with
  | nil => exact fun s m => rfl
  | cons a order ih =>
    intro s m
    obtain ⟨ha, hd⟩ := List.nodup_cons.1 hd
    rw [List.foldl_cons, List.foldl_cons]
    refine (ih hd _ _).trans (List.foldl_ext _ _ _ fun m' i hi => ?_)
    have hne : i ≠ a := fun h => ha (h ▸ hi)
    unfold pass
    rw [Function.update_of_ne hne]

/-- What is left of it depends on the states of the machines that act. -/
theorem actAll_mem_congr {e : ε} {order : List ι} (hd : order.Nodup) {s s' : M.All}
    (hs : ∀ i ∈ order, s i = s' i) : (M.actAll order e s).2 = (M.actAll order e s').2 := by
  refine (foldl_act_mem hd s (M.mem e)).trans (Eq.trans ?_ (foldl_act_mem hd s' (M.mem e)).symm)
  refine List.foldl_ext _ _ _ fun m i hi => ?_
  unfold pass
  rw [hs i hi]

/-- **The machines act apart**: each as if it were the first, and their edits add up. -/
theorem actAll_eq {e : ε} (hind : M.Independent e) {order : List ι} (hd : order.Nodup)
    (s : M.All) : M.actAll order e s =
      ((fun i => if i ∈ order then (M.step i e (M.mem e) (s i)).1 else s i),
        order.foldl (fun m i => M.edit (M.step i e (M.mem e) (s i)).2 m) (M.mem e)) :=
  Prod.ext (foldl_act_state hind.steady hd s (M.mem e))
    ((foldl_act_mem hd s (M.mem e)).trans (foldl_pass hind hd s (M.mem e)))

/-- **The order does not matter** where the edits commute. -/
theorem actAll_perm {e : ε} (hind : M.Independent e) {s : M.All} {o₁ o₂ : List ι}
    (hd : o₁.Nodup) (hp : o₁.Perm o₂)
    (hcomm : ∀ i ∈ o₁, ∀ j ∈ o₁, i ≠ j → ∀ m,
      M.edit (M.step i e (M.mem e) (s i)).2 (M.edit (M.step j e (M.mem e) (s j)).2 m) =
        M.edit (M.step j e (M.mem e) (s j)).2 (M.edit (M.step i e (M.mem e) (s i)).2 m)) :
    M.actAll o₁ e s = M.actAll o₂ e s := by
  rw [actAll_eq hind hd, actAll_eq hind (hp.nodup_iff.1 hd)]
  refine Prod.ext ?_ ?_
  · funext i
    exact if_congr hp.mem_iff rfl rfl
  · refine hp.foldl_eq' (fun i hi j hj m => ?_) _
    by_cases hij : i = j
    · rw [hij]
    · exact hcomm j hj i hi (Ne.symm hij) m

/-- **Product**: a machine has the state of a run of its own, of the events that it acts at. -/
theorem run_apply {i : ι} {h : List (ε × List ι)}
    (hh : ∀ x ∈ h, M.Steady x.1 ∧ x.2.Nodup) :
    M.run h i = after (fun e s => (M.step i e (M.mem e) s).1) (M.start i)
      ((h.filter fun x => i ∈ x.2).map Prod.fst) := by
  induction h with
  | nil => rfl
  | cons x h ih =>
    obtain ⟨hst, hd⟩ := hh x (List.mem_cons_self ..)
    have ih := ih fun y hy => hh y (List.mem_cons_of_mem x hy)
    show (x.2.foldl (M.act x.1) (M.run h, M.mem x.1)).1 i = _
    rw [foldl_act_state hst hd]
    by_cases hi : i ∈ x.2
    · rw [List.filter_cons_of_pos (by simpa using hi)]
      simp only [hi, if_true, ih]
      rfl
    · rw [List.filter_cons_of_neg (by simpa using hi)]
      simp only [hi, if_false, ih]

theorem run_apply_of_mem {i : ι} {h : List (ε × List ι)}
    (hh : ∀ x ∈ h, M.Steady x.1 ∧ x.2.Nodup) (hi : ∀ x ∈ h, i ∈ x.2) :
    M.run h i = after (fun e s => (M.step i e (M.mem e) s).1) (M.start i) (h.map Prod.fst) := by
  rw [run_apply hh, List.filter_eq_self.2 fun x hx => decide_eq_true (hi x hx)]

/-! ## Copies -/

section
variable {α β : Type} {f : β → α → β}

/-- Where doing something again does nothing more, and the order does not matter, only what is done
counts. -/
theorem foldl_of_mem_iff (hcomm : ∀ m i j, f (f m i) j = f (f m j) i)
    (hagain : ∀ m i, f (f m i) i = f m i) {l₁ l₂ : List α} (h : ∀ i, i ∈ l₁ ↔ i ∈ l₂) (m : β) :
    l₁.foldl f m = l₂.foldl f m := by
  have hone : ∀ {l : List α} {i : α}, i ∈ l → ∀ m, l.foldl f (f m i) = l.foldl f m := by
    intro l i hi
    induction l with
    | nil => cases hi
    | cons j l ih =>
      intro m
      rw [List.foldl_cons, List.foldl_cons]
      rcases List.mem_cons.1 hi with rfl | hi
      · rw [hagain]
      · rw [hcomm, ih hi]
  have hall : ∀ {l k : List α}, k ⊆ l → ∀ m, l.foldl f (k.foldl f m) = l.foldl f m := by
    intro l k hk
    induction k with
    | nil => exact fun m => rfl
    | cons i k ih =>
      intro m
      rw [List.foldl_cons, ih fun j hj => hk (List.mem_cons_of_mem i hj),
        hone (hk (List.mem_cons_self ..))]
  have hswap : l₁.foldl f (l₂.foldl f m) = l₂.foldl f (l₁.foldl f m) := by
    rw [← List.foldl_append, ← List.foldl_append]
    exact List.perm_append_comm.foldl_eq' (fun i _ j _ m => hcomm m i j) m
  rw [← hall (fun i hi => (h i).2 hi), hswap, hall fun i hi => (h i).1 hi]

end

/-- Any number of copies of each machine, with states of their own. -/
def copies (M : SideBySide ι ε μ ω) (ν : Type) : SideBySide (ι × ν) ε μ ω where
  State i := M.State i.1
  start i := M.start i.1
  step i := M.step i.1
  edit := M.edit
  mem := M.mem

variable {ν : Type} [DecidableEq ν]

/-- **Copies**: where acting again does nothing more, and the order does not matter, copies in equal
states leave the memory that one of each leaves. -/
theorem copies_actAll_mem {e : ε} {s : M.All} {t : (M.copies ν).All} {order : List (ι × ν)}
    (hd : order.Nodup) (ht : ∀ i ∈ order, t i = s i.1)
    (hcomm : ∀ m i j, M.pass e s j (M.pass e s i m) = M.pass e s i (M.pass e s j m))
    (hagain : ∀ m i, M.pass e s i (M.pass e s i m) = M.pass e s i m) {once : List ι}
    (honce : once.Nodup) (hmem : ∀ i, i ∈ once ↔ i ∈ order.map Prod.fst) :
    ((M.copies ν).actAll order e t).2 = (M.actAll once e s).2 := by
  have hcopy : order.foldl (fun m i => (M.copies ν).pass e t i m) (M.mem e) =
      order.foldl (fun m i => M.pass e s i.1 m) (M.mem e) := by
    refine List.foldl_ext _ _ _ fun m i hi => ?_
    show M.edit (M.step i.1 e m (t i)).2 m = M.edit (M.step i.1 e m (s i.1)).2 m
    rw [ht i hi]
  calc ((M.copies ν).actAll order e t).2
      = order.foldl (fun m i => M.pass e s i.1 m) (M.mem e) :=
        (foldl_act_mem hd t (M.mem e)).trans hcopy
    _ = (order.map Prod.fst).foldl (fun m i => M.pass e s i m) (M.mem e) := by
        rw [List.foldl_map]
    _ = once.foldl (fun m i => M.pass e s i m) (M.mem e) :=
        foldl_of_mem_iff hcomm hagain (fun i => (hmem i).symm) (M.mem e)
    _ = (M.actAll once e s).2 := (foldl_act_mem honce s (M.mem e)).symm

end SideBySide
