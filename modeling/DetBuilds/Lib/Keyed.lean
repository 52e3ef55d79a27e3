import DetBuilds.Lib.History

/-!
# Machines that keep their keys apart

A `KeyedMachine` handles events that each belong to one key; `view s k` is the part of the state
that belongs to `k`. A machine `own` for one key alone is what it does for each of its keys
(`Local`) if an event changes no other key's part and acts on its own part, and answers, as `own`
does, as long as there is `room` for the key. Then a run is a run of `own` for each key:

* `Local.view_run`, `Local.output_run`, `Local.outputs_run`: what a key has and gets in a run is
  what `own` has and gets from that key's events;
* `Local.project`: a key sees the run as if it were alone in it;
* `Local.interleave`: two interleavings of the same events give every key the same outputs.
-/

set_option autoImplicit false

/-- A state machine whose events belong to keys. -/
structure KeyedMachine (ε κ σ α ω : Type) where
  key : ε → κ
  step : ε → σ → σ × ω
  view : σ → κ → α
  room : σ → κ → Prop

namespace KeyedMachine

open History

variable {ε κ σ α ω : Type}

/-- One key's machine after a history. -/
def ownRun (own : ε → α → α × ω) (x : α) (h : List ε) : α := after (fun e x => (own e x).1) x h

/-- Its outputs, the latest first. -/
def ownOutputs (own : ε → α → α × ω) (x : α) : List ε → List ω
  | [] => []
  | e :: h => (own e (ownRun own x h)).2 :: ownOutputs own x h

section
variable (M : KeyedMachine ε κ σ α ω)

/-- Events change no other key's view, and act on their own view as `own` does. -/
structure Local (own : ε → α → α × ω) : Prop where
  frame : ∀ e s k, M.key e ≠ k → M.view (M.step e s).1 k = M.view s k
  own_view : ∀ e s, M.room s (M.key e) →
    M.view (M.step e s).1 (M.key e) = (own e (M.view s (M.key e))).1
  own_out : ∀ e s, M.room s (M.key e) → (M.step e s).2 = (own e (M.view s (M.key e))).2

/-- The state a history leads to from `s`. -/
def runFrom (s : σ) (h : List ε) : σ := after (fun e s => (M.step e s).1) s h

@[simp] theorem runFrom_cons (s : σ) (e : ε) (h : List ε) :
    M.runFrom s (e :: h) = (M.step e (M.runFrom s h)).1 := rfl

/-- There is room for `k` whenever one of its events is handled. -/
def RoomFor (k : κ) (s : σ) (h : List ε) : Prop :=
  EachStep (fun h e => M.key e = k → M.room (M.runFrom s h) k) h

variable [DecidableEq κ]

/-- The events of `k`. -/
def project (k : κ) (h : List ε) : List ε := h.filter (fun e => M.key e = k)

/-- The outputs of the events of `k`, the latest first. -/
def outputs (k : κ) (s : σ) : List ε → List ω
  | [] => []
  | e :: h => if M.key e = k then (M.step e (M.runFrom s h)).2 :: outputs k s h else outputs k s h

theorem project_cons_pos {k : κ} {e : ε} (he : M.key e = k) (h : List ε) :
    M.project k (e :: h) = e :: M.project k h := by simp [project, he]

theorem project_cons_neg {k : κ} {e : ε} (he : M.key e ≠ k) (h : List ε) :
    M.project k (e :: h) = M.project k h := by simp [project, he]

theorem project_project (k : κ) (h : List ε) : M.project k (M.project k h) = M.project k h := by
  simp [project]

end

variable [DecidableEq κ] {M : KeyedMachine ε κ σ α ω} {own : ε → α → α × ω}

/-- A key's view after a run is what its own machine makes of its own events. -/
theorem Local.view_run (hM : M.Local own) {k : κ} {s : σ} {h : List ε} (hr : M.RoomFor k s h) :
    M.view (M.runFrom s h) k = ownRun own (M.view s k) (M.project k h) := by
  induction h with
  | nil => rfl
  | cons e h ih =>
    by_cases he : M.key e = k
    · rw [M.project_cons_pos he]
      subst he
      rw [runFrom_cons, hM.own_view e _ (hr.1 rfl), ih hr.2]
      rfl
    · rw [M.project_cons_neg he, runFrom_cons, hM.frame e _ k he]
      exact ih hr.2

/-- So is the output of the latest event. -/
theorem Local.output_run (hM : M.Local own) {e : ε} {s : σ} {h : List ε}
    (hr : M.RoomFor (M.key e) s (e :: h)) :
    (M.step e (M.runFrom s h)).2 =
      (own e (ownRun own (M.view s (M.key e)) (M.project (M.key e) h))).2 := by
  rw [hM.own_out e _ (hr.1 rfl), hM.view_run hr.2]

/-- So are all outputs of a key's events. -/
theorem Local.outputs_run (hM : M.Local own) {k : κ} {s : σ} {h : List ε} (hr : M.RoomFor k s h) :
    M.outputs k s h = ownOutputs own (M.view s k) (M.project k h) := by
  induction h with
  | nil => rfl
  | cons e h ih =>
    by_cases he : M.key e = k
    · rw [M.project_cons_pos he]
      simp only [outputs, he, if_true, ownOutputs]
      subst he
      rw [ih hr.2, hM.output_run hr]
    · rw [M.project_cons_neg he]
      simp only [outputs, he, if_false]
      exact ih hr.2

/-- **Projection**: in a run, a key has the view and the outputs it has in the run of its own
events. -/
theorem Local.project (hM : M.Local own) {k : κ} {s : σ} {h : List ε} (hr : M.RoomFor k s h)
    (hr' : M.RoomFor k s (M.project k h)) :
    M.view (M.runFrom s h) k = M.view (M.runFrom s (M.project k h)) k ∧
      M.outputs k s h = M.outputs k s (M.project k h) := by
  rw [hM.view_run hr, hM.view_run hr', hM.outputs_run hr, hM.outputs_run hr', project_project]
  exact ⟨rfl, rfl⟩

/-- **Interleavings**: two runs in which `k` has the same events give them the same outputs. -/
theorem Local.interleave (hM : M.Local own) {k : κ} {s : σ} {h₁ h₂ : List ε}
    (hp : M.project k h₁ = M.project k h₂) (hr₁ : M.RoomFor k s h₁) (hr₂ : M.RoomFor k s h₂) :
    M.outputs k s h₁ = M.outputs k s h₂ := by
  rw [hM.outputs_run hr₁, hM.outputs_run hr₂, hp]

end KeyedMachine
