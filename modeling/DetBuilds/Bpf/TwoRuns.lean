import DetBuilds.Bpf.Threads

/-!
# Two runs with the same calls

`SameCall` relates two events that a thread can tell apart only by the contents of memory: the
same thread makes the same call with the same arguments, or it returns with the same result. Two
runs related by it event by event have the same calls in flight (`inflight_same`), so the
assumptions about threads carry over from the one to the other.
-/

set_option autoImplicit false

namespace Bpf

open History

/-- The same task, up to the contents of its memory. -/
def SameTask (task₁ task₂ : Task) : Prop := task₁.tid = task₂.tid ∧ task₁.comm = task₂.comm

/-- The same event, up to the contents of memory. -/
def SameCall : Event → Event → Prop
  | .enter task₁ nr₁ args₁, .enter task₂ nr₂ args₂ =>
    SameTask task₁ task₂ ∧ nr₁ = nr₂ ∧ args₁ = args₂
  | .exit task₁ nr₁ ret₁, .exit task₂ nr₂ ret₂ => SameTask task₁ task₂ ∧ nr₁ = nr₂ ∧ ret₁ = ret₂
  | .spawn t₁, .spawn t₂ => t₁ = t₂
  | .die t₁, .die t₂ => t₁ = t₂
  | _, _ => False

/-- The same call in flight, up to the contents of memory. -/
def SameFrame (f₁ f₂ : Frame) : Prop :=
  SameTask f₁.task f₂.task ∧ f₁.nr = f₂.nr ∧ f₁.args = f₂.args

/-- The event that a call in flight was entered with. -/
def Frame.entry (f : Frame) : Event := .enter f.task f.nr f.args

theorem SameCall.tid {e₁ e₂ : Event} (h : SameCall e₁ e₂) : e₁.tid = e₂.tid := by
  cases e₁ <;> cases e₂ <;> simp_all [SameCall, SameTask, Event.tid]

/-- Runs related event by event, with the same calls at least, have related calls in flight. -/
theorem inflight_related {R : Event → Event → Prop} (hR : ∀ e₁ e₂, R e₁ e₂ → SameCall e₁ e₂)
    {h₁ h₂ : List Event} (hs : List.Forall₂ R h₁ h₂) (t : Tid) :
    Option.Rel (fun f₁ f₂ => R f₁.entry f₂.entry) (inflight h₁ t) (inflight h₂ t) := by
  induction hs with
  | nil => exact .none
  | @cons e₁ e₂ k₁ k₂ hr hk ih =>
    have he := hR e₁ e₂ hr
    by_cases ht : e₁.tid = t
    · match e₁, e₂, hr, he with
      | .enter task₁ nr₁ args₁, .enter task₂ nr₂ args₂, hr, he =>
        have ht₂ : task₂.tid = t := he.1.1.symm.trans ht
        subst ht₂
        rw [inflight_enter_self, ← he.1.1, inflight_enter_self]
        exact .some hr
      | .exit task₁ nr₁ ret₁, .exit task₂ nr₂ ret₂, _, he =>
        have ht₂ : task₂.tid = t := he.1.1.symm.trans ht
        subst ht₂
        rw [inflight_exit_self, ← he.1.1, inflight_exit_self]
        exact .none
      | .spawn _, .spawn _, _, _ => exact ih
      | .die _, .die _, _, _ => exact ih
    · rw [inflight_of_ne k₁ ht, inflight_of_ne k₂ (he.tid ▸ ht)]
      exact ih

/-- Runs with the same calls have the same calls in flight. -/
theorem inflight_same {h₁ h₂ : List Event} (hs : List.Forall₂ SameCall h₁ h₂) (t : Tid) :
    Option.Rel SameFrame (inflight h₁ t) (inflight h₂ t) :=
  inflight_related (fun _ _ h => h) hs t

theorem inflight_same_some {h₁ h₂ : List Event} (hs : List.Forall₂ SameCall h₁ h₂) {t : Tid}
    {f₁ : Frame} (hf : inflight h₁ t = some f₁) :
    ∃ f₂, inflight h₂ t = some f₂ ∧ SameFrame f₁ f₂ := by
  have := inflight_same hs t
  rw [hf] at this
  cases h₂f : inflight h₂ t with
  | none => rw [h₂f] at this; cases this
  | some f₂ => rw [h₂f] at this; cases this with | some h => exact ⟨f₂, rfl, h⟩

theorem inflight_same_none {h₁ h₂ : List Event} (hs : List.Forall₂ SameCall h₁ h₂) {t : Tid}
    (hf : inflight h₁ t = none) : inflight h₂ t = none := by
  have := inflight_same hs t
  rw [hf] at this
  cases h₂f : inflight h₂ t with
  | none => rfl
  | some f₂ => rw [h₂f] at this; cases this

theorem alternating_same {h₁ h₂ : List Event} (hs : List.Forall₂ SameCall h₁ h₂)
    (ha : Alternating h₁) : Alternating h₂ := by
  induction hs with
  | nil => trivial
  | @cons e₁ e₂ k₁ k₂ he hk ih =>
    refine ⟨?_, ih ha.2⟩
    have hstep := ha.1
    match e₁, e₂, he with
    | .enter task₁ nr₁ args₁, .enter task₂ nr₂ args₂, he =>
      rw [alternates_enter] at hstep ⊢
      rw [← he.1.1]
      exact inflight_same_none hk hstep
    | .exit task₁ nr₁ ret₁, .exit task₂ nr₂ ret₂, he =>
      obtain ⟨f, hf, hnr, hc⟩ := alternates_exit.1 hstep
      obtain ⟨f₂, hf₂, ⟨-, hc₂⟩, hnr₂, -⟩ := inflight_same_some hk hf
      refine alternates_exit.2 ⟨f₂, by rw [← he.1.1]; exact hf₂, ?_, ?_⟩
      · rw [← hnr₂, hnr]; exact he.2.1
      · rw [← hc₂, hc]; exact he.1.2
    | .spawn t₁, .spawn t₂, he =>
      simp only [Alternates, Option.isNone_iff_eq_none] at hstep ⊢
      rw [← show t₁ = t₂ from he]
      exact inflight_same_none hk hstep
    | .die t₁, .die t₂, he =>
      simp only [Alternates, Option.isNone_iff_eq_none] at hstep ⊢
      rw [← show t₁ = t₂ from he]
      exact inflight_same_none hk hstep

theorem inside_same {h₁ h₂ : List Event} (hs : List.Forall₂ SameCall h₁ h₂) (nrs : List Nr) :
    inside nrs h₂ ⊆ inside nrs h₁ := by
  intro t ht
  obtain ⟨f₂, hf₂, hnr⟩ := mem_inside.1 ht
  have := inflight_same hs t
  rw [hf₂] at this
  cases h₁f : inflight h₁ t with
  | none => rw [h₁f] at this; cases this
  | some f₁ =>
    rw [h₁f] at this
    cases this with
    | some h => exact mem_inside.2 ⟨f₁, h₁f, h.2.1 ▸ hnr⟩

theorem uncrowded_same {h₁ h₂ : List Event} (hs : List.Forall₂ SameCall h₁ h₂) {nrs : List Nr}
    (hu : Uncrowded nrs h₁) : Uncrowded nrs h₂ := by
  induction hs with
  | nil => exact hu
  | cons he hk ih =>
    exact ⟨Nat.le_trans (Finset.card_le_card (inside_same (.cons he hk) nrs)) hu.1, ih hu.2⟩

end Bpf
