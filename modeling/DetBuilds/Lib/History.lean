import Mathlib.Data.List.Infix

/-!
# Histories

A history is the list of the events of a run, the latest event first, so that the run before the
last step is the tail. `EachStep P` says `P` of every event and the history before it,
`EachState I` says `I` of every history the run went through. A state machine's state after a
history is the fold of its step function (`after`).

The rules: an assumption about every step and a step lemma give what holds after the run
(`EachStep.invariant`); a rank that goes down says when a run is over (`done_of_rank`); what is
assumed of every step and state carries over to the run up to each of its steps (`EachStep.each`,
`EachState.each`), and from there to what follows from it (`EachStep.mono`, `EachStep.congr`); two
related runs are compared step by step (`eachStep₂_of`), also where each of them has idle steps of
its own (`EachStep.lockstep`). `LatestIs P Q` asks for the latest event of two kinds.
-/

set_option autoImplicit false

namespace History

variable {ε σ : Type*}

/-- `P` holds of every event of the run and the history before it. -/
def EachStep (P : List ε → ε → Prop) : List ε → Prop
  | [] => True
  | e :: h => P h e ∧ EachStep P h

/-- `I` holds of every history the run went through, from the empty one on. -/
def EachState (I : List ε → Prop) : List ε → Prop
  | [] => I []
  | e :: h => I (e :: h) ∧ EachState I h

/-- `R` relates the events at each position of two runs of one length, with the histories before
them. -/
def EachStep₂ (R : List ε → ε → List ε → ε → Prop) : List ε → List ε → Prop
  | [], [] => True
  | e₁ :: h₁, e₂ :: h₂ => R h₁ e₁ h₂ e₂ ∧ EachStep₂ R h₁ h₂
  | _, _ => False

/-- The state after a history. -/
def after (step : ε → σ → σ) (s₀ : σ) (h : List ε) : σ := h.foldr step s₀

instance decidableEachStep (P : List ε → ε → Prop) [∀ h e, Decidable (P h e)] :
    ∀ h, Decidable (EachStep P h)
  | [] => inferInstanceAs (Decidable True)
  | e :: h =>
    have := decidableEachStep P h
    inferInstanceAs (Decidable (P h e ∧ EachStep P h))

instance decidableEachState (I : List ε → Prop) [∀ h, Decidable (I h)] :
    ∀ h, Decidable (EachState I h)
  | [] => inferInstanceAs (Decidable (I []))
  | e :: h =>
    have := decidableEachState I h
    inferInstanceAs (Decidable (I (e :: h) ∧ EachState I h))

/-! ## What holds at each step -/

variable {P Q : List ε → ε → Prop} {I : List ε → Prop} {h : List ε}

theorem eachStep_iff : EachStep P h ↔ ∀ e h', e :: h' <:+ h → P h' e := by
  induction h with
  | nil => simp [EachStep]
  | cons a h ih =>
    simp only [EachStep, ih, List.suffix_cons_iff]
    constructor
    · rintro ⟨ha, hh⟩ e h' (heq | hs)
      · cases heq; exact ha
      · exact hh e h' hs
    · exact fun hall => ⟨hall a h (.inl rfl), fun e h' hs => hall e h' (.inr hs)⟩

theorem eachState_iff : EachState I h ↔ ∀ h', h' <:+ h → I h' := by
  induction h with
  | nil => simp [EachState]
  | cons a h ih =>
    simp only [EachState, ih, List.suffix_cons_iff]
    constructor
    · rintro ⟨ha, hh⟩ h' (rfl | hs)
      · exact ha
      · exact hh h' hs
    · exact fun hall => ⟨hall _ (.inl rfl), fun h' hs => hall h' (.inr hs)⟩

theorem EachState.last (hI : EachState I h) : I h := by
  cases h with
  | nil => exact hI
  | cons e h => exact hI.1

theorem EachStep.mono (hP : EachStep P h) (hPQ : ∀ h e, P h e → Q h e) : EachStep Q h :=
  eachStep_iff.2 fun e h' hs => hPQ h' e (eachStep_iff.1 hP e h' hs)

theorem EachStep.and (hP : EachStep P h) (hQ : EachStep Q h) :
    EachStep (fun h e => P h e ∧ Q h e) h :=
  eachStep_iff.2 fun e h' hs => ⟨eachStep_iff.1 hP e h' hs, eachStep_iff.1 hQ e h' hs⟩

/-- What agrees at each step of a run agrees of the run. -/
theorem EachStep.congr {R : List ε → ε → Prop} (hP : EachStep P h)
    (hQR : ∀ h e, P h e → (Q h e ↔ R h e)) : EachStep Q h ↔ EachStep R h := by
  rw [eachStep_iff, eachStep_iff]
  exact forall₃_congr fun e h' hs => hQR h' e (eachStep_iff.1 hP e h' hs)

theorem EachStep.suffix {h' : List ε} (hP : EachStep P h) (hs : h' <:+ h) : EachStep P h' :=
  eachStep_iff.2 fun e h'' hs' => eachStep_iff.1 hP e h'' (hs'.trans hs)

theorem EachState.suffix {h' : List ε} (hI : EachState I h) (hs : h' <:+ h) : EachState I h' :=
  eachState_iff.2 fun h'' hs' => eachState_iff.1 hI h'' (hs'.trans hs)

/-- The run up to each of its steps satisfies what the whole run does. -/
theorem EachStep.each (hP : EachStep P h) : EachStep (fun h e => EachStep P (e :: h)) h :=
  eachStep_iff.2 fun _ _ hs => hP.suffix hs

theorem EachState.each (hI : EachState I h) : EachStep (fun h e => EachState I (e :: h)) h :=
  eachStep_iff.2 fun _ _ hs => hI.suffix hs

/-- What holds at the steps that are kept holds at each step of the run of these. -/
theorem EachStep.filterMap {ε' : Type*} {f : ε → Option ε'} {P' : List ε' → ε' → Prop}
    (hP : EachStep (fun h e => ∀ e', f e = some e' → P' (h.filterMap f) e') h) :
    EachStep P' (h.filterMap f) := by
  induction h with
  | nil => trivial
  | cons e h ih =>
    cases he : f e with
    | none => rw [List.filterMap_cons_none he]; exact ih hP.2
    | some e' => rw [List.filterMap_cons_some he]; exact ⟨hP.1 e' he, ih hP.2⟩

/-! ## The latest of two kinds of events -/

section

variable (P Q : ε → Prop) [DecidablePred P] [DecidablePred Q]

/-- The latest event that satisfies `P` or `Q` satisfies `P`. -/
def LatestIs (h : List ε) : Prop := (h.find? fun e => P e ∨ Q e).any P = true

instance (h : List ε) : Decidable (LatestIs P Q h) := inferInstanceAs (Decidable (_ = true))

variable {P Q}

theorem latestIs_cons {e : ε} {h : List ε} :
    LatestIs P Q (e :: h) ↔ P e ∨ (¬ Q e ∧ LatestIs P Q h) := by
  unfold LatestIs
  rw [List.find?_cons]
  by_cases hP : P e
  · simp [hP]
  · by_cases hQ : Q e <;> simp [hP, hQ]

theorem latestIs_congr {P' Q' : ε → Prop} [DecidablePred P'] [DecidablePred Q'] {h : List ε}
    (hP : ∀ e ∈ h, P e ↔ P' e) (hQ : ∀ e ∈ h, Q e ↔ Q' e) :
    LatestIs P Q h ↔ LatestIs P' Q' h := by
  induction h with
  | nil => exact Iff.rfl
  | cons e h ih =>
    rw [latestIs_cons, latestIs_cons, hP e (by simp), hQ e (by simp),
      ih (fun e' he' => hP e' (.tail _ he')) fun e' he' => hQ e' (.tail _ he')]

/-- Since an event of the other kind there has been one of the first. -/
theorem exists_of_latestIs {l k : List ε} {e : ε} (hL : LatestIs P Q (l ++ e :: k)) (hQ : Q e)
    (hP : ¬ P e) : ∃ e' ∈ l, P e' := by
  induction l with
  | nil =>
    rcases latestIs_cons.1 hL with h | h
    · exact absurd h hP
    · exact absurd hQ h.1
  | cons a l ih =>
    rcases latestIs_cons.1 hL with h | h
    · exact ⟨a, by simp, h⟩
    · obtain ⟨e', he', h'⟩ := ih h.2
      exact ⟨e', .tail _ he', h'⟩

end

/-! ## Invariants -/

/-- **The invariant rule**: what holds at the start and is kept by every step that satisfies `P`
holds after every run whose steps do. -/
theorem EachStep.invariant (h0 : I []) (hs : ∀ h e, EachStep P h → I h → P h e → I (e :: h))
    (hP : EachStep P h) : I h := by
  induction h with
  | nil => exact h0
  | cons e h ih => exact hs h e hP.2 (ih hP.2) hP.1

/-- **The progress rule**: where every step that counts makes the rank smaller and no other one makes
it larger, a state is done after as many steps that count as its rank `f` says. -/
theorem done_of_rank {step : ε → σ → σ} {J Done : σ → Prop} {f : σ → Nat} {counts : ε → Prop}
    [DecidablePred counts] (hJ : ∀ e s, J s → J (step e s))
    (hdone : ∀ e s, Done s → Done (step e s)) (hzero : ∀ s, f s = 0 → Done s)
    (hle : ∀ e s, J s → ¬ Done s → f (step e s) ≤ f s)
    (hlt : ∀ e s, counts e → J s → ¬ Done s → f (step e s) < f s) {s₀ : σ} (h0 : J s₀)
    {h : List ε} (hn : f s₀ ≤ h.countP (counts ·)) : Done (after step s₀ h) := by
  have hrun : J (after step s₀ h) ∧ (Done (after step s₀ h) ∨
      f (after step s₀ h) + h.countP (counts ·) ≤ f s₀) := by
    clear hn
    induction h with
    | nil => exact ⟨h0, .inr (Nat.le_refl _)⟩
    | cons e h ih =>
      obtain ⟨hj, hprogress⟩ := ih
      refine ⟨hJ e _ hj, ?_⟩
      by_cases hd : Done (after step s₀ h)
      · exact .inl (hdone e _ hd)
      · have hrank := hprogress.resolve_left hd
        right
        show f (step e (after step s₀ h)) + _ ≤ _
        by_cases he : counts e
        · have := hlt e _ he hj hd
          rw [List.countP_cons_of_pos (by simpa using he)]
          omega
        · have := hle e _ hj hd
          rw [List.countP_cons_of_neg (by simpa using he)]
          omega
  rcases hrun.2 with hd | hrank
  · exact hd
  · exact hzero _ (by omega)

/-- Two runs related event by event are related step by step, by what each of them satisfies. -/
theorem eachStep₂_of {S : ε → ε → Prop} {R : List ε → ε → List ε → ε → Prop} {h₁ h₂ : List ε}
    (hS : List.Forall₂ S h₁ h₂) (hP : EachStep P h₁) (hQ : EachStep Q h₂)
    (hR : ∀ {h₁ e₁ h₂ e₂}, S e₁ e₂ → List.Forall₂ S h₁ h₂ → P h₁ e₁ → Q h₂ e₂ → R h₁ e₁ h₂ e₂) :
    EachStep₂ R h₁ h₂ := by
  induction hS with
  | nil => trivial
  | cons he hh ih => exact ⟨hR he hh hP.1 hQ.1, ih hP.2 hQ.2⟩

/-- **The lockstep rule**: what holds of two empty runs, is kept by the idle steps of either one and
by a step of both that neither takes idly holds of two runs with equally many steps that are not
idle, however these lie between the idle ones. -/
theorem EachStep.lockstep {own₁ own₂ : ε → Prop} [DecidablePred own₁] [DecidablePred own₂]
    {R : List ε → List ε → Prop} {h₁ h₂ : List ε} (h0 : R [] [])
    (hleft : ∀ h₁ e h₂, P h₁ e → ¬ own₁ e → R h₁ h₂ → R (e :: h₁) h₂)
    (hright : ∀ h₁ h₂ e, Q h₂ e → ¬ own₂ e → R h₁ h₂ → R h₁ (e :: h₂))
    (hboth : ∀ h₁ e₁ h₂ e₂, P h₁ e₁ → Q h₂ e₂ → own₁ e₁ → own₂ e₂ → R h₁ h₂ →
      R (e₁ :: h₁) (e₂ :: h₂))
    (hP : EachStep P h₁) (hQ : EachStep Q h₂)
    (hcount : h₁.countP (own₁ ·) = h₂.countP (own₂ ·)) : R h₁ h₂ := by
  induction h₁ generalizing h₂ with
  | nil =>
    induction h₂ with
    | nil => exact h0
    | cons e h₂ ih =>
      by_cases he : own₂ e
      · simp [he] at hcount
      · exact hright [] h₂ e hQ.1 he (ih hQ.2 (by simpa [he] using hcount))
  | cons e₁ h₁ ih₁ =>
    by_cases he₁ : own₁ e₁
    · induction h₂ with
      | nil => simp [he₁] at hcount
      | cons e₂ h₂ ih₂ =>
        by_cases he₂ : own₂ e₂
        · exact hboth h₁ e₁ h₂ e₂ hP.1 hQ.1 he₁ he₂
            (ih₁ hP.2 hQ.2 (by simpa [he₁, he₂] using hcount))
        · exact hright (e₁ :: h₁) h₂ e₂ hQ.1 he₂ (ih₂ hQ.2 (by simpa [he₂] using hcount))
    · exact hleft h₁ e₁ h₂ hP.1 he₁ (ih₁ hP.2 hQ (by simpa [he₁] using hcount))

end History
