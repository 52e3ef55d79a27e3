import Mathlib.Data.Finset.Card
import Mathlib.Data.Nat.Count
import Mathlib.Data.Nat.Find

/-!
# The first candidate that is free

A loop that counts up until it meets a free number, for at most `fuel` iterations. It ends at the
first free one and not before (`search_eq_some_iff`), so it needs one iteration for each number up
to there (`search_of_first`). If the free numbers are those whose name is not in a finite set, and
no two numbers have one name, there is one among the first `s.card + 1` (`exists_first_notMem`): so
many names do not fit in the set. If every number found is taken, the loop that is run for the
`m`-th time finds the `m`-th of those that were free at first (`count_of_first`).
-/

set_option autoImplicit false

namespace Search

/-- Count up from `c` to a free number. -/
def search (free : Nat → Bool) : Nat → Nat → Option Nat
  | 0, _ => none
  | fuel + 1, c => if free c then some c else search free fuel (c + 1)

variable {free : Nat → Bool}

theorem search_eq_some_iff {fuel c k : Nat} :
    search free fuel c = some k ↔
      (c ≤ k ∧ k < c + fuel) ∧ free k = true ∧ ∀ j, c ≤ j → j < k → free j = false := by
  induction fuel generalizing c with
  | zero =>
    refine iff_of_false (fun h => by cases h) fun h => ?_
    omega
  | succ fuel ih =>
    unfold search
    cases hc : free c with
    | true =>
      simp only [if_true, Option.some.injEq]
      constructor
      · rintro rfl
        exact ⟨by omega, hc, fun j hle hlt => by omega⟩
      · rintro ⟨⟨hle, -⟩, -, hbelow⟩
        rcases Nat.eq_or_lt_of_le hle with heq | hlt
        · exact heq
        · rw [hbelow c (Nat.le_refl c) hlt] at hc
          cases hc
    | false =>
      rw [if_neg Bool.false_ne_true, ih]
      constructor
      · rintro ⟨⟨hle, hlt⟩, hk, hbelow⟩
        refine ⟨by omega, hk, fun j hcj hjk => ?_⟩
        rcases Nat.eq_or_lt_of_le hcj with rfl | hlt'
        · exact hc
        · exact hbelow j hlt' hjk
      · rintro ⟨⟨hle, hlt⟩, hk, hbelow⟩
        have hne : c ≠ k := by
          rintro rfl
          rw [hc] at hk
          cases hk
        exact ⟨by omega, hk, fun j hcj hjk => hbelow j (by omega) hjk⟩

/-- The loop takes one iteration for each number up to the first free one. -/
theorem search_of_first {k : Nat} (hk : free k = true) (hbelow : ∀ j < k, free j = false)
    (fuel : Nat) : search free fuel 0 = if k < fuel then some k else none := by
  split
  · rename_i hlt
    exact search_eq_some_iff.2 ⟨by omega, hk, fun j _ hj => hbelow j hj⟩
  · rename_i hge
    rw [Option.eq_none_iff_forall_ne_some]
    intro j hj
    obtain ⟨⟨-, hlt⟩, hfree, -⟩ := search_eq_some_iff.1 hj
    rw [hbelow j (by omega)] at hfree
    cases hfree

variable {α : Type*} [DecidableEq α]

/-- **A finite set leaves a name free** among one more than its elements, and a first one. -/
theorem exists_first_notMem {f : Nat → α} (hf : Function.Injective f) (s : Finset α) :
    ∃ k ≤ s.card, f k ∉ s ∧ ∀ j < k, f j ∈ s := by
  have hcard : s.card < ((Finset.range (s.card + 1)).image f).card := by
    rw [Finset.card_image_of_injective _ hf, Finset.card_range]
    omega
  obtain ⟨x, hx, hnot⟩ := Finset.exists_mem_notMem_of_card_lt_card hcard
  obtain ⟨i, hi, rfl⟩ := Finset.mem_image.1 hx
  have hex : ∃ k, f k ∉ s := ⟨i, hnot⟩
  refine ⟨Nat.find hex, ?_, Nat.find_spec hex, fun j hj => ?_⟩
  · have hle : Nat.find hex ≤ i := Nat.find_min' hex hnot
    have hlt := Finset.mem_range.1 hi
    omega
  · exact not_not.1 (Nat.find_min hex hj)

/-- **Taken in order**: the first number that is free, where `m` of those that `p` says have been
taken before it at most, is the one that `m` of these come before. -/
theorem count_of_first {p : Nat → Prop} [DecidablePred p] {m k : Nat} (hk : m ≤ Nat.count p k)
    (hbelow : ∀ j < k, p j → Nat.count p j < m) : Nat.count p k = m := by
  have hle : ∀ j ≤ k, Nat.count p j ≤ m := by
    intro j
    induction j with
    | zero => exact fun _ => (Nat.count_zero p).le.trans (Nat.zero_le m)
    | succ j ih =>
      intro hj
      rw [Nat.count_succ]
      by_cases hp : p j
      · rw [if_pos hp]
        exact hbelow j hj hp
      · rw [if_neg hp]
        exact ih (Nat.le_of_succ_le hj)
  exact Nat.le_antisymm (hle k (Nat.le_refl k)) hk

end Search
