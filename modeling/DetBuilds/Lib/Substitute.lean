import Mathlib.Data.List.Infix

/-!
# Insertion behind the first occurrence of a pattern

`insertAfter pat ins` is what a stream editor does to a line when it substitutes the first
occurrence of a pattern by the pattern and a text. A line without the pattern stays
(`insertAfter_eq_self`), any other has one insertion (`exists_insertAfter`).
-/

set_option autoImplicit false

namespace Substitute

variable {α : Type*} [DecidableEq α]

/-- Put `ins` behind the first occurrence of `pat`, if there is one. -/
def insertAfter (pat ins : List α) : List α → List α
  | [] => if pat = [] then ins else []
  | c :: l =>
    if pat <+: c :: l then pat ++ ins ++ (c :: l).drop pat.length
    else c :: insertAfter pat ins l

variable {pat ins : List α}

theorem insertAfter_prefix (l : List α) : insertAfter pat ins (pat ++ l) = pat ++ ins ++ l := by
  cases hl : pat ++ l with
  | nil =>
    obtain ⟨rfl, rfl⟩ := List.append_eq_nil_iff.1 hl
    simp [insertAfter]
  | cons c r =>
    unfold insertAfter
    rw [← hl, if_pos (List.prefix_append pat l), List.drop_left]

theorem insertAfter_cons {c : α} {l : List α} (h : ¬ pat <+: c :: l) :
    insertAfter pat ins (c :: l) = c :: insertAfter pat ins l := if_neg h

/-- A text without the pattern stays. -/
theorem insertAfter_eq_self {l : List α} (hpat : pat ≠ []) (h : ¬ pat <:+: l) :
    insertAfter pat ins l = l := by
  induction l with
  | nil => exact if_neg hpat
  | cons c l ih =>
    rw [insertAfter_cons fun hp => h hp.isInfix,
      ih fun hi => h (hi.trans (List.suffix_cons c l).isInfix)]

/-- A text with the pattern has the insertion behind it, and is otherwise the same. -/
theorem exists_insertAfter {l : List α} (h : pat <:+: l) :
    ∃ a b, l = a ++ pat ++ b ∧ insertAfter pat ins l = a ++ pat ++ ins ++ b := by
  induction l with
  | nil =>
    obtain rfl := List.infix_nil.1 h
    exact ⟨[], [], rfl, by simp [insertAfter]⟩
  | cons c l ih =>
    by_cases hp : pat <+: c :: l
    · obtain ⟨b, hb⟩ := hp
      exact ⟨[], b, hb.symm, by rw [← hb, insertAfter_prefix]; rfl⟩
    · obtain ⟨a, b, rfl, hins⟩ := ih ((List.infix_cons_iff.1 h).resolve_left hp)
      exact ⟨c :: a, b, rfl, by rw [insertAfter_cons hp, hins]; rfl⟩

end Substitute
