import DetBuilds.Lib.ByteMem

/-!
# Terminated strings and windows on them

A C program that copies a fixed number of bytes from a string gets a window: the string, its
terminator and whatever lies behind, or the beginning of the string if it is longer. `HoldsString`
says that memory holds a string, and the window lemmas say what a comparison with a window decides:

* `HoldsString.prefix_window`: comparing without the terminator accepts every string that begins
  with the pattern;
* `HoldsString.terminated_prefix_window`: comparing with the terminator accepts the pattern alone;
* `HoldsString.infix_window`: a terminated pattern anywhere in the window is a suffix of the
  string, or it lies behind the string.

`take_add_eq_iff` puts a comparison together from comparisons of chunks.
-/

set_option autoImplicit false

namespace CString

variable {α : Type*} {z : α}

/-! ## Lists with a terminator -/

/-- A pattern with its terminator begins a terminated string that it is equal to, and no other. -/
theorem terminated_prefix_iff {s p g : List α} (hs : z ∉ s) (hp : z ∉ p) :
    s ++ [z] <+: p ++ z :: g ↔ s = p := by
  induction s generalizing p with
  | nil =>
    cases p with
    | nil => simp
    | cons c p =>
      have hc : z ≠ c := fun h => hp (by simp [h])
      simp [hc]
  | cons d s ih =>
    cases p with
    | nil =>
      have hd : d ≠ z := fun h => hs (by simp [h])
      simp [hd]
    | cons c p =>
      have ih := ih (p := p) (fun h => hs (.tail _ h)) (fun h => hp (.tail _ h))
      rw [List.cons_append, List.cons_append, List.cons_prefix_cons, ih, List.cons.injEq]

/-- Without the terminator it begins every string that it is a prefix of. -/
theorem prefix_terminated_iff {s p g : List α} (hs : z ∉ s) :
    s <+: p ++ z :: g ↔ s <+: p := by
  induction s generalizing p with
  | nil => simp
  | cons d s ih =>
    have hd : d ≠ z := fun h => hs (by simp [h])
    cases p with
    | nil => simp [hd]
    | cons c p =>
      rw [List.cons_append, List.cons_prefix_cons, List.cons_prefix_cons,
        ih fun h => hs (.tail _ h)]

/-- A terminated pattern in a terminated string with something behind it ends at the terminator or
lies behind it. -/
theorem terminated_infix_iff {s p g : List α} (hs : z ∉ s) (hp : z ∉ p) :
    s ++ [z] <:+: p ++ z :: g ↔ s <:+ p ∨ s ++ [z] <:+: g := by
  induction p with
  | nil =>
    have h := terminated_prefix_iff (g := g) hs hp
    rw [List.nil_append] at h ⊢
    rw [List.infix_cons_iff, h, List.suffix_nil]
  | cons c p ih =>
    have h := terminated_prefix_iff (g := g) hs hp
    rw [List.cons_append] at h ⊢
    rw [List.infix_cons_iff, h, ih fun h => hp (.tail _ h), List.suffix_cons_iff, or_assoc]

/-- Text occurs where taking its length gives it back. -/
theorem infix_iff_take_drop {s w : List α} :
    s <:+: w ↔ ∃ i, i + s.length ≤ w.length ∧ (w.drop i).take s.length = s := by
  constructor
  · rintro ⟨l, r, rfl⟩
    refine ⟨l.length, by simp, ?_⟩
    rw [List.append_assoc, List.drop_left, List.take_left]
  · rintro ⟨i, -, hs⟩
    have hpre : s <+: w.drop i := by
      rw [← hs]
      exact List.take_prefix _ _
    exact hpre.isInfix.trans (List.drop_suffix i w).isInfix

/-- Chunks that are compared one after the other add up. -/
theorem take_add_eq_iff {a b : List α} {i n : Nat} (ha : i ≤ a.length) (hb : i ≤ b.length) :
    a.take (i + n) = b.take (i + n) ↔
      a.take i = b.take i ∧ (a.drop i).take n = (b.drop i).take n := by
  rw [List.take_add, List.take_add]
  refine ⟨fun h => List.append_inj h ?_, fun h => by rw [h.1, h.2]⟩
  rw [List.length_take_of_le ha, List.length_take_of_le hb]

/-- So do single elements. -/
theorem take_succ_eq_iff {a b : List α} {i : Nat} (ha : i < a.length) (hb : i < b.length) (z : α) :
    a.take (i + 1) = b.take (i + 1) ↔ a.take i = b.take i ∧ a.getD i z = b.getD i z := by
  have hda : (a.drop i).take 1 = [a[i]] := by rw [List.drop_eq_getElem_cons ha]; rfl
  have hdb : (b.drop i).take 1 = [b[i]] := by rw [List.drop_eq_getElem_cons hb]; rfl
  rw [take_add_eq_iff (by omega) (by omega), hda, hdb, List.getD_eq_getElem _ _ ha,
    List.getD_eq_getElem _ _ hb, List.cons.injEq, and_iff_left rfl]

end CString

namespace ByteMem

open CString

/-- Memory holds the string `p` at `a`, without a zero in it and followed by one. -/
def HoldsString (m : ByteMem) (a : Addr) (p : List Byte) : Prop :=
  0 ∉ p ∧ m.load a (p.length + 1) = p ++ [0]

instance (m : ByteMem) (a : Addr) (p : List Byte) : Decidable (m.HoldsString a p) :=
  inferInstanceAs (Decidable (_ ∧ _))

namespace HoldsString

variable {m : ByteMem} {a : Addr} {p s : List Byte} {k : Nat}

/-- A window that the string fits into holds it with its terminator. -/
theorem window_of_lt (h : m.HoldsString a p) (hk : p.length < k) :
    m.load a k = p ++ 0 :: (m.load a k).drop (p.length + 1) := by
  have htake : (m.load a k).take (p.length + 1) = p ++ [0] := by
    rw [take_load m a (by omega)]
    exact h.2
  calc m.load a k
      = (m.load a k).take (p.length + 1) ++ (m.load a k).drop (p.length + 1) :=
        (List.take_append_drop _ _).symm
    _ = p ++ 0 :: (m.load a k).drop (p.length + 1) := by rw [htake]; simp

/-- A shorter one holds the beginning of the string. -/
theorem window_of_le (h : m.HoldsString a p) (hk : k ≤ p.length) :
    m.load a k = p.take k := by
  have htake : (m.load a (p.length + 1)).take k = m.load a k := take_load m a (by omega)
  rw [← htake, h.2, List.take_append_of_le_length hk]

theorem prefix_window (h : m.HoldsString a p) (hs : 0 ∉ s) (hk : s.length ≤ k) :
    s <+: m.load a k ↔ s <+: p := by
  by_cases hp : p.length < k
  · rw [h.window_of_lt hp]
    exact prefix_terminated_iff hs
  · rw [h.window_of_le (by omega), List.prefix_take_iff]
    exact and_iff_left hk

theorem terminated_prefix_window (h : m.HoldsString a p) (hs : 0 ∉ s) (hk : s.length < k) :
    s ++ [0] <+: m.load a k ↔ s = p := by
  by_cases hp : p.length < k
  · rw [h.window_of_lt hp]
    exact terminated_prefix_iff hs h.1
  · rw [h.window_of_le (by omega)]
    constructor
    · intro hpre
      have hz : (0 : Byte) ∈ p.take k := hpre.subset (by simp)
      exact absurd (List.mem_of_mem_take hz) h.1
    · intro heq
      rw [heq] at hk
      omega

theorem unique (h : m.HoldsString a p) (h' : m.HoldsString a s) : s = p :=
  (h.terminated_prefix_window h'.1 (Nat.lt_succ_self _)).1 (h'.2 ▸ List.prefix_rfl)

/-- What lies in a window behind the string. -/
theorem infix_window (h : m.HoldsString a p) (hs : 0 ∉ s) :
    s ++ [0] <:+: m.load a k ↔
      p.length < k ∧ (s <:+ p ∨ s ++ [0] <:+: (m.load a k).drop (p.length + 1)) := by
  by_cases hp : p.length < k
  · rw [and_iff_right hp]
    refine Iff.trans ?_ (terminated_infix_iff hs h.1)
    rw [← h.window_of_lt hp]
  · refine ⟨fun hinf => ?_, fun hc => absurd hc.1 hp⟩
    rw [h.window_of_le (by omega)] at hinf
    have hz : (0 : Byte) ∈ p.take k := hinf.subset (by simp)
    exact absurd (List.mem_of_mem_take hz) h.1

end HoldsString

end ByteMem
