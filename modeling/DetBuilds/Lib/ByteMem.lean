import Mathlib.Algebra.Group.Nat.Defs
import Mathlib.Data.List.GetD

/-!
# Byte memory with faults

`ByteMem` is a 64-bit address space of bytes, each of which may be readable and writable or not.
A store goes up from its first byte and stops at the first byte it may not write (`landed` counts
the bytes it reaches); a load never faults here, `readableFor` says when it would. Ranges are
taken modulo 2⁶⁴ (`InRange`).

* `store_frame`: a store changes nothing outside its range; `store_within_iff` says when it changes
  nothing outside a shorter one.
* `load_store`: a store that lands whole is read back; `load_store_take` for a shorter read that
  the store covers.
* `store_store_comm`: stores to ranges that do not overlap commute.
* `AgreeOff.store`: a store makes memories agree where it lands.
-/

set_option autoImplicit false

abbrev Addr := BitVec 64

abbrev Byte := BitVec 8

/-- Bytes by address, with the addresses that can be read and written. -/
structure ByteMem where
  byte : Addr → Byte
  readable : Addr → Bool
  writable : Addr → Bool

/-- Address `x` is one of the `n` bytes from `a` on. -/
def InRange (x a : Addr) (n : Nat) : Prop := (x - a).toNat < n

instance (x a : Addr) (n : Nat) : Decidable (InRange x a n) := inferInstanceAs (Decidable (_ < _))

namespace ByteMem

/-- The address `i` bytes after `a`. -/
def off (a : Addr) (i : Nat) : Addr := a + BitVec.ofNat 64 i

theorem off_sub (a : Addr) {i : Nat} (hi : i < 2 ^ 64) : (off a i - a).toNat = i := by
  have ha := a.isLt
  rw [off, BitVec.toNat_sub, BitVec.toNat_add, BitVec.toNat_ofNat]
  omega

/-- Every address is as far after `a` as it is. -/
theorem off_toNat_sub (a x : Addr) : off a (x - a).toNat = x := by
  have ha := a.isLt
  have hx := x.isLt
  apply BitVec.eq_of_toNat_eq
  rw [off, BitVec.toNat_add, BitVec.toNat_ofNat, BitVec.toNat_sub]
  omega

/-- A range behind `a` by the distances from `a`. -/
theorem inRange_off {x a : Addr} {i n : Nat} (hn : i + n ≤ 2 ^ 64) :
    InRange x (off a i) n ↔ i ≤ (x - a).toNat ∧ (x - a).toNat < i + n := by
  have ha := a.isLt
  have hx := x.isLt
  unfold InRange off
  simp only [BitVec.toNat_sub, BitVec.toNat_add, BitVec.toNat_ofNat]
  omega

theorem inRange_one {x a : Addr} : InRange x a 1 ↔ x = a := by
  constructor
  · intro hx
    have hzero : (x - a).toNat = 0 := Nat.lt_one_iff.1 hx
    rw [← off_toNat_sub a x, hzero]
    exact BitVec.add_zero a
  · rintro rfl
    simp [InRange]

/-- The addresses of the `n` bytes from `a` on. -/
def addrs (a : Addr) (n : Nat) : List Addr := (List.range n).map (off a)

def readableFor (m : ByteMem) (a : Addr) (n : Nat) : Bool := (addrs a n).all m.readable

def writableFor (m : ByteMem) (a : Addr) (n : Nat) : Bool := (addrs a n).all m.writable

def load (m : ByteMem) (a : Addr) (n : Nat) : List Byte := (addrs a n).map m.byte

/-- How many of `n` bytes stored at `a` come before the first one that cannot be written. -/
def landed (m : ByteMem) (a : Addr) (n : Nat) : Nat :=
  ((addrs a n).takeWhile m.writable).length

/-- Store bytes at `a`, up to the first one that cannot be written. -/
def store (m : ByteMem) (a : Addr) (bs : List Byte) : ByteMem :=
  { m with byte := fun x =>
      if (x - a).toNat < m.landed a bs.length then bs.getD (x - a).toNat 0 else m.byte x }

/-! ## The range of a store -/

@[simp] theorem length_addrs (a : Addr) (n : Nat) : (addrs a n).length = n := by simp [addrs]

@[simp] theorem length_load (m : ByteMem) (a : Addr) (n : Nat) : (m.load a n).length = n := by
  simp [load]

theorem getElem?_load (m : ByteMem) (a : Addr) {i n : Nat} (hi : i < n) :
    (m.load a n)[i]? = some (m.byte (off a i)) := by
  simp [load, addrs, hi]

/-- A shorter load is the beginning of a longer one. -/
theorem take_load (m : ByteMem) (a : Addr) {k n : Nat} (hk : k ≤ n) :
    (m.load a n).take k = m.load a k := by
  simp only [load, addrs, ← List.map_take, List.take_range, Nat.min_eq_left hk]

theorem addrs_add (a : Addr) (n k : Nat) : addrs a (n + k) = addrs a n ++ addrs (off a n) k := by
  simp only [addrs, List.range_add, List.map_append, List.map_map]
  refine congrArg _ (List.map_congr_left fun i _ => ?_)
  simp only [Function.comp_apply, off, BitVec.ofNat_add, BitVec.add_assoc]

/-- A load goes on behind its first bytes. -/
theorem load_add (m : ByteMem) (a : Addr) (n k : Nat) :
    m.load a (n + k) = m.load a n ++ m.load (off a n) k := by
  simp only [load, addrs_add, List.map_append]

/-- Memories that agree in a range have the same load from it. -/
theorem load_congr {m₁ m₂ : ByteMem} {a : Addr} {n : Nat} (hn : n ≤ 2 ^ 64)
    (h : ∀ x, InRange x a n → m₁.byte x = m₂.byte x) : m₁.load a n = m₂.load a n := by
  simp only [load, addrs, List.map_map]
  refine List.map_congr_left fun i hi => h _ ?_
  have hi := List.mem_range.1 hi
  unfold InRange
  rw [off_sub a (by omega)]
  exact hi

/-- Memories with the same load from a range agree in it. -/
theorem byte_eq_of_load {m₁ m₂ : ByteMem} {a x : Addr} {n : Nat} (h : m₁.load a n = m₂.load a n)
    (hx : InRange x a n) : m₁.byte x = m₂.byte x := by
  have hi := congrArg (fun l => l[(x - a).toNat]?) h
  simp only [getElem?_load _ a hx, off_toNat_sub, Option.some.injEq] at hi
  exact hi

theorem store_byte (m : ByteMem) (a x : Addr) (bs : List Byte) :
    (m.store a bs).byte x =
      if (x - a).toNat < m.landed a bs.length then bs.getD (x - a).toNat 0 else m.byte x := rfl

theorem landed_le (m : ByteMem) (a : Addr) (n : Nat) : m.landed a n ≤ n := by
  have := (List.takeWhile_sublist m.writable (l := addrs a n)).length_le
  rwa [length_addrs] at this

theorem landed_store (m : ByteMem) (a b : Addr) (bs : List Byte) (n : Nat) :
    (m.store a bs).landed b n = m.landed b n := rfl

/-- A store whose range is writable lands whole, also when only its first `k` bytes are. -/
theorem le_landed {m : ByteMem} {a : Addr} {k n : Nat} (hk : k ≤ n)
    (hw : m.writableFor a k = true) : k ≤ m.landed a n := by
  obtain ⟨d, rfl⟩ := Nat.exists_eq_add_of_le hk
  have hall : ∀ x ∈ addrs a k, m.writable x = true := List.all_eq_true.1 hw
  unfold landed
  rw [addrs_add, List.takeWhile_append_of_pos hall, List.length_append, length_addrs]
  omega

/-- Part of a writable range is writable. -/
theorem writableFor_off {m : ByteMem} {a : Addr} {n k l : Nat} (hl : n + k ≤ l)
    (hw : m.writableFor a l = true) : m.writableFor (off a n) k = true := by
  obtain ⟨d, rfl⟩ := Nat.exists_eq_add_of_le hl
  unfold writableFor at hw ⊢
  rw [addrs_add, addrs_add, List.all_append, List.all_append] at hw
  simp only [Bool.and_eq_true] at hw
  exact hw.1.2

theorem store_frame {m : ByteMem} {a x : Addr} {bs : List Byte} (h : ¬ InRange x a bs.length) :
    (m.store a bs).byte x = m.byte x := by
  have := m.landed_le a bs.length
  rw [store_byte]
  exact if_neg fun hl => h (by unfold InRange; omega)

/-- What a store changes lies in the first `n` bytes exactly if what it reaches behind them is
there already. -/
theorem store_within_iff {m : ByteMem} {a : Addr} {bs : List Byte} {n : Nat}
    (hb : bs.length ≤ 2 ^ 64) :
    (∀ x, (m.store a bs).byte x ≠ m.byte x → InRange x a n) ↔
      ∀ i, n ≤ i → i < m.landed a bs.length → m.byte (off a i) = bs.getD i 0 := by
  have hland := m.landed_le a bs.length
  constructor
  · intro hin i hn hi
    refine Decidable.byContradiction fun hne => ?_
    have hx : (off a i - a).toNat = i := off_sub a (by omega)
    have hlt : (off a i - a).toNat < n := by
      refine hin (off a i) ?_
      rw [store_byte, hx, if_pos hi]
      exact Ne.symm hne
    omega
  · intro heq x hx
    refine Decidable.byContradiction fun hout => ?_
    unfold InRange at hout
    refine hx ?_
    rw [store_byte]
    split
    · rename_i hi
      have := heq _ (by omega) hi
      rw [off_toNat_sub] at this
      exact this.symm
    · rfl

/-! ## Reading a store back -/

/-- A read of `k` bytes that the kernel of a longer store covers returns the stored bytes. -/
theorem load_store_take {m : ByteMem} {a : Addr} {bs : List Byte} {k : Nat} (hk : k ≤ bs.length)
    (hb : bs.length ≤ 2 ^ 64) (hw : m.writableFor a k = true) :
    (m.store a bs).load a k = bs.take k := by
  have hl := le_landed hk hw
  apply List.ext_getElem
  · simp [hk]
  · intro i h1 h2
    have hi : i < k := by simpa using h1
    have hx : (off a i - a).toNat = i := off_sub a (by omega)
    have hs : (m.store a bs).byte (off a i) = bs.getD i 0 := by
      rw [store_byte, hx]
      exact if_pos (by omega)
    simp only [load, addrs, List.getElem_map, List.getElem_range, List.getElem_take, hs]
    rw [List.getD_eq_getElem _ _ (by omega)]

theorem load_store {m : ByteMem} {a : Addr} {bs : List Byte} {n : Nat} (hlen : bs.length = n)
    (hn : n ≤ 2 ^ 64) (hw : m.writableFor a n = true) : (m.store a bs).load a n = bs := by
  subst hlen
  rw [load_store_take (Nat.le_refl _) hn hw, List.take_length]

/-- All that `m'` has and `m` has not is these bytes at `a`. -/
def Replaced (m m' : ByteMem) (a : Addr) (bs : List Byte) : Prop :=
  m'.load a bs.length = bs ∧ ∀ x, ¬ InRange x a bs.length → m'.byte x = m.byte x

theorem replaced_store {m : ByteMem} {a : Addr} {bs : List Byte} {n : Nat} (hlen : bs.length = n)
    (hn : n ≤ 2 ^ 64) (hw : m.writableFor a n = true) : m.Replaced (m.store a bs) a bs := by
  subst hlen
  exact ⟨load_store rfl hn hw, fun _ hx => store_frame hx⟩

/-! ## One store after the other -/

/-- Memories that differ in no byte are stores into the same memory. -/
theorem store_eq_of_byte {m m' : ByteMem} {a b : Addr} {bs cs : List Byte}
    (hr : m.readable = m'.readable) (hw : m.writable = m'.writable)
    (h : ∀ x, (m.store a bs).byte x = (m'.store b cs).byte x) : m.store a bs = m'.store b cs := by
  have hbyte : (m.store a bs).byte = (m'.store b cs).byte := funext h
  unfold store at hbyte ⊢
  simp only at hbyte
  rw [hbyte, hr, hw]

theorem landed_of_writableFor {m : ByteMem} {a : Addr} {n : Nat} (hw : m.writableFor a n = true) :
    m.landed a n = n := Nat.le_antisymm (m.landed_le a n) (le_landed (Nat.le_refl n) hw)

theorem landed_add {m : ByteMem} {a : Addr} {n : Nat} (k : Nat) (hw : m.writableFor a n = true) :
    m.landed a (n + k) = n + m.landed (off a n) k := by
  unfold landed
  rw [addrs_add, List.takeWhile_append_of_pos (List.all_eq_true.1 hw), List.length_append,
    length_addrs]

/-- A store of two pieces is a store of the one and then of the other behind it. -/
theorem store_append {m : ByteMem} {a : Addr} {bs cs : List Byte}
    (hlen : bs.length + cs.length ≤ 2 ^ 64) (hw : m.writableFor a bs.length = true) :
    m.store a (bs ++ cs) = (m.store a bs).store (off a bs.length) cs := by
  refine store_eq_of_byte rfl rfl fun x => ?_
  have hl := m.landed_le (off a bs.length) cs.length
  have hsub : (x - off a bs.length).toNat =
      if bs.length ≤ (x - a).toNat then (x - a).toNat - bs.length
      else 2 ^ 64 + (x - a).toNat - bs.length := by
    have ha := a.isLt
    have hx := x.isLt
    unfold off
    simp only [BitVec.toNat_sub, BitVec.toNat_add, BitVec.toNat_ofNat]
    split <;> omega
  rw [store_byte, store_byte, store_byte, landed_store, List.length_append, landed_add _ hw,
    landed_of_writableFor hw, hsub]
  by_cases hlow : bs.length ≤ (x - a).toNat
  · rw [if_pos hlow]
    by_cases hin : (x - a).toNat - bs.length < m.landed (off a bs.length) cs.length
    · rw [if_pos (by omega), if_pos hin, List.getD_append_right _ _ _ _ hlow]
    · rw [if_neg (by omega), if_neg hin, if_neg (by omega)]
  · rw [if_neg hlow, if_pos (by omega), if_neg (by omega), if_pos (by omega),
      List.getD_append _ _ _ _ (by omega)]

/-- A store over another one of the same length leaves nothing of it. -/
theorem store_store_self {m : ByteMem} {a : Addr} {bs cs : List Byte}
    (hlen : bs.length = cs.length) : (m.store a bs).store a cs = m.store a cs := by
  refine store_eq_of_byte rfl rfl fun x => ?_
  rw [store_byte, store_byte, store_byte, landed_store, hlen]
  split <;> rfl

/-- A store that is overwritten in part leaves what it would have left exactly if the rest of it
is there already. -/
theorem store_store_eq_iff {m : ByteMem} {a b : Addr} {bs cs : List Byte} {i j : Nat}
    (hi : bs.length = i) (hj : cs.length = j) (hb : m.writableFor b j = true)
    (ha : m.writableFor a i = true) : (m.store b cs).store a bs = m.store a bs ↔
      ∀ x, InRange x b j → ¬ InRange x a i → m.byte x = cs.getD (x - b).toNat 0 := by
  subst hi hj
  have hbyte : ∀ x, ((m.store b cs).store a bs).byte x =
      if InRange x a bs.length then bs.getD (x - a).toNat 0
      else if InRange x b cs.length then cs.getD (x - b).toNat 0 else m.byte x := fun x => by
    rw [store_byte, store_byte, landed_store, landed_of_writableFor ha, landed_of_writableFor hb]
    rfl
  constructor
  · intro heq x hxb hxa
    have hx := hbyte x
    rw [heq, store_frame hxa, if_neg hxa, if_pos hxb] at hx
    exact hx
  · intro h
    refine store_eq_of_byte rfl rfl fun x => ?_
    rw [hbyte, store_byte, landed_of_writableFor ha]
    by_cases hxa : InRange x a bs.length
    · rw [if_pos hxa]
      exact (if_pos hxa).symm
    · rw [if_neg hxa]
      split
      · rename_i hxb
        exact (h x hxb hxa).symm.trans (if_neg hxa).symm
      · exact (if_neg hxa).symm

/-! ## Stores that do not overlap -/

/-- The ranges of `n` bytes from `a` and of `k` bytes from `b` have no address in common. -/
def Sep (a : Addr) (n : Nat) (b : Addr) (k : Nat) : Prop := ∀ x, InRange x a n → ¬ InRange x b k

theorem Sep.symm {a b : Addr} {n k : Nat} (h : Sep a n b k) : Sep b k a n :=
  fun x hb ha => h x ha hb

/-- Two ranges behind `a`, the one after the other, do not overlap. -/
theorem sep_off (a : Addr) {i j n k : Nat} (hij : i + n ≤ j) (hk : j + k ≤ 2 ^ 64) :
    Sep (off a i) n (off a j) k := by
  intro x hi hj
  have hi := (inRange_off (by omega)).1 hi
  have hj := (inRange_off hk).1 hj
  omega

theorem load_store_of_sep {m : ByteMem} {a b : Addr} {n : Nat} {bs : List Byte} (hn : n ≤ 2 ^ 64)
    (h : Sep a n b bs.length) : (m.store b bs).load a n = m.load a n :=
  load_congr hn fun x hx => store_frame (h x hx)

theorem store_store_comm (m : ByteMem) {a b : Addr} {bs cs : List Byte}
    (h : Sep a bs.length b cs.length) :
    (m.store a bs).store b cs = (m.store b cs).store a bs := by
  have ha := m.landed_le a bs.length
  have hb := m.landed_le b cs.length
  have hbyte : ((m.store a bs).store b cs).byte = ((m.store b cs).store a bs).byte := by
    funext x
    have hx := h x
    unfold InRange at hx
    rw [store_byte, store_byte, store_byte, store_byte, landed_store, landed_store]
    by_cases h₁ : (x - a).toNat < m.landed a bs.length
    · have h₂ : ¬ (x - b).toNat < m.landed b cs.length := fun hlt => hx (by omega) (by omega)
      rw [if_neg h₂, if_pos h₁, if_pos h₁]
    · rw [if_neg h₁, if_neg h₁]
  exact congrArg (fun f => { m with byte := f }) hbyte

/-! ## Memories that agree but for some bytes -/

/-- Two memories that can be told apart by the bytes in `S` only. -/
structure AgreeOff (S : Addr → Prop) (m₁ m₂ : ByteMem) : Prop where
  readable : m₁.readable = m₂.readable
  writable : m₁.writable = m₂.writable
  byte : ∀ x, ¬ S x → m₁.byte x = m₂.byte x

namespace AgreeOff

variable {S T : Addr → Prop} {m₁ m₂ : ByteMem}

theorem mono (h : AgreeOff S m₁ m₂) (hST : ∀ x, S x → T x) : AgreeOff T m₁ m₂ :=
  ⟨h.readable, h.writable, fun x hx => h.byte x fun hs => hx (hST x hs)⟩

theorem landed (h : AgreeOff S m₁ m₂) (a : Addr) (n : Nat) : m₁.landed a n = m₂.landed a n := by
  unfold ByteMem.landed
  rw [h.writable]

theorem eq (h : AgreeOff S m₁ m₂) (hS : ∀ x, ¬ S x) : m₁ = m₂ := by
  have hbyte : m₁.byte = m₂.byte := funext fun x => h.byte x (hS x)
  obtain ⟨b₁, r₁, w₁⟩ := m₁
  obtain ⟨b₂, r₂, w₂⟩ := m₂
  exact ByteMem.mk.injEq .. ▸ ⟨hbyte, h.readable, h.writable⟩

/-- After the same store they agree where it landed, too. -/
theorem store (h : AgreeOff S m₁ m₂) (a : Addr) (bs : List Byte) :
    AgreeOff (fun x => S x ∧ ¬ InRange x a (m₁.landed a bs.length)) (m₁.store a bs)
      (m₂.store a bs) := by
  refine ⟨h.readable, h.writable, fun x hx => ?_⟩
  rw [store_byte, store_byte, ← h.landed]
  by_cases hin : (x - a).toNat < m₁.landed a bs.length
  · rw [if_pos hin, if_pos hin]
  · rw [if_neg hin, if_neg hin]
    exact h.byte x fun hs => hx ⟨hs, hin⟩

end AgreeOff

end ByteMem
