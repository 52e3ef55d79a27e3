import Mathlib.Data.List.AList
import Mathlib.Data.Finset.Card

/-!
# Finite maps of bounded capacity

`BoundedMap κ ν cap` is a finite map from `κ` to `ν` that never holds more than `cap` keys: the
bound is a field, so an overfull map cannot be built. `tryUpdate` inserts or overwrites under a
flag and says why it refuses; `update` drops the reason and leaves the map as it was. Everything
a client needs is the lookup of a key after each operation (`lookup_update_self`,
`lookup_update_ne`, `lookup_delete_self`, `lookup_delete_ne`), when an update goes through
(`HasRoom`), and how many keys there are (`size_le_card`).
-/

set_option autoImplicit false

/-- A finite map with at most `cap` keys. -/
structure BoundedMap (κ ν : Type) [DecidableEq κ] (cap : Nat) where
  entries : AList (fun _ : κ => ν)
  size_le : entries.entries.length ≤ cap

/-- Which keys an update accepts: all of them, or only absent ones. -/
inductive UpdateFlag where
  | any
  | noexist
  deriving DecidableEq, Repr

/-- Why an update is refused: the key is there already, or there is no room for a new one. -/
inductive UpdateError where
  | present
  | full
  deriving DecidableEq, Repr

namespace BoundedMap

variable {κ ν : Type} [DecidableEq κ] {cap : Nat}

/-- The map without keys. -/
def empty : BoundedMap κ ν cap := ⟨∅, Nat.zero_le _⟩

def lookup (m : BoundedMap κ ν cap) (k : κ) : Option ν := m.entries.lookup k

def size (m : BoundedMap κ ν cap) : Nat := m.entries.entries.length

def keys (m : BoundedMap κ ν cap) : Finset κ := m.entries.keys.toFinset

/-- Room for `k`: it is there already, or a new key still fits. -/
def HasRoom (m : BoundedMap κ ν cap) (k : κ) : Prop := (m.lookup k).isSome ∨ m.size < cap

instance (m : BoundedMap κ ν cap) (k : κ) : Decidable (m.HasRoom k) :=
  inferInstanceAs (Decidable (_ ∨ _))

theorem length_insert_of_mem {l : AList (fun _ : κ => ν)} {k : κ} (v : ν) (h : k ∈ l) :
    (l.insert k v).entries.length = l.entries.length := by
  have hk : (l.insert k v).keys.length = (l.keys.erase k).length + 1 := by
    rw [AList.keys_insert, List.length_cons]
  have he : (l.keys.erase k).length + 1 = l.keys.length :=
    List.length_erase_add_one (AList.mem_keys.1 h)
  have hl : ∀ l : AList (fun _ : κ => ν), l.keys.length = l.entries.length :=
    fun l => by simp [AList.keys, List.keys]
  rw [← hl, ← hl, hk, he]

theorem length_insert_of_notMem {l : AList (fun _ : κ => ν)} {k : κ} (v : ν) (h : k ∉ l) :
    (l.insert k v).entries.length = l.entries.length + 1 := by
  rw [AList.entries_insert_of_notMem h, List.length_cons]

theorem length_erase_le (l : AList (fun _ : κ => ν)) (k : κ) :
    (l.erase k).entries.length ≤ l.entries.length :=
  (List.kerase_sublist k l.entries).length_le

/-- Insert or overwrite the value of `k`, unless the flag or the capacity forbids it. -/
def tryUpdate (m : BoundedMap κ ν cap) (k : κ) (v : ν) (flag : UpdateFlag) :
    Except UpdateError (BoundedMap κ ν cap) :=
  if hk : k ∈ m.entries then
    match flag with
    | .any => .ok ⟨m.entries.insert k v, by rw [length_insert_of_mem v hk]; exact m.size_le⟩
    | .noexist => .error .present
  else if hs : m.size < cap then
    .ok ⟨m.entries.insert k v, by rw [length_insert_of_notMem v hk]; exact hs⟩
  else .error .full

/-- An update whose result code is ignored: a refused one leaves the map as it was. -/
def update (m : BoundedMap κ ν cap) (k : κ) (v : ν) (flag : UpdateFlag) : BoundedMap κ ν cap :=
  match m.tryUpdate k v flag with
  | .ok m' => m'
  | .error _ => m

def delete (m : BoundedMap κ ν cap) (k : κ) : BoundedMap κ ν cap :=
  ⟨m.entries.erase k, Nat.le_trans (length_erase_le _ _) m.size_le⟩

/-! ## Lookups -/

@[simp] theorem lookup_empty (k : κ) : (empty : BoundedMap κ ν cap).lookup k = none := rfl

theorem mem_entries {m : BoundedMap κ ν cap} {k : κ} : k ∈ m.entries ↔ (m.lookup k).isSome :=
  (AList.lookup_isSome).symm

@[simp] theorem lookup_delete_self (m : BoundedMap κ ν cap) (k : κ) :
    (m.delete k).lookup k = none := AList.lookup_erase _ _

theorem lookup_delete_ne (m : BoundedMap κ ν cap) {k k' : κ} (h : k' ≠ k) :
    (m.delete k).lookup k' = m.lookup k' := AList.lookup_erase_ne h

theorem lookup_delete (m : BoundedMap κ ν cap) (k k' : κ) :
    (m.delete k).lookup k' = if k' = k then none else m.lookup k' := by
  by_cases hk : k' = k
  · rw [if_pos hk, hk, lookup_delete_self]
  · rw [if_neg hk, lookup_delete_ne m hk]

/-- Without a value under `k`, nothing changes if it is taken out. -/
theorem lookup_of_none {m : BoundedMap κ ν cap} {k : κ} (hn : m.lookup k = none) (k' : κ) :
    m.lookup k' = if k' = k then none else m.lookup k' := by
  by_cases hk : k' = k
  · rw [if_pos hk, hk, hn]
  · rw [if_neg hk]

theorem lookup_update_ne (m : BoundedMap κ ν cap) {k k' : κ} (v : ν) (flag : UpdateFlag)
    (h : k' ≠ k) : (m.update k v flag).lookup k' = m.lookup k' := by
  unfold update tryUpdate
  by_cases hk : k ∈ m.entries
  · rw [dif_pos hk]
    cases flag with
    | any => exact AList.lookup_insert_ne h
    | noexist => rfl
  · rw [dif_neg hk]
    by_cases hs : m.size < cap
    · rw [dif_pos hs]; exact AList.lookup_insert_ne h
    · rw [dif_neg hs]

/-- The value of `k` after an update of `k`: the new one if the key may be overwritten or is new
and fits, else what was there. -/
theorem lookup_update_self (m : BoundedMap κ ν cap) (k : κ) (v : ν) (flag : UpdateFlag) :
    (m.update k v flag).lookup k =
      match m.lookup k, flag with
      | some _, .any => some v
      | some w, .noexist => some w
      | none, _ => if m.size < cap then some v else none := by
  unfold update tryUpdate
  by_cases hk : k ∈ m.entries
  · obtain ⟨w, hw⟩ := Option.isSome_iff_exists.1 (mem_entries.1 hk)
    rw [dif_pos hk, hw]
    cases flag with
    | any => exact AList.lookup_insert _
    | noexist => exact hw
  · have hn : m.lookup k = none := by simpa using fun h => hk (mem_entries.2 h)
    rw [dif_neg hk, hn]
    by_cases hs : m.size < cap
    · rw [dif_pos hs]
      exact (AList.lookup_insert _).trans (if_pos hs).symm
    · rw [dif_neg hs]
      exact hn.trans (if_neg hs).symm

/-- With room for the key, an unconditional update stores the value. -/
theorem lookup_update_any {m : BoundedMap κ ν cap} {k : κ} (v : ν) (h : m.HasRoom k) :
    (m.update k v .any).lookup k = some v := by
  rw [lookup_update_self]
  cases hl : m.lookup k with
  | some w => rfl
  | none =>
    have hs : m.size < cap := h.resolve_left (by simp [hl])
    simp [hs]

/-- With room for the key, an update of absent keys only stores the value if there was none. -/
theorem lookup_update_noexist {m : BoundedMap κ ν cap} {k : κ} (v : ν) (h : m.HasRoom k) :
    (m.update k v .noexist).lookup k = some ((m.lookup k).getD v) := by
  rw [lookup_update_self]
  cases hl : m.lookup k with
  | some w => rfl
  | none =>
    have hs : m.size < cap := h.resolve_left (by simp [hl])
    simp [hs]

/-- An unconditional update stores the value, or there is no room and nothing under the key. -/
theorem lookup_update_any_or (m : BoundedMap κ ν cap) (k : κ) (v : ν) :
    (m.update k v .any).lookup k = some v ∨
      ((m.update k v .any).lookup k = none ∧ ¬ m.HasRoom k) := by
  by_cases hr : m.HasRoom k
  · exact .inl (lookup_update_any v hr)
  · have hn : m.lookup k = none := by simpa using fun hl => hr (.inl hl)
    have hs : ¬ m.size < cap := fun hs => hr (.inr hs)
    rw [lookup_update_self, hn]
    exact .inr ⟨if_neg hs, hr⟩

/-- What is there after an update is the new value, or was there before. -/
theorem lookup_of_update {m : BoundedMap κ ν cap} {k k' : κ} {v w : ν} {flag : UpdateFlag}
    (h : (m.update k v flag).lookup k' = some w) : (k' = k ∧ v = w) ∨ m.lookup k' = some w := by
  by_cases hk : k' = k
  · subst hk
    rw [lookup_update_self] at h
    cases hl : m.lookup k' <;> cases flag <;> simp_all
  · rw [lookup_update_ne m v flag hk] at h
    exact .inr h

/-! ## Conditional updates -/

theorem lookup_updateIf_any {m : BoundedMap κ ν cap} {k : κ} (v : ν) (c : Prop) [Decidable c]
    (h : m.HasRoom k) :
    (if c then m.update k v .any else m).lookup k = if c then some v else m.lookup k := by
  split
  · exact lookup_update_any v h
  · rfl

theorem lookup_updateIf_ne (m : BoundedMap κ ν cap) {k k' : κ} (v : ν) (flag : UpdateFlag)
    (c : Prop) [Decidable c] (h : k' ≠ k) :
    (if c then m.update k v flag else m).lookup k' = m.lookup k' := by
  split
  · exact m.lookup_update_ne v flag h
  · rfl

/-! ## Result codes -/

/-- With room for the key, no update fails for lack of room. -/
theorem tryUpdate_ne_full {m : BoundedMap κ ν cap} {k : κ} (v : ν) (flag : UpdateFlag)
    (h : m.HasRoom k) : m.tryUpdate k v flag ≠ .error .full := by
  unfold tryUpdate
  by_cases hk : k ∈ m.entries
  · rw [dif_pos hk]; cases flag <;> simp
  · have hs : m.size < cap := h.resolve_left fun hl => hk (mem_entries.2 hl)
    rw [dif_neg hk, dif_pos hs]; simp

/-- The insertion of an absent key that fits succeeds. -/
theorem tryUpdate_isOk {m : BoundedMap κ ν cap} {k : κ} (v : ν) (flag : UpdateFlag)
    (hn : m.lookup k = none) (hs : m.size < cap) :
    ∃ m', m.tryUpdate k v flag = .ok m' := by
  have hk : k ∉ m.entries := fun hk => by simp [mem_entries, hn] at hk
  unfold tryUpdate
  rw [dif_neg hk, dif_pos hs]
  exact ⟨_, rfl⟩

/-! ## The number of keys -/

theorem mem_keys {m : BoundedMap κ ν cap} {k : κ} : k ∈ m.keys ↔ (m.lookup k).isSome := by
  rw [keys, List.mem_toFinset, ← AList.mem_keys]
  exact mem_entries

theorem card_keys (m : BoundedMap κ ν cap) : m.keys.card = m.size := by
  rw [keys, List.toFinset_card_of_nodup m.entries.keys_nodup]
  simp [AList.keys, List.keys, size]

/-- A map whose keys all lie in `s` has at most as many keys as `s`. -/
theorem size_le_card {m : BoundedMap κ ν cap} {s : Finset κ}
    (h : ∀ k, (m.lookup k).isSome → k ∈ s) : m.size ≤ s.card := by
  rw [← card_keys]
  exact Finset.card_le_card fun k hk => h k (mem_keys.1 hk)

end BoundedMap
