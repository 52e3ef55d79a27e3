import DetBuilds.Lib.ShellGaps

/-!
# Assignments of a text with gaps

A text in which an insertion has been made has the same assignments as the text with a gap in its
place, with the gaps of their values filled (`assignments_fill`).

`HasWord` says that a value has a text as one of its parts between separators. An inserted word is one
exactly if the gap is, or if it was before (`hasWord_fill`), and the gap is one exactly if the value
begins with it (`hasWord_gap`).
-/

set_option autoImplicit false

namespace Shell

variable {ins : List Char} {s t : Text}

/-! ## Commands -/

/-- What is put in is recognized as such: no name of a utility and nothing that begins with the name
of the variable has it at its start. -/
structure Strange (var ins : List Char) : Prop where
  eq : '=' ∈ ins
  head : ∃ c l, ins = c :: l ∧ c ∉ var ++ ['=']

variable {var : List Char}

theorem fill_eq_chars_iff (heq : '=' ∈ ins) {l : List Char} (hl : '=' ∉ l) :
    fill ins t = chars l ↔ t = chars l := by
  induction t generalizing l with
  | nil => rfl
  | cons x t ih =>
    cases x with
    | none =>
      refine iff_of_false (fun h => hl ?_) (fun h => ?_)
      · have hmem : some '=' ∈ fill ins (none :: t) :=
          List.mem_append_left _ (List.mem_map_of_mem heq)
        rw [h] at hmem
        simpa [chars] using hmem
      · cases l <;> simp [chars] at h
    | some c =>
      cases l with
      | nil => simp [chars]
      | cons d l =>
        have hcons := ih (l := l) fun h => hl (.tail _ h)
        simpa [chars] using fun _ => hcons

theorem mem_names_iff (heq : '=' ∈ ins) {names : List (List Char)} (hnames : ∀ l ∈ names, '=' ∉ l) :
    fill ins t ∈ names.map chars ↔ t ∈ names.map chars := by
  simp only [List.mem_map]
  constructor
  · rintro ⟨l, hl, h⟩
    exact ⟨l, hl, ((fill_eq_chars_iff heq (hnames l hl)).1 h.symm).symm⟩
  · rintro ⟨l, hl, rfl⟩
    exact ⟨l, hl, (fill_chars l).symm⟩

theorem chars_prefix_fill_iff (hs : ∃ c l, ins = c :: l ∧ c ∉ var) :
    chars var <+: fill ins t ↔ chars var <+: t := by
  obtain ⟨d, l, rfl, hd⟩ := hs
  induction var generalizing t with
  | nil => simp [chars]
  | cons c var ih =>
    have hcd : c ≠ d := fun h => hd (by simp [h])
    cases t with
    | nil => rfl
    | cons x t =>
      cases x with
      | none => simp [chars, List.cons_prefix_cons, hcd]
      | some e =>
        have hcons := ih (t := t) fun h => hd (.tail _ h)
        simpa [chars, List.cons_prefix_cons] using fun _ => hcons

theorem declared_fill (hs : Strange var ins) (u : Word) :
    (u.fill ins).declared var = (u.declared var).map (fill ins) := by
  cases u with
  | literal cs => rfl
  | assign x value =>
    show (if _ then _ else _) = Option.map _ (if _ then _ else _)
    split <;> rfl
  | quoted text =>
    show (if _ then _ else _) = Option.map _ (if _ then _ else _)
    by_cases hp : chars (var ++ ['=']) <+: text
    · rw [if_pos ((chars_prefix_fill_iff hs.head).2 hp), if_pos hp, Option.map_some]
      obtain ⟨r, rfl⟩ := hp
      have hlen : (chars (var ++ ['='])).length = var.length + 1 := by simp [chars]
      rw [fill_append, fill_chars, ← hlen, List.drop_left, List.drop_left]
    · rw [if_neg fun h => hp ((chars_prefix_fill_iff hs.head).1 h), if_neg hp]
      rfl

def Command.fill (ins : List Char) (s : Command) : Command :=
  { s with values := s.values.map (Shell.fill ins) }

theorem named_fill (heq : '=' ∈ ins) (s : Command) (name : Text) :
    (s.fill ins).named (fill ins name) = (s.named name).fill ins := by
  have hdeclaring : fill ins name ∈ declaring.map chars ↔ name ∈ declaring.map chars :=
    mem_names_iff heq (by decide)
  have hspecial : fill ins name ∈ special.map chars ↔ name ∈ special.map chars :=
    mem_names_iff heq (by decide)
  unfold Command.named
  rw [if_congr hdeclaring rfl rfl, if_congr hspecial rfl rfl]
  split
  · rfl
  split <;> rfl

theorem command_fill (hs : Strange var ins) (s : Command) (u : Word) :
    (s.fill ins).word var (u.fill ins) = (s.word var u).fill ins := by
  have hassigning : ∀ u : Word, (s.position = .first ∨ s.position = .assigning) →
      (s.fill ins).word var (u.fill ins) = (s.word var u).fill ins := by
    intro u hpos
    have hpos' : (s.fill ins).position = s.position := rfl
    unfold Command.word
    rw [hpos']
    rcases hpos with hpos | hpos <;> rw [hpos] <;> cases u with
    | literal cs =>
      have hnamed := named_fill hs.eq s (chars cs)
      rw [fill_chars] at hnamed
      simp only [Word.fill, hnamed]
      split <;> rfl
    | assign x value =>
      simp only [Word.fill, Command.fill]
      split <;> simp
    | quoted text => exact named_fill hs.eq s text
  cases hpos : s.position with
  | first => exact hassigning u (.inl hpos)
  | assigning => exact hassigning u (.inr hpos)
  | operand =>
    have hpos' : (s.fill ins).position = .operand := hpos
    unfold Command.word
    rw [hpos', hpos]
  | declared =>
    have hpos' : (s.fill ins).position = .declared := hpos
    unfold Command.word
    rw [hpos', hpos, declared_fill hs]
    simp only [Command.fill, List.map_append]
    cases u.declared var <;> rfl

theorem assigned_fill (hs : Strange var ins) (ts : List Token) :
    ∀ s : Command, assigned var (s.fill ins) (ts.map (Token.fill ins)) =
      (assigned var s ts).map (fill ins) := by
  induction ts with
  | nil => intro s; rfl
  | cons tok ts ih =>
    intro s
    cases tok with
    | word u =>
      show (if s.redirected = true then _ else _) = List.map _ (if s.redirected = true then _ else _)
      split
      · exact ih { s with redirected := false }
      · rw [command_fill hs]
        exact ih _
    | redirection =>
      exact ih { s with
        redirected := true
        position := if s.position = .first then .assigning else s.position }
    | control =>
      show (if s.redirected = true then _ else _) = List.map _ (if s.redirected = true then _ else _)
      split
      · exact ih s
      · rw [List.map_append, ← ih .fresh]
        rfl

/-- **A text with its gaps filled** has the same assignments, with their gaps filled. -/
theorem assignments_fill (hs : Strange var ins) (hins : ∀ c ∈ ins, isOrdinary c = true)
    (ht : Placed t) : assignments var (fill ins t) = (assignments var t).map (fill ins) := by
  have hlex : lex .fresh none (fill ins t) = (lex .fresh none t).map (Token.fill ins) :=
    lex_fill (w := none) hins ht
  unfold assignments
  rw [hlex]
  exact assigned_fill hs _ .fresh

/-! ## Values -/

theorem glued_of_suffix (h : Glued t) (hs : s <:+ t) : Glued s := by
  obtain ⟨r, rfl⟩ := hs
  exact (List.isChain_append.1 h).2.1

theorem suffix_of_declared {u : Word} {v : Text} (h : u.declared var = some v) : v <:+ u.text := by
  cases u with
  | literal cs => cases h
  | assign x value =>
    obtain ⟨-, h⟩ := Option.ite_none_right_eq_some.1 h
    cases h
    exact List.suffix_append _ _
  | quoted text =>
    obtain ⟨-, h⟩ := Option.ite_none_right_eq_some.1 h
    cases h
    exact List.drop_suffix _ _

/-- The name of a command gives no value. -/
theorem values_named (s : Command) (name : Text) : (s.named name).values ⊆ s.values := by
  unfold Command.named
  split
  · exact List.Subset.refl _
  split
  · exact List.Subset.refl _
  · exact List.nil_subset _

/-- A value is the end of a word. -/
theorem mem_values_word {s : Command} {u : Word} {v : Text} (hv : v ∈ (s.word var u).values) :
    v ∈ s.values ∨ v <:+ u.text := by
  unfold Command.word at hv
  split at hv
  · exact .inl hv
  · refine (List.mem_append.1 hv).imp_right fun hv => ?_
    exact suffix_of_declared (Option.mem_toList.1 hv)
  -- in front of the name
  all_goals
    cases u with
    | literal cs =>
      simp only at hv
      split at hv
      · exact .inl hv
      · exact .inl (values_named s _ hv)
    | assign x value =>
      simp only at hv
      split at hv
      · refine (List.mem_append.1 hv).imp_right fun hv => ?_
        rw [List.mem_singleton.1 hv]
        exact List.suffix_append _ _
      · exact .inl hv
    | quoted text => exact .inl (values_named s _ hv)

theorem glued_assigned {ts : List Token} (ht : ∀ u, Token.word u ∈ ts → Glued u.text) :
    ∀ s : Command, (∀ v ∈ s.values, Glued v) → ∀ v ∈ assigned var s ts, Glued v := by
  induction ts with
  | nil => exact fun s hs => hs
  | cons tok ts ih =>
    have ih := ih fun u hu => ht u (.tail _ hu)
    intro s hs v hv
    cases tok with
    | word u =>
      rw [assigned] at hv
      split at hv
      · exact ih { s with redirected := false } hs v hv
      · refine ih _ (fun v' hv' => ?_) v hv
        rcases mem_values_word hv' with hv' | hsuffix
        · exact hs v' hv'
        · exact glued_of_suffix (ht u (by simp)) hsuffix
    | redirection =>
      exact ih { s with
        redirected := true
        position := if s.position = .first then .assigning else s.position } hs v hv
    | control =>
      rw [assigned] at hv
      split at hv
      · exact ih s hs v hv
      · rcases List.mem_append.1 hv with hv | hv
        · exact hs v hv
        · exact ih .fresh nofun v hv

theorem glued_of_mem_assignments (ht : Placed t) {v : Text} (hv : v ∈ assignments var t) :
    Glued v :=
  glued_assigned (glued_lex ht tidy_none) .fresh nofun v hv

/-! ## Words of a value -/

/-- `w` is one of the parts of `v` between separators. -/
def HasWord (sep : Char → Bool) (w v : Text) : Prop := w ∈ v.splitOnP fun x => x.any sep

instance (sep : Char → Bool) (w v : Text) : Decidable (HasWord sep w v) :=
  inferInstanceAs (Decidable (w ∈ v.splitOnP _))

variable {sep : Char → Bool}

theorem splitOnP_chars_append {l : List Char} (hl : ∀ c ∈ l, sep c = false) (t : Text) :
    (chars l ++ t).splitOnP (fun x => x.any sep) =
      (t.splitOnP fun x => x.any sep).modifyHead (chars l ++ ·) := by
  induction l with
  | nil =>
    show t.splitOnP _ = (t.splitOnP _).modifyHead _
    cases t.splitOnP fun x => x.any sep <;> rfl
  | cons c l ih =>
    have hc : (some c).any sep = false := hl c (by simp)
    show (some c :: (chars l ++ t)).splitOnP _ = _
    rw [List.splitOnP_cons_eq_if_modifyHead, hc, if_neg (by simp), ih fun d hd => hl d (.tail _ hd)]
    cases t.splitOnP fun x => x.any sep <;> rfl

/-- The parts of a value do not depend on what is in its gaps. -/
theorem splitOnP_fill (hins : ∀ c ∈ ins, sep c = false) (v : Text) :
    (fill ins v).splitOnP (fun x => x.any sep) =
      (v.splitOnP fun x => x.any sep).map (fill ins) := by
  induction v with
  | nil => rfl
  | cons x v ih =>
    cases x with
    | none =>
      rw [fill_none, splitOnP_chars_append hins, ih, List.splitOnP_cons_eq_if_modifyHead,
        if_neg (by simp)]
      cases v.splitOnP fun x => x.any sep <;> rfl
    | some c =>
      rw [fill_some, List.splitOnP_cons_eq_if_modifyHead, List.splitOnP_cons_eq_if_modifyHead, ih]
      split
      · rfl
      · cases v.splitOnP fun x => x.any sep <;> rfl

theorem eq_chars_of_fill {l : List Char} (hl : l.length < ins.length) (h : fill ins t = chars l) :
    t = chars l := by
  induction t generalizing l with
  | nil => exact h
  | cons x t ih =>
    cases x with
    | none =>
      have hlen := congrArg List.length h
      simp [chars] at hlen
      omega
    | some c =>
      cases l with
      | nil => cases h
      | cons d l =>
        obtain ⟨hcd, htail⟩ := List.cons.inj h
        rw [hcd, ih (Nat.lt_of_succ_lt hl) htail]
        rfl

theorem fill_eq_ins_iff (hne : ins ≠ []) :
    fill ins t = chars ins ↔ t = [none] ∨ t = chars ins := by
  constructor
  · intro h
    cases t with
    | nil => exact absurd (List.map_eq_nil_iff.1 h.symm) hne
    | cons x t =>
      cases x with
      | none =>
        have htail : fill ins t = [] := by simpa using h
        cases t with
        | nil => exact .inl rfl
        | cons y t =>
          cases y with
          | none => simp [chars, hne] at htail
          | some c => cases htail
      | some c =>
        obtain ⟨d, l, rfl⟩ := List.exists_cons_of_ne_nil hne
        obtain ⟨hcd, htail⟩ := List.cons.inj h
        right
        rw [hcd, eq_chars_of_fill (Nat.lt_succ_self _) htail]
        rfl
  · rintro (rfl | rfl)
    · simp
    · exact fill_chars _

/-- **An inserted word** is a word of the value if the gap is one, or if it was one before. -/
theorem hasWord_fill (hins : ∀ c ∈ ins, sep c = false) (hne : ins ≠ []) (v : Text) :
    HasWord sep (chars ins) (fill ins v) ↔ HasWord sep [none] v ∨ HasWord sep (chars ins) v := by
  unfold HasWord
  rw [splitOnP_fill hins, List.mem_map]
  simp only [fill_eq_ins_iff hne]
  constructor
  · rintro ⟨u, hu, rfl | rfl⟩
    · exact .inl hu
    · exact .inr hu
  · rintro (h | h)
    · exact ⟨_, h, .inl rfl⟩
    · exact ⟨_, h, .inr rfl⟩

/-- The first part of a value is a gap only if the value begins with one. -/
theorem head_of_splitOnP {v : Text} {r : List Text}
    (h : v.splitOnP (fun x => x.any sep) = [none] :: r) : v.head? = some none := by
  cases v with
  | nil => cases h
  | cons x v =>
    rw [List.splitOnP_cons_eq_if_modifyHead] at h
    split at h
    · cases h
    · cases hv : v.splitOnP fun x => x.any sep with
      | nil => rw [hv] at h; cases h
      | cons u r' =>
        rw [hv] at h
        simp only [List.modifyHead_cons, List.cons.injEq] at h
        rw [h.1.1]
        rfl

/-- No other part is, as what stands before a gap separates nothing. -/
theorem not_mem_tail_splitOnP (heq : sep '=' = false) (hquote : sep dquote = false) {v : Text}
    (hv : Glued v) : [none] ∉ (v.splitOnP fun x => x.any sep).tail := by
  induction v with
  | nil => simp [List.splitOnP_nil]
  | cons x v ih =>
    have ih := ih (glued_of_suffix hv (List.suffix_cons x v))
    rw [List.splitOnP_cons_eq_if_modifyHead]
    split
    · rename_i hx
      intro hmem
      have hmem : [none] ∈ v.splitOnP fun x => x.any sep := hmem
      cases hsplit : v.splitOnP fun x => x.any sep with
      | nil => rw [hsplit] at hmem; cases hmem
      | cons u r =>
        rw [hsplit] at hmem ih
        rcases List.mem_cons.1 hmem with rfl | hmem
        · obtain ⟨v', rfl⟩ := List.head?_eq_some_iff.1 (head_of_splitOnP hsplit)
          rcases (List.isChain_cons_cons.1 hv).1.1 rfl with rfl | rfl
          · simp [heq] at hx
          · simp [hquote] at hx
        · exact ih hmem
    · rwa [List.tail_modifyHead]

/-- **A gap is a word** of a value exactly if the value begins with it. -/
theorem hasWord_gap (heq : sep '=' = false) (hquote : sep dquote = false) (hblank : sep ' ' = true)
    {v : Text} (hv : Glued v) : HasWord sep [none] v ↔ v.head? = some none := by
  constructor
  · intro h
    have h : [none] ∈ v.splitOnP fun x => x.any sep := h
    have htail := not_mem_tail_splitOnP heq hquote hv
    cases hsplit : v.splitOnP fun x => x.any sep with
    | nil => rw [hsplit] at h; cases h
    | cons u r =>
      rw [hsplit] at h htail
      rcases List.mem_cons.1 h with rfl | h
      · exact head_of_splitOnP hsplit
      · exact absurd h htail
  · intro h
    obtain ⟨v, rfl⟩ := List.head?_eq_some_iff.1 h
    unfold HasWord
    rw [List.splitOnP_cons_eq_if_modifyHead, if_neg (by simp)]
    cases v with
    | nil => simp [List.splitOnP_nil]
    | cons x v =>
      obtain rfl := (List.isChain_cons_cons.1 hv).1.2 rfl
      rw [List.splitOnP_cons_eq_if_modifyHead, if_pos (by simpa using hblank)]
      simp

end Shell
