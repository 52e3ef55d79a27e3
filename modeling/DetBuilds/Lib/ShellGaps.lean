import DetBuilds.Lib.Shell
import Mathlib.Data.List.Chain

/-!
# Texts with gaps

How the shell cuts up a text in which an insertion has been made, in terms of the text with a gap in
its place. The insertion is between `="` and a blank (`Placed`) and has no characters with a meaning
(`isOrdinary`): it ends up in the word that the gap is in (`lex_fill`). What stands around the gap in
that word is what stands around it in the text (`glued_lex`).
-/

set_option autoImplicit false

namespace Shell

variable {ins : List Char} {c : Char} {s t : Text} {m : Mode} {w : Option Word}

/-! ## Filling -/

/-- Put a text into the gaps. -/
def fill (ins : List Char) : Text → Text
  | [] => []
  | none :: t => chars ins ++ fill ins t
  | some c :: t => some c :: fill ins t

@[simp] theorem fill_nil : fill ins [] = [] := rfl

@[simp] theorem fill_none : fill ins (none :: t) = chars ins ++ fill ins t := rfl

@[simp] theorem fill_some : fill ins (some c :: t) = some c :: fill ins t := rfl

@[simp] theorem fill_append : fill ins (s ++ t) = fill ins s ++ fill ins t := by
  induction s with
  | nil => rfl
  | cons x s ih => cases x <;> simp [ih]

@[simp] theorem fill_chars (l : List Char) : fill ins (chars l) = chars l := by
  induction l with
  | nil => rfl
  | cons c l ih => exact congrArg (some c :: ·) ih

theorem chars_append (l l' : List Char) : chars (l ++ l') = chars l ++ chars l' := List.map_append

def Word.fill (ins : List Char) : Word → Word
  | .literal cs => .literal cs
  | .assign var value => .assign var (Shell.fill ins value)
  | .quoted text => .quoted (Shell.fill ins text)

def Token.fill (ins : List Char) : Token → Token
  | .word w => .word (w.fill ins)
  | .control => .control
  | .redirection => .redirection

/-- A gap stands behind `="`, and a blank behind the gap. -/
inductive Placed : Text → Prop
  | nil : Placed []
  | char (c : Char) {t : Text} : Placed t → Placed (some c :: t)
  | gap {t : Text} : Placed t → Placed (some '=' :: some dquote :: none :: some ' ' :: t)

theorem placed_chars_append (l : List Char) (h : Placed t) : Placed (chars l ++ t) := by
  induction l with
  | nil => exact h
  | cons c l ih => exact .char c ih

theorem Placed.append (hs : Placed s) (ht : Placed t) : Placed (s ++ t) := by
  induction hs with
  | nil => exact ht
  | char c _ ih => exact .char c ih
  | gap _ ih => exact .gap ih

/-! ## Words -/

theorem append_fill (u : Word) : (u.append t).fill ins = (u.fill ins).append (fill ins t) := by
  cases u <;> simp [Word.append, Word.fill]

theorem append_append (u : Word) : (u.append s).append t = u.append (s ++ t) := by
  cases u <;> simp [Word.append]

theorem addQuoted_fill : addQuoted (fill ins t) (w.map (Word.fill ins)) =
    (addQuoted t w).fill ins := by
  cases w with
  | none => exact (append_fill (.quoted [])).symm
  | some u => exact (append_fill u).symm

theorem addLiteral_fill (c : Char) :
    addLiteral c (w.map (Word.fill ins)) = (addLiteral c w).fill ins := by
  cases w with
  | none => rfl
  | some u =>
    cases u with
    | literal cs =>
      show (if _ then _ else _) = Word.fill ins (if _ then _ else _)
      split <;> rfl
    | assign var value => exact (append_fill (t := [some c]) (.assign var value)).symm
    | quoted text => exact (append_fill (t := [some c]) (.quoted text)).symm

/-- What a character does to a word does not depend on what is in its gaps. -/
theorem word_fill (a : Action) : a.word (w.map (Word.fill ins)) = (a.word w).map (Word.fill ins) := by
  cases a with
  | add l =>
    show some (addQuoted (chars l) _) = some _
    rw [← addQuoted_fill, fill_chars]
  | literal c => exact congrArg some (addLiteral_fill c)
  | skip | blank | control | redirection => rfl

theorem isNumber_fill (u : Word) : (u.fill ins).isNumber = u.isNumber := by cases u <;> rfl

theorem tokens_fill (a : Action) :
    a.tokens (w.map (Word.fill ins)) = (a.tokens w).map (Token.fill ins) := by
  cases w with
  | none => cases a <;> rfl
  | some u =>
    cases a with
    | redirection =>
      show ((Option.filter _ (some (u.fill ins))).map Token.word).toList ++ [Token.redirection] =
        List.map (Token.fill ins) (((Option.filter _ (some u)).map Token.word).toList ++ _)
      rw [Option.filter_some, Option.filter_some, isNumber_fill]
      cases u.isNumber <;> rfl
    | skip | add l | literal c | blank | control => rfl

/-! ## Ordinary characters -/

/-- It has no meaning within a word, quoted or not. -/
def isOrdinary (c : Char) : Bool :=
  !(isBlank c || isControl c || isRedirection c ||
    c ∈ [dquote, squote, backquote, backslash, '$', '{', '}', '#'])

theorem contextsAfter_ordinary (hc : isOrdinary c = true) (dollar : Bool) (ks : List Context) :
    contextsAfter dollar c ks = ks := by
  have hopen : opening dollar c = none := by
    simp [isOrdinary, isControl] at hc
    simp [opening, hc]
  cases ks with
  | nil => rw [contextsAfter, hopen]; rfl
  | cons k ks =>
    have hclose : c ≠ k.closing := by
      simp [isOrdinary, isControl] at hc
      cases k <;> simp [Context.closing, hc]
    have hparen : c ≠ '(' := by
      simp [isOrdinary, isControl] at hc
      simp [hc]
    rw [contextsAfter, if_neg hclose]
    cases k <;> simp [Context.opening, hopen, hparen]

/-- It is added to the word at hand. -/
theorem next_ordinary (hc : isOrdinary c = true) (inWord : Bool) (hm : m.comment = false)
    (he : m.escaped = false) :
    ∃ a, m.next inWord c = (m.gap, a) ∧ (a = .add [c] ∨ a = .literal c) := by
  have hks := contextsAfter_ordinary hc m.dollar m.contexts
  simp [isOrdinary] at hc
  have hdollar : (decide (c = '$') && !m.dollar) = false := by simp [hc]
  have hgap : (⟨m.contexts, m.escaped, false, m.comment⟩ : Mode) = m.gap := by rw [Mode.gap, he]
  unfold Mode.next
  rw [if_neg (by simp [hm]), if_neg (by simp [he]), if_neg (by simp [hc])]
  simp only [hks, hdollar, hgap]
  split
  · exact ⟨_, rfl, .inl rfl⟩
  rw [if_neg (not_not.2 rfl)]
  split
  · exact ⟨_, rfl, .inl rfl⟩
  rw [if_neg (by simp [hc])]
  exact ⟨_, rfl, .inr (by simp [unquoted, hc])⟩

/-! ## The text of a word -/

/-- A word with all that has been read of it, but for the quotes. -/
def Word.text : Word → Text
  | .literal cs => chars cs
  | .assign var value => chars (var ++ ['=']) ++ value
  | .quoted text => text

def textOf (w : Option Word) : Text := w.elim [] Word.text

/-- Nothing that is added to the word makes an assignment of it. -/
def Word.Fixed : Word → Prop
  | .literal _ => False
  | .assign _ _ | .quoted _ => True

theorem text_append (u : Word) : (u.append t).text = u.text ++ t := by
  cases u <;> simp [Word.append, Word.text]

theorem text_addQuoted : (addQuoted t w).text = textOf w ++ t := by
  cases w with
  | none => exact text_append (.quoted [])
  | some u => exact text_append u

theorem text_addLiteral (c : Char) : (addLiteral c w).text = textOf w ++ [some c] := by
  cases w with
  | none => rfl
  | some u =>
    cases u with
    | literal cs =>
      show Word.text (if _ then _ else _) = chars cs ++ [some c]
      split
      · rename_i hc
        rw [hc.1]
        simp [Word.text, chars]
      · simp [Word.text, chars]
    | assign var value => exact text_append (t := [some c]) (.assign var value)
    | quoted text => exact text_append (t := [some c]) (.quoted text)

theorem textOf_add (l : List Char) : textOf ((Action.add l).word w) = textOf w ++ chars l :=
  text_addQuoted

theorem textOf_literal (c : Char) : textOf ((Action.literal c).word w) = textOf w ++ [some c] :=
  text_addLiteral c

theorem fixed_append (u : Word) : (u.append t).Fixed := by cases u <;> trivial

theorem fixed_addQuoted : (addQuoted t w).Fixed := fixed_append _

theorem addLiteral_of_fixed {u : Word} (hu : u.Fixed) (c : Char) :
    addLiteral c (some u) = u.append [some c] := by
  cases u with
  | literal cs => exact hu.elim
  | assign var value | quoted text => rfl

/-! ## Up to a gap -/

/-- A `=` has just been read. -/
def BehindEq (m : Mode) (w : Option Word) : Prop :=
  m.comment = true ∨ (m.escaped = false ∧ (textOf w).getLast? = some (some '='))

/-- A double quote has just been read, behind a `=`. -/
def Ready (m : Mode) (w : Option Word) : Prop :=
  m.comment = true ∨
    (m.comment = false ∧ m.escaped = false ∧ m.dollar = false ∧ ∃ u, w = some u ∧ u.Fixed ∧
      (u.text.getLast? = some (some '=') ∨ u.text.getLast? = some (some dquote)))

/-- A character behind a backslash is added, unless it ends the line. -/
theorem escape_eq_add (ks : List Context) (hc : c ≠ '\n') :
    ∃ l, escape ks c = .add (l ++ [c]) := by
  unfold escape
  rw [if_neg hc]
  split
  · exact ⟨[], rfl⟩
  split
  · exact ⟨[], rfl⟩
  · exact ⟨[backslash], rfl⟩

theorem behindEq_next (m : Mode) (w : Option Word) :
    BehindEq (m.next w.isSome '=').1 ((m.next w.isSome '=').2.word w) := by
  by_cases hm : m.comment = true
  · left
    simp [Mode.next, hm]
  have hm : m.comment = false := eq_false_of_ne_true hm
  by_cases he : m.escaped = true
  · right
    have hnext : m.next w.isSome '=' = (m.gap, escape m.contexts '=') := by
      simp [Mode.next, hm, he, Mode.gap]
    obtain ⟨l, hl⟩ := escape_eq_add m.contexts (show '=' ≠ '\n' by decide)
    rw [hnext, hl, textOf_add]
    exact ⟨rfl, by simp [chars]⟩
  · right
    obtain ⟨a, hnext, ha⟩ :=
      next_ordinary (c := '=') rfl w.isSome hm (eq_false_of_ne_true he)
    rw [hnext]
    refine ⟨rfl, ?_⟩
    rcases ha with rfl | rfl
    · rw [textOf_add]
      simp [chars]
    · rw [textOf_literal]
      simp

/-- A double quote opens or closes a quotation, or is a quoted character. -/
theorem next_dquote (inWord : Bool) (hm : m.comment = false) (he : m.escaped = false) :
    ∃ m' l, m.next inWord dquote = (m', .add l) ∧
      (m'.comment = false ∧ m'.escaped = false ∧ m'.dollar = false) ∧ (l = [] ∨ l = [dquote]) := by
  have hdollar : (decide (dquote = '$') && !m.dollar) = false := by simp [dquote]
  unfold Mode.next
  rw [if_neg (by simp [hm]), if_neg (by simp [he]), if_neg (by simp [dquote, backslash])]
  simp only [hdollar]
  split
  · exact ⟨_, _, rfl, ⟨hm, he, rfl⟩, .inr rfl⟩
  split
  · exact ⟨_, _, rfl, ⟨hm, he, rfl⟩, .inl rfl⟩
  split
  · exact ⟨_, _, rfl, ⟨hm, he, rfl⟩, .inr rfl⟩
  · rename_i hks hnil
    have hnil := not_not.1 hnil
    rw [(not_not.1 hks).symm.trans hnil] at hnil
    cases hnil

theorem ready_next {b : Bool} (h : BehindEq m w) :
    Ready (m.next b dquote).1 ((m.next b dquote).2.word w) := by
  rcases h with hm | ⟨he, hlast⟩
  · left
    simp [Mode.next, hm, dquote]
  by_cases hm : m.comment = true
  · left
    simp [Mode.next, hm, dquote]
  obtain ⟨m', l, hnext, ⟨hm', he', hd'⟩, hl⟩ :=
    next_dquote b (eq_false_of_ne_true hm) he
  rw [hnext]
  refine .inr ⟨hm', he', hd', _, rfl, fixed_addQuoted, ?_⟩
  rcases hl with rfl | rfl
  · left
    simpa [text_addQuoted, chars] using hlast
  · right
    simp [text_addQuoted, chars]

/-! ## In a gap -/

theorem gap_eq_self (he : m.escaped = false) (hd : m.dollar = false) : m.gap = m := by
  obtain ⟨ks, escaped, dollar, comment⟩ := m
  cases he
  cases hd
  rfl

/-- Ordinary characters go into the word at hand. -/
theorem lex_ordinary {l : List Char} (hl : ∀ c ∈ l, isOrdinary c = true) (hm : m.comment = false)
    (he : m.escaped = false) (hd : m.dollar = false) :
    ∀ {u : Word}, u.Fixed → lex m (some u) (chars l ++ t) = lex m (some (u.append (chars l))) t := by
  induction l with
  | nil =>
    intro u hu
    cases u with
    | literal cs => exact hu.elim
    | assign var value | quoted text => simp [chars, Word.append]
  | cons c l ih =>
    intro u hu
    obtain ⟨a, hnext, ha⟩ := next_ordinary (hl c (by simp)) true hm he
    have hword : a.word (some u) = some (u.append [some c]) ∧ a.tokens (some u) = [] := by
      rcases ha with rfl | rfl
      · exact ⟨rfl, rfl⟩
      · exact ⟨congrArg some (addLiteral_of_fixed hu c), rfl⟩
    show (m.next true c).2.tokens (some u) ++
      lex (m.next true c).1 ((m.next true c).2.word (some u)) (chars l ++ t) = _
    rw [hnext, hword.1, hword.2, List.nil_append, gap_eq_self he hd,
      ih (fun d hd => hl d (.tail _ hd)) (fixed_append u), append_append]
    rfl

/-- In a comment they are skipped. -/
theorem lex_comment {l : List Char} (hl : ∀ c ∈ l, isOrdinary c = true) (hm : m.comment = true) :
    lex m w (chars l ++ t) = lex m w t := by
  induction l with
  | nil => rfl
  | cons c l ih =>
    have hc : c ≠ '\n' := by
      have := hl c (by simp)
      rintro rfl
      exact absurd this (by decide)
    have hnext : m.next w.isSome c = (m, .skip) := by simp [Mode.next, hm, hc]
    show (m.next w.isSome c).2.tokens w ++
      lex (m.next w.isSome c).1 ((m.next w.isSome c).2.word w) (chars l ++ t) = _
    rw [hnext]
    exact ih fun d hd => hl d (.tail _ hd)

theorem lex_none_comment (hm : m.comment = true) : lex m w (none :: t) = lex m w t := if_pos hm

theorem lex_none {u : Word} (hm : m.comment = false) (he : m.escaped = false)
    (hd : m.dollar = false) : lex m (some u) (none :: t) = lex m (some (u.append [none])) t := by
  rw [lex, if_neg (by simp [hm]), gap_eq_self he hd]
  rfl

/-- What is put into a gap ends up in the word that the gap is in. -/
theorem lex_gap (hins : ∀ c ∈ ins, isOrdinary c = true) (hr : Ready m w) :
    ∃ w', (∀ t, lex m w (none :: t) = lex m w' t) ∧
      ∀ t, lex m (w.map (Word.fill ins)) (chars ins ++ t) = lex m (w'.map (Word.fill ins)) t := by
  rcases hr with hm | ⟨hm, he, hd, u, rfl, hu, -⟩
  · exact ⟨w, fun t => lex_none_comment hm, fun t => lex_comment hins hm⟩
  · have hu' : (u.fill ins).Fixed := by
      cases u with
      | literal cs => exact hu.elim
      | assign var value | quoted text => trivial
    have hfill : (u.append [none]).fill ins = (u.fill ins).append (chars ins) := by
      rw [append_fill]
      simp
    refine ⟨some (u.append [none]), fun t => lex_none hm he hd, fun t => ?_⟩
    rw [Option.map_some, lex_ordinary hins hm he hd hu', Option.map_some, hfill]

/-! ## Runs -/

theorem lex_some (m : Mode) (w : Option Word) (c : Char) (t : Text) :
    lex m w (some c :: t) = (m.next w.isSome c).2.tokens w ++
      lex (m.next w.isSome c).1 ((m.next w.isSome c).2.word w) t := rfl

theorem lex_some_fill (m : Mode) (w : Option Word) (c : Char) (t : Text) :
    lex m (w.map (Word.fill ins)) (some c :: t) =
      ((m.next w.isSome c).2.tokens w).map (Token.fill ins) ++
        lex (m.next w.isSome c).1 (((m.next w.isSome c).2.word w).map (Word.fill ins)) t := by
  rw [lex_some, Option.isSome_map, tokens_fill, word_fill]

/-- **Words and operators** are the same with the gaps filled. -/
theorem lex_fill (hins : ∀ c ∈ ins, isOrdinary c = true) (ht : Placed t) :
    lex m (w.map (Word.fill ins)) (fill ins t) = (lex m w t).map (Token.fill ins) := by
  induction ht generalizing m w with
  | nil => cases w <;> rfl
  | char c _ ih => rw [fill_some, lex_some_fill, ih, ← List.map_append, ← lex_some]
  | gap _ ih =>
    have hr := ready_next (b := ((m.next w.isSome '=').2.word w).isSome) (behindEq_next m w)
    obtain ⟨w', hgap, hfill⟩ := lex_gap hins hr
    rw [fill_some, fill_some, fill_none, fill_some, lex_some_fill, lex_some_fill, hfill,
      lex_some_fill, ih, lex_some m w, lex_some, hgap, lex_some]
    simp only [List.map_append]

/-! ## What stands around a gap -/

/-- Behind a gap comes a blank, and before it stands what stood there in the text, or the `=` if a
quotation began in between. -/
def Glued (t : Text) : Prop :=
  t.IsChain fun x y => (y = none → x = some '=' ∨ x = some dquote) ∧ (x = none → y = some ' ')

/-- Anything may follow. -/
def Tidy (w : Option Word) : Prop := Glued (textOf w) ∧ (textOf w).getLast? ≠ some none

theorem glued_append {x : Option Char} (hs : Glued s)
    (hx : ∀ y, s.getLast? = some y →
      (x = none → y = some '=' ∨ y = some dquote) ∧ (y = none → x = some ' ')) :
    Glued (s ++ [x]) :=
  List.isChain_append.2 ⟨hs, List.isChain_singleton x, fun y hy z hz => by
    obtain rfl : x = z := by simpa using hz
    exact hx y hy⟩

theorem glued_append_chars {l : List Char} (hs : Glued s) (hlast : s.getLast? ≠ some none) :
    Glued (s ++ chars l) ∧ (s ++ chars l).getLast? ≠ some none := by
  induction l generalizing s with
  | nil => exact ⟨by simpa [chars] using hs, by simpa [chars] using hlast⟩
  | cons c l ih =>
    have hone : Glued (s ++ [some c]) := by
      refine glued_append hs fun y hy => ⟨nofun, ?_⟩
      rintro rfl
      exact absurd hy hlast
    simpa [chars] using ih hone (by simp)

theorem tidy_none : Tidy none := ⟨List.isChain_nil, by simp [textOf]⟩

theorem tidy_word (hw : Tidy w) (a : Action) : Tidy (a.word w) := by
  cases a with
  | skip => exact hw
  | add l =>
    rw [Tidy, textOf_add]
    exact glued_append_chars hw.1 hw.2
  | literal c =>
    rw [Tidy, textOf_literal]
    exact glued_append_chars (l := [c]) hw.1 hw.2
  | blank | control | redirection => exact tidy_none

/-- A word that ends is the one at hand. -/
theorem eq_of_mem_tokens {a : Action} {u : Word} (h : Token.word u ∈ a.tokens w) : w = some u := by
  cases w with
  | none => cases a <;> simp [Action.tokens] at h
  | some v =>
    cases a with
    | skip | add l | literal c => cases h
    | blank => simpa [Action.tokens, eq_comm] using h
    | control => simpa [Action.tokens, eq_comm] using h
    | redirection =>
      rw [Action.tokens, Option.filter_some] at h
      split at h
      · simpa [eq_comm] using h
      · simp at h

/-- A blank ends the word at hand, or is a quoted character. -/
theorem next_blank (inWord : Bool) (hm : m.comment = false) (he : m.escaped = false) :
    ∃ m' a, m.next inWord ' ' = (m', a) ∧ (a = .blank ∨ a = .add [' ']) := by
  have hks : contextsAfter m.dollar ' ' m.contexts = m.contexts := by
    have hopen : opening m.dollar ' ' = none := by simp [opening, dquote, squote, backquote]
    cases m.contexts with
    | nil => rw [contextsAfter, hopen]; rfl
    | cons k ks =>
      rw [contextsAfter, if_neg (by cases k <;> decide)]
      cases k <;> simp [Context.opening, hopen]
  unfold Mode.next
  rw [if_neg (by simp [hm]), if_neg (by simp [he]), if_neg (by simp [backslash])]
  simp only [hks]
  split
  · exact ⟨_, _, rfl, .inr rfl⟩
  rw [if_neg (not_not.2 rfl)]
  split
  · exact ⟨_, _, rfl, .inr rfl⟩
  · exact ⟨_, _, rfl, .inl rfl⟩

/-- **Around the gaps of a word** stands what stands around them in the text. -/
theorem glued_lex (ht : Placed t) (hw : Tidy w) :
    ∀ u, Token.word u ∈ lex m w t → Glued u.text := by
  induction ht generalizing m w with
  | nil =>
    intro u hu
    cases w with
    | none => cases hu
    | some v =>
      obtain rfl : u = v := by simpa [lex] using hu
      exact hw.1
  | char c _ ih =>
    intro u hu
    rw [lex_some] at hu
    rcases List.mem_append.1 hu with hu | hu
    · have hw := hw.1
      rwa [eq_of_mem_tokens hu] at hw
    · exact ih (tidy_word hw _) u hu
  | gap _ ih =>
    intro u hu
    have hr := ready_next (b := ((m.next w.isSome '=').2.word w).isSome) (behindEq_next m w)
    have h₁ := tidy_word hw (m.next w.isSome '=').2
    have h₂ := tidy_word h₁
      ((m.next w.isSome '=').1.next ((m.next w.isSome '=').2.word w).isSome dquote).2
    -- words that end in front of the gap
    rw [lex_some, lex_some] at hu
    rcases List.mem_append.1 hu with hu | hu
    · have hw := hw.1
      rwa [eq_of_mem_tokens hu] at hw
    rcases List.mem_append.1 hu with hu | hu
    · have h₁ := h₁.1
      rwa [eq_of_mem_tokens hu] at h₁
    -- the word that it is in, and those behind it
    rcases hr with hm | ⟨hm, he, hd, v, hv, -, hlast⟩
    · rw [lex_none_comment hm, lex_some] at hu
      rcases List.mem_append.1 hu with hu | hu
      · have h₂ := h₂.1
        rwa [eq_of_mem_tokens hu] at h₂
      · exact ih (tidy_word h₂ _) u hu
    · rw [hv] at hu h₂
      have hgap : Glued (v.text ++ [none]) := by
        refine glued_append h₂.1 fun y hy => ⟨fun _ => ?_, ?_⟩
        · simpa [hy] using hlast
        · rintro rfl
          exact absurd hy h₂.2
      obtain ⟨m', a, hnext, ha⟩ := next_blank true hm he
      rw [lex_none hm he hd, lex_some, Option.isSome_some, hnext] at hu
      rcases List.mem_append.1 hu with hu | hu
      · obtain rfl : v.append [none] = u := by simpa using eq_of_mem_tokens hu
        rwa [text_append]
      · refine ih ?_ u hu
        rcases ha with rfl | rfl
        · exact tidy_none
        · simp only [Tidy, Action.word, textOf, Option.elim_some, text_addQuoted, text_append]
          refine ⟨glued_append hgap fun y hy => ⟨nofun, fun _ => rfl⟩, by simp [chars]⟩

end Shell
