import DetBuilds.Grub.TurnOffVdso
import DetBuilds.Lib.ShellValues
import Mathlib.Data.List.Forall2

/-!
# What the edit does to the kernel command line

`/etc/default/grub` is read by a shell: `assignments` are the values that the file gives to
`GRUB_CMDLINE_LINUX_DEFAULT`, and a comment gives none. In each line the edit puts `vdso=0` behind the
first `GRUB_CMDLINE_LINUX_DEFAULT="`, wherever that is. Reading the lines with a gap at this place
(`marked`) tells what becomes of the values: `vdso=0` is a word of a value if the value begins at the
gap, and otherwise only if it was a word before.

`takesEffect_iff`: the edit takes effect exactly if the file assigns the variable and each value that
it gives begins at the place that the edit finds in the line, or has the word already.
-/

set_option autoImplicit false

namespace Grub

open Substitute Shell

/-- The words of the kernel command line are separated by white space. -/
def isSpace (c : Char) : Bool := c = ' ' || c = '\t' || c = '\n'

/-- The text of a file. -/
def fileText (lines : List Text) : Text := lines.flatMap (· ++ [some '\n'])

/-- The values that a file gives to the variable, each in the line that its assignment begins in. -/
def values (lines : List Line) : List Text := assignments name (fileText (lines.map chars))

/-- In the edited file each assignment to the variable has `vdso=0` as a word of the value, there is
an assignment, and the lines that do not mention the variable are as before. -/
def TakesEffect (before edited : List Line) : Prop :=
  (∀ v ∈ values edited, HasWord isSpace (chars vdsoOff) v) ∧ values edited ≠ [] ∧
    List.Forall₂ (fun l l' => ¬ name <:+: l → l' = l) before edited

/-- A line with a gap and a blank at the first place behind `GRUB_CMDLINE_LINUX_DEFAULT="`. -/
def marked (l : Line) : Text :=
  insertAfter (chars (name ++ ['=', dquote])) [none, some ' '] (chars l)

/-- The file assigns the variable, and each value begins at the first place in the line behind
`GRUB_CMDLINE_LINUX_DEFAULT="`, or has the word already. -/
def Editable (lines : List Line) : Prop :=
  assignments name (fileText (lines.map marked)) ≠ [] ∧
    ∀ v ∈ assignments name (fileText (lines.map marked)),
      v.head? = some none ∨ HasWord isSpace (chars vdsoOff) v

instance (lines : List Line) : Decidable (Editable lines) :=
  inferInstanceAs (Decidable (_ ∧ _))

/-! ## The edit of a line -/

theorem chars_prefix_chars {l l' : Line} : chars l <+: chars l' ↔ l <+: l' := by
  refine ⟨fun h => ?_, fun h => h.map some⟩
  obtain ⟨r, hr, heq⟩ := List.prefix_map_iff.1 h
  rwa [List.map_injective_iff.2 (fun _ _ => Option.some.inj) heq]

/-- The edit fills the gap. -/
theorem fill_marked (l : Line) : fill vdsoOff (marked l) = chars (edit l) := by
  induction l with
  | nil => rfl
  | cons c l ih =>
    by_cases hp : name ++ ['=', dquote] <+: c :: l
    · obtain ⟨r, hr⟩ := hp
      unfold marked edit
      rw [← hr, insertAfter_prefix, chars_append _ r, insertAfter_prefix,
        fill_append, fill_append, fill_chars, fill_chars]
      simp [chars]
    · have hp' : ¬ chars (name ++ ['=', dquote]) <+: some c :: chars l :=
        fun h => hp (chars_prefix_chars.1 h)
      have hmarked : marked (c :: l) = some c :: marked l := insertAfter_cons hp'
      have hedit : edit (c :: l) = c :: edit l := insertAfter_cons hp
      rw [hmarked, hedit, fill_some, ih]
      rfl

/-- The gap is behind the `="`. -/
theorem placed_marked (l : Line) : Placed (marked l) := by
  have hchars : ∀ l : Line, Placed (chars l) := fun l => by
    simpa using placed_chars_append l .nil
  by_cases hi : chars (name ++ ['=', dquote]) <:+: chars l
  · have hins : ∃ a b, chars l = a ++ chars (name ++ ['=', dquote]) ++ b ∧
        marked l = a ++ chars (name ++ ['=', dquote]) ++ [none, some ' '] ++ b :=
      exists_insertAfter hi
    obtain ⟨a, b, hl, heq⟩ := hins
    obtain ⟨ab, b', rfl, hab, rfl⟩ := List.map_eq_append_iff.1 hl
    obtain ⟨a', pat, rfl, rfl, -⟩ := List.map_eq_append_iff.1 hab
    rw [heq, chars_append, List.append_assoc, List.append_assoc, List.append_assoc]
    exact placed_chars_append a' (placed_chars_append name (.gap (hchars b')))
  · rw [marked, insertAfter_eq_self (by simp [chars]) hi]
    exact hchars l

/-! ## The edit of the file -/

theorem placed_fileText {lines : List Text} (h : ∀ t ∈ lines, Placed t) :
    Placed (fileText lines) := by
  induction lines with
  | nil => exact .nil
  | cons t lines ih =>
    have ht := (h t (by simp)).append (.char '\n' .nil)
    exact ht.append (ih fun s hs => h s (.tail _ hs))

theorem fill_fileText (lines : List Text) :
    fill vdsoOff (fileText lines) = fileText (lines.map (fill vdsoOff)) := by
  induction lines with
  | nil => rfl
  | cons t lines ih =>
    show fill vdsoOff ((t ++ [some '\n']) ++ fileText lines) = _
    rw [fill_append, fill_append, ih]
    rfl

theorem placed_marked_lines (lines : List Line) : Placed (fileText (lines.map marked)) :=
  placed_fileText fun t ht => by
    obtain ⟨l, -, rfl⟩ := List.mem_map.1 ht
    exact placed_marked l

theorem ordinary_vdsoOff : ∀ c ∈ vdsoOff, isOrdinary c = true := List.all_eq_true.1 rfl

theorem not_space_vdsoOff : ∀ c ∈ vdsoOff, isSpace c = false := by simp [vdsoOff, vdso, isSpace]

theorem strange_vdsoOff : Strange name vdsoOff where
  eq := by decide
  head := ⟨'v', _, rfl, by decide⟩

/-- **The values of the edited file** are those of the file with gaps, filled. -/
theorem values_sed (lines : List Line) :
    values (sed lines) = (assignments name (fileText (lines.map marked))).map (fill vdsoOff) := by
  have hlines : (sed lines).map chars = (lines.map marked).map (fill vdsoOff) := by
    rw [sed, List.map_map, List.map_map]
    exact List.map_congr_left fun l _ => (fill_marked l).symm
  rw [values, hlines, ← fill_fileText,
    assignments_fill strange_vdsoOff ordinary_vdsoOff (placed_marked_lines lines)]

/-- Lines that do not mention the variable stay. -/
theorem sed_unmentioned (lines : List Line) :
    List.Forall₂ (fun l l' => ¬ name <:+: l → l' = l) lines (sed lines) := by
  refine List.forall₂_map_right_iff.2 (List.forall₂_same.2 fun l _ hl => ?_)
  by_contra hne
  exact hl (infix_of_edit_ne hne).1

/-- What the edit makes of a value. -/
theorem hasWord_value_iff {lines : List Line} {v : Text}
    (hv : v ∈ assignments name (fileText (lines.map marked))) :
    HasWord isSpace (chars vdsoOff) (fill vdsoOff v) ↔
      v.head? = some none ∨ HasWord isSpace (chars vdsoOff) v := by
  have hglued := glued_of_mem_assignments (placed_marked_lines lines) hv
  rw [hasWord_fill not_space_vdsoOff (by decide), hasWord_gap rfl rfl rfl hglued]

/-- **The edit takes effect** exactly if the file assigns the variable and each value that it gives
begins at the place that the edit finds in its line, or has `vdso=0` as a word already. -/
theorem takesEffect_iff (lines : List Line) : TakesEffect lines (sed lines) ↔ Editable lines := by
  unfold TakesEffect Editable
  rw [values_sed]
  constructor
  · rintro ⟨hall, hne, -⟩
    refine ⟨fun h => hne (by rw [h]; rfl), fun v hv => ?_⟩
    exact (hasWord_value_iff hv).1 (hall _ (List.mem_map_of_mem hv))
  · rintro ⟨hne, hall⟩
    refine ⟨fun v' hv' => ?_, fun h => hne (List.map_eq_nil_iff.1 h), sed_unmentioned lines⟩
    obtain ⟨v, hv, rfl⟩ := List.mem_map.1 hv'
    exact (hasWord_value_iff hv).2 (hall v hv)

/-- A session of root with the vDSO on and both questions answered. -/
def yesSession : Session := ⟨root, true, ['y'], ['Y']⟩

/-- `GRUB_CMDLINE_LINUX_DEFAULT=quiet` with the value between two `q`. -/
def quietLine (q : Char) : Line := name ++ '=' :: q :: (['q', 'u', 'i', 'e', 't'] ++ [q])

/-- Behind another assignment with a carriage return at the end, and glued to a second quotation. -/
def gluedFile : List Line :=
  [['A', '=', '1', ' '] ++ quietLine dquote ++ ['\r'],
   quietLine dquote ++ [squote, ' ', 'a', squote]]

/-- Twice in one line, of which the edit finds the first. -/
def twiceFile : List Line := [quietLine dquote ++ [';'] ++ quietLine dquote]

theorem takesEffect_iff_gluedFile :
    TakesEffect gluedFile (sed gluedFile) ∧ ¬ TakesEffect twiceFile (sed twiceFile) :=
  ⟨(takesEffect_iff gluedFile).2 (by decide),
    fun h => absurd ((takesEffect_iff twiceFile).1 h) (by decide)⟩

/-- With single quotes the script goes on to the edit, and `sed` finds nothing to change. -/
theorem takesEffect_singleQuoted :
    check yesSession (some [quietLine squote]) = .ok [quietLine squote] ∧
      sed [quietLine squote] = [quietLine squote] ∧
        ¬ TakesEffect [quietLine squote] (sed [quietLine squote]) := by
  refine ⟨check_eq_ok_iff.2 ⟨by decide, by decide, by decide, by decide⟩, by decide, fun h => ?_⟩
  exact absurd (h.1 (chars ['q', 'u', 'i', 'e', 't']) (by decide)) (by decide)

end Grub
