import DetBuilds.Lib.Shell
import DetBuilds.Lib.Substitute

/-!
# `turn_off_vdso.sh`

The script looks for lines of `/etc/default/grub` that contain `GRUB_CMDLINE_LINUX_DEFAULT`, gives
up if one of them contains `vdso`, shows what it would make of them, and, if told to go on, lets
`sed -i` put `vdso=0` behind `GRUB_CMDLINE_LINUX_DEFAULT="` in every line of the file. `check` is
the script up to the second answer. The loop between it and the edit copies the file to the first
free backup name and changes nothing else.
-/

set_option autoImplicit false

namespace Grub

open Substitute Shell

/-- A line of a text file, without its end. -/
abbrev Line := List Char

def root : Line := ['r', 'o', 'o', 't']

/-- `GRUB_CMDLINE_LINUX_DEFAULT`. -/
def name : Line :=
  ['G', 'R', 'U', 'B', '_', 'C', 'M', 'D', 'L', 'I', 'N', 'E', '_',
    'L', 'I', 'N', 'U', 'X', '_', 'D', 'E', 'F', 'A', 'U', 'L', 'T']

def vdso : Line := ['v', 'd', 's', 'o']

/-- `vdso=0`, the kernel parameter. -/
def vdsoOff : Line := vdso ++ ['=', '0']

/-- What the script reads besides the file: what `whoami` prints, whether `ldd` lists the vDSO,
and the answers to its two questions. -/
structure Session where
  whoami : Line
  vdsoOn : Bool
  proceed : Line
  modify : Line

/-- Where the script ends before the edit. -/
inductive Exit where
  | notRoot
  | alreadyOff
  | declined
  | noConfig
  | notFound
  | alreadySet (configLine : List Line)

def Exit.status : Exit → Nat
  | .alreadyOff => 0
  | .declined => 0
  | .notRoot => 1
  | .noConfig => 1
  | .notFound => 1
  | .alreadySet _ => 1

def Exit.message : Exit → String
  | .notRoot => "Should run in root"
  | .alreadyOff => "vDSO is already off"
  | .declined => "You should modify the file manually later to enable vDSO"
  | .noConfig => "GRUB config file /etc/default/grub not exists."
  | .notFound =>
    "Grub config GRUB_CMDLINE_LINUX_DEFAULT is not found in file /etc/default/grub."
  | .alreadySet configLine =>
    "vDSO has been already set in " ++ String.ofList (List.intercalate ['\n'] configLine) ++
      " in file /etc/default/grub"

/-- `$ans == "y" || $ans == "Y"`. -/
def isYes (ans : Line) : Bool := ans = ['y'] || ans = ['Y']

/-- `grep` for a fixed text. The file is text: of one with bytes that are none in the locale it
prints no lines. -/
def grep (pat : Line) (lines : List Line) : List Line := lines.filter fun l => pat <:+: l

/-- The lines in `CONFIG_LINE`. -/
def configLine (lines : List Line) : List Line := grep name lines

/-- `s/GRUB_CMDLINE_LINUX_DEFAULT="/&vdso=0 /` on a line. -/
def edit (l : Line) : Line := insertAfter (name ++ ['=', dquote]) (vdsoOff ++ [' ']) l

/-- `sed` with that command. -/
def sed (lines : List Line) : List Line := lines.map edit

/-- The lines in `NEW_CONFIG_LINE`. -/
def newConfigLine (lines : List Line) : List Line := sed (configLine lines)

/-- The script up to the second answer, with `NEW_CONFIG_LINE` if it goes on to the edit. -/
def check (session : Session) (config : Option (List Line)) : Except Exit (List Line) :=
  if session.whoami ≠ root then .error .notRoot
  else if !session.vdsoOn then .error .alreadyOff
  else if !isYes session.proceed then .error .declined
  else
    match config with
    | none => .error .noConfig
    | some lines =>
      if configLine lines = [] then .error .notFound
      else if grep vdso (configLine lines) ≠ [] then .error (.alreadySet (configLine lines))
      else if !isYes session.modify then .error .declined
      else .ok (newConfigLine lines)

/-- A line is edited where it assigns the variable with a double quote. -/
theorem edit_cases (l : Line) :
    edit l = l ∨ ∃ a b, l = a ++ (name ++ ['=', dquote]) ++ b ∧
      edit l = a ++ (name ++ ['=', dquote]) ++ (vdsoOff ++ [' ']) ++ b := by
  by_cases hi : name ++ ['=', dquote] <:+: l
  · exact .inr (exists_insertAfter hi)
  · exact .inl (insertAfter_eq_self (by decide) hi)

/-- A line that the edit changes mentions the variable and says `vdso`. -/
theorem infix_of_edit_ne {l : Line} (hne : edit l ≠ l) :
    name <:+: l ∧ name <:+: edit l ∧ vdso <:+: edit l := by
  rcases edit_cases l with heq | ⟨a, b, hl, heq⟩
  · exact absurd heq hne
  · have hname : name <:+: a ++ (name ++ ['=', dquote]) :=
      (List.prefix_append name _).isInfix.trans (List.suffix_append a _).isInfix
    have hvdso : vdso <:+: a ++ (name ++ ['=', dquote]) ++ (vdsoOff ++ [' ']) :=
      ((List.prefix_append vdso _).trans (List.prefix_append vdsoOff [' '])).isInfix.trans
        (List.suffix_append _ _).isInfix
    refine ⟨?_, ?_, ?_⟩
    · rw [hl]
      exact hname.trans (List.prefix_append _ b).isInfix
    · rw [heq, List.append_assoc]
      exact hname.trans (List.prefix_append _ _).isInfix
    · rw [heq]
      exact hvdso.trans (List.prefix_append _ b).isInfix

/-- When the script goes on to the edit. -/
theorem check_eq_ok_iff {session : Session} {lines preview : List Line} :
    check session (some lines) = .ok preview ↔
      (session.whoami = root ∧ session.vdsoOn = true ∧ isYes session.proceed = true ∧
        isYes session.modify = true) ∧
      configLine lines ≠ [] ∧ grep vdso (configLine lines) = [] ∧
        newConfigLine lines = preview := by
  unfold check
  by_cases hroot : session.whoami = root
  · by_cases hon : session.vdsoOn = true
    · by_cases hyes : isYes session.proceed = true
      · by_cases hline : configLine lines = []
        · simp [hroot, hon, hyes, hline]
        · by_cases hvdso : grep vdso (configLine lines) = []
          · cases isYes session.modify <;> simp [hroot, hon, hyes, hline, hvdso]
          · simp [hroot, hon, hyes, hline, hvdso]
      · simp [hroot, hon, hyes]
    · simp [hroot, hon]
  · simp [hroot]

/-- Not without a file. -/
theorem check_none_ne_ok (session : Session) (preview : List Line) :
    check session none ≠ .ok preview := by
  unfold check
  split
  · simp
  split
  · simp
  split <;> simp

/-- Who runs the script, or the file that it is told to edit, is not fit for the edit. -/
def Unfit (session : Session) (config : Option (List Line)) : Prop :=
  session.whoami ≠ root ∨ (session.vdsoOn = true ∧ isYes session.proceed = true ∧
    ∀ lines ∈ config, configLine lines = [] ∨ grep vdso (configLine lines) ≠ [])

/-- A script that ends before the edit fails for that alone, and not where it was told to stop. -/
theorem Exit.status_ne_zero_iff {session : Session} {config : Option (List Line)} {e : Exit}
    (h : check session config = .error e) : e.status ≠ 0 ↔ Unfit session config := by
  unfold check at h
  unfold Unfit
  split at h
  · rename_i hroot
    cases h
    simp [status, hroot]
  split at h
  · cases h
    simp_all [status]
  split at h
  · cases h
    simp_all [status]
  cases config with
  | none =>
    cases h
    simp_all [status]
  | some lines =>
    simp only at h
    split at h
    · cases h
      simp_all [status]
    split at h
    · cases h
      simp_all [status]
    split at h
    · cases h
      simp_all [status]
    · cases h

theorem infix_between {lines : List Line} {l : Line} (hl : l ∈ lines) (before behind : String) :
    l <:+: (before ++ String.ofList (List.intercalate ['\n'] lines) ++ behind).toList := by
  obtain ⟨i, hi⟩ := List.mem_iff_getElem?.1 hl
  have hmem : l ∈ lines.intersperse ['\n'] :=
    List.mem_iff_getElem?.2 ⟨2 * i, List.getElem?_intersperse_two_mul.trans hi⟩
  rw [String.toList_append, String.toList_append, String.toList_ofList]
  exact ((List.infix_of_mem_flatten hmem).trans (List.suffix_append _ _).isInfix).trans
    (List.prefix_append _ _).isInfix

/-- The message about a vDSO that is set already shows every line that was found. -/
theorem Exit.infix_message {lines : List Line} {l : Line} (hl : l ∈ lines) :
    l <:+: (Exit.alreadySet lines).message.toList := infix_between hl _ _

/-- What it knows of the file then. -/
theorem not_vdso_of_check {session : Session} {lines preview : List Line}
    (h : check session (some lines) = .ok preview) {l : Line} (hl : l ∈ lines)
    (hname : name <:+: l) : ¬ vdso <:+: l := by
  obtain ⟨-, -, hgrep, -⟩ := check_eq_ok_iff.1 h
  intro hvdso
  have hmem : l ∈ grep vdso (configLine lines) := by simp [grep, configLine, hl, hname, hvdso]
  rw [hgrep] at hmem
  cases hmem

end Grub
