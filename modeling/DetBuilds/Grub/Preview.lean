import DetBuilds.Grub.Effect
import DetBuilds.Grub.Files

/-!
# The preview of the edit

`NEW_CONFIG_LINE` is the edit of the lines that mention the variable, `sed -i` the edit of them all.
A line mentions the variable after the edit exactly if it did before, so the two agree
(`grep_sed`). A line that the edit changes then says `vdso`, and the guard of any later run sees it;
if it changes none, editing again changes none (`checkAndEdit_sed`). So the file stays what the
first run made of it (`preview_idempotent`).
-/

set_option autoImplicit false

namespace Grub

open History Substitute Shell

/-- The script is run by root with the vDSO on, and both questions are answered with yes. -/
def Session.Confirmed (session : Session) : Prop :=
  session.whoami = root ∧ session.vdsoOn = true ∧ isYes session.proceed = true ∧
    isYes session.modify = true

/-- What a run makes of the configuration. -/
def checkAndEdit (session : Session) (lines : List Line) : List Line :=
  match check session (some lines) with
  | .error _ => lines
  | .ok _ => sed lines

/-- `vdso=0` and a blank have been put into the line, at most once. -/
def InsertedAtMostOnce (l l' : Line) : Prop :=
  l' = l ∨ ∃ a b, l = a ++ b ∧ l' = a ++ (vdsoOff ++ [' ']) ++ b

/-! ## The edit of a line -/

theorem insertedAtMostOnce_edit (l : Line) : InsertedAtMostOnce l (edit l) := by
  rcases edit_cases l with heq | ⟨a, b, hl, heq⟩
  · exact .inl heq
  · exact .inr ⟨a ++ (name ++ ['=', dquote]), b, hl, heq⟩

/-- The edit changes nothing about which lines mention the variable. -/
theorem name_infix_edit (l : Line) : name <:+: edit l ↔ name <:+: l := by
  by_cases hne : edit l = l
  · rw [hne]
  · obtain ⟨hl, hedit, -⟩ := infix_of_edit_ne hne
    exact iff_of_true hedit hl

/-! ## The edit of the file -/

/-- **The edit is what the preview shows**: filter and substitution commute. -/
theorem grep_sed (lines : List Line) : grep name (sed lines) = newConfigLine lines := by
  unfold grep sed newConfigLine sed configLine grep
  rw [List.filter_map]
  congr 1
  refine List.filter_congr fun l _ => ?_
  exact decide_eq_decide.2 (name_infix_edit l)

theorem checkAndEdit_of_ok {session : Session} {lines preview : List Line}
    (h : check session (some lines) = .ok preview) : checkAndEdit session lines = sed lines := by
  unfold checkAndEdit
  rw [h]

theorem checkAndEdit_of_ne_ok {session : Session} {lines : List Line}
    (h : ∀ preview, check session (some lines) ≠ .ok preview) :
    checkAndEdit session lines = lines := by
  unfold checkAndEdit
  cases hcheck : check session (some lines) with
  | error _ => rfl
  | ok preview => exact absurd hcheck (h preview)

/-- **No run changes an edited file.** -/
theorem checkAndEdit_sed (session : Session) (lines : List Line) :
    checkAndEdit session (sed lines) = sed lines := by
  by_cases hok : ∃ preview, check session (some (sed lines)) = .ok preview
  · obtain ⟨preview, hcheck⟩ := hok
    -- the guard has let the run through, so the first edit had nothing to change
    have hsame : ∀ l ∈ lines, edit l = l := by
      intro l hl
      by_contra hne
      obtain ⟨-, hname, hvdso⟩ := infix_of_edit_ne hne
      exact not_vdso_of_check hcheck (List.mem_map_of_mem hl) hname hvdso
    have hsed : sed lines = lines := (List.map_congr_left hsame).trans (List.map_id lines)
    rw [checkAndEdit_of_ok hcheck, hsed, hsed]
  · exact checkAndEdit_of_ne_ok fun preview hcheck => hok ⟨preview, hcheck⟩

theorem confirmed_of_check {session : Session} {lines preview : List Line}
    (h : check session (some lines) = .ok preview) : session.Confirmed :=
  (check_eq_ok_iff.1 h).1

/-- Whether a confirmed run goes on depends on the file only. -/
theorem check_of_confirmed {session session' : Session} {lines preview : List Line}
    (h : check session (some lines) = .ok preview) (hc : session'.Confirmed) :
    check session' (some lines) = .ok preview :=
  check_eq_ok_iff.2 ⟨hc, (check_eq_ok_iff.1 h).2⟩

/-- A run after the first one changes nothing, unless it is the first to be confirmed. -/
theorem checkAndEdit_checkAndEdit {session session' : Session}
    (hc : session'.Confirmed → session.Confirmed) (lines : List Line) :
    checkAndEdit session' (checkAndEdit session lines) = checkAndEdit session lines := by
  by_cases hok : ∃ preview, check session (some lines) = .ok preview
  · obtain ⟨preview, hcheck⟩ := hok
    rw [checkAndEdit_of_ok hcheck, checkAndEdit_sed]
  · rw [checkAndEdit_of_ne_ok fun preview hcheck => hok ⟨preview, hcheck⟩]
    refine checkAndEdit_of_ne_ok fun preview hcheck => hok ⟨preview, ?_⟩
    exact check_of_confirmed hcheck (hc (confirmed_of_check hcheck))

theorem insertedAtMostOnce_checkAndEdit (session : Session) (lines : List Line) :
    List.Forall₂ InsertedAtMostOnce lines (checkAndEdit session lines) := by
  unfold checkAndEdit
  split
  · exact List.forall₂_same.2 fun _ _ => .inl rfl
  · exact List.forall₂_map_right_iff.2 (List.forall₂_same.2 fun l _ => insertedAtMostOnce_edit l)

/-! ## Runs -/

/-- A run of the script changes the configuration as `checkAndEdit` does. -/
theorem lookup_configPath (r : Run) (files : Files) :
    (turnOffVdso r files).lookup configPath =
      (files.lookup configPath).map (checkAndEdit r.session) := by
  rcases turnOffVdso_cases r files with ⟨heq, hno⟩ | ⟨lines, n, ⟨hlines, preview, hcheck⟩, -, heq⟩
  · rw [heq]
    cases hlines : files.lookup configPath with
    | none => rfl
    | some lines =>
      have hne : ∀ preview, check r.session (some lines) ≠ .ok preview :=
        fun preview hcheck => hno lines ⟨hlines, preview, hcheck⟩
      rw [Option.map_some, checkAndEdit_of_ne_ok hne]
  · rw [heq, AList.lookup_insert, hlines, Option.map_some, checkAndEdit_of_ok hcheck]

/-- **The edit is what was previewed, and idempotent**: the lines of the edited file that mention the
variable are those of `NEW_CONFIG_LINE`, each line has `vdso=0` put in at most once, and any further
runs, confirmed or not, leave the file as the first left it (if it was not confirmed itself, as long
as none of them is). -/
theorem preview_idempotent {files : Files} {r : Run} {lines : List Line}
    (hlines : files.lookup configPath = some lines) :
    ∃ edited, (turnOffVdso r files).lookup configPath = some edited ∧
      (∀ preview, check r.session (some lines) = .ok preview → grep name edited = preview) ∧
      List.Forall₂ InsertedAtMostOnce lines edited ∧
      ∀ later : List Run, (∀ r' ∈ later, r'.session.Confirmed → r.session.Confirmed) →
        (after turnOffVdso (turnOffVdso r files) later).lookup configPath = some edited := by
  have hfirst : (turnOffVdso r files).lookup configPath =
      some (checkAndEdit r.session lines) := by
    rw [lookup_configPath, hlines, Option.map_some]
  refine ⟨checkAndEdit r.session lines, hfirst, fun preview hcheck => ?_,
    insertedAtMostOnce_checkAndEdit r.session lines, fun later hc => ?_⟩
  · obtain ⟨-, -, -, hpreview⟩ := check_eq_ok_iff.1 hcheck
    rw [checkAndEdit_of_ok hcheck, grep_sed, hpreview]
  · induction later with
    | nil => exact hfirst
    | cons r' later ih =>
      have ih := ih fun r'' hr => hc r'' (.tail _ hr)
      show (turnOffVdso r' (after turnOffVdso (turnOffVdso r files) later)).lookup configPath = _
      rw [lookup_configPath, ih, Option.map_some, checkAndEdit_checkAndEdit (hc r' (by simp))]

/-- The configuration with a value between double quotes, and nothing else. -/
def quietFiles : Files := (∅ : Files).insert configPath [quietLine dquote]

/-- Root runs the script in the root directory and confirms everything. -/
def yesRun : Run := ⟨yesSession, ['/']⟩

/-- After three runs on a value between double quotes, the file is what the first made of it. -/
theorem preview_idempotent_quiet :
    ∃ edited, (turnOffVdso yesRun quietFiles).lookup configPath = some edited ∧
      (after turnOffVdso (turnOffVdso yesRun quietFiles) [yesRun, yesRun]).lookup configPath =
        some edited := by
  have hlines : quietFiles.lookup configPath = some [quietLine dquote] := AList.lookup_insert _
  obtain ⟨edited, hfirst, -, -, hlater⟩ := preview_idempotent (r := yesRun) hlines
  have hyes : yesSession.Confirmed := ⟨rfl, rfl, rfl, rfl⟩
  exact ⟨edited, hfirst, hlater _ fun _ _ _ => hyes⟩

end Grub
