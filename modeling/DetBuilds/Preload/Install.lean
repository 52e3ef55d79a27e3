import DetBuilds.Lib.History

/-!
# Installing the preload libraries

`load_modify.sh` and `load_modify_f4ke.sh` copy `/etc/ld.so.preload` to a backup, if it exists, and
write the path of their library into it; `unload_modify.sh` writes an empty line. Nothing records
whose content the backup is, and nothing copies it back.

`install_restores_iff`: the content from before the first operation stays in one of the two files,
and is back after every unload, exactly if it was an empty line wherever there is an unload and
was one of the two paths wherever two loads follow each other.
-/

set_option autoImplicit false

namespace Preload

open History

abbrev Content := List Char

/-- `/etc/ld.so.preload` and `/etc/ld.so.preload.backup`, if they exist. -/
structure Files where
  preload : Option Content
  backup : Option Content
  deriving DecidableEq

/-- What a script reads of the shell it is run from. -/
structure Env where
  whoami : Content
  pwd : Content

def root : Content := ['r', 'o', 'o', 't']

def modifyTimeSo : Content := ['m', 'o', 'd', 'i', 'f', 'y', '_', 't', 'i', 'm', 'e', '.', 's', 'o']

def modifyF4keSo : Content := ['m', 'o', 'd', 'i', 'f', 'y', '_', 'f', '4', 'k', 'e', '.', 's', 'o']

/-- What `echo` prints. -/
def echo (text : Content) : Content := text ++ ['\n']

/-- The body of the two load scripts, up to `SO_NAME`. -/
def load (soName : Content) (env : Env) (files : Files) : Files :=
  if env.whoami ≠ root then files
  else
    let files :=
      if files.preload.isSome then { files with backup := files.preload }
      else files
    { files with preload := some (echo (env.pwd ++ '/' :: soName)) }

def loadModify : Env → Files → Files := load modifyTimeSo

def loadModifyF4ke : Env → Files → Files := load modifyF4keSo

def unloadModify (env : Env) (files : Files) : Files :=
  if env.whoami ≠ root then files
  else { files with preload := some (echo []) }

/-- A script is run. -/
inductive Op where
  | loadModify (env : Env)
  | loadModifyF4ke (env : Env)
  | unloadModify (env : Env)

def Op.env : Op → Env
  | .loadModify env => env
  | .loadModifyF4ke env => env
  | .unloadModify env => env

def Op.run : Op → Files → Files
  | .loadModify env => Preload.loadModify env
  | .loadModifyF4ke env => Preload.loadModifyF4ke env
  | .unloadModify env => Preload.unloadModify env

/-- The line that a load writes. -/
def Op.line : Op → Option Content
  | .loadModify env => some (echo (env.pwd ++ '/' :: modifyTimeSo))
  | .loadModifyF4ke env => some (echo (env.pwd ++ '/' :: modifyF4keSo))
  | .unloadModify _ => none

/-- The files after the scripts run so far. -/
def filesAfter (files : Files) (h : List Op) : Files := after Op.run files h

/-! ## What the scripts promise -/

/-- If the file was there to begin with, its content is in one of the two. -/
def Held (files : Files) (h : List Op) : Prop :=
  ∀ x ∈ files.preload, (filesAfter files h).preload = some x ∨ (filesAfter files h).backup = some x

/-- After an unload the file is what it was to begin with. -/
def Restored (files : Files) (h : List Op) (op : Op) : Prop :=
  op.line = none → (filesAfter files (op :: h)).preload = files.preload

/-- Where there is an unload, there was an empty line to begin with. -/
def UnloadsBlank (files : Files) (_h : List Op) (op : Op) : Prop :=
  op.line = none → files.preload = some (echo [])

/-- Where a load follows a load, what was there to begin with is one of their lines. -/
def ReloadsOwnLine (files : Files) (h : List Op) (op : Op) : Prop :=
  ∀ x ∈ files.preload, ∀ l ∈ op.line, ∀ l' ∈ h.head?.bind Op.line, x = l ∨ x = l'

/-! ## One step -/

variable {files : Files} {h : List Op} {op : Op}

theorem run_load (hroot : op.env.whoami = root) {l : Content} (hl : op.line = some l) :
    op.run files = ⟨some l, if files.preload.isSome then files.preload else files.backup⟩ := by
  cases op with
  | loadModify env =>
    cases hl
    have hroot : env.whoami = root := hroot
    cases hp : files.preload <;> simp [Op.run, loadModify, load, hroot, hp]
  | loadModifyF4ke env =>
    cases hl
    have hroot : env.whoami = root := hroot
    cases hp : files.preload <;> simp [Op.run, loadModifyF4ke, load, hroot, hp]
  | unloadModify env => cases hl

theorem run_unload (hroot : op.env.whoami = root) (hl : op.line = none) :
    op.run files = { files with preload := some (echo []) } := by
  cases op with
  | loadModify env => cases hl
  | loadModifyF4ke env => cases hl
  | unloadModify env =>
    have hroot : env.whoami = root := hroot
    simp [Op.run, unloadModify, hroot]

/-- What is in the file is what the last script wrote. -/
theorem preload_after_cons (hroot : op.env.whoami = root) :
    (filesAfter files (op :: h)).preload = some (op.line.getD (echo [])) := by
  show (op.run (filesAfter files h)).preload = _
  cases hl : op.line with
  | none => rw [run_unload hroot hl]; rfl
  | some l => rw [run_load hroot hl]; rfl

/-- A load moves what was in the file to the backup. -/
theorem backup_after_load (hroot : op.env.whoami = root) {l x : Content} (hl : op.line = some l)
    (hx : (filesAfter files h).preload = some x) :
    (filesAfter files (op :: h)).backup = some x := by
  show (op.run (filesAfter files h)).backup = _
  rw [run_load hroot hl]
  simp only [hx, Option.isSome_some, if_true]

theorem restored_iff (hroot : op.env.whoami = root) :
    Restored files h op ↔ UnloadsBlank files h op := by
  unfold Restored UnloadsBlank
  rw [preload_after_cons hroot]
  refine forall_congr' fun hl => ?_
  rw [hl]
  exact eq_comm

/-- What the last script did not put into the file is what the one before it left there. -/
theorem held_of_ownLine (hroot : ∀ op ∈ h, op.env.whoami = root)
    (hu : EachStep (UnloadsBlank files) h) (hr : EachStep (ReloadsOwnLine files) h) : Held files h := by
  intro x hx
  cases h with
  | nil => exact .inl hx
  | cons op h =>
    have hop := hroot op (by simp)
    rw [preload_after_cons hop]
    cases hl : op.line with
    | none =>
      have hb := hu.1 hl
      rw [show files.preload = some x from hx] at hb
      exact .inl hb.symm
    | some l =>
      cases h with
      | nil => exact .inr (backup_after_load hop hl hx)
      | cons op' h =>
        have hp : (filesAfter files (op' :: h)).preload = some (op'.line.getD (echo [])) :=
          preload_after_cons (hroot op' (by simp))
        have hb := backup_after_load hop hl hp
        rw [hb]
        cases hl' : op'.line with
        | none =>
          have hb' := hu.2.1 hl'
          rw [show files.preload = some x from hx] at hb'
          exact .inr hb'.symm
        | some l' =>
          rcases hr.1 x hx l hl l' hl' with rfl | rfl
          · exact .inl rfl
          · exact .inr rfl

theorem ownLine_of_held (hop : op.env.whoami = root) (hroot : ∀ op ∈ h, op.env.whoami = root)
    (hh : Held files (op :: h)) : ReloadsOwnLine files h op := by
  intro x hx l hl l' hl'
  cases h with
  | nil => cases hl'
  | cons op' h =>
    have hp : (filesAfter files (op' :: h)).preload = some (op'.line.getD (echo [])) :=
      preload_after_cons (hroot op' (by simp))
    have hb := backup_after_load hop hl hp
    have hh := hh x hx
    rw [preload_after_cons hop, hb] at hh
    have hl' : op'.line = some l' := hl'
    have hl : op.line = some l := hl
    rw [hl, hl'] at hh
    rcases hh with hh | hh
    · cases hh; exact .inl rfl
    · cases hh; exact .inr rfl

/-! ## Runs -/

/-- **Installing and uninstalling restores the system** exactly if wherever the scripts unload,
the file was an empty line to begin with, and wherever they load twice in a row, it was one of the
two lines that they wrote. -/
theorem install_restores_iff (hroot : ∀ op ∈ h, op.env.whoami = root) :
    EachState (Held files) h ∧ EachStep (Restored files) h ↔
      EachStep (UnloadsBlank files) h ∧ EachStep (ReloadsOwnLine files) h := by
  have hsub : ∀ {k}, k <:+ h → ∀ op ∈ k, op.env.whoami = root :=
    fun hk op hop => hroot op (hk.subset hop)
  constructor
  · rintro ⟨hheld, hres⟩
    refine ⟨eachStep_iff.2 fun op k hk => ?_, eachStep_iff.2 fun op k hk => ?_⟩
    · exact (restored_iff (hsub hk op (by simp))).1 (eachStep_iff.1 hres op k hk)
    · refine ownLine_of_held (hsub hk op (by simp)) ?_ (eachState_iff.1 hheld _ hk)
      exact fun op' hop' => hsub hk op' (.tail _ hop')
  · rintro ⟨hu, hr⟩
    refine ⟨eachState_iff.2 fun k hk => ?_, eachStep_iff.2 fun op k hk => ?_⟩
    · exact held_of_ownLine (hsub hk) (hu.suffix hk) (hr.suffix hk)
    · exact (restored_iff (hsub hk op (by simp))).2 (eachStep_iff.1 hu op k hk)

/-- Root, at home. -/
def rootEnv : Env := ⟨root, ['/', 'r', 'o', 'o', 't']⟩

/-- A host whose preload file is an empty line, and a library loaded and unloaded twice. -/
theorem install_restores_blankHost :
    EachState (Held ⟨some (echo []), none⟩)
        [.unloadModify rootEnv, .loadModifyF4ke rootEnv, .unloadModify rootEnv,
          .loadModify rootEnv] ∧
      EachStep (Restored ⟨some (echo []), none⟩)
        [.unloadModify rootEnv, .loadModifyF4ke rootEnv, .unloadModify rootEnv,
          .loadModify rootEnv] := by
  refine (install_restores_iff (by simp [Op.env, rootEnv])).2 ⟨?_, ?_⟩
  · exact ⟨fun _ => rfl, fun _ => rfl, fun _ => rfl, fun _ => rfl, trivial⟩
  · simp [EachStep, ReloadsOwnLine, Op.line]

/-- On a host that preloads `/a`, loading one library after the other loses `/a`, and unloading
does not bring it back. -/
theorem install_loses_preload :
    ¬ Held ⟨some ['/', 'a'], none⟩ [.loadModifyF4ke rootEnv, .loadModify rootEnv] ∧
      ¬ Restored ⟨some ['/', 'a'], none⟩ [.loadModifyF4ke rootEnv, .loadModify rootEnv]
        (.unloadModify rootEnv) := by
  refine ⟨fun hh => ?_, fun hres => ?_⟩
  · exact absurd (hh ['/', 'a'] rfl) (by decide)
  · exact absurd (hres rfl) (by decide)

end Preload
