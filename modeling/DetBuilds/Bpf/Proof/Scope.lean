import DetBuilds.Bpf.Files
import DetBuilds.Bpf.Proof.FileRead
import DetBuilds.Bpf.Proof.Preload

/-!
# What the file programs rewrite

`modify_file_read` and `preload_filter` rewrite results for one file each. `Scoped` says that a
write goes to the result of a call about a descriptor that the same thread got from opening that
file. A mark is set before the result of the `openat` is known and belongs to a thread, not to a
descriptor, so this depends on what armed threads do (`Disciplined`): disciplined runs are scoped,
and of the runs that fill no map no others are (`scope_safe`, `preload_scope_safe`).
-/

set_option autoImplicit false

namespace Bpf

open History

/-- The write is to the call's own result: the `st_size` of its `struct stat`, or the buffer of a
`read`, from its start on. -/
def ToOwnResult (f : Frame) (w : UserWrite) : Prop :=
  match f.nr with
  | .newfstatat => w.addr = f.args.arg2 + 48 ∧ w.bytes.length = 8
  | .read => w.addr = f.args.arg1
  | _ => False

/-- Whatever is written at an event goes to the result of a returning call, about a descriptor at
which its thread has `path` open. The comm passes `comm_filter` if and only if `filter`. -/
def Scoped {σ α : Type} (p : Program σ α) (filter : Bool) (path : List Byte) (h : List Event)
    (e : Event) : Prop :=
  ∀ w, p.write h e = some w → ∃ task nr ret f, e = .exit task nr ret ∧
    commFilter task.comm = filter ∧ inflight h task.tid = some f ∧ TargetsOpened path h f ∧
    ToOwnResult f w

theorem scoped_of_none {σ α : Type} {p : Program σ α} {filter : Bool} {path : List Byte}
    {h : List Event} {e : Event} (hw : p.write h e = none) : Scoped p filter path h e := by
  intro w hw'
  rw [hw] at hw'
  cases hw'

/-! ## `modify_file_read` -/

namespace ModifyFileRead

/-- When an armed `cc1` thread returns from `newfstatat` or `read`, it entered the call as `cc1`,
and the call is about a descriptor at which it has `/etc/localtime` open. -/
def Disciplined (h : List Event) : Event → Prop
  | .exit task nr _ => ∀ f ∈ inflight h task.tid,
    marking.armed h task.tid = true ∧ commFilter task.comm = true ∧ nr ∈ [.newfstatat, .read] →
      commFilter f.task.comm = true ∧ TargetsOpened localtimeName h f
  | _ => True

instance (h : List Event) : ∀ e, Decidable (Disciplined h e)
  | .exit _ _ _ => inferInstanceAs (Decidable (∀ f ∈ inflight h _, _))
  | .enter _ _ _ => inferInstanceAs (Decidable True)
  | .spawn _ => inferInstanceAs (Decidable True)
  | .die _ => inferInstanceAs (Decidable True)

/-- A disciplined step is scoped, however full the maps are. -/
theorem scoped_of_disciplined {h : List Event} {e : Event} (hp : Pairs h e)
    (hd : Disciplined h e) : Scoped program true localtimeName h e := by
  cases e with
  | enter task nr args => exact scoped_of_none (write_enter h task nr args)
  | spawn t => exact scoped_of_none (congrArg Prod.snd (program.step_spawn t _))
  | die t => exact scoped_of_none (congrArg Prod.snd (program.step_die t _))
  | exit task nr ret =>
    obtain ⟨f, hf, hnr⟩ := pairs_exit.1 hp
    by_cases h₁ : nr = .newfstatat
    · subst h₁
      intro w hw
      obtain ⟨hc, harm, hown⟩ := of_write_newfstatat hf hnr hw
      obtain ⟨hfc, htgt⟩ := hd f hf ⟨harm, hc, by simp⟩
      refine ⟨task, _, ret, f, rfl, hc, hf, htgt, ?_⟩
      rw [hown hfc]
      simp [ToOwnResult, hnr]
    · by_cases h₂ : nr = .read
      · subst h₂
        intro w hw
        obtain ⟨hc, harm, hown⟩ := of_write_read hf hnr hw
        obtain ⟨hfc, htgt⟩ := hd f hf ⟨harm, hc, by simp⟩
        refine ⟨task, _, ret, f, rfl, hc, hf, htgt, ?_⟩
        rw [hown hfc]
        simp [ToOwnResult, hnr]
      · exact scoped_of_none (write_exit_other h task ret h₁ h₂)

/-- With room in the maps, a scoped step is disciplined. -/
theorem disciplined_of_scoped {h : List Event} {e : Event} (ha : Alternates h e)
    (hn : program.NeverFull h) (hs : Scoped program true localtimeName h e) :
    Disciplined h e := by
  cases e with
  | enter _ _ _ => trivial
  | spawn _ => trivial
  | die _ => trivial
  | exit task nr ret =>
    rintro f hf ⟨harm, hc, hnr'⟩
    obtain ⟨f', hf', hnr, hcomm⟩ := alternates_exit.1 ha
    rw [show inflight h task.tid = some f from hf] at hf'
    cases hf'
    refine ⟨hcomm ▸ hc, ?_⟩
    simp only [List.mem_cons, List.not_mem_nil, or_false] at hnr'
    rcases hnr' with rfl | rfl
    · have hw := write_newfstatat ret hn hf hnr hcomm
      rw [if_pos ⟨hc, harm⟩] at hw
      obtain ⟨task', _, _, f', he, -, hf', htgt, -⟩ := hs _ hw
      cases he
      rw [hf] at hf'; cases hf'
      exact htgt
    · have hw := write_read ret hn hf hnr hcomm
      rw [if_pos ⟨hc, harm⟩] at hw
      obtain ⟨task', _, _, f', he, -, hf', htgt, -⟩ := hs _ hw
      cases he
      rw [hf] at hf'; cases hf'
      exact htgt

/-- **Scope of `modify_file_read`**: in a run whose steps are disciplined, only results about
`/etc/localtime` as the thread itself opened it are rewritten, each within its own size field or
buffer; a run that fills no map is scoped in this way only if it is disciplined. -/
theorem scope_safe {h : List Event} (hp : EachStep Pairs h) :
    (EachStep Disciplined h → EachStep (Scoped program true localtimeName) h) ∧
    (Alternating h → program.NeverFull h → EachStep (Scoped program true localtimeName) h →
      EachStep Disciplined h) := by
  constructor
  · exact fun hd => (hp.and hd).mono fun k e hk => scoped_of_disciplined hk.1 hk.2
  · intro ha hn hs
    refine ((ha.and hs).and hn.each).mono fun k e hk => ?_
    exact disciplined_of_scoped hk.1.1 hk.2.2 hk.1.2

/-- `cc1` opens the zone file as descriptor 3, asks for its size and reads it. -/
def zoneRun : List Event :=
  [.exit (localtimeTask 1) .read 0x72,
   .enter (localtimeTask 1) .read ⟨3, 0x3000, 4096, 0, 0, 0⟩,
   .exit (localtimeTask 1) .newfstatat 0,
   .enter (localtimeTask 1) .newfstatat ⟨3, 0x5000, 0x2000, 0x1000, 0, 0⟩,
   .exit (localtimeTask 1) .openat 3,
   .enter (localtimeTask 1) .openat ⟨0, 0x1000, 0, 0, 0, 0⟩]

theorem scope_safe_zoneRun : EachStep (Scoped program true localtimeName) zoneRun :=
  (scope_safe (by decide)).1 (by decide)

/-- Once the number has been given to another file, it is no descriptor of the zone file. -/
example : opened (·.Opens localtimeName)
    [.exit (localtimeTask 1) .openat 3,
     .enter (localtimeTask 1) .openat ⟨0, 0x6000, 0, 0, 0, 0⟩,
     .exit (localtimeTask 1) .openat 3,
     .enter (localtimeTask 1) .openat ⟨0, 0x1000, 0, 0, 0, 0⟩] 1 3 = none := by decide

/-- `cc1` fails to open the zone file and then reads a source file through descriptor 3. -/
def failedOpenRun : List Event :=
  [.exit (localtimeTask 1) .read 4096,
   .enter (localtimeTask 1) .read ⟨3, 0x3000, 4096, 0, 0, 0⟩,
   .exit (localtimeTask 1) .openat (-2),
   .enter (localtimeTask 1) .openat ⟨0, 0x1000, 0, 0, 0, 0⟩]

theorem scope_unsafe_failedOpenRun :
    Alternating failedOpenRun ∧ ¬ EachStep (Scoped program true localtimeName) failedOpenRun := by
  refine ⟨by decide, fun hs => ?_⟩
  obtain ⟨task, _, _, f, he, -, hf, htgt, -⟩ :=
    hs.1 ⟨0x3000, localtimeContent.take localtimeSize⟩ (by decide)
  cases he
  cases hf
  exact absurd htgt (by decide)

end ModifyFileRead

/-! ## `preload_filter` -/

namespace PreloadFilter

/-- When an armed thread returns from `newfstatat` under another comm than `cc1`, it entered the
call under such a comm too, and the call is about a descriptor it got from opening the preload
file. -/
def Disciplined (h : List Event) : Event → Prop
  | .exit task nr _ => ∀ f ∈ inflight h task.tid,
    marking.armed h task.tid = true ∧ commFilter task.comm = false ∧ nr = .newfstatat →
      commFilter f.task.comm = false ∧ TargetsOpened preloadName h f
  | _ => True

instance (h : List Event) : ∀ e, Decidable (Disciplined h e)
  | .exit _ _ _ => inferInstanceAs (Decidable (∀ f ∈ inflight h _, _))
  | .enter _ _ _ => inferInstanceAs (Decidable True)
  | .spawn _ => inferInstanceAs (Decidable True)
  | .die _ => inferInstanceAs (Decidable True)

/-- A disciplined step is scoped, however full the maps are. -/
theorem scoped_of_disciplined {h : List Event} {e : Event} (hp : Pairs h e)
    (hd : Disciplined h e) : Scoped program false preloadName h e := by
  cases e with
  | enter task nr args => exact scoped_of_none (write_enter h task nr args)
  | spawn t => exact scoped_of_none (congrArg Prod.snd (program.step_spawn t _))
  | die t => exact scoped_of_none (congrArg Prod.snd (program.step_die t _))
  | exit task nr ret =>
    obtain ⟨f, hf, hnr⟩ := pairs_exit.1 hp
    by_cases hst : nr = .newfstatat
    · subst hst
      intro w hw
      obtain ⟨hc, harm, hown⟩ := of_write_newfstatat hf hnr hw
      obtain ⟨hfc, htgt⟩ := hd f hf ⟨harm, hc, rfl⟩
      refine ⟨task, _, ret, f, rfl, hc, hf, htgt, ?_⟩
      rw [hown hfc]
      simp [ToOwnResult, hnr]
    · exact scoped_of_none (write_exit_other h task ret hst)

/-- With room in the maps, a scoped step is disciplined. -/
theorem disciplined_of_scoped {h : List Event} {e : Event} (ha : Alternates h e)
    (hn : program.NeverFull h) (hs : Scoped program false preloadName h e) :
    Disciplined h e := by
  cases e with
  | enter _ _ _ => trivial
  | spawn _ => trivial
  | die _ => trivial
  | exit task nr ret =>
    rintro f hf ⟨harm, hc, rfl⟩
    obtain ⟨f', hf', hnr, hcomm⟩ := alternates_exit.1 ha
    rw [show inflight h task.tid = some f from hf] at hf'
    cases hf'
    have hw := write_newfstatat ret hn hf hnr hcomm
    rw [if_pos ⟨hc, harm⟩] at hw
    obtain ⟨task', _, _, f', he, -, hf', htgt, -⟩ := hs _ hw
    cases he
    rw [hf] at hf'; cases hf'
    exact ⟨hcomm ▸ hc, htgt⟩

/-- **Scope of `preload_filter`**: in a run whose steps are disciplined, only sizes of the preload
file as the thread itself opened it are zeroed, under another comm than `cc1`; a run that fills no
map is scoped in this way only if it is disciplined. -/
theorem preload_scope_safe {h : List Event} (hp : EachStep Pairs h) :
    (EachStep Disciplined h → EachStep (Scoped program false preloadName) h) ∧
    (Alternating h → program.NeverFull h → EachStep (Scoped program false preloadName) h →
      EachStep Disciplined h) := by
  constructor
  · exact fun hd => (hp.and hd).mono fun k e hk => scoped_of_disciplined hk.1 hk.2
  · intro ha hn hs
    refine ((ha.and hs).and hn.each).mono fun k e hk => ?_
    exact disciplined_of_scoped hk.1.1 hk.2.2 hk.1.2

/-- The loader opens the preload file as descriptor 3 and asks for its size. -/
def loaderRun : List Event :=
  [.exit (preloadTask 1) .newfstatat 0,
   .enter (preloadTask 1) .newfstatat ⟨3, 0x5000, 0x2000, 0x1000, 0, 0⟩,
   .exit (preloadTask 1) .openat 3,
   .enter (preloadTask 1) .openat ⟨0, 0x1000, 0, 0, 0, 0⟩]

theorem preload_scope_safe_loaderRun : EachStep (Scoped program false preloadName) loaderRun :=
  (preload_scope_safe (by decide)).1 (by decide)

/-- The preload file does not exist, and the loader asks for the size of another file. -/
def absentPreloadRun : List Event :=
  [.exit (preloadTask 1) .newfstatat 0,
   .enter (preloadTask 1) .newfstatat ⟨3, 0x5000, 0x2000, 0x1000, 0, 0⟩,
   .exit (preloadTask 1) .openat (-2),
   .enter (preloadTask 1) .openat ⟨0, 0x1000, 0, 0, 0, 0⟩]

theorem preload_scope_unsafe_absentPreloadRun :
    Alternating absentPreloadRun ∧
      ¬ EachStep (Scoped program false preloadName) absentPreloadRun := by
  refine ⟨by decide, fun hs => ?_⟩
  obtain ⟨task, _, _, f, he, -, hf, htgt, -⟩ := hs.1 ⟨0x2030, le64 0⟩ (by decide)
  cases he
  cases hf
  exact absurd htgt (by decide)

end PreloadFilter

end Bpf
