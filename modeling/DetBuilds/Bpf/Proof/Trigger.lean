import DetBuilds.Bpf.Proof.Paths
import DetBuilds.Bpf.Proof.FileRead
import DetBuilds.Bpf.Proof.Preload

/-!
# What triggers the file programs

A marked thread is one whose latest event of two kinds is the entry of an `openat` that passed the
path test: for `modify_file_read` the entry of an `openat` of `/etc/localtime`, or the completion of
a `read`, both as `cc1` (`localtime_trigger`); for `preload_filter` the entry of an `openat` that
the path test accepts, or the completion of a `newfstatat`, both under another comm
(`preload_trigger`). Exactly the calls of such threads are rewritten, through their own pointers,
and between two rewrites that take the mark away the thread has opened the file anew. What becomes
of memory, where it can be written, follows (`localtime_stored`, `preload_stored`).
-/

set_option autoImplicit false

namespace Bpf

open History

/-! ## `modify_file_read` -/

namespace ModifyFileRead

/-- The 20 bytes at the path of an `openat` are readable. -/
def PathReadable : Event → Prop
  | .enter task .openat args => task.mem.readableFor args.arg1 20 = true
  | _ => True

/-- Thread `t` enters an `openat` of exactly `/etc/localtime` as `cc1`. -/
def OpensLocaltime (t : Tid) : Event → Prop
  | .enter task .openat args => task.tid = t ∧ commFilter task.comm = true ∧
    task.mem.HoldsString args.arg1 localtimePath
  | _ => False

/-- Thread `t` completes a `read` as `cc1`. -/
def CompletesRead (t : Tid) : Event → Prop
  | .exit task .read _ => task.tid = t ∧ commFilter task.comm = true
  | _ => False

instance (t : Tid) : DecidablePred (OpensLocaltime t) := fun e => by
  unfold OpensLocaltime
  split <;> infer_instance

instance (t : Tid) : DecidablePred (CompletesRead t) := fun e => by
  unfold CompletesRead
  split <;> infer_instance

/-- The most recent one of the two is the `openat`. -/
def Triggered (h : List Event) (t : Tid) : Prop :=
  LatestIs (OpensLocaltime t) (CompletesRead t) h

instance (h : List Event) (t : Tid) : Decidable (Triggered h t) :=
  inferInstanceAs (Decidable (LatestIs _ _ _))

/-- What `modify_file_read` writes: the replacement into the buffer of a `read` of a triggered
`cc1` thread, its size into the `struct stat` of a `newfstatat` that a triggered one entered,
and nothing else. -/
def WritesTriggered (h : List Event) : Event → Prop
  | .exit task nr ret => ∀ f ∈ inflight h task.tid, program.write h (.exit task nr ret) =
    if nr = .read ∧ commFilter task.comm = true ∧ Triggered h task.tid then
      some ⟨f.args.arg1, localtimeContent.take localtimeSize⟩
    else if nr = .newfstatat ∧ commFilter task.comm = true ∧
        Triggered (beforeCall h task.tid) task.tid then
      some ⟨f.args.arg2 + 48, le64 (BitVec.ofNat 64 localtimeSize)⟩
    else none
  | e => program.write h e = none

/-- In memory: where they can be written, the buffer has the replacement or the `struct stat` its
size, and nothing else is changed. -/
def StoresTriggered (h : List Event) : Event → Prop
  | .exit task nr ret => ∀ f ∈ inflight h task.tid,
    if nr = .read ∧ commFilter task.comm = true ∧ Triggered h task.tid then
      task.mem.writableFor f.args.arg1 localtimeSize = true →
        task.mem.Replaced (program.memAfter h (.exit task nr ret)) f.args.arg1
          (localtimeContent.take localtimeSize)
    else if nr = .newfstatat ∧ commFilter task.comm = true ∧
        Triggered (beforeCall h task.tid) task.tid then
      task.mem.writableFor (f.args.arg2 + 48) 8 = true →
        task.mem.Replaced (program.memAfter h (.exit task nr ret)) (f.args.arg2 + 48)
          (le64 (BitVec.ofNat 64 localtimeSize))
    else program.memAfter h (.exit task nr ret) = task.mem
  | e => program.memAfter h e = e.mem

/-- The window of a readable path passes the test if memory holds the name there. -/
theorem isLocaltime_holds {mem : ByteMem} {a : Addr} (hr : mem.readableFor a 20 = true) :
    isLocaltime (bpfProbeReadUser mem a 20) = true ↔ mem.HoldsString a localtimePath := by
  rw [isLocaltime_iff (length_bpfProbeReadUser ..),
    show bpfProbeReadUser mem a 20 = mem.load a 20 from if_pos hr, List.prefix_iff_eq_take,
    ByteMem.take_load _ _ (by decide)]
  exact ⟨fun h => ⟨by decide, h.symm⟩, fun h => h.2.symm⟩

theorem sets_iff {e : Event} (hr : PathReadable e) (t : Tid) :
    marking.Sets t e ↔ OpensLocaltime t e := by
  cases e with
  | enter task nr args =>
    cases nr with
    | openat =>
      show task.tid = t ∧ Marks task .openat args ↔
        task.tid = t ∧ commFilter task.comm = true ∧ task.mem.HoldsString args.arg1 localtimePath
      rw [← isLocaltime_holds hr]
      exact and_congr_right fun _ => and_iff_right rfl
    | gettimeofday | clockGettime | newfstatat | read =>
      exact iff_of_false (fun hm => by cases hm.2.1) id
  | exit task nr ret => exact Iff.rfl
  | spawn u => exact Iff.rfl
  | die u => exact Iff.rfl

theorem resets_iff (e : Event) (t : Tid) : marking.Resets t e ↔ CompletesRead t e := by
  cases e with
  | exit task nr ret =>
    cases nr with
    | read => exact and_congr_right fun _ => and_iff_right rfl
    | gettimeofday | clockGettime | newfstatat | openat =>
      exact iff_of_false (fun hm => by cases hm.2.1) id
  | enter task nr args => exact Iff.rfl
  | spawn u => exact Iff.rfl
  | die u => exact Iff.rfl

/-- With readable paths, armed threads are triggered ones. -/
theorem latestIs_iff_triggered {h : List Event} (hr : ∀ e ∈ h, PathReadable e) (t : Tid) :
    LatestIs (marking.Sets t) (marking.Resets t) h ↔ Triggered h t :=
  latestIs_congr (fun e he => sets_iff (hr e he) t) fun e _ => resets_iff e t

theorem writesTriggered {h : List Event} {e : Event} (ha : Alternates h e)
    (hn : program.NeverFull h) (hr : ∀ e ∈ h, PathReadable e) : WritesTriggered h e := by
  cases e with
  | enter task nr args => exact write_enter h task nr args
  | spawn t => exact congrArg Prod.snd (program.step_spawn t _)
  | die t => exact congrArg Prod.snd (program.step_die t _)
  | exit task nr ret =>
    intro f hf
    obtain ⟨hnr, hc⟩ := alternates_frame ha hf
    have harm : marking.armed h task.tid = true ↔ Triggered h task.tid :=
      (marking.armed_iff_latestIs h _).trans (latestIs_iff_triggered hr _)
    by_cases h₁ : nr = .newfstatat
    · subst h₁
      have hsuf : ∀ e ∈ beforeCall h task.tid, PathReadable e :=
        fun e he => hr e ((beforeCall_suffix h _).subset he)
      have hbefore : Triggered h task.tid ↔ Triggered (beforeCall h task.tid) task.tid := by
        rw [← latestIs_iff_triggered hr, ← latestIs_iff_triggered hsuf]
        refine marking.latestIs_beforeCall hf fun hm => ?_
        cases hm.1.symm.trans hnr
      rw [write_newfstatat ret hn hf hnr hc]
      simp [harm, hbefore]
    · by_cases h₂ : nr = .read
      · subst h₂
        rw [write_read ret hn hf hnr hc]
        simp [harm]
      · rw [write_exit_other h task ret h₁ h₂, if_neg fun hc => h₂ hc.1, if_neg fun hc => h₁ hc.1]

theorem eachStep_writesTriggered {h : List Event} (ha : Alternating h) (hn : program.NeverFull h)
    (hr : ∀ e ∈ h, PathReadable e) : EachStep WritesTriggered h := by
  refine eachStep_iff.2 fun e k hk => ?_
  have hk' : k <:+ h := (List.suffix_cons e k).trans hk
  refine writesTriggered (eachStep_iff.1 ha e k hk) (hn.suffix hk') fun e' he' => ?_
  exact hr e' (hk'.subset he')

theorem storesTriggered_of_writes {h : List Event} {e : Event} (hw : WritesTriggered h e) :
    StoresTriggered h e := by
  cases e with
  | enter task nr args => exact program.memAfter_of_write_none hw
  | spawn t => exact program.memAfter_of_write_none hw
  | die t => exact program.memAfter_of_write_none hw
  | exit task nr ret =>
    intro f hf
    have hwrite := hw f hf
    split at hwrite
    · rename_i hread
      rw [if_pos hread]
      have hstored := program.replaced_of_write hwrite length_localtimeContent (by decide)
      exact hstored
    · rename_i hread
      rw [if_neg hread]
      split at hwrite
      · rename_i hstat
        rw [if_pos hstat]
        have hstored := program.replaced_of_write hwrite (length_le64 _) (by decide)
        exact hstored
      · rename_i hstat
        rw [if_neg hstat]
        exact program.memAfter_of_write_none hwrite

/-- What is written to a `read` takes the mark away. -/
theorem clears_of_write_read (k : List Event) (task : Task) (ret : Int)
    (hw : (program.write k (.exit task .read ret)).isSome) :
    marking.Clears task.comm .read ∧ (marking.mark k task.tid).isSome := by
  rw [write_read_eq] at hw
  split at hw
  · rename_i hm
    exact ⟨⟨rfl, hm.1⟩, hm.2⟩
  · cases hw

/-- **Trigger of `modify_file_read`**: in runs that fill no map, the reads and sizes rewritten are
those of threads whose latest event of the two kinds, as `cc1`, is the entry of an `openat` of
`/etc/localtime` and not the completion of a `read`; each through the pointer of the call that
returns, and between two reads of a thread that are rewritten it has opened the file. -/
theorem localtime_trigger {h : List Event} (ha : Alternating h) (hn : program.NeverFull h)
    (hr : ∀ e ∈ h, PathReadable e) :
    EachStep WritesTriggered h ∧ Marking.Rearmed (p := program) .read OpensLocaltime h :=
  ⟨eachStep_writesTriggered ha hn hr,
    marking.rearmed clears_of_write_read fun e he t => (sets_iff (hr e he) t).1⟩

/-- So in such runs memory has the replacements of triggered threads, and no others. -/
theorem localtime_stored {h : List Event} (ha : Alternating h) (hn : program.NeverFull h)
    (hr : ∀ e ∈ h, PathReadable e) : EachStep StoresTriggered h :=
  (eachStep_writesTriggered ha hn hr).mono fun _ _ hw => storesTriggered_of_writes hw

/-- The compiler opens the zone file and reads it, while another compiler thread reads a source
file. -/
def twoReadersRun : List Event :=
  [.exit (localtimeTask 1) .read 0x72,
   .exit (cc1Task 2) .read 4096,
   .enter (localtimeTask 1) .read ⟨3, 0x3000, 4096, 0, 0, 0⟩,
   .exit (localtimeTask 1) .openat 3,
   .enter (cc1Task 2) .read ⟨4, 0x5000, 4096, 0, 0, 0⟩,
   .enter (localtimeTask 1) .openat ⟨0, 0x1000, 0, 0, 0, 0⟩]

theorem localtime_trigger_twoReadersRun :
    EachStep WritesTriggered twoReadersRun ∧
      Marking.Rearmed (p := program) .read OpensLocaltime twoReadersRun := by
  refine localtime_trigger (by decide) (by unfold Program.NeverFull; decide) ?_
  simp [twoReadersRun, PathReadable, ByteMem.readableFor, localtimeTask, cc1Task]

end ModifyFileRead

/-! ## `preload_filter` -/

namespace PreloadFilter

/-- Thread `t` enters an `openat`, not as `cc1`, of a path that passes the test. -/
def OpensPreload (t : Tid) : Event → Prop
  | .enter task .openat args => task.tid = t ∧ commFilter task.comm = false ∧
    isPreload (bpfProbeReadUser task.mem args.arg1 20) = true
  | _ => False

/-- Thread `t` completes a `newfstatat`, not as `cc1`. -/
def CompletesStat (t : Tid) : Event → Prop
  | .exit task .newfstatat _ => task.tid = t ∧ commFilter task.comm = false
  | _ => False

instance (t : Tid) : DecidablePred (OpensPreload t) := fun e => by
  unfold OpensPreload
  split <;> infer_instance

instance (t : Tid) : DecidablePred (CompletesStat t) := fun e => by
  unfold CompletesStat
  split <;> infer_instance

/-- The most recent one of the two is the `openat`. -/
def Triggered (h : List Event) (t : Tid) : Prop := LatestIs (OpensPreload t) (CompletesStat t) h

instance (h : List Event) (t : Tid) : Decidable (Triggered h t) :=
  inferInstanceAs (Decidable (LatestIs _ _ _))

/-- What `preload_filter` writes: eight zero bytes for the size in the `struct stat` of a
`newfstatat` of a triggered thread, not under `cc1`, and nothing else. -/
def WritesTriggered (h : List Event) : Event → Prop
  | .exit task nr ret => ∀ f ∈ inflight h task.tid, program.write h (.exit task nr ret) =
    if nr = .newfstatat ∧ commFilter task.comm = false ∧ Triggered h task.tid then
      some ⟨f.args.arg2 + 48, le64 0⟩
    else none
  | e => program.write h e = none

/-- In memory: where they can be written, the eight bytes are zero, and nothing else is changed. -/
def StoresTriggered (h : List Event) : Event → Prop
  | .exit task nr ret => ∀ f ∈ inflight h task.tid,
    if nr = .newfstatat ∧ commFilter task.comm = false ∧ Triggered h task.tid then
      task.mem.writableFor (f.args.arg2 + 48) 8 = true →
        task.mem.Replaced (program.memAfter h (.exit task nr ret)) (f.args.arg2 + 48) (le64 0)
    else program.memAfter h (.exit task nr ret) = task.mem
  | e => program.memAfter h e = e.mem

/-- An address is on record only for threads inside a `newfstatat`, and marked. -/
def StatPsInside (h : List Event) : Prop :=
  ∀ t, ((program.run h).statPs.lookup t).isSome →
    (∃ f, inflight h t = some f ∧ f.nr = .newfstatat) ∧ ((program.run h).tids.lookup t).isSome

theorem sets_iff (e : Event) (t : Tid) : marking.Sets t e ↔ OpensPreload t e := by
  cases e with
  | enter task nr args =>
    cases nr with
    | openat => exact and_congr_right fun _ => and_iff_right rfl
    | gettimeofday | clockGettime | newfstatat | read =>
      exact iff_of_false (fun hm => by cases hm.2.1) id
  | exit task nr ret => exact Iff.rfl
  | spawn u => exact Iff.rfl
  | die u => exact Iff.rfl

theorem resets_iff (e : Event) (t : Tid) : marking.Resets t e ↔ CompletesStat t e := by
  cases e with
  | exit task nr ret =>
    cases nr with
    | newfstatat => exact and_congr_right fun _ => and_iff_right rfl
    | gettimeofday | clockGettime | read | openat =>
      exact iff_of_false (fun hm => by cases hm.2.1) id
  | enter task nr args => exact Iff.rfl
  | spawn u => exact Iff.rfl
  | die u => exact Iff.rfl

theorem writesTriggered {h : List Event} {e : Event} (ha : Alternates h e)
    (hn : program.NeverFull h) : WritesTriggered h e := by
  cases e with
  | enter task nr args => exact write_enter h task nr args
  | spawn t => exact congrArg Prod.snd (program.step_spawn t _)
  | die t => exact congrArg Prod.snd (program.step_die t _)
  | exit task nr ret =>
    intro f hf
    obtain ⟨hnr, hc⟩ := alternates_frame ha hf
    by_cases hst : nr = .newfstatat
    · subst hst
      have harm : marking.armed h task.tid = true ↔ Triggered h task.tid :=
        (marking.armed_iff_latestIs h _).trans
          (latestIs_congr (fun e _ => sets_iff e _) fun e _ => resets_iff e _)
      rw [write_newfstatat ret hn hf hnr hc]
      simp [harm]
    · rw [write_exit_other h task ret hst, if_neg fun hc => hst hc.1]

theorem eachStep_writesTriggered {h : List Event} (ha : Alternating h) (hn : program.NeverFull h) :
    EachStep WritesTriggered h := by
  refine eachStep_iff.2 fun e k hk => ?_
  exact writesTriggered (eachStep_iff.1 ha e k hk) (hn.suffix ((List.suffix_cons e k).trans hk))

theorem storesTriggered_of_writes {h : List Event} {e : Event} (hw : WritesTriggered h e) :
    StoresTriggered h e := by
  cases e with
  | enter task nr args => exact program.memAfter_of_write_none hw
  | spawn t => exact program.memAfter_of_write_none hw
  | die t => exact program.memAfter_of_write_none hw
  | exit task nr ret =>
    intro f hf
    have hwrite := hw f hf
    split at hwrite
    · rename_i hstat
      rw [if_pos hstat]
      have hstored := program.replaced_of_write hwrite (length_le64 _) (by decide)
      exact hstored
    · rename_i hstat
      rw [if_neg hstat]
      exact program.memAfter_of_write_none hwrite

/-- What is written to a `struct stat` takes the mark away. -/
theorem clears_of_write_newfstatat (k : List Event) (task : Task) (ret : Int)
    (hw : (program.write k (.exit task .newfstatat ret)).isSome) :
    marking.Clears task.comm .newfstatat ∧ (marking.mark k task.tid).isSome := by
  rw [write_newfstatat_eq] at hw
  split at hw
  · rename_i hm
    exact ⟨⟨rfl, hm.1⟩, hm.2⟩
  · cases hw

/-- **Trigger of `preload_filter`**: in runs that fill no map, the sizes zeroed are those of
threads, not under `cc1`, whose latest event of the two kinds is the entry of an `openat` that the
path test accepts and not the completion of a `newfstatat`; each in the `struct stat` of the call
that returns, between two of a thread it has opened such a path, and `stat_ps` has entries only
for marked threads inside a `newfstatat`. -/
theorem preload_trigger {h : List Event} (ha : Alternating h) (hn : program.NeverFull h) :
    EachStep WritesTriggered h ∧ Marking.Rearmed (p := program) .newfstatat OpensPreload h ∧
      EachState StatPsInside h := by
  refine ⟨eachStep_writesTriggered ha hn, ?_, ?_⟩
  · exact marking.rearmed clears_of_write_newfstatat fun e _ t => (sets_iff e t).1
  · refine eachState_iff.2 fun k hk t hl => ?_
    obtain ⟨f, hf, hC, hm⟩ := statP_sub (ha.suffix hk) hl
    exact ⟨⟨f, hf, hC.1⟩, hm⟩

/-- So in such runs memory has zero sizes for triggered threads, and for no others. -/
theorem preload_stored {h : List Event} (ha : Alternating h) (hn : program.NeverFull h) :
    EachStep StoresTriggered h :=
  (eachStep_writesTriggered ha hn).mono fun _ _ hw => storesTriggered_of_writes hw

/-- A shell has the preload file's size taken while the compiler asks for another one. -/
def shellAndCompilerRun : List Event :=
  [.exit (preloadTask 1) .newfstatat 0,
   .exit (cc1Task 2) .newfstatat 0,
   .enter (preloadTask 1) .newfstatat ⟨3, 0x5000, 0x2000, 0, 0, 0⟩,
   .exit (preloadTask 1) .openat 3,
   .enter (cc1Task 2) .newfstatat ⟨4, 0x5000, 0x3000, 0, 0, 0⟩,
   .enter (preloadTask 1) .openat ⟨0, 0x1000, 0, 0, 0, 0⟩]

theorem preload_trigger_shellAndCompilerRun :
    EachStep WritesTriggered shellAndCompilerRun ∧
      Marking.Rearmed (p := program) .newfstatat OpensPreload shellAndCompilerRun ∧
      EachState StatPsInside shellAndCompilerRun :=
  preload_trigger (by decide) (by unfold Program.NeverFull; decide)

end PreloadFilter

end Bpf
