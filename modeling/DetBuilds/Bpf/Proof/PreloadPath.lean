import DetBuilds.Bpf.Proof.Paths
import DetBuilds.Bpf.Proof.Preload

/-!
# The paths that `preload_filter` acts on

A thread opens a path and has a `newfstatat` completed afterwards (`OpenThenStat`).
`preload_path_iff`: the size in that call's `struct stat` is zeroed if and only if the path is
`/etc/ld.so.preload`, exactly for the paths that do not go on behind it. The terminator is not
compared. `preload_path_size_iff` says the same of memory, where the size can be written.
-/

set_option autoImplicit false

namespace Bpf.PreloadFilter

open History

/-- After `h₀`, a thread that is neither `cc1` nor marked enters an `openat` of `path`, and the
next `newfstatat` that it completes is the one it enters after the events `pre` and before the
events `post`. -/
structure OpenThenStat (path : List Byte) where
  h₀ : List Event
  opener : Task
  openArgs : Args
  pre : List Event
  statter : Task
  statArgs : Args
  post : List Event
  returner : Task
  ret : Int
  same_tid : statter.tid = opener.tid ∧ returner.tid = opener.tid
  not_cc1 : ∀ task ∈ [opener, statter, returner], commFilter task.comm = false
  readable : opener.mem.readableFor openArgs.arg1 20 = true
  holds : opener.mem.HoldsString openArgs.arg1 path
  unmarked : marking.mark h₀ opener.tid = none
  tids_room : (program.run h₀).tids.HasRoom opener.tid
  pre_keeps : ∀ e ∈ pre, marking.Keeps opener.tid e
  statPs_room :
    (program.run (pre ++ .enter opener .openat openArgs :: h₀)).statPs.HasRoom opener.tid
  post_spares : ∀ e ∈ post, Spares opener.tid e

namespace OpenThenStat

variable {path : List Byte} (r : OpenThenStat path)

/-- The run up to the entry of the `newfstatat`. -/
def opened : List Event := r.pre ++ .enter r.opener .openat r.openArgs :: r.h₀

/-- The run up to its return. -/
def history : List Event := r.post ++ .enter r.statter .newfstatat r.statArgs :: r.opened

/-- The size that the call returns is zeroed. -/
def Zeroed : Prop :=
  program.write r.history (.exit r.returner .newfstatat r.ret) =
    some ⟨r.statArgs.arg2 + 48, le64 0⟩

/-- The thread is marked when it enters the `newfstatat` if its path has passed the test. -/
theorem mark_opened : (marking.mark r.opened r.opener.tid).isSome ↔ preloadPath <+: path := by
  have hc : commFilter r.opener.comm = false := r.not_cc1 _ (by simp)
  rw [opened, marking.mark_append r.pre_keeps, ← isPreload_window r.readable r.holds]
  by_cases hw : isPreload (bpfProbeReadUser r.opener.mem r.openArgs.arg1 20) = true
  · have hmarks : marking.Marks r.opener .openat r.openArgs := ⟨rfl, hc, hw⟩
    have hset : marking.mark (.enter r.opener .openat r.openArgs :: r.h₀) r.opener.tid = some 0 := by
      unfold Marking.mark
      rw [Program.run_cons, marking.enter_tids, if_pos hmarks]
      exact BoundedMap.lookup_update_any 0 r.tids_room
    rw [hset]
    exact iff_of_true rfl hw
  · rw [marking.mark_enter_other fun hm => hw hm.2.2.2, r.unmarked]
    exact iff_of_false Bool.false_ne_true hw

theorem mark_history :
    marking.mark r.history r.opener.tid = marking.mark r.opened r.opener.tid := by
  have hpost : ∀ e ∈ r.post, marking.Keeps r.opener.tid e :=
    fun e he => marking.keeps_of_spares (r.post_spares e he)
  rw [history, marking.mark_append hpost]
  exact marking.mark_enter_other fun hm => by cases hm.2.1

/-- A marked thread's pointer is on record when the call returns. -/
theorem statP_history (hm : (marking.mark r.opened r.opener.tid).isSome) :
    statP r.history r.opener.tid = some r.statArgs.arg2 := by
  have hc : commFilter r.statter.comm = false := r.not_cc1 _ (by simp)
  have hm : ((program.run r.opened).tids.lookup r.opener.tid).isSome := hm
  have hkept := congrArg Entries.statP (ownKeys.entries_append
    (h := .enter r.statter .newfstatat r.statArgs :: r.opened) r.post_spares)
  refine hkept.trans ?_
  show (program.run (.enter r.statter .newfstatat r.statArgs :: r.opened)).statPs.lookup _ = _
  rw [Program.run_cons, step_enter]
  simp only [hc, r.same_tid.1, hm, and_self, if_true]
  exact BoundedMap.lookup_update_any _ r.statPs_room

theorem write_history :
    program.write r.history (.exit r.returner .newfstatat r.ret) =
      if preloadPath <+: path then some ⟨r.statArgs.arg2 + 48, le64 0⟩ else none := by
  have hc : commFilter r.returner.comm = false := r.not_cc1 _ (by simp)
  rw [write_newfstatat_eq, r.same_tid.2, r.mark_history]
  by_cases hm : (marking.mark r.opened r.opener.tid).isSome = true
  · rw [if_pos ⟨hc, hm⟩, if_pos (r.mark_opened.1 hm), r.statP_history hm]
    rfl
  · rw [if_neg fun h => hm h.2, if_neg fun h => hm (r.mark_opened.2 h)]

/-- Every path that begins with the name has the effect. -/
theorem zeroed_iff : r.Zeroed ↔ preloadPath <+: path := by
  unfold Zeroed
  rw [r.write_history]
  split <;> simp [*]

/-- Where the size can be written and the kernel's own is not zero, it is zero in memory
afterwards. -/
theorem size_zero_iff (hw : r.returner.mem.writableFor (r.statArgs.arg2 + 48) 8 = true)
    (hne : r.returner.mem.load (r.statArgs.arg2 + 48) 8 ≠ le64 0) :
    (program.memAfter r.history (.exit r.returner .newfstatat r.ret)).load
      (r.statArgs.arg2 + 48) 8 = le64 0 ↔ preloadPath <+: path := by
  have hwrite := r.write_history
  split at hwrite
  · rename_i hp
    have hmem := (program.replaced_of_write hwrite (length_le64 0) (by decide) hw).1
    rw [length_le64] at hmem
    exact iff_of_true hmem hp
  · rename_i hp
    rw [program.memAfter_of_write_none hwrite]
    exact iff_of_false hne hp

end OpenThenStat

theorem prefix_iff_eq_iff {path : List Byte} : (preloadPath <+: path ↔ path = preloadPath) ↔
    (preloadPath <+: path → path = preloadPath) :=
  ⟨fun hiff => hiff.1, fun himp => ⟨himp, fun heq => heq ▸ List.prefix_rfl⟩⟩

/-- **The path of `preload_filter`**: opening a path has the size of the thread's next completed
`newfstatat` zeroed if and only if it is `/etc/ld.so.preload`, exactly for the paths that do not
begin with it or are it. -/
theorem preload_path_iff {path : List Byte} (r : OpenThenStat path) :
    (r.Zeroed ↔ path = preloadPath) ↔ (preloadPath <+: path → path = preloadPath) := by
  rw [r.zeroed_iff]
  exact prefix_iff_eq_iff

/-- So the size in memory is zeroed exactly for these paths. -/
theorem preload_path_size_iff {path : List Byte} (r : OpenThenStat path)
    (hw : r.returner.mem.writableFor (r.statArgs.arg2 + 48) 8 = true)
    (hne : r.returner.mem.load (r.statArgs.arg2 + 48) 8 ≠ le64 0) :
    ((program.memAfter r.history (.exit r.returner .newfstatat r.ret)).load
      (r.statArgs.arg2 + 48) 8 = le64 0 ↔ path = preloadPath) ↔
      (preloadPath <+: path → path = preloadPath) := by
  rw [r.size_zero_iff hw hne]
  exact prefix_iff_eq_iff

/-- A shell with these bytes at 0x1000. -/
def shTask (bytes : List Byte) : Task :=
  { preloadTask 1 with mem := pathMem bytes }

/-- It opens them and asks for the status of a file. -/
def openThenStat (path : List Byte) (hp : (shTask path).mem.HoldsString 0x1000 path) :
    OpenThenStat path where
  h₀ := []
  opener := shTask path
  openArgs := ⟨0, 0x1000, 0, 0, 0, 0⟩
  pre := [.exit (shTask path) .openat 3]
  statter := shTask path
  statArgs := ⟨3, 0x1000, 0x2000, 0, 0, 0⟩
  post := []
  returner := shTask path
  ret := 0
  same_tid := ⟨rfl, rfl⟩
  not_cc1 task ht := by
    simp only [List.mem_cons, List.not_mem_nil, or_false, or_self] at ht
    subst ht
    rfl
  readable := readableFor_pathMem ..
  holds := hp
  unmarked := rfl
  tids_room := .inr (by decide)
  pre_keeps e he := by
    obtain rfl := List.mem_singleton.1 he
    exact fun hm => by cases hm.2.1
  statPs_room := .inr (by
    refine Nat.lt_of_le_of_lt (Nat.le_of_eq ?_) (by decide : 0 < maxEntries)
    rw [List.singleton_append, Program.run_cons, Program.run_cons, step_enter,
      step_exit_other _ _ _ (by decide)]
    rfl)
  post_spares e he := absurd he List.not_mem_nil

theorem preload_path_iff_preloadPath : (openThenStat preloadPath (by decide)).Zeroed :=
  ((preload_path_iff _).2 fun _ => rfl).2 rfl

/-- The path that `load_modify.sh` saves the preload file under. -/
def backupPath : List Byte := preloadPath ++ ascii ['.', 'b', 'a', 'c', 'k', 'u', 'p']

theorem preload_path_backupPath :
    ¬ ((openThenStat backupPath (by decide)).Zeroed ↔ backupPath = preloadPath) := by
  rw [OpenThenStat.zeroed_iff]
  decide

end Bpf.PreloadFilter
