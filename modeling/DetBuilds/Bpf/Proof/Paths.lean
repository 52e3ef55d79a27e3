import DetBuilds.Bpf.ModifyFileRead
import DetBuilds.Bpf.PreloadFilter
import DetBuilds.Lib.CString

/-!
# The path tests

`handle_enter_openat` of `modify_file_read` and of `preload_filter` compare the first 20 bytes of
the path with a name, chunk by chunk. The chunks add up to the first 15 bytes of `localtime_name`,
its terminator included, so that exactly the path `/etc/localtime` passes
(`isLocaltime_window`), but to 18 of the 19 bytes of `preload_name`, so that every path passes that
begins with `/etc/ld.so.preload` (`isPreload_window`).
-/

set_option autoImplicit false

namespace Bpf

open CString

/-- A chunk that compares equal makes a longer beginning equal. -/
theorem take_and_memcmp {a b : List Byte} {i n : Nat} (ha : i + n ≤ a.length)
    (hb : i + n ≤ b.length) :
    a.take i = b.take i ∧ memcmp (a.drop i) (b.drop i) n = 0 ↔ a.take (i + n) = b.take (i + n) := by
  rw [take_add_eq_iff (by omega) (by omega), memcmp_eq_zero]
  · rw [List.length_drop]; omega
  · rw [List.length_drop]; omega

/-! ## `/etc/localtime` -/

namespace ModifyFileRead

/-- The path that `localtime_name` holds. -/
def localtimePath : List Byte :=
  ascii ['/', 'e', 't', 'c', '/', 'l', 'o', 'c', 'a', 'l', 't', 'i', 'm', 'e']

theorem isLocaltime_iff {filename : List Byte} (hlen : filename.length = 20) :
    isLocaltime filename = true ↔ localtimePath ++ [0] <+: filename := by
  have hname : localtimeName.length = 15 := rfl
  unfold isLocaltime
  simp only [Bool.and_eq_true, beq_iff_eq]
  rw [memcmp_eq_zero (by omega) (by omega), take_and_memcmp (by omega) (by omega),
    take_and_memcmp (by omega) (by omega), ← and_assoc, ← and_assoc,
    ← take_succ_eq_iff (by omega) (by omega), ← take_succ_eq_iff (by omega) (by omega),
    ← take_succ_eq_iff (by omega) (by omega), List.prefix_iff_eq_take]
  exact Iff.rfl

/-- **The path test of `modify_file_read`** accepts one path. -/
theorem isLocaltime_window {mem : ByteMem} {filenameP : Addr} {path : List Byte}
    (hr : mem.readableFor filenameP 20 = true) (hp : mem.HoldsString filenameP path) :
    isLocaltime (bpfProbeReadUser mem filenameP 20) = true ↔ path = localtimePath := by
  rw [isLocaltime_iff (length_bpfProbeReadUser ..),
    show bpfProbeReadUser mem filenameP 20 = mem.load filenameP 20 from if_pos hr,
    hp.terminated_prefix_window (by decide) (by decide)]
  exact eq_comm

end ModifyFileRead

/-! ## `/etc/ld.so.preload` -/

namespace PreloadFilter

/-- The path that `preload_name` holds. -/
def preloadPath : List Byte :=
  ascii ['/', 'e', 't', 'c', '/', 'l', 'd', '.', 's', 'o', '.', 'p', 'r', 'e', 'l', 'o', 'a', 'd']

theorem isPreload_iff {filename : List Byte} (hlen : filename.length = 20) :
    isPreload filename = true ↔ preloadPath <+: filename := by
  have hname : preloadName.length = 19 := rfl
  unfold isPreload
  simp only [Bool.and_eq_true, beq_iff_eq]
  rw [memcmp_eq_zero (by omega) (by omega), take_and_memcmp (by omega) (by omega),
    take_and_memcmp (by omega) (by omega), take_and_memcmp (by omega) (by omega),
    take_and_memcmp (by omega) (by omega), List.prefix_iff_eq_take]
  exact Iff.rfl

/-- **The path test of `preload_filter`** accepts every path that begins with the name. -/
theorem isPreload_window {mem : ByteMem} {filenameP : Addr} {path : List Byte}
    (hr : mem.readableFor filenameP 20 = true) (hp : mem.HoldsString filenameP path) :
    isPreload (bpfProbeReadUser mem filenameP 20) = true ↔ preloadPath <+: path := by
  rw [isPreload_iff (length_bpfProbeReadUser ..),
    show bpfProbeReadUser mem filenameP 20 = mem.load filenameP 20 from if_pos hr,
    hp.prefix_window (by decide) (by decide)]

end PreloadFilter

end Bpf
