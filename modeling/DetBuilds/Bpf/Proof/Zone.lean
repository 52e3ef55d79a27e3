import DetBuilds.Bpf.Files
import DetBuilds.Bpf.Proof.Overflow
import DetBuilds.Lib.TZif

/-!
# The zone that `cc1` reads

`localtime_content` is one string literal over eight lines. A line splice inside a literal keeps
the blanks of the next line, so 28 of them stand in the reserved bytes and in the counts of the
header, which then announces a data block longer than memory. `zone_iff`: what is in a marked
thread's buffer is a file of the UTC zone exactly if no room was left to record the buffer and the
kernel itself delivered such a file.
-/

set_option autoImplicit false

namespace Bpf.ModifyFileRead

open History

/-- A file of the UTC zone: one local time type, with offset 0 and the abbreviation `UTC`, and
the footer `UTC0`. -/
def IsUtc (bs : List Byte) : Prop :=
  ∃ z ∈ TZif.decode bs, ∃ t, z.types = [t] ∧ t.utoff = 0 ∧
    z.abbreviation t = ascii ['U', 'T', 'C'] ∧ z.footer = ascii ['U', 'T', 'C', '0']

/-- `/usr/share/zoneinfo/UTC`. -/
def utcFile : List Byte :=
  ascii ['T', 'Z', 'i', 'f', '2'] ++ zeros 34 ++ [1] ++ zeros 3 ++ [4] ++
  zeros 6 ++ ascii ['U', 'T', 'C'] ++ zeros 1 ++
  ascii ['T', 'Z', 'i', 'f', '2'] ++ zeros 34 ++ [1] ++ zeros 3 ++ [4] ++
  zeros 6 ++ ascii ['U', 'T', 'C'] ++ zeros 1 ++ ascii ['\n', 'U', 'T', 'C', '0', '\n']

example : IsUtc utcFile := ⟨_, rfl, _, rfl, by decide, by decide, by decide⟩

/-- A marked `cc1` thread's `read` of the zone file returns at least 0x72 bytes. -/
def ZoneRead (h : List Event) (task : Task) (ret : Int) (f : Frame) : Prop :=
  MarkedRead h task ret f ∧ TargetsOpened localtimeName h f ∧ localtimeSize ≤ ret

/-- The kernel has stored what such a `read` returns, so it can be written to. -/
def KernelRead (h : List Event) : Event → Prop
  | .exit task .read ret => ∀ f, ZoneRead h task ret f →
    task.mem.writableFor f.args.arg1 localtimeSize = true
  | _ => True

/-- At the return of such a `read`, the first 0x72 bytes of its buffer are a file of the UTC
zone. -/
def DeliversUtc (h : List Event) : Event → Prop
  | .exit task .read ret => ∀ f, ZoneRead h task ret f →
    IsUtc ((program.memAfter h (.exit task .read ret)).load f.args.arg1 localtimeSize)
  | _ => True

/-- No room was left to record the buffer, and the kernel's own bytes are such a file. -/
def KernelUtc (h : List Event) : Event → Prop
  | .exit task .read ret => ∀ f, ZoneRead h task ret f →
    contentP h task.tid = none ∧ IsUtc (task.mem.load f.args.arg1 localtimeSize)
  | _ => True

/-! ## The replacement -/

/-- The header of the replacement has blanks for counts. -/
theorem counts_localtimeContent :
    TZif.parseCounts (localtimeContent.take localtimeSize) =
      ⟨0x20202020, 0x20202020, 0x20202020, 0x20202020, 0x20202020, 0x20202020⟩ := by
  rfl

/-- **The replacement is no zone file**: the data block that its header announces does not fit. -/
theorem decode_localtimeContent : TZif.decode (localtimeContent.take localtimeSize) = none := by
  cases hd : TZif.decode (localtimeContent.take localtimeSize) with
  | none => rfl
  | some z =>
    have hlen := TZif.length_le_of_decode hd
    rw [counts_localtimeContent, length_localtimeContent] at hlen
    exact absurd hlen (by decide)

theorem not_isUtc_localtimeContent : ¬ IsUtc (localtimeContent.take localtimeSize) := by
  rintro ⟨z, hz, -⟩
  rw [decode_localtimeContent] at hz
  cases hz

/-! ## Runs -/

theorem deliversUtc_iff {h : List Event} {e : Event} (hp : Pairs h e) (hk : KernelRead h e) :
    DeliversUtc h e ↔ KernelUtc h e := by
  cases e with
  | enter _ _ _ => exact Iff.rfl
  | spawn _ => exact Iff.rfl
  | die _ => exact Iff.rfl
  | exit task nr ret =>
    cases nr with
    | gettimeofday | clockGettime | openat | newfstatat => exact Iff.rfl
    | read =>
      refine forall_congr' fun f => forall_congr' fun hz => ?_
      rw [memAfter_of_markedRead hz.1]
      rcases contentP_of_markedRead hp hz.1 with hs | hs
      · have hload : (task.mem.store f.args.arg1 (localtimeContent.take localtimeSize)).load
            f.args.arg1 localtimeSize = localtimeContent.take localtimeSize :=
          ByteMem.load_store length_localtimeContent (by decide) (hk f hz)
        rw [hs]
        refine iff_of_false (fun hutc => not_isUtc_localtimeContent ?_) fun hc => by cases hc.1
        rw [← hload]
        exact hutc
      · rw [hs]
        exact (and_iff_right rfl).symm

/-- **The zone delivered**: in every run, each marked `cc1` thread that reads at least 0x72 bytes
of the zone file finds a file of the UTC zone in its buffer exactly if each finds no room in
`content_ps` and the kernel has delivered such a file. -/
theorem zone_iff {h : List Event} (hp : EachStep Pairs h) (hk : EachStep KernelRead h) :
    EachStep DeliversUtc h ↔ EachStep KernelUtc h :=
  (hp.and hk).congr fun _ _ hs => deliversUtc_iff hs.1 hs.2

theorem kernelRead_countRun (count : Nat) : EachStep KernelRead (countRun count) :=
  ⟨fun f _ => by simp [ByteMem.writableFor, localtimeTask, cc1Task], trivial, trivial, trivial,
    trivial⟩

theorem zone_iff_countRun :
    EachStep DeliversUtc (countRun localtimeSize) ↔ EachStep KernelUtc (countRun localtimeSize) :=
  zone_iff (by decide) (kernelRead_countRun _)

/-- A `read` of 0x72 bytes of the zone file gets no zone file. -/
theorem zone_countRun :
    Alternating (countRun localtimeSize) ∧ ¬ EachStep DeliversUtc (countRun localtimeSize) := by
  refine ⟨by decide, fun hd => ?_⟩
  have hz : ZoneRead (countRun localtimeSize).tail (localtimeTask 1) localtimeSize
      ⟨localtimeTask 1, .read, ⟨3, 0x3000, BitVec.ofNat 64 localtimeSize, 0, 0, 0⟩⟩ :=
    ⟨⟨rfl, by decide, by decide, by decide, by decide, by decide⟩, by decide, by decide⟩
  have hpairs : EachStep Pairs (countRun localtimeSize) := by decide
  have hno := ((deliversUtc_iff hpairs.1 (kernelRead_countRun _).1).1 hd.1 _ hz).1
  exact absurd hno (by decide)

end Bpf.ModifyFileRead
