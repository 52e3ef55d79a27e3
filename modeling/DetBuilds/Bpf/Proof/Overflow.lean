import DetBuilds.Bpf.Proof.FileRead

/-!
# How far `handle_exit_read` writes

The handler stores 0x72 bytes at the buffer on record, whatever the `read` asked for and whatever
it returned. `overflow_iff`: what it changes stays within the bytes the kernel delivered exactly
if the bytes of the replacement behind them are there already.
-/

set_option autoImplicit false

namespace Bpf.ModifyFileRead

open History

/-- A `read` of a marked `cc1` thread returns a length that it can return. -/
def MarkedRead (h : List Event) (task : Task) (ret : Int) (f : Frame) : Prop :=
  inflight h task.tid = some f ∧ commFilter f.task.comm = true ∧ commFilter task.comm = true ∧
    (marking.mark h task.tid).isSome ∧ -4095 ≤ ret ∧ ret ≤ f.args.arg2.toNat

/-- At the return of such a `read`, the handler changes nothing but what the kernel delivered. -/
def WithinDelivered (h : List Event) : Event → Prop
  | .exit task .read ret => ∀ f, MarkedRead h task ret f →
    ∀ x, (program.memAfter h (.exit task .read ret)).byte x ≠ task.mem.byte x →
      InRange x f.args.arg1 ret.toNat
  | _ => True

/-- No room was left to record the buffer, or behind what the kernel delivered memory holds the
bytes of the replacement already, as far as they can be written. -/
def Covered (h : List Event) : Event → Prop
  | .exit task .read ret => ∀ f, MarkedRead h task ret f →
    contentP h task.tid = none ∨
      ∀ i, ret.toNat ≤ i → i < task.mem.landed f.args.arg1 localtimeSize →
        task.mem.byte (ByteMem.off f.args.arg1 i) = (localtimeContent.take localtimeSize).getD i 0
  | _ => True

/-- The buffer of a marked thread's `read` is on record, or no room was left for it. -/
theorem contentP_of_markedRead {h : List Event} {task : Task} {ret : Int} {f : Frame}
    (hp : Pairs h (.exit task .read ret)) (hm : MarkedRead h task ret f) :
    contentP h task.tid = some f.args.arg1 ∨ contentP h task.tid = none := by
  obtain ⟨hf, hfc, -, hmark, -⟩ := hm
  exact (contentP_inflight hf (pairs_frame hp hf) hfc hmark).imp_right And.left

/-- Memory after the return: the replacement is stored at the buffer on record. -/
theorem memAfter_of_markedRead {h : List Event} {task : Task} {ret : Int} {f : Frame}
    (hm : MarkedRead h task ret f) :
    program.memAfter h (.exit task .read ret) =
      applyWrite ((contentP h task.tid).map fun a => ⟨a, localtimeContent.take localtimeSize⟩)
        task.mem := by
  obtain ⟨-, -, hc, hmark, -⟩ := hm
  unfold Program.memAfter
  rw [write_read_eq, if_pos ⟨hc, hmark⟩]
  rfl

theorem withinDelivered_iff {h : List Event} {e : Event} (hp : Pairs h e) :
    WithinDelivered h e ↔ Covered h e := by
  cases e with
  | enter _ _ _ => exact Iff.rfl
  | spawn _ => exact Iff.rfl
  | die _ => exact Iff.rfl
  | exit task nr ret =>
    cases nr with
    | gettimeofday | clockGettime | openat | newfstatat => exact Iff.rfl
    | read =>
      refine forall_congr' fun f => forall_congr' fun hm => ?_
      rw [memAfter_of_markedRead hm]
      rcases contentP_of_markedRead hp hm with hs | hs
      · have hlen : (localtimeContent.take localtimeSize).length ≤ 2 ^ 64 := by
          rw [length_localtimeContent]
          decide
        have hiff := ByteMem.store_within_iff (m := task.mem) (a := f.args.arg1)
          (n := ret.toNat) hlen
        rw [length_localtimeContent] at hiff
        rw [hs]
        simp only [reduceCtorEq, false_or]
        exact hiff
      · rw [hs]
        simp only [true_or, iff_true]
        intro x hx
        exact absurd rfl hx

/-- **Write bound of `handle_exit_read`**: in every run, what it changes stays within the bytes
that the kernel delivered exactly if at each return of a marked `cc1` thread's `read` the buffer
was not recorded for lack of room, or the replacement was there already behind those bytes. -/
theorem overflow_iff {h : List Event} (hp : EachStep Pairs h) :
    EachStep WithinDelivered h ↔ EachStep Covered h :=
  hp.congr fun _ _ hp => withinDelivered_iff hp

/-- `cc1` opens the zone file and reads it into a buffer of `count` bytes, which the kernel
fills. -/
def countRun (count : Nat) : List Event :=
  [.exit (localtimeTask 1) .read count,
   .enter (localtimeTask 1) .read ⟨3, 0x3000, BitVec.ofNat 64 count, 0, 0, 0⟩,
   .exit (localtimeTask 1) .openat 3,
   .enter (localtimeTask 1) .openat ⟨0, 0x1000, 0, 0, 0, 0⟩]

/-- A buffer as long as the replacement holds all of it. -/
theorem overflow_iff_countRun : EachStep WithinDelivered (countRun localtimeSize) := by
  refine (overflow_iff (by decide)).2 ⟨fun f hm => .inr fun i hi hland => ?_, trivial, trivial,
    trivial, trivial⟩
  have hle := ByteMem.landed_le (localtimeTask 1).mem f.args.arg1 localtimeSize
  rw [Int.toNat_natCast] at hi
  omega

/-- A `read` of four bytes has the fifth byte at its buffer changed. -/
theorem overflow_countRun_four :
    Alternating (countRun 4) ∧ ¬ EachStep WithinDelivered (countRun 4) := by
  have ha : Alternating (countRun 4) := by decide
  refine ⟨ha, fun hw => ?_⟩
  have hm : MarkedRead (countRun 4).tail (localtimeTask 1) (4 : Nat)
      ⟨localtimeTask 1, .read, ⟨3, 0x3000, 4, 0, 0, 0⟩⟩ :=
    ⟨rfl, by decide, by decide, by decide, by decide, by decide⟩
  rcases (withinDelivered_iff (by decide)).1 hw.1 _ hm with hnone | hcov
  · exact absurd hnone (by decide)
  · have hland : localtimeSize ≤ (localtimeTask 1).mem.landed 0x3000 localtimeSize :=
      ByteMem.le_landed (Nat.le_refl _) (by simp [ByteMem.writableFor, localtimeTask, cc1Task])
    have hbyte := hcov 4 (by decide) (Nat.lt_of_lt_of_le (by decide) hland)
    exact absurd hbyte (by decide)

end Bpf.ModifyFileRead
