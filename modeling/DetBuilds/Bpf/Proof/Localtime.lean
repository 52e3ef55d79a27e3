import DetBuilds.Bpf.Files
import DetBuilds.Bpf.TwoRuns
import DetBuilds.Bpf.Proof.FileRead

/-!
# What `cc1` gets to see of the host's time zone file

Two runs with the same requests (`SameRequest`) differ in the contents of `/etc/localtime` only, as
the kernel delivers it through the descriptors at which `cc1` threads have opened it (`Delivers`).
They have the same maps throughout (`run_same`). `localtime_noninterference`: all that such threads
receive is the same in every other run of this kind if and only if nothing leaks: of such a
descriptor, a `read` of an armed thread returns no more than the 0x72 bytes that are replaced, and a
`read` of a thread that is not armed, because it has read something else first, returns nothing. For
the converse, `refile` puts another file in the place of the first.
-/

set_option autoImplicit false

namespace Bpf.ModifyFileRead

open History

/-- The path in memory is the same, as far as the program reads it. -/
def SamePath : Event → Event → Prop
  | .enter task₁ .openat args, .enter task₂ _ _ =>
    task₁.mem.load args.arg1 20 = task₂.mem.load args.arg1 20 ∧
      task₁.mem.readableFor args.arg1 20 = task₂.mem.readableFor args.arg1 20
  | _, _ => True

/-- The same call with the same path, or the same return. -/
def SameRequest (e₁ e₂ : Event) : Prop := SameCall e₁ e₂ ∧ SamePath e₁ e₂

/-- The kernel gives a `read` of the file the bytes at its offset, in memory it could write, and no
more than were asked for. -/
def Delivers (file : List Byte) (h : List Event) : Event → Prop
  | .exit task .read ret => ∀ f offset, draining localtimeName h task.tid = some (f, offset) →
      ret ≤ f.args.arg2.toNat ∧ offset + ret.toNat ≤ file.length ∧
      task.mem.load f.args.arg1 ret.toNat = (file.drop offset).take ret.toNat ∧
      task.mem.writableFor f.args.arg1 ret.toNat = true
  | _ => True

/-- Once the handler has run, a `cc1` thread that reads the file has received the same in both
runs. -/
def SameReceived (h₁ : List Event) (e₁ : Event) (h₂ : List Event) (e₂ : Event) : Prop :=
  match e₁ with
  | .exit task .read ret => ∀ f offset, draining localtimeName h₁ task.tid = some (f, offset) →
    commFilter f.task.comm = true →
      (program.memAfter h₁ e₁).load f.args.arg1 ret.toNat =
        (program.memAfter h₂ e₂).load f.args.arg1 ret.toNat
  | _ => True

/-- A `cc1` thread that reads the file gets no more than is replaced: 0x72 bytes while it is armed,
and otherwise nothing. -/
def NothingLeaks (h : List Event) : Event → Prop
  | .exit task .read ret => ∀ f offset, draining localtimeName h task.tid = some (f, offset) →
    commFilter f.task.comm = true →
      if marking.armed h task.tid = true then ret ≤ localtimeSize else ret ≤ 0
  | _ => True

/-! ## Two runs with the same requests -/

theorem SamePath.window {task₁ task₂ : Task} {nr : Nr} {args : Args}
    (h : SamePath (.enter task₁ .openat args) (.enter task₂ nr args)) :
    bpfProbeReadUser task₁.mem args.arg1 20 = bpfProbeReadUser task₂.mem args.arg1 20 := by
  unfold bpfProbeReadUser
  rw [h.1, h.2]

theorem marks_same {task₁ task₂ : Task} {nr₁ nr₂ : Nr} {args₁ args₂ : Args}
    (h : SameRequest (.enter task₁ nr₁ args₁) (.enter task₂ nr₂ args₂)) :
    Marks task₁ nr₁ args₁ ↔ Marks task₂ nr₂ args₂ := by
  obtain ⟨⟨⟨-, hc⟩, rfl, rfl⟩, hp⟩ := h
  unfold Marks
  rw [hc]
  refine and_congr_right fun hnr => and_congr_right fun _ => ?_
  subst hnr
  rw [hp.window]

/-- A step does not look at more of an event than the request. -/
theorem step_same {e₁ e₂ : Event} (h : SameRequest e₁ e₂) (s : Maps) :
    program.step e₁ s = program.step e₂ s := by
  match e₁, e₂, h with
  | .enter task₁ nr₁ args₁, .enter task₂ nr₂ args₂, h =>
    have hm := marks_same h
    obtain ⟨⟨⟨ht, hc⟩, rfl, rfl⟩, -⟩ := h
    rw [step_enter, step_enter, ht, hc]
    simp only [hm]
  | .exit task₁ nr₁ ret₁, .exit task₂ nr₂ ret₂, ⟨⟨⟨ht, hc⟩, hnr, hret⟩, _⟩ =>
    subst hnr
    by_cases h₁ : nr₁ = .newfstatat
    · subst h₁
      rw [step_exit_newfstatat, step_exit_newfstatat, ht, hc]
    · by_cases h₂ : nr₁ = .read
      · subst h₂
        rw [step_exit_read, step_exit_read, ht, hc]
      · rw [step_exit_other _ _ _ h₁ h₂, step_exit_other _ _ _ h₁ h₂]
  | .spawn _, .spawn _, _ => rw [Program.step_spawn, Program.step_spawn]
  | .die _, .die _, _ => rw [Program.step_die, Program.step_die]

/-- **Runs with the same requests have the same maps.** -/
theorem run_same {h₁ h₂ : List Event} (hs : List.Forall₂ SameRequest h₁ h₂) :
    program.run h₁ = program.run h₂ := by
  induction hs with
  | nil => rfl
  | cons he _ ih => rw [Program.run_cons, Program.run_cons, ih, step_same he]

theorem write_same {e₁ e₂ : Event} {h₁ h₂ : List Event} (he : SameRequest e₁ e₂)
    (hs : List.Forall₂ SameRequest h₁ h₂) : program.write h₁ e₁ = program.write h₂ e₂ := by
  unfold Program.write
  rw [run_same hs, step_same he]

theorem sameCalls {h₁ h₂ : List Event} (hs : List.Forall₂ SameRequest h₁ h₂) :
    List.Forall₂ SameCall h₁ h₂ := hs.imp fun _ _ h => h.1

/-- The same call opens the file in both runs. -/
theorem opensAsCc1_same {f₁ f₂ : Frame} (h : SameRequest f₁.entry f₂.entry) :
    f₁.OpensAsCc1 localtimeName ↔ f₂.OpensAsCc1 localtimeName := by
  obtain ⟨⟨⟨-, hc⟩, hnr, hargs⟩, hp⟩ := h
  unfold Frame.OpensAsCc1 Frame.Opens
  rw [hc, ← hnr, ← hargs]
  refine and_congr_right fun _ => and_congr_right fun hopen => ?_
  rw [Frame.entry, hopen] at hp
  rw [← ByteMem.take_load _ _ (show localtimeName.length ≤ 20 by decide),
    ← ByteMem.take_load _ _ (show localtimeName.length ≤ 20 by decide), hp.1]

theorem advance_same {f₁ f₂ : Frame} (h : SameRequest f₁.entry f₂.entry) (ret fd : Int)
    (offset : Option Nat) : f₁.advance (·.OpensAsCc1 localtimeName) ret fd offset =
      f₂.advance (·.OpensAsCc1 localtimeName) ret fd offset := by
  have hopens := opensAsCc1_same h
  obtain ⟨⟨-, hnr, hargs⟩, -⟩ := h
  unfold Frame.advance
  simp only [hnr, hargs, hopens]

/-- Both runs have the same descriptors of the file, read equally far. -/
theorem opened_same {h₁ h₂ : List Event} (hs : List.Forall₂ SameRequest h₁ h₂) (t : Tid)
    (fd : Int) : opened (·.OpensAsCc1 localtimeName) h₁ t fd =
      opened (·.OpensAsCc1 localtimeName) h₂ t fd := by
  induction hs with
  | nil => rfl
  | @cons e₁ e₂ k₁ k₂ he hk ih =>
    match e₁, e₂, he with
    | .enter _ _ _, .enter _ _ _, _ => exact ih
    | .exit task₁ nr₁ ret₁, .exit task₂ nr₂ ret₂, he =>
      obtain ⟨⟨⟨ht, -⟩, -, rfl⟩, -⟩ := he
      have hf := inflight_related (fun _ _ h => h.1) hk t
      simp only [opened, ht, ih]
      split
      · cases h₁f : inflight k₁ t with
        | none =>
          rw [h₁f] at hf
          cases h₂f : inflight k₂ t with
          | none => rfl
          | some f₂ => rw [h₂f] at hf; cases hf
        | some f₁ =>
          rw [h₁f] at hf
          cases h₂f : inflight k₂ t with
          | none => rw [h₂f] at hf; cases hf
          | some f₂ =>
            rw [h₂f] at hf
            cases hf with
            | some hf => exact advance_same hf ret₁ fd _
      · rfl
    | .spawn t₁, .spawn t₂, ⟨ht, _⟩ =>
      cases show t₁ = t₂ from ht
      simp only [opened, ih]
    | .die t₁, .die t₂, ⟨ht, _⟩ =>
      cases show t₁ = t₂ from ht
      simp only [opened, ih]

theorem draining_eq_some {path : List Byte} {h : List Event} {t : Tid} {f : Frame} {offset : Nat} :
    draining path h t = some (f, offset) ↔ inflight h t = some f ∧ f.nr = .read ∧
      opened (·.OpensAsCc1 path) h t (fdArg f.args.arg0) = some offset := by
  unfold draining
  rw [Option.bind_eq_some_iff]
  constructor
  · rintro ⟨f', hf, hread⟩
    split at hread
    · rename_i hnr
      obtain ⟨offset', hopen, heq⟩ := Option.map_eq_some_iff.1 hread
      cases heq
      exact ⟨hf, hnr, hopen⟩
    · cases hread
  · rintro ⟨hf, hnr, hopen⟩
    exact ⟨f, hf, by rw [if_pos hnr, hopen, Option.map_some]⟩

/-- What reads the file in the one run reads it in the other. -/
theorem draining_same {h₁ h₂ : List Event} (hs : List.Forall₂ SameRequest h₁ h₂) {t : Tid}
    {f : Frame} {offset : Nat} (hd : draining localtimeName h₁ t = some (f, offset)) :
    ∃ f₂, draining localtimeName h₂ t = some (f₂, offset) ∧ SameFrame f f₂ := by
  obtain ⟨hf, hnr, hopen⟩ := draining_eq_some.1 hd
  obtain ⟨f₂, hf₂, hsame⟩ := inflight_same_some (sameCalls hs) hf
  refine ⟨f₂, draining_eq_some.2 ⟨hf₂, hsame.2.1 ▸ hnr, ?_⟩, hsame⟩
  rw [← opened_same hs, ← hsame.2.2]
  exact hopen

theorem draining_same_none {h₁ h₂ : List Event} (hs : List.Forall₂ SameRequest h₁ h₂) {t : Tid}
    (hd : draining localtimeName h₁ t = none) : draining localtimeName h₂ t = none := by
  cases hd₂ : draining localtimeName h₂ t with
  | none => rfl
  | some r =>
    obtain ⟨hf₂, hnr, hopen⟩ := draining_eq_some.1 hd₂
    cases hf : inflight h₁ t with
    | none =>
      rw [inflight_same_none (sameCalls hs) hf] at hf₂
      cases hf₂
    | some f =>
      obtain ⟨f₂, hf₂', hsame⟩ := inflight_same_some (sameCalls hs) hf
      cases hf₂.symm.trans hf₂'
      rw [← opened_same hs, ← hsame.2.2] at hopen
      rw [draining_eq_some.2 ⟨hf, hsame.2.1.trans hnr, hopen⟩] at hd
      cases hd

/-! ## What a thread that reads the file receives -/

/-- The write at a `read`: to its buffer, if the thread is armed. -/
def replacement (armed : Bool) (a : Addr) : Option UserWrite :=
  if armed = true then some ⟨a, localtimeContent.take localtimeSize⟩ else none

/-- The write at a return of a `cc1` thread from a `read`. -/
theorem write_reading {h : List Event} {task : Task} {ret : Int} {f : Frame}
    (ha : Alternates h (.exit task .read ret)) (hn : program.NeverFull h)
    (hf : inflight h task.tid = some f) (hcc1 : commFilter f.task.comm = true) :
    program.write h (.exit task .read ret) =
      replacement (marking.armed h task.tid) f.args.arg1 := by
  obtain ⟨hnr, hc⟩ := alternates_frame ha hf
  rw [write_read ret hn hf hnr hc]
  simp only [← hc, hcc1, true_and, replacement]

/-- If no more is returned than is replaced, what was delivered does not matter. -/
theorem load_replaced {armed : Bool} {ret : Int} {m₁ m₂ : ByteMem} {a : Addr}
    (hl : if armed = true then ret ≤ localtimeSize else ret ≤ 0)
    (hw₁ : m₁.writableFor a ret.toNat = true) (hw₂ : m₂.writableFor a ret.toNat = true) :
    (applyWrite (replacement armed a) m₁).load a ret.toNat =
      (applyWrite (replacement armed a) m₂).load a ret.toNat := by
  cases armed with
  | true =>
    rw [if_pos rfl] at hl
    have hle : ret.toNat ≤ (localtimeContent.take localtimeSize).length := by
      rw [length_localtimeContent]
      omega
    have hsize : (localtimeContent.take localtimeSize).length ≤ 2 ^ 64 := by
      rw [length_localtimeContent]
      decide
    exact (ByteMem.load_store_take hle hsize hw₁).trans (ByteMem.load_store_take hle hsize hw₂).symm
  | false =>
    rw [if_neg (by decide)] at hl
    rw [show ret.toNat = 0 by omega]
    rfl

/-- Where nothing leaks, both runs receive the same. -/
theorem sameReceived_of_nothingLeaks {file file' : List Byte} {h₁ h₂ : List Event} {e₁ e₂ : Event}
    (he : SameRequest e₁ e₂) (hs : List.Forall₂ SameRequest h₁ h₂) (ha : Alternates h₁ e₁)
    (hn : program.NeverFull h₁) (hd₁ : Delivers file h₁ e₁) (hd₂ : Delivers file' h₂ e₂)
    (hl : NothingLeaks h₁ e₁) : SameReceived h₁ e₁ h₂ e₂ := by
  match e₁, e₂, he with
  | .enter _ _ _, .enter _ _ _, _ => trivial
  | .spawn _, .spawn _, _ => trivial
  | .die _, .die _, _ => trivial
  | .exit task₁ nr₁ ret₁, .exit task₂ nr₂ ret₂, he =>
    have hw := write_same he hs
    obtain ⟨⟨⟨ht, -⟩, rfl, rfl⟩, -⟩ := he
    match nr₁ with
    | .gettimeofday => trivial
    | .clockGettime => trivial
    | .openat => trivial
    | .newfstatat => trivial
    | .read =>
      intro f offset hdr hcc1
      obtain ⟨f₂, hdr₂, -, -, hargs⟩ := draining_same hs hdr
      obtain ⟨-, -, -, hw₁⟩ := hd₁ f offset hdr
      obtain ⟨-, -, -, hw₂⟩ := hd₂ f₂ offset (ht ▸ hdr₂)
      rw [← hargs] at hw₂
      unfold Program.memAfter
      rw [← hw, write_reading ha hn (draining_eq_some.1 hdr).1 hcc1]
      exact load_replaced (hl f offset hdr hcc1) hw₁ hw₂

/-! ## The same run with another file -/

/-- The event with another file's bytes delivered to a thread that reads the file. -/
def refileEvent (file : List Byte) (h : List Event) : Event → Event
  | .exit task .read ret =>
    match draining localtimeName h task.tid with
    | some (f, offset) =>
      .exit { task with mem := task.mem.store f.args.arg1 ((file.drop offset).take ret.toNat) }
        .read ret
    | none => .exit task .read ret
  | e => e

def refile (file : List Byte) : List Event → List Event
  | [] => []
  | e :: h => refileEvent file h e :: refile file h

theorem sameRequest_refileEvent (file : List Byte) (h : List Event) (e : Event) :
    SameRequest e (refileEvent file h e) := by
  have hrefl : SameRequest e e := by
    cases e with
    | enter task nr args => cases nr <;> simp [SameRequest, SameCall, SameTask, SamePath]
    | exit task nr ret => simp [SameRequest, SameCall, SameTask, SamePath]
    | spawn t => simp [SameRequest, SameCall, SamePath]
    | die t => simp [SameRequest, SameCall, SamePath]
  unfold refileEvent
  split
  · split
    · exact ⟨⟨⟨rfl, rfl⟩, rfl, rfl⟩, trivial⟩
    · exact hrefl
  · exact hrefl

theorem sameRequest_refile (file : List Byte) (h : List Event) :
    List.Forall₂ SameRequest h (refile file h) := by
  induction h with
  | nil => exact .nil
  | cons e h ih => exact .cons (sameRequest_refileEvent file h e) ih

theorem refileEvent_reading {file : List Byte} {h : List Event} {task : Task} {ret : Int}
    {f : Frame} {offset : Nat} (hd : draining localtimeName h task.tid = some (f, offset)) :
    refileEvent file h (.exit task .read ret) =
      .exit { task with mem := task.mem.store f.args.arg1 ((file.drop offset).take ret.toNat) }
        .read ret := by
  simp only [refileEvent, hd]

theorem refileEvent_not_reading {file : List Byte} {h : List Event} {task : Task} {ret : Int}
    (hd : draining localtimeName h task.tid = none) :
    refileEvent file h (.exit task .read ret) = .exit task .read ret := by
  simp only [refileEvent, hd]

/-- Nobody is asked for more bytes than there are addresses. -/
theorem toNat_lt_of_le {ret : Int} {count : BitVec 64} (h : ret ≤ count.toNat) :
    ret.toNat < 2 ^ 64 := by
  have := count.isLt
  omega

/-- A stored piece of a file is read back. -/
theorem load_store_piece {m : ByteMem} {a : Addr} {file : List Byte} {offset n : Nat}
    (hfile : offset + n ≤ file.length) (hn : n < 2 ^ 64) (hw : m.writableFor a n = true) :
    (m.store a ((file.drop offset).take n)).load a n = (file.drop offset).take n := by
  have hlen : ((file.drop offset).take n).length = n := by
    rw [List.length_take, List.length_drop]
    omega
  rw [ByteMem.load_store_take (by omega) (by omega) hw]
  exact List.take_of_length_le (by omega)

theorem delivers_refileEvent {file file' : List Byte} (hlen : file'.length = file.length)
    {h : List Event} {e : Event} (hd : Delivers file h e) :
    Delivers file' (refile file' h) (refileEvent file' h e) := by
  have hs := sameRequest_refile file' h
  match e, hd with
  | .enter _ _ _, _ => trivial
  | .spawn _, _ => trivial
  | .die _, _ => trivial
  | .exit _ .gettimeofday _, _ => trivial
  | .exit _ .clockGettime _, _ => trivial
  | .exit _ .openat _, _ => trivial
  | .exit _ .newfstatat _, _ => trivial
  | .exit task .read ret, hd =>
    cases hdr : draining localtimeName h task.tid with
    | some r =>
      obtain ⟨f, offset⟩ := r
      obtain ⟨hcount, hfile, -, hw⟩ := hd f offset hdr
      obtain ⟨f₂, hdr₂, -, -, hargs⟩ := draining_same hs hdr
      rw [refileEvent_reading hdr]
      intro f' offset' hdr'
      cases hdr₂.symm.trans hdr'
      rw [← hargs]
      exact ⟨hcount, hlen ▸ hfile, load_store_piece (hlen ▸ hfile) (toNat_lt_of_le hcount) hw, hw⟩
    | none =>
      -- nothing is asked of a thread that does not read the file
      rw [refileEvent_not_reading hdr]
      intro f' offset hdr'
      rw [draining_same_none hs hdr] at hdr'
      cases hdr'

/-- The run with another file of the same length is one that the kernel can give. -/
theorem delivers_refile {file file' : List Byte} (hlen : file'.length = file.length)
    {h : List Event} (hd : EachStep (Delivers file) h) :
    EachStep (Delivers file') (refile file' h) := by
  induction h with
  | nil => trivial
  | cons e h ih => exact ⟨delivers_refileEvent hlen hd.1, ih hd.2⟩

/-- A file with every byte changed. -/
def changed (file : List Byte) : List Byte := file.map (· + 1)

theorem getElem?_changed_ne {file : List Byte} {i : Nat} (hi : i < file.length) :
    (changed file)[i]? ≠ file[i]? := by
  rw [changed, List.getElem?_map, List.getElem?_eq_getElem hi]
  simp

/-- If more is returned than is replaced, some byte is left as it was. -/
theorem exists_kept {armed : Bool} {ret : Int} (a : Addr)
    (hleak : ¬ if armed = true then ret ≤ localtimeSize else ret ≤ 0) :
    ∃ i, i < ret.toNat ∧ ∀ w ∈ replacement armed a, w.addr = a ∧ w.bytes.length ≤ i := by
  cases armed with
  | true =>
    rw [if_pos rfl] at hleak
    refine ⟨localtimeSize, by omega, fun w hw => ?_⟩
    cases hw
    exact ⟨rfl, by rw [length_localtimeContent]⟩
  | false =>
    rw [if_neg (by decide)] at hleak
    exact ⟨0, by omega, fun w hw => by cases hw⟩

/-- A write does not reach the bytes behind it. -/
theorem getElem?_load_behind {w : Option UserWrite} {m : ByteMem} {a : Addr} {i n : Nat}
    (hi : i < n) (hn : n < 2 ^ 64) (hw : ∀ w' ∈ w, w'.addr = a ∧ w'.bytes.length ≤ i) :
    ((applyWrite w m).load a n)[i]? = (m.load a n)[i]? := by
  rw [ByteMem.getElem?_load _ _ hi, ByteMem.getElem?_load _ _ hi]
  cases w with
  | none => rfl
  | some w' =>
    obtain ⟨rfl, hlen⟩ := hw w' rfl
    refine congrArg some (ByteMem.store_frame ?_)
    unfold InRange
    rw [ByteMem.off_sub _ (by omega)]
    omega

/-- Where something leaks, another file is received otherwise. -/
theorem nothingLeaks_of_sameReceived {file : List Byte} {h : List Event} {e : Event}
    (ha : Alternates h e) (hn : program.NeverFull h) (hd : Delivers file h e)
    (hd' : Delivers (changed file) (refile (changed file) h) (refileEvent (changed file) h e))
    (hr : SameReceived h e (refile (changed file) h) (refileEvent (changed file) h e)) :
    NothingLeaks h e := by
  match e with
  | .enter _ _ _ => trivial
  | .spawn _ => trivial
  | .die _ => trivial
  | .exit _ .gettimeofday _ => trivial
  | .exit _ .clockGettime _ => trivial
  | .exit _ .openat _ => trivial
  | .exit _ .newfstatat _ => trivial
  | .exit task .read ret =>
    intro f offset hdr hcc1
    have hs := sameRequest_refile (changed file) h
    obtain ⟨f₂, hdr₂, -, -, hargs⟩ := draining_same hs hdr
    obtain ⟨hcount, hfile, hload, -⟩ := hd f offset hdr
    have hlt := toNat_lt_of_le hcount
    have hrec := hr f offset hdr hcc1
    have hw := write_same (sameRequest_refileEvent (changed file) h (.exit task .read ret)) hs
    unfold Program.memAfter at hrec
    rw [← hw, write_reading ha hn (draining_eq_some.1 hdr).1 hcc1] at hrec
    rw [refileEvent_reading hdr] at hrec hd'
    simp only [Event.mem] at hrec
    obtain ⟨-, -, hload', -⟩ := hd' f₂ offset hdr₂
    rw [← hargs] at hload'
    by_contra hleak
    obtain ⟨i, hi, hkept⟩ := exists_kept f.args.arg1 hleak
    -- byte `i` of the buffer is what the kernel delivered, in both runs
    have hbyte := (getElem?_load_behind hi hlt hkept).symm.trans
      ((congrArg (·[i]?) hrec).trans (getElem?_load_behind hi hlt hkept))
    rw [hload] at hbyte
    have hbyte' := hbyte.trans (congrArg (·[i]?) hload')
    simp only [List.getElem?_take_of_lt hi, List.getElem?_drop] at hbyte'
    exact getElem?_changed_ne (by omega) hbyte'.symm

theorem nothingLeaks_of_refile {file : List Byte} {h : List Event} (ha : Alternating h)
    (hn : program.NeverFull h) (hd : EachStep (Delivers file) h)
    (hd' : EachStep (Delivers (changed file)) (refile (changed file) h))
    (hr : EachStep₂ SameReceived h (refile (changed file) h)) : EachStep NothingLeaks h := by
  induction h with
  | nil => trivial
  | cons e h ih =>
    exact ⟨nothingLeaks_of_sameReceived ha.1 hn.2 hd.1 hd'.1 hr.1,
      ih ha.2 hn.2 hd.2 hd'.2 hr.2⟩

/-- **Localtime noninterference**: `cc1` threads that read the file receive the same whatever another
file of its length holds, if and only if what they get of it while armed is no more than is replaced
and what they get of it otherwise is nothing. -/
theorem localtime_noninterference {file : List Byte} {h : List Event} (ha : Alternating h)
    (hn : program.NeverFull h) (hd : EachStep (Delivers file) h) :
    (∀ file' h', file'.length = file.length → List.Forall₂ SameRequest h h' →
      EachStep (Delivers file') h' → EachStep₂ SameReceived h h') ↔ EachStep NothingLeaks h := by
  constructor
  · intro hall
    have hlen : (changed file).length = file.length := List.length_map _
    have hd' := delivers_refile hlen hd
    exact nothingLeaks_of_refile ha hn hd hd' (hall _ _ hlen (sameRequest_refile _ h) hd')
  · intro hl file' h' _ hs hd'
    refine eachStep₂_of hs (((ha.and hn.each).and hd).and hl) hd' ?_
    rintro k₁ e₁ k₂ e₂ he hk ⟨⟨⟨ha₁, hn₁⟩, hd₁⟩, hl₁⟩ hd₂
    exact sameReceived_of_nothingLeaks he hk ha₁ hn₁.2 hd₁ hd₂ hl₁

/-- `cc1` with some bytes at 0x2000. -/
def filledTask (bs : List Byte) : Task :=
  { cc1Task 1 with mem :=
    { (cc1Task 1).mem with byte := fun x => bs.getD (x - 0x2000).toNat 0 } }

/-- A file of three bytes, read at once. -/
def wholeRun : List Event :=
  [.exit (filledTask [1, 2, 3]) .read 0,
   .enter (filledTask [1, 2, 3]) .read ⟨3, 0x2000, 0x1000, 0, 0, 0⟩,
   .exit (filledTask [1, 2, 3]) .read 3,
   .enter (cc1Task 1) .read ⟨3, 0x2000, 0x1000, 0, 0, 0⟩,
   .exit (cc1Task 1) .openat 3,
   .enter (localtimeTask 1) .openat ⟨0, 0x1000, 0, 0, 0, 0⟩]

theorem delivers_wholeRun : EachStep (Delivers [1, 2, 3]) wholeRun := by
  refine ⟨fun f offset hd => ?_, trivial, fun f offset hd => ?_, trivial, trivial, trivial,
    trivial⟩
  · cases hd
    decide
  · cases hd
    decide

theorem localtime_noninterference_wholeRun :
    EachStep₂ SameReceived wholeRun (refile [4, 5, 6] wholeRun) := by
  have hn : program.NeverFull wholeRun := by unfold Program.NeverFull; decide
  have hl : EachStep NothingLeaks wholeRun := by
    refine ⟨fun f offset _ _ => ?_, trivial, fun f offset _ _ => ?_, trivial, trivial, trivial,
      trivial⟩
    · have harm : ¬ marking.armed wholeRun.tail 1 = true := by decide
      exact (if_neg harm).mpr (by decide)
    · have harm : marking.armed (wholeRun.drop 3) 1 = true := by decide
      exact (if_pos harm).mpr (by decide)
  have hd := delivers_wholeRun
  have hlen : ([4, 5, 6] : List Byte).length = ([1, 2, 3] : List Byte).length := rfl
  exact (localtime_noninterference (by decide) hn hd).2 hl _ _ hlen (sameRequest_refile _ _)
    (delivers_refile hlen hd)

/-- A file of two bytes, read one by one. -/
def chunkedRun (b : Byte) : List Event :=
  [.exit (filledTask [b]) .read 1,
   .enter (cc1Task 1) .read ⟨3, 0x2000, 1, 0, 0, 0⟩,
   .exit (filledTask [1]) .read 1,
   .enter (cc1Task 1) .read ⟨3, 0x2000, 1, 0, 0, 0⟩,
   .exit (cc1Task 1) .openat 3,
   .enter (localtimeTask 1) .openat ⟨0, 0x1000, 0, 0, 0, 0⟩]

theorem delivers_chunkedRun (b : Byte) : EachStep (Delivers [1, b]) (chunkedRun b) := by
  refine ⟨fun f offset hd => ?_, trivial, fun f offset hd => ?_, trivial, trivial, trivial,
    trivial⟩
  · cases hd
    exact ⟨by decide, Nat.le_refl 2, rfl, rfl⟩
  · cases hd
    exact ⟨by decide, Nat.le_succ 1, rfl, rfl⟩

/-- The second chunk reaches the compiler as it is in the file. -/
theorem localtime_interference_chunkedRun :
    (Alternating (chunkedRun 2) ∧ program.NeverFull (chunkedRun 2) ∧
      EachStep (Delivers [1, 2]) (chunkedRun 2)) ∧
    (Alternating (chunkedRun 3) ∧ program.NeverFull (chunkedRun 3) ∧
      EachStep (Delivers [1, 3]) (chunkedRun 3)) ∧
    List.Forall₂ SameRequest (chunkedRun 2) (chunkedRun 3) ∧
      ¬ EachStep₂ SameReceived (chunkedRun 2) (chunkedRun 3) := by
  have hn : program.NeverFull (chunkedRun 2) := by unfold Program.NeverFull; decide
  have hs : List.Forall₂ SameRequest (chunkedRun 2) (chunkedRun 3) := by
    repeat' constructor
  refine ⟨⟨by decide, hn, delivers_chunkedRun 2⟩, ⟨by decide, ?_, delivers_chunkedRun 3⟩, hs, ?_⟩
  · unfold Program.NeverFull; decide
  · intro hr
    have hload := hr.1 _ 1 rfl (by decide)
    exact absurd hload (by decide)

end Bpf.ModifyFileRead
