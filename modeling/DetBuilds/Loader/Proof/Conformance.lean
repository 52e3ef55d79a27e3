import DetBuilds.Loader.Main

/-!
# The loaders use libbpf as they should

What libbpf asks of its user is a state machine of its own (`Api`): a skeleton is opened, loaded,
attached and destroyed, in this order and once at most; a ring buffer is made of a map that has been
loaded, polled while it lives, and freed before the skeleton goes. Whatever is answered and whenever
signals arrive, each call of a loader is one that `Api` allows, and a loader that exits has given
back all that it took (`api_conform`).
-/

set_option autoImplicit false

namespace Loader

open History

/-! ## What libbpf asks for -/

inductive Call where
  | openSkel
  | loadSkel
  | attachSkel
  | ringBufferNew
  | ringBufferPoll
  | ringBufferFree
  | destroySkel
  deriving DecidableEq, Repr

inductive Skel where
  | unopened
  | opened
  | loaded
  | attached
  | destroyed
  deriving DecidableEq, Repr

inductive Ring where
  | unmade
  | live
  | freed
  deriving DecidableEq, Repr

/-- What a process holds of libbpf. -/
structure Api where
  skel : Skel
  ring : Ring
  deriving DecidableEq, Repr

namespace Api

def fresh : Api := ⟨.unopened, .unmade⟩

/-- The skeleton is there to be destroyed. -/
def Held (s : Api) : Prop := s.skel ≠ .unopened ∧ s.skel ≠ .destroyed

instance (s : Api) : Decidable s.Held := inferInstanceAs (Decidable (_ ∧ _))

/-- What a call that answers `r` makes of it, if it may be called at all. `ring_buffer__free` takes
`NULL` as well, once. -/
def call (r : Int) (s : Api) : Call → Option Api
  | .openSkel =>
    if s.skel = .unopened then some { s with skel := if r = 0 then .unopened else .opened }
    else none
  | .loadSkel =>
    if s.skel = .opened then some { s with skel := if r = 0 then .loaded else .opened } else none
  | .attachSkel =>
    if s.skel = .loaded then some { s with skel := if r = 0 then .attached else .loaded } else none
  | .ringBufferNew =>
    if (s.skel = .loaded ∨ s.skel = .attached) ∧ s.ring = .unmade then
      some { s with ring := if r = 0 then .unmade else .live }
    else none
  | .ringBufferPoll => if s.ring = .live then some s else none
  | .ringBufferFree => if s.Held ∧ s.ring ≠ .freed then some { s with ring := .freed } else none
  | .destroySkel =>
    if s.Held ∧ s.ring ≠ .live then some { s with skel := .destroyed } else none

/-- Nothing was taken, or all has been given back. -/
def Closed (s : Api) : Prop := s = fresh ∨ s = ⟨.destroyed, .freed⟩

/-- What is held after some calls, the latest first, if all of them were allowed. -/
def calls : List (Call × Int) → Option Api
  | [] => some fresh
  | (c, r) :: cs => (calls cs).bind fun s => s.call r c

theorem calls_append (o : Option (Call × Int)) (cs : List (Call × Int)) :
    calls (o.toList ++ cs) =
      (calls cs).bind fun s => o.elim (some s) fun c => s.call c.2 c.1 := by
  cases o with
  | none => exact (Option.bind_fun_some (calls cs)).symm
  | some c => rfl

end Api

/-! ## What a loader calls -/

namespace Process

/-- The call that is over when the process gets the answer `r`, with what it answers. -/
def call? (k : Nat) (r : Int) (p : Process) : Option (Call × Int) :=
  match p.pc with
  | .openSkel => some (.openSkel, r)
  | .loadSkel => some (.loadSkel, r)
  | .attachSkel =>
    if p.attached < k then if r ≠ 0 then some (.attachSkel, r) else none
    else some (.attachSkel, 0)
  | .ringBufferNew => some (.ringBufferNew, r)
  | .ringBufferPoll => some (.ringBufferPoll, r)
  | .ringBufferFree => some (.ringBufferFree, r)
  | .destroySkel => if p.detached < p.attached then none else some (.destroySkel, r)
  | _ => none

/-- The calls of a process, the latest first. -/
def calls (k : Nat) (onInt : Disposition) : List Input → List (Call × Int)
  | [] => []
  | .signal _ :: h => calls k onInt h
  | .answer r :: h => ((run k onInt h).call? k r).toList ++ calls k onInt h

/-- What a process holds when it is at a call. -/
def Holds (p : Process) (s : Api) : Prop :=
  match p.pc with
  | .argpParse | .signalInt | .signalTerm | .openSkel => s = .fresh
  | .loadSkel => s = ⟨.opened, .unmade⟩
  | .attachSkel => s = ⟨.loaded, .unmade⟩
  | .ringBufferNew => s = ⟨.attached, .unmade⟩
  | .whileNotExiting | .ringBufferPoll => s = ⟨.attached, .live⟩
  | .ringBufferFree => s.Held ∧ s.ring ≠ .freed
  | .destroySkel => s.Held ∧ s.ring = .freed
  | .exited _ => s.Closed
  | .killed _ => True

/-- **One answer**: the call that is over, if any, is allowed, and the process holds what it
should. -/
theorem holds_main {k : Nat} {p : Process} {s : Api} (r : Int) (h : p.Holds s) :
    ∃ s', ((p.call? k r).elim (some s) fun c => s.call c.2 c.1) = some s' ∧
      (p.main k r).Holds s' := by
  unfold call? main
  unfold Holds at h
  cases hpc : p.pc with
  | argpParse =>
    rw [hpc] at h
    subst h
    by_cases hr : r = 0
    · exact ⟨_, rfl, by simp [Holds, hr]⟩
    · exact ⟨_, rfl, by simp [Holds, hr, Api.Closed]⟩
  | signalInt => rw [hpc] at h; exact ⟨s, rfl, h⟩
  | signalTerm => rw [hpc] at h; exact ⟨s, rfl, h⟩
  | openSkel =>
    rw [hpc] at h
    subst h
    by_cases hr : r = 0
    · exact ⟨.fresh, by simp [Api.call, Api.fresh, hr], by simp [Holds, hr, Api.Closed]⟩
    · exact ⟨⟨.opened, .unmade⟩, by simp [Api.call, Api.fresh, hr], by simp [Holds, hr]⟩
  | loadSkel =>
    rw [hpc] at h
    subst h
    by_cases hr : r = 0
    · exact ⟨⟨.loaded, .unmade⟩, by simp [Api.call, hr], by simp [Holds, hr]⟩
    · exact ⟨⟨.opened, .unmade⟩, by simp [Api.call, hr], by simp [Holds, hr, Api.Held]⟩
  | attachSkel =>
    rw [hpc] at h
    subst h
    by_cases hk : p.attached < k
    · by_cases hr : r = 0
      · exact ⟨⟨.loaded, .unmade⟩, by simp [hk, hr], by simp [Holds, hk, hr]⟩
      · exact ⟨⟨.loaded, .unmade⟩, by simp [Api.call, hk, hr], by simp [Holds, hk, hr, Api.Held]⟩
    · exact ⟨⟨.attached, .unmade⟩, by simp [Api.call, hk], by simp [Holds, hk]⟩
  | ringBufferNew =>
    rw [hpc] at h
    subst h
    by_cases hr : r = 0
    · exact ⟨⟨.attached, .unmade⟩, by simp [Api.call, hr], by simp [Holds, hr, Api.Held]⟩
    · exact ⟨⟨.attached, .live⟩, by simp [Api.call, hr], by simp [Holds, hr]⟩
  | whileNotExiting =>
    rw [hpc] at h
    subst h
    cases p.exiting
    · exact ⟨_, rfl, by simp [Holds]⟩
    · exact ⟨_, rfl, by simp [Holds, Api.Held]⟩
  | ringBufferPoll =>
    rw [hpc] at h
    subst h
    by_cases hi : r = -EINTR
    · exact ⟨_, rfl, by simp [Holds, hi, Api.Held]⟩
    · by_cases hr : r < 0
      · exact ⟨_, rfl, by simp [Holds, hi, hr, Api.Held]⟩
      · exact ⟨_, rfl, by simp [Holds, hi, hr]⟩
  | ringBufferFree =>
    rw [hpc] at h
    obtain ⟨hheld, hring⟩ : s.Held ∧ s.ring ≠ .freed := h
    exact ⟨{ s with ring := .freed }, if_pos ⟨hheld, hring⟩, hheld, rfl⟩
  | destroySkel =>
    rw [hpc] at h
    obtain ⟨hheld, hring⟩ : s.Held ∧ s.ring = .freed := h
    by_cases hd : p.detached < p.attached
    · simp only [hd, if_true]
      exact ⟨s, rfl, hheld, hring⟩
    · simp only [hd, if_false]
      refine ⟨{ s with skel := .destroyed }, if_pos ⟨hheld, by rw [hring]; decide⟩, .inr ?_⟩
      rw [hring]
  | exited n => rw [hpc] at h; exact ⟨s, rfl, by unfold Holds; rw [hpc]; exact h⟩
  | killed sig => exact ⟨s, rfl, by unfold Holds; rw [hpc]; trivial⟩

/-- A signal takes nothing and gives nothing back. -/
theorem holds_signal {p : Process} {s : Api} (sig : Sig) (h : p.Holds s) :
    (p.signal sig).Holds s := by
  rcases p.signal_cases sig with ⟨-, hp⟩ | ⟨-, hp⟩ | ⟨-, hp⟩ <;> rw [hp]
  · exact h
  · trivial
  · exact h

/-- **libbpf is used as it should be**: in every run of a loader, whatever the calls answer and
whenever signals arrive, each call is allowed, and when `main` returns, the skeleton and the ring
buffer that it has made are gone. -/
theorem api_conform (k : Nat) (onInt : Disposition) (h : List Input) :
    ∃ s, Api.calls (calls k onInt h) = some s ∧ (run k onInt h).Holds s ∧
      ∀ status, (run k onInt h).pc = .exited status → s.Closed := by
  have hholds : ∃ s, Api.calls (calls k onInt h) = some s ∧ (run k onInt h).Holds s := by
    induction h with
    | nil => exact ⟨.fresh, rfl, rfl⟩
    | cons i h ih =>
      obtain ⟨s, hs, hp⟩ := ih
      cases i with
      | signal sig => exact ⟨s, hs, holds_signal sig hp⟩
      | answer r =>
        obtain ⟨s', hs', hp'⟩ := holds_main (k := k) r hp
        refine ⟨s', ?_, hp'⟩
        show Api.calls (((run k onInt h).call? k r).toList ++ calls k onInt h) = some s'
        rw [Api.calls_append, hs]
        exact hs'
  obtain ⟨s, hs, hp⟩ := hholds
  refine ⟨s, hs, hp, fun status hpc => ?_⟩
  unfold Holds at hp
  rw [hpc] at hp
  exact hp

end Process

end Loader
