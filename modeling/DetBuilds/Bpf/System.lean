import DetBuilds.Bpf.ModifyTime
import DetBuilds.Bpf.ModifyFileTimestamp
import DetBuilds.Bpf.ModifyFileName
import DetBuilds.Bpf.ModifyFileRead
import DetBuilds.Bpf.PreloadFilter
import DetBuilds.Lib.SideBySide

/-!
# The programs together

Any of the five programs can run at the same time, each in a loader of its own and on maps of its
own; `start.sh` starts four of them. At an event the kernel runs the handlers of all that are
loaded, one after the other, and a handler sees the user memory that those before it have left.
`SystemEvent` is an event with the order in which the loaded programs handle it.
-/

set_option autoImplicit false

namespace Bpf

open History

/-- The `APPS` of the `Makefile`. -/
inductive App where
  | modifyTime
  | preloadFilter
  | modifyFileTimestamp
  | modifyFileName
  | modifyFileRead
  deriving DecidableEq, Repr

/-- The `BPF_Apps` of `start.sh`. -/
def bpfApps : List App := [.modifyTime, .modifyFileTimestamp, .modifyFileRead, .preloadFilter]

namespace App

/-- The hash maps of a program. -/
def Maps : App → Type
  | .modifyTime => ModifyTime.Maps
  | .preloadFilter => PreloadFilter.Maps
  | .modifyFileTimestamp => ModifyFileTimestamp.Maps
  | .modifyFileName => ModifyFileName.Maps
  | .modifyFileRead => ModifyFileRead.Maps

/-- One thread's entries in them. -/
def Entries : App → Type
  | .modifyTime => Option Addr
  | .preloadFilter => PreloadFilter.Entries
  | .modifyFileTimestamp => Option Addr
  | .modifyFileName => Option Addr
  | .modifyFileRead => ModifyFileRead.Entries

def program : (a : App) → Program a.Maps a.Entries
  | .modifyTime => ModifyTime.program
  | .preloadFilter => PreloadFilter.program
  | .modifyFileTimestamp => ModifyFileTimestamp.program
  | .modifyFileName => ModifyFileName.program
  | .modifyFileRead => ModifyFileRead.program

end App

/-- The programs as machines on user memory. -/
def system : SideBySide App Event ByteMem (Option UserWrite) where
  State := App.Maps
  start a := a.program.empty
  step a e m s := a.program.step (e.withMem m) s
  edit := applyWrite
  mem := Event.mem

/-- An event with the order in which the loaded programs handle it. -/
structure SystemEvent (apps : List App) where
  event : Event
  order : List App
  isOrder : order.Perm apps

/-- The events of a run. -/
def systemEvents {apps : List App} (h : List (SystemEvent apps)) : List Event :=
  h.map SystemEvent.event

/-- The maps of all programs after a run. -/
def systemRun {apps : List App} (h : List (SystemEvent apps)) : system.All :=
  system.run (h.map fun e => (e.event, e.order))

/-- User memory after an event. -/
def systemMem {apps : List App} (h : List (SystemEvent apps)) (e : SystemEvent apps) : ByteMem :=
  (system.actAll e.order e.event (systemRun h)).2

/-! ## Programs loaded more than once -/

/-- `start.sh` does not ask what runs already, so a program may be loaded several times, each time
with maps of its own. -/
def copies : SideBySide (App × Nat) Event ByteMem (Option UserWrite) := system.copies Nat

/-- An event with the order in which what is loaded handles it. -/
structure CopiesEvent (loaded : List (App × Nat)) where
  event : Event
  order : List (App × Nat)
  isOrder : order.Perm loaded

section
variable {loaded : List (App × Nat)}

def copiesEvents (h : List (CopiesEvent loaded)) : List Event := h.map CopiesEvent.event

def copiesRun (h : List (CopiesEvent loaded)) : copies.All :=
  copies.run (h.map fun e => (e.event, e.order))

def copiesMem (h : List (CopiesEvent loaded)) (e : CopiesEvent loaded) : ByteMem :=
  (copies.actAll e.order e.event (copiesRun h)).2

/-- The same event, with each program loaded once. -/
def CopiesEvent.once (apps : List App) (e : CopiesEvent loaded) : SystemEvent apps :=
  ⟨e.event, apps, .refl _⟩

end

end Bpf
