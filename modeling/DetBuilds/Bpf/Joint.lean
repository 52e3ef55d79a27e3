import DetBuilds.Bpf.ModifyFileTimestamp
import DetBuilds.Bpf.ModifyFileRead
import DetBuilds.Bpf.PreloadFilter

/-!
# The programs attached to `newfstatat`, together

`modify_file_timestamp`, `modify_file_read` and `preload_filter` run side by side, each on maps of
its own. At an event the kernel runs their handlers one after the other, in the order in which
they were attached; a handler sees the user memory that those before it have left. A run chooses
an order at each event (`JointEvent`).
-/

set_option autoImplicit false

namespace Bpf

open History

/-- The programs with handlers on `newfstatat`. -/
inductive Attached where
  | modifyFileTimestamp
  | modifyFileRead
  | preloadFilter
  deriving DecidableEq

/-- The maps of the three programs. -/
structure Joint where
  timestamp : ModifyFileTimestamp.Maps
  fileRead : ModifyFileRead.Maps
  preload : PreloadFilter.Maps

def Joint.empty : Joint where
  timestamp := ModifyFileTimestamp.program.empty
  fileRead := ModifyFileRead.program.empty
  preload := PreloadFilter.program.empty

/-- What one program does at an event. -/
def Attached.step (e : Event) (s : Joint) : Attached → Effect Joint
  | .modifyFileTimestamp =>
    let r := ModifyFileTimestamp.program.step e s.timestamp
    ({ s with timestamp := r.1 }, r.2)
  | .modifyFileRead =>
    let r := ModifyFileRead.program.step e s.fileRead
    ({ s with fileRead := r.1 }, r.2)
  | .preloadFilter =>
    let r := PreloadFilter.program.step e s.preload
    ({ s with preload := r.1 }, r.2)

/-- One program's handler runs on the maps and the user memory as it finds them. -/
def handle (e : Event) (x : Joint × ByteMem) (a : Attached) : Joint × ByteMem :=
  let r := a.step (e.withMem x.2) x.1
  (r.1, applyWrite r.2 x.2)

/-- The handlers of an event run in the given order. -/
def handleAll (order : List Attached) (e : Event) (s : Joint) : Joint × ByteMem :=
  order.foldl (handle e) (s, e.mem)

/-- An order in which the kernel may run the handlers. -/
def IsOrder (order : List Attached) : Prop :=
  order.Perm [.modifyFileTimestamp, .modifyFileRead, .preloadFilter]

/-- An event with the order in which its handlers run. -/
structure JointEvent where
  event : Event
  order : List Attached
  isOrder : IsOrder order

/-- The maps after a run of the three programs together, from empty maps. -/
def jointRun (h : List JointEvent) : Joint :=
  after (fun e s => (handleAll e.order e.event s).1) .empty h

/-- The events of the run. -/
def jointEvents (h : List JointEvent) : List Event := h.map JointEvent.event

theorem IsOrder.nodup {order : List Attached} (ho : IsOrder order) : order.Nodup :=
  ho.nodup_iff.2 (by decide)

theorem IsOrder.mem {order : List Attached} (ho : IsOrder order) (a : Attached) : a ∈ order :=
  ho.mem_iff.2 (by cases a <;> decide)

end Bpf
