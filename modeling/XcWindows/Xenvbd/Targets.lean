import XcWindows.Inc.Xsapi

/-!
# Targets of xenvbd

The life of a target: it is set up by a scan of `device/vbd`, started, stopped, ejected and removed
by PnP, suspended by an adapter stop or an early resume callback, resumed by a late callback, by
`ResumeAllTargets` or by scsifilt, and in the end condemned, taken out of `XenvbdTargetInfo` and
destroyed by a scan. `References` counts who uses it.

A step is what runs under `XenvbdTargetInfoLock`, or between two acquisitions of it. Scans hold
`XenvbdEnumLock` up to the end of the extraction and run the destruction loop outside of it, so
several can be in that loop. What xenstore, PnP and the allocators answer is part of the action.
-/

namespace XcWindows.Xenvbd.Targets

open XcWindows.Lib

abbrev maxDisks : Nat := 128

/-- What `XHBD_TARGET_INFO` says about the life of a target. -/
structure TargetInfo where
  xenbusNodeName : Nat
  deviceObject : Option Nat := none
  next : Option Nat := none
  references : Int := 0
  enumPending : Bool := false
  ejected : Bool := false
  surpriseRemoved : Bool := false
  disappeared : Bool := false
  condemned : Bool := false
  suspended : Bool := false
  resuming : Bool := false
  resumed : Bool := false
  started : Bool := false

inductive Minor where
  | queryId
  | queryCapabilities
  | startDevice
  | stopDevice
  | removeDevice
  | cancelRemoveDevice
  | eject
  | surpriseRemoval
  | deviceUsageNotification
deriving DecidableEq

/-- Where a call is that has found a target to resume, or one to wait for. -/
inductive Resume where
  | marked
  | running
  | waiting
  | done
deriving DecidableEq

inductive Call where
  | irp (minor : Minor) (target : Nat) (done : Bool)
  | backendStateChanged (target : Nat)
  | targetStart (target : Nat) (done : Bool)
  | targetStop (target : Nat) (done : Bool)
  | targetResume (target : Nat) (stage : Resume)
  | targetLateResume (target : Nat) (stage : Resume)
deriving DecidableEq

inductive Entry where
  | ignored
  | enumerated (id : Nat)
  | newDisk (path : Nat)
deriving DecidableEq

inductive Scan where
  | idle
  | reading (newDisks : List Nat)
  | merging (newDisks : List Nat)
  | extracting
  | destroying (list : Option Nat)
  | waiting (target : Nat) (list : Option Nat)
deriving DecidableEq

def Scan.enumerates : Scan → Bool
  | .reading _ | .merging _ | .extracting => true
  | _ => false

inductive ResumeAll where
  | idle
  | walking (list : Option Nat)
  | marked (target : Nat) (list : Option Nat)
  | running (target : Nat) (list : Option Nat)
deriving DecidableEq

/-- The assertion that failed, or `null` for an access through a null pointer. -/
inductive Crash where
  | condemned
  | noTarget
  | sameNode
  | next
  | null
  | references
  | notResuming
  | started
  | notDisappeared
  | mapped
deriving DecidableEq

structure State where
  info : Nat → Option Nat
  target : Nat → TargetInfo
  /-- how many targets were set up -/
  created : Nat
  enumLock : Option Nat
  scan : Nat → Scan
  resumeAll : ResumeAll
  calls : List Call
  destroyed : List Nat
  crashed : Option Crash

namespace State

variable (s : State)

def setTarget (t : Nat) (T : TargetInfo) : State :=
  { s with target := Function.update s.target t T }

def setInfo (i : Nat) (t : Option Nat) : State := { s with info := Function.update s.info i t }

def setScan (n : Nat) (p : Scan) : State := { s with scan := Function.update s.scan n p }

def reference (t : Nat) : State :=
  s.setTarget t { s.target t with references := (s.target t).references + 1 }

def dereference (t : Nat) : State :=
  s.setTarget t { s.target t with references := (s.target t).references - 1 }

def suspendTarget (t : Nat) : State :=
  s.setTarget t { s.target t with references := (s.target t).references + 1, suspended := true }

/-- What those that resume a target do to it before they call `ResumeTarget`. -/
def markResuming (t : Nat) : State :=
  s.setTarget t { s.target t with suspended := false, resuming := true }

/-- The end of `ResumeTarget`, of its failure too. -/
def resumeTarget (t : Nat) : Except Crash State := do
  let s := s.setTarget t { s.target t with resuming := false, resumed := true }
  xmAssert ((s.target t).references ≠ 0) .references
  .ok (s.dereference t)

def begin (c : Call) : State := { s with calls := c :: s.calls }

end State

/-! ## Scans -/

def slots : List Nat := List.range maxDisks

namespace State

def markPending (s : State) : State :=
  slots.foldl (fun s i =>
    match s.info i with
    | some t => s.setTarget t { s.target t with enumPending := true }
    | none => s) s

section Scans
variable (s : State) (n : Nat)

/-- The pass over the targets' states, from a slot on; nothing if it gets through. -/
def statePass : List Nat → Except Crash (Option State)
  | [] => .ok none
  | i :: rest =>
    match s.info i with
    | none => statePass rest
    | some t => do
      let T := s.target t
      xmAssert (¬T.condemned) .condemned
      if T.ejected then .ok (some (s.setTarget t { T with condemned := true }))
      else if T.surpriseRemoved then .ok (some (s.setTarget t { T with condemned := true }))
      else if T.disappeared then .ok (some (s.setTarget t { T with condemned := true }))
      else if T.suspended ∨ T.resuming then .ok (some s)
      else if T.resumed then .ok (some (s.setTarget t { T with resumed := false }))
      else if T.enumPending then .ok (some (s.setTarget t { T with disappeared := true }))
      else statePass rest

/-- The first free slot for a disk; no target must have its path. -/
def findSlot (path : Nat) : List Nat → Except Crash (Option Nat)
  | [] => .ok none
  | i :: rest =>
    match s.info i with
    | none => .ok (some i)
    | some t => do
      xmAssert ((s.target t).xenbusNodeName ≠ path) .sameNode
      findSlot path rest

def setupTarget (i path : Nat) : State :=
  { (s.setTarget s.created { xenbusNodeName := path }).setInfo i (some s.created) with
    created := s.created + 1 }

/-- Extract the condemned targets from the array, onto `list`. -/
def extract : List Nat → State → Option Nat → Except Crash (State × Option Nat)
  | [], s, list => .ok (s, list)
  | i :: rest, s, list =>
    match s.info i with
    | none => extract rest s list
    | some t =>
      if (s.target t).suspended then extract rest s list
      else if (s.target t).condemned then do
        xmAssert ((s.target t).next = none) .next
        extract rest ((s.setInfo i none).setTarget t { s.target t with next := list }) (some t)
      else extract rest s list

def readEntry (newDisks : List Nat) : Entry → Except Crash State
  | .ignored => .ok s
  | .enumerated id => do
    xmAssert (id < maxDisks) .noTarget
    match s.info id with
    | none => .error .noTarget
    | some t => .ok (s.setTarget t { s.target t with enumPending := false })
  | .newDisk path => .ok (s.setScan n (.reading (newDisks ++ [path])))

/-- `XenbusFindVbds`, the check for targets that have been ejected or have disappeared. -/
def check (newDisks : List Nat) : Except Crash State := do
  match ← s.statePass slots with
  | some s => .ok (s.setScan n .extracting)
  | none => .ok (s.setScan n (if newDisks = [] then .extracting else .merging newDisks))

/-- `XenbusFindVbds`, a new disk. -/
def merge (path : Nat) (newDisks : List Nat) (ok : Bool) : Except Crash State := do
  let rest := if newDisks = [] then .extracting else .merging newDisks
  match ← s.findSlot path slots with
  | none => .ok (s.setScan n rest)
  | some i => .ok (if ok then (s.setupTarget i path).setScan n rest else s.setScan n .extracting)

def destroyNext (t : Nat) : Except Crash State :=
  let list := (s.target t).next
  let s := s.setTarget t { s.target t with next := none }
  if (s.target t).started then
    -- the trace line reads the target after this one
    match list with
    | none => .error .null
    | some u => .ok (s.setScan n (.destroying (some u)))
  else .ok (s.setScan n (.waiting t list))

end Scans

/-! ## Calls -/

section Calls
variable (s : State)

/-- The search of `XenvbdProcessPdoPnpIrp`; `last` is what `Target` was in the slot before. -/
def findTarget (d : Nat) : List Nat → Option Nat → Option Nat × Bool
  | [], last => (last, false)
  | i :: rest, _ =>
    match s.info i with
    | none => findTarget d rest none
    | some t =>
      if (s.target t).deviceObject = some d then (some t, true) else findTarget d rest (some t)

def irpBegin (d : Nat) (minor : Minor) : Except Crash State :=
  match s.findTarget d slots none with
  | (none, _) => .ok s
  | (some t, found) => do
    let s := if found then s.reference t else s
    xmAssert ((s.target t).references ≠ 0) .references
    .ok (s.begin (.irp minor t false))

/-- What the requests do; `ok` is whether the target could be prepared and connected. -/
def irpProcess (t : Nat) (ok : Bool) : Minor → Except Crash State
  | .startDevice => do
    xmAssert (¬(s.target t).started) .started
    .ok (if ok then s.setTarget t { s.target t with started := true } else s)
  | .stopDevice => .ok (s.setTarget t { s.target t with started := false })
  | .removeDevice => .ok (s.setTarget t { s.target t with started := false })
  | .eject => .ok (s.setTarget t { s.target t with ejected := true })
  | .surpriseRemoval => do
    xmAssert (s.target t).disappeared .notDisappeared
    .ok (s.setTarget t { s.target t with surpriseRemoved := true })
  | .queryId | .queryCapabilities | .cancelRemoveDevice | .deviceUsageNotification => .ok s

/-- `XenvbdMapDeviceObjectToTargetId`. -/
def mapDeviceObject (d i : Nat) : Except Crash State :=
  match s.info i with
  | none => .ok s
  | some t => do
    xmAssert ((s.target t).deviceObject = none) .mapped
    .ok (s.setTarget t { s.target t with deviceObject := some d })

/-- `XM_ASSERT(References != 0); References--`. -/
def release (t : Nat) : Except Crash State := do
  xmAssert ((s.target t).references ≠ 0) .references
  .ok (s.dereference t)

/-- A step of a call that was taken from the list of calls. -/
def advance (ok : Bool) : Call → Option (Except Crash State)
  | .irp minor t false => some do
    let s ← s.irpProcess t ok minor
    .ok (s.begin (.irp minor t true))
  | .irp _ t true => some (.ok (s.dereference t))
  | .backendStateChanged t => some (.ok (s.dereference t))
  | .targetStart t false => some do
    xmAssert (¬(s.target t).started) .started
    .ok ((if ok then s.setTarget t { s.target t with started := true } else s).begin
      (.targetStart t true))
  | .targetStart t true => some (s.release t)
  | .targetStop t false =>
    some (.ok ((s.setTarget t { s.target t with started := false }).begin (.targetStop t true)))
  | .targetStop t true => some (s.release t)
  | .targetResume t .marked => some do
    xmAssert (s.target t).resuming .notResuming
    .ok (s.begin (.targetResume t .running))
  | .targetResume t .running => some do
    let s ← s.resumeTarget t
    .ok (s.begin (.targetResume t .done))
  | .targetResume t .waiting =>
    if (s.target t).resuming then none else some (.ok (s.begin (.targetResume t .done)))
  | .targetResume t .done => some (s.release t)
  | .targetLateResume t .marked => some do
    xmAssert (s.target t).resuming .notResuming
    .ok (s.begin (.targetLateResume t .running))
  | .targetLateResume t .running => some (s.resumeTarget t)
  | .targetLateResume _ _ => none

def stopAdapter : State :=
  slots.foldl (fun s i =>
    match s.info i with
    | some t => s.suspendTarget t
    | none => s) s

/-- `ResumeAllTargets`: the suspended targets, from a slot on, onto `list`. -/
def resumeAllMark : List Nat → State → Option Nat → Except Crash (State × Option Nat)
  | [], s, list => .ok (s, list)
  | i :: rest, s, list =>
    match s.info i with
    | none => resumeAllMark rest s list
    | some t =>
      if (s.target t).suspended then do
        let s := s.markResuming t
        xmAssert ((s.target t).next = none) .next
        resumeAllMark rest (s.setTarget t { s.target t with next := list }) (some t)
      else resumeAllMark rest s list

end Calls

end State

/-! ## The machine -/

inductive Act where
  | scanBegin (n : Nat) (ok : Bool)
  | scanEntry (n : Nat) (entry : Entry)
  | scanOut (n : Nat)
  | scanCheck (n : Nat)
  | scanMerge (n : Nat) (ok : Bool)
  | scanExtract (n : Nat)
  | scanDestroy (n : Nat)
  | scanFree (n : Nat)
  | mapDeviceObject (d i : Nat)
  | irp (d : Nat) (minor : Minor)
  | backendStateChanged (i : Nat)
  | targetStart (i : Nat)
  | targetStop (i : Nat)
  | targetResume (i : Nat)
  | call (c : Call) (ok : Bool)
  | stopAdapter
  | targetEarlyResume (t : Nat)
  | targetLateResume (t : Nat)
  | resumeAll
  | resumeAllNext
  | resumeAllEnd
deriving DecidableEq

/-- The call begins for the target in a slot, which must be there. -/
def State.filterCall (s : State) (i : Nat) (f : State → Nat → State) : Except Crash State :=
  match s.info i with
  | none => .error .noTarget
  | some t => .ok (f (s.reference t) t)

def act (s : State) : Act → Option (Except Crash State)
  | .scanBegin n ok =>
    if s.scan n = .idle ∧ s.enumLock = none then
      let s := if ok then s.markPending.setScan n (.reading []) else s.setScan n .extracting
      some (.ok { s with enumLock := some n })
    else none
  | .scanEntry n entry =>
    match s.scan n with
    | .reading newDisks => some (s.readEntry n newDisks entry)
    | _ => none
  | .scanOut n =>
    match s.scan n with
    | .reading _ => some (.ok (s.setScan n .extracting))
    | .merging _ => some (.ok (s.setScan n .extracting))
    | _ => none
  | .scanCheck n =>
    match s.scan n with
    | .reading newDisks => some (s.check n newDisks)
    | _ => none
  | .scanMerge n ok =>
    match s.scan n with
    | .merging (path :: newDisks) => some (s.merge n path newDisks ok)
    | _ => none
  | .scanExtract n =>
    match s.scan n with
    | .extracting => some do
      let (s, list) ← State.extract slots s none
      .ok { s.setScan n (.destroying list) with enumLock := none }
    | _ => none
  | .scanDestroy n =>
    match s.scan n with
    | .destroying none => some (.ok (s.setScan n .idle))
    | .destroying (some t) => some (s.destroyNext n t)
    | _ => none
  | .scanFree n =>
    match s.scan n with
    | .waiting t list =>
      if (s.target t).references = 0 then
        some (.ok { s.setScan n (.destroying list) with destroyed := t :: s.destroyed })
      else none
    | _ => none
  | .mapDeviceObject d i => some (s.mapDeviceObject d i)
  | .irp d minor => some (s.irpBegin d minor)
  | .backendStateChanged i =>
    match s.info i with
    | none => none
    | some t =>
      if (s.target t).suspended then none
      else some (.ok ((s.reference t).begin (.backendStateChanged t)))
  | .targetStart i => some (s.filterCall i fun s t => s.begin (.targetStart t false))
  | .targetStop i => some (s.filterCall i fun s t => s.begin (.targetStop t false))
  | .targetResume i => some (s.filterCall i fun s t =>
      if (s.target t).suspended then (s.markResuming t).begin (.targetResume t .marked)
      else s.begin (.targetResume t .waiting))
  | .call c ok =>
    if c ∈ s.calls then ({ s with calls := s.calls.erase c } : State).advance ok c else none
  | .stopAdapter => some (.ok s.stopAdapter)
  | .targetEarlyResume t =>
    if t < s.created ∧ t ∉ s.destroyed then some (.ok (s.suspendTarget t)) else none
  | .targetLateResume t =>
    if t < s.created ∧ t ∉ s.destroyed then
      some (.ok (if (s.target t).suspended then
        (s.markResuming t).begin (.targetLateResume t .marked) else s))
    else none
  | .resumeAll =>
    match s.resumeAll with
    | .idle => some do
      let (s, list) ← State.resumeAllMark slots s none
      .ok { s with resumeAll := .walking list }
    | _ => none
  | .resumeAllNext =>
    match s.resumeAll with
    | .walking none => some (.ok { s with resumeAll := .idle })
    | .walking (some t) =>
      some (.ok { s.setTarget t { s.target t with next := none } with
        resumeAll := .marked t (s.target t).next })
    | .marked t list => some do
      xmAssert (s.target t).resuming .notResuming
      .ok { s with resumeAll := .running t list }
    | _ => none
  | .resumeAllEnd =>
    match s.resumeAll with
    | .running t list => some do
      let s ← s.resumeTarget t
      .ok { s with resumeAll := .walking list }
    | _ => none

/-- A failed assertion stops the system. -/
def step (s : State) (a : Act) : Option State :=
  if s.crashed.isSome then none
  else (act s a).map fun
    | .ok t => t
    | .error c => { s with crashed := some c }

def init : State where
  info _ := none
  target _ := { xenbusNodeName := 0 }
  created := 0
  enumLock := none
  scan _ := .idle
  resumeAll := .idle
  calls := []
  destroyed := []
  crashed := none

def machine : Machine State Act := ⟨init, step⟩

end XcWindows.Xenvbd.Targets
