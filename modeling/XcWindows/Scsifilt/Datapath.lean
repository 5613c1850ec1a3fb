import Mathlib.Algebra.Group.Nat.Defs
import XcWindows.Inc.Xsapi
import XcWindows.Lib.SharedRing
import XcWindows.Gnttab.Table

/-!
# The datapath of scsifilt

`scsifilt/rings.c` and `schedule.c`, with the parts of `controlpath.c` that connect the ring and
handle a migration. Requests wait in the schedule, move to the shared ring, and come back as responses
in `handle_dpc`; a migration or a hibernation puts those on the ring on a list from which a later
connection schedules them again.

A step is what one thread does under `ring_lock` or `request_replay_lock`, except that `handle_dpc`
gives the back end a turn after each response (`Dpc`). A migration strikes when no thread has a lock
and no connection is under way, which a suspend token protects. The grant table is a parameter
(`GrantOps`). Callers keep the contract of `unpause_datapath`: it undoes a pause of the same caller,
and one that `early_suspend_cb` or `datapath_notice_dehibernated` made after a connection, unless
`late_suspend_cb` finds the device in another power state than D0 (`Act.lateSkip`).

`nr_inflight`, `nr_replay_outstanding` and the counts made of them are 32-bit numbers that wrap.
-/

namespace XcWindows.Scsifilt

open XcWindows.Lib
open Function (update)
open XcWindows.Gnttab (GrantMode)

abbrev blkifMaxSegmentsPerRequest : Nat := 11
abbrev maxRingPages : Nat := 4

inductive SfrState where
  | initialised
  | queued
  | submitted
  | processed
  | complete
deriving DecidableEq

inductive BlkifOp where
  | read
  | write
deriving DecidableEq

/-- What `initialise_requests` puts in a `struct scsifilt_request`. -/
structure Sfr where
  operation : BlkifOp
  startSector : Nat
  /-- `fragments[..].pfn`, `nr_segments` of them -/
  pfns : List Nat
  nrSegments_le : pfns.length ≤ blkifMaxSegmentsPerRequest
  pfn_lt : ∀ p ∈ pfns, p < 4294967296

/-- `blkif_request_t`; a request is identified by its number. -/
structure BlkifRequest (κ : Type) where
  id : Nat
  operation : BlkifOp
  sectorNumber : Nat
  grefs : List κ
deriving DecidableEq

instance {κ : Type} : Inhabited (BlkifRequest κ) := ⟨⟨0, .read, 0, []⟩⟩

structure BlkifResponse where
  id : Nat

/-- The grant cache of the device, in a world that others act on too. -/
structure GrantOps (γ κ ω : Type) where
  grantForeignAccessCache : γ → Nat → GrantMode → Option κ × γ
  endForeignAccessCache : γ → κ → Bool × γ
  other : ω → γ → γ

/-- The assertions: on states and counts, on grants, and that of `pause_datapath`. -/
inductive Crash where
  | state
  | grant
  | pause
deriving DecidableEq

/-! ## The schedule -/

structure Schedule where
  curSched : List Nat
  nextSched : List Nat
  nrScheduled : Nat

namespace Schedule

def flip (sched : Schedule) : Schedule :=
  if sched.curSched = [] then { sched with curSched := sched.nextSched, nextSched := [] }
  else sched

def getNextRequest (sched : Schedule) : Option Nat × Schedule :=
  (sched.flip.curSched.head?, sched.flip)

/-- Insert right before the first request with a larger start sector. -/
def insert (sector : Nat → Nat) (req : Nat) : List Nat → List Nat
  | [] => [req]
  | other :: l =>
    if sector other > sector req then req :: other :: l else other :: insert sector req l

def enqueueRequest (sector : Nat → Nat) (sched : Schedule) (req : Nat) : Schedule :=
  let sched := { sched with nrScheduled := sched.nrScheduled + 1 }.flip
  match sched.curSched with
  | [] => { sched with curSched := [req] }
  | curHead :: _ =>
    if sector req < sector curHead then
      { sched with nextSched := insert sector req sched.nextSched }
    else { sched with curSched := insert sector req sched.curSched }

def remove (sched : Schedule) (req : Nat) : Schedule where
  curSched := sched.curSched.erase req
  nextSched := if req ∈ sched.curSched then sched.nextSched else sched.nextSched.erase req
  nrScheduled := sched.nrScheduled - 1

end Schedule

/-! ## The state -/

/-- `handle_dpc` between two responses. -/
structure Dpc where
  prod : Nat
  completedRequests : List Nat
  finalCheck : Bool

inductive DevicePowerState where
  | d0
  | d1
  | d2
  | d3
deriving DecidableEq

/-- Who connects: `late_suspend_cb`, or a caller that has paused the datapath. -/
inductive Owner where
  | late
  | pauser
deriving DecidableEq

/-- Where `connect_scsifilt_with_token` is. -/
inductive Connect where
  | idle
  | freed (o : Owner)
  | ringUp (o : Owner)
  | replaying (o : Owner) (requestsNeedingReplay : List Nat) (expectedNrReplay : Nat)
  | connected
deriving DecidableEq

structure State (γ κ : Type) where
  world : γ
  ring : Option (SharedRing (BlkifRequest κ) BlkifResponse)
  ringOrder : Nat
  ringGref : List (Option κ)
  schedule : Schedule
  inflightRequests : List Nat
  nrInflight : Nat
  requestsNeedingReplay : List Nat
  nrReplayOutstanding : Nat
  pauseCount : Nat
  state : Nat → SfrState
  gref : Nat → List κ
  allocated : Nat
  dpc : Option Dpc
  currentPowerState : DevicePowerState
  connect : Connect
  /-- the locals of `datapath_notice_dehibernated` between its two locks -/
  dehibernating : List (List Nat × Nat)
  /-- the locals of `abort_pending_requests` between its two locks -/
  aborting : List (List Nat × Nat)
  finishing : List Nat
  completions : List Nat
  /-- pauses that a connection has to precede the end of -/
  suspendPauses : Nat
  /-- `pause_datapath` has returned, or was never called: a new device is paused -/
  pauses : Nat
  draining : Nat
  /-- a migration or hibernation has taken the ring away from its back end -/
  stale : Bool
  /-- an end of access to a page of the ring has failed -/
  ringLeaked : Bool
  /-- each request that was moved to the ring, with `pause_count` at that time -/
  moves : List (Nat × Nat)
  crashed : Option Crash

variable {γ κ ω : Type}

def init (g : γ) : State γ κ where
  world := g
  ring := none
  ringOrder := 0
  ringGref := List.replicate maxRingPages none
  schedule := ⟨[], [], 0⟩
  inflightRequests := []
  nrInflight := 0
  requestsNeedingReplay := []
  nrReplayOutstanding := 0
  pauseCount := 1
  state _ := .initialised
  gref _ := []
  allocated := 0
  dpc := none
  currentPowerState := .d3
  connect := .idle
  dehibernating := []
  aborting := []
  finishing := []
  completions := []
  suspendPauses := 0
  pauses := 1
  draining := 0
  stale := false
  ringLeaked := false
  moves := []
  crashed := none

section Functions
variable (req : Nat → Sfr) (G : GrantOps γ κ ω)

/-- End the access to all of the references; whether every one succeeded. -/
def endAll (g : γ) : List κ → Bool × γ
  | [] => (true, g)
  | ref :: refs =>
    let (done, g) := G.endForeignAccessCache g ref
    let (all, g) := endAll g refs
    (done && all, g)

/-- The loop of `prepare_request`, with the references had so far. -/
def prepareLoop (mode : GrantMode) (g : γ) (refs : List κ) :
    List Nat → Except Crash (Option (List κ) × γ)
  | [] => .ok (some refs, g)
  | pfn :: pfns =>
    match G.grantForeignAccessCache g pfn mode with
    | (some ref, g) => prepareLoop mode g (refs ++ [ref]) pfns
    | (none, g) =>
      let (all, g) := endAll G g refs.reverse
      if all then .ok (none, g) else .error .grant

namespace State

variable (s : State γ κ)

def prepareRequest (sfr : Nat) : Except Crash (Bool × State γ κ) := do
  let mode := if (req sfr).operation = .read then GrantMode.rw else GrantMode.ro
  let (refs?, g) ← prepareLoop G mode s.world [] (req sfr).pfns
  match refs? with
  | some refs => .ok (true, { s with world := g, gref := update s.gref sfr refs })
  | none => .ok (false, { s with world := g })

def ungrantRequest (sfr : Nat) : Except Crash (State γ κ) :=
  let (all, g) := endAll G s.world (s.gref sfr)
  if all then .ok { s with world := g } else .error .grant

def copyRequestToRing (sfr : Nat) : State γ κ :=
  { s with ring := s.ring.map (·.put ⟨sfr, (req sfr).operation, (req sfr).startSector, s.gref sfr⟩) }

def submit (sfr : Nat) : State γ κ :=
  { ({ s with schedule := s.schedule.remove sfr } : State γ κ).copyRequestToRing req sfr with
    inflightRequests := s.inflightRequests ++ [sfr]
    nrInflight := u32 (s.nrInflight + 1)
    state := update s.state sfr .submitted
    moves := (sfr, s.pauseCount) :: s.moves }

def startThisRequest (sfr : Nat) : Except Crash (Bool × State γ κ) := do
  xmAssert (s.state sfr = .queued) .state
  let (done, s) ← s.prepareRequest req G sfr
  if done then .ok (true, s.submit req sfr) else .ok (false, s)

def pushRequests : State γ κ := { s with ring := s.ring.map (·.pushRequests) }

/-- The loop of `start_requests`; a turn takes a request from the schedule or is the last. -/
def startLoop : Nat → State γ κ → Except Crash (State γ κ)
  | 0, s => .ok s
  | n + 1, s =>
    if ∀ r ∈ s.ring, r.full then .ok s
    else
      match s.schedule.getNextRequest with
      | (none, sched) => .ok { s with schedule := sched }
      | (some sfr, sched) => do
        let (done, s) ← ({ s with schedule := sched } : State γ κ).startThisRequest req G sfr
        if done then startLoop n s else .ok s

def startRequests : Except Crash (State γ κ) :=
  if s.pauseCount ≠ 0 then .ok s
  else if s.ring.isNone then .ok s
  else do
    let s ← startLoop req G (s.schedule.curSched.length + s.schedule.nextSched.length) s
    .ok s.pushRequests

def enqueueRequest (sfr : Nat) : State γ κ :=
  { s with
    schedule := s.schedule.enqueueRequest (fun x => (req x).startSector) sfr
    state := update s.state sfr .queued }

def enqueueAll : State γ κ → List Nat → Except Crash (State γ κ)
  | s, [] => .ok s
  | s, sfr :: sfrs => do
    xmAssert (s.state sfr = .initialised) .state
    enqueueAll (s.enqueueRequest req sfr) sfrs

/-- `schedule_requests`, on `n` requests that `initialise_requests` has just set up. -/
def scheduleRequests (n : Nat) : Except Crash (State γ κ) := do
  let s' ← { s with allocated := s.allocated + n }.enqueueAll req (List.range' s.allocated n)
  s'.startRequests req G

/-- `RemoveEntryList` on a request that is on the ring or waits to be replayed. -/
def unlink (sfr : Nat) : State γ κ :=
  { s with inflightRequests := s.inflightRequests.erase sfr
           requestsNeedingReplay := s.requestsNeedingReplay.erase sfr }

def processResponse (d : Dpc) (r : SharedRing (BlkifRequest κ) BlkifResponse) (sfr : Nat) :
    State γ κ :=
  { s.unlink sfr with
    ring := some r.consume
    dpc := some { d with completedRequests := d.completedRequests ++ [sfr] }
    nrInflight := sub32 s.nrInflight 1
    state := update s.state sfr .processed }

def refill : Except Crash (State γ κ) :=
  match s.schedule.getNextRequest with
  | (none, sched) => .ok { s with schedule := sched }
  | (some sfr, sched) => do
    let (done, s) ← ({ s with schedule := sched } : State γ κ).startThisRequest req G sfr
    if done then .ok s.pushRequests else .ok s

def handleResponse (d : Dpc) (r : SharedRing (BlkifRequest κ) BlkifResponse) :
    Except Crash (State γ κ) :=
  match r.getResponse with
  | none => .error .state
  | some resp => do
    xmAssert (s.state resp.id = .submitted) .state
    let s ← s.ungrantRequest G resp.id
    (s.processResponse d r resp.id).refill req G

def unpauseDatapath : Except Crash (State γ κ) :=
  let s := { s with pauseCount := s.pauseCount - 1 }
  if s.pauseCount = 0 then s.startRequests req G else .ok s

/-- The loop of `replay_pending_requests`, with what is left of the expected number. -/
def replayLoop : State γ κ → List Nat → Nat → Except Crash (State γ κ)
  | s, [], n => do
    xmAssert (n = 0) .state
    .ok s
  | s, sfr :: sfrs, n => do
    xmAssert (s.state sfr = .submitted) .state
    let s ← s.ungrantRequest G sfr
    replayLoop (s.enqueueRequest req sfr) sfrs (sub32 n 1)

/-- The loop of `abort_pending_requests`, with the number of requests processed. -/
def abortLoop (expected : Nat) : State γ κ → List Nat → Nat → Except Crash (State γ κ)
  | s, [], n => do
    xmAssert (n = expected) .state
    .ok s
  | s, sfr :: sfrs, n => do
    xmAssert (s.state sfr = .submitted) .state
    let s ← s.ungrantRequest G sfr
    abortLoop expected { s with state := update s.state sfr .processed } sfrs (u32 (n + 1))

/-- `ungrant_ring`, on the first `n` entries of `ring_gref`. -/
def ungrantRingLoop (n : Nat) (g : γ) (refs : List (Option κ)) : Bool × γ × List (Option κ) :=
  let (all, g) := endAll G g ((refs.take n).filterMap id)
  (all, g, List.replicate (refs.take n).length none ++ refs.drop n)

def ungrantRing : State γ κ :=
  let (all, g, refs) := ungrantRingLoop G (2 ^ s.ringOrder) s.world s.ringGref
  { s with world := g, ringGref := refs, ringLeaked := s.ringLeaked || !all }

/-- The loop of `grant_ring`, on the pages from `frame` on. -/
def grantRingLoop (g : γ) (frame : Nat) : Nat → Except Crash (List (Option κ) × γ)
  | 0 => .ok ([], g)
  | n + 1 =>
    match G.grantForeignAccessCache g frame .rw with
    | (some ref, g) => do
      let (refs, g) ← grantRingLoop g (frame + 1) n
      .ok (some ref :: refs, g)
    | (none, _) => .error .grant

def grantRing (frame : Nat) : Except Crash (State γ κ) := do
  let s := s.ungrantRing G
  let (refs, g) ← grantRingLoop G s.world frame (2 ^ s.ringOrder)
  .ok { s with world := g, ringGref := refs ++ s.ringGref.drop (2 ^ s.ringOrder) }

end State

/-! ## The machine -/

inductive Act (κ ω : Type) where
  | schedule (n : Nat)
  | dpcBegin
  | dpcResponse
  | dpcCheck
  /-- `complete_this_request`, for `finish_requests` -/
  | finish (sfr : Nat)
  | pauseDatapath
  | pauseReturns
  | unpauseDatapath
  | earlySuspend
  | noticeDehibernated
  | dehibernatedReplay (entry : List Nat × Nat)
  | connectBegin (o : Owner)
  | connectRing (order frame : Nat)
  | connectFail
  | replayGrab
  | replayEnqueue
  | lateUnpause
  /-- `late_suspend_cb` when the device is not in D0: it unpauses without a connection -/
  | lateSkip
  | setPower (d : DevicePowerState)
  | close
  | abortGrab
  | abortWalk (entry : List Nat × Nat)
  | backTake
  | backAnswer (x : BlkifRequest κ)
  | other (w : ω)

namespace Connect

def owner : Connect → Option Owner
  | .idle => none
  | .freed o | .ringUp o | .replaying o _ _ => some o
  | .connected => some .late

def replayed : Owner → Connect
  | .late => .connected
  | .pauser => .idle

def pausers (c : Connect) : Nat := if c.owner = some .pauser then 1 else 0

end Connect

/-- The pauses that a connection of `o` can end. -/
def State.pausesOf (s : State γ κ) : Owner → Nat
  | .late => s.suspendPauses
  | .pauser => s.pauses

def act [DecidableEq κ] (s : State γ κ) : Act κ ω → Option (Except Crash (State γ κ))
  | .schedule n => if s.dpc.isNone then some (s.scheduleRequests req G n) else none
  | .dpcBegin =>
    if s.dpc.isNone then
      match s.ring with
      | none => some (.ok s)
      | some r =>
        if s.pauseCount ≠ 0 ∧ s.nrInflight = 0 then some (.ok s)
        else some (.ok { s with dpc := some ⟨r.rspProd, [], false⟩ })
    else none
  | .dpcResponse =>
    match s.dpc, s.ring with
    | some d, some r => if r.rspCons ≠ d.prod then some (s.handleResponse req G d r) else none
    | _, _ => none
  | .dpcCheck =>
    match s.dpc, s.ring with
    | some d, some r =>
      if r.rspCons = d.prod then
        if r.hasUnconsumedResponses then
          some (.ok { s with dpc := some { d with prod := r.rspProd, finalCheck := false } })
        else if d.finalCheck then
          some (.ok { s with dpc := none, finishing := s.finishing ++ d.completedRequests })
        else
          some (.ok { s with dpc := some { d with finalCheck := true }
                             ring := some { r with rspEvent := u32 (r.rspCons + 1) } })
      else none
    | _, _ => none
  | .finish sfr =>
    if sfr ∈ s.finishing then
      some do
        xmAssert (s.state sfr = .processed) .state
        .ok { s with finishing := s.finishing.erase sfr, completions := s.completions ++ [sfr]
                     state := update s.state sfr .complete }
    else none
  | .pauseDatapath =>
    if s.dpc.isNone then
      some do
        xmAssert (s.pauseCount + 1 = 1 ∨ s.nrInflight = 0) .pause
        .ok { s with pauseCount := s.pauseCount + 1, draining := s.draining + 1 }
    else none
  | .pauseReturns =>
    if s.dpc.isNone ∧ 0 < s.draining ∧ s.nrInflight = 0 then
      some (.ok { s with draining := s.draining - 1, pauses := s.pauses + 1 })
    else none
  | .unpauseDatapath =>
    if s.dpc.isNone ∧ s.connect.pausers < s.pauses then
      some (({ s with pauses := s.pauses - 1 } : State γ κ).unpauseDatapath req G)
    else none
  | .earlySuspend =>
    if s.dpc.isNone ∧ s.connect = .idle then
      some (.ok { s with
        pauseCount := s.pauseCount + 1
        suspendPauses := s.suspendPauses + 1
        requestsNeedingReplay := s.requestsNeedingReplay ++ s.inflightRequests
        inflightRequests := []
        nrReplayOutstanding := u32 (s.nrReplayOutstanding + s.nrInflight)
        nrInflight := 0
        stale := true })
    else none
  | .noticeDehibernated =>
    if s.dpc.isNone then
      some (.ok { s with
        pauseCount := s.pauseCount + 1
        dehibernating := (s.inflightRequests, s.nrInflight) :: s.dehibernating
        inflightRequests := []
        nrInflight := 0
        stale := true })
    else none
  | .dehibernatedReplay entry =>
    if entry ∈ s.dehibernating then
      some (.ok { s with
        dehibernating := s.dehibernating.erase entry
        requestsNeedingReplay := s.requestsNeedingReplay ++ entry.1
        nrReplayOutstanding := u32 (s.nrReplayOutstanding + entry.2)
        suspendPauses := s.suspendPauses + 1 })
    else none
  | .connectBegin o =>
    if s.connect = .idle ∧ 0 < s.pausesOf o then
      some (.ok { s with ring := none, connect := .freed o })
    else none
  | .connectRing order frame =>
    match s.connect with
    | .freed o =>
      if s.dpc.isNone ∧ order ≤ 2 then
        some (({ s with ring := some (.fresh (32 * 2 ^ order)), ringOrder := order, stale := false
                        connect := .ringUp o } : State γ κ).grantRing G frame)
      else none
    | _ => none
  | .connectFail =>
    match s.connect with
    | .freed _ => some (.ok { s with connect := .idle })
    | .ringUp _ =>
      if s.dpc.isNone then some (.ok { s.ungrantRing G with ring := none, connect := .idle })
      else none
    | _ => none
  | .replayGrab =>
    match s.connect with
    | .ringUp o =>
      some (.ok { s with
        connect := .replaying o s.requestsNeedingReplay s.nrReplayOutstanding
        requestsNeedingReplay := []
        nrReplayOutstanding := 0 })
    | _ => none
  | .replayEnqueue =>
    match s.connect with
    | .replaying o l n =>
      if s.dpc.isNone then
        some do
          let s ← ({ s with connect := .replayed o } : State γ κ).replayLoop req G l n
          xmAssert (s.nrInflight = 0) .state
          .ok s
      else none
    | _ => none
  | .lateUnpause =>
    if s.connect = .connected ∧ s.dpc.isNone then
      some (({ s with connect := .idle, suspendPauses := s.suspendPauses - 1 }
        : State γ κ).unpauseDatapath req G)
    else none
  | .lateSkip =>
    if s.currentPowerState ≠ .d0 ∧ 0 < s.suspendPauses ∧ s.connect.owner ≠ some .late ∧
        s.dpc.isNone then
      some (({ s with suspendPauses := s.suspendPauses - 1 } : State γ κ).unpauseDatapath req G)
    else none
  | .setPower d => some (.ok { s with currentPowerState := d })
  | .close =>
    if s.connect = .idle ∧ 0 < s.pauses ∧ s.dpc.isNone then
      some (.ok { s.ungrantRing G with ring := none })
    else none
  | .abortGrab =>
    some do
      if s.requestsNeedingReplay = [] then
        xmAssert (s.nrReplayOutstanding = 0) .state
        .ok s
      else
        .ok { s with
          aborting := (s.requestsNeedingReplay, s.nrReplayOutstanding) :: s.aborting
          requestsNeedingReplay := []
          nrReplayOutstanding := 0 }
  | .abortWalk entry =>
    if entry ∈ s.aborting ∧ s.dpc.isNone then
      some (({ s with aborting := s.aborting.erase entry, finishing := s.finishing ++ entry.1 }
        : State γ κ).abortLoop G entry.2 entry.1 0)
    else none
  | .backTake =>
    (s.ring.bind (·.take)).map fun r => .ok { s with ring := some r }
  | .backAnswer x =>
    match s.ring with
    | some r => if x ∈ r.taken then some (.ok { s with ring := some (r.answer x ⟨x.id⟩) }) else none
    | none => none
  | .other w => some (.ok { s with world := G.other w s.world })

/-- A failed assertion stops the system. -/
def step [DecidableEq κ] (s : State γ κ) (a : Act κ ω) : Option (State γ κ) :=
  if s.crashed.isSome then none
  else (act req G s a).map fun
    | .ok t => t
    | .error c => { s with crashed := some c }

def machine [DecidableEq κ] (g : γ) : Machine (State γ κ) (Act κ ω) := ⟨init g, step req G⟩

end Functions

end XcWindows.Scsifilt
