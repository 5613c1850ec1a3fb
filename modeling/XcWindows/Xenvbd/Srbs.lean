import Mathlib.Algebra.Group.Nat.Defs
import XcWindows.Inc.Xsapi
import XcWindows.Lib.SharedRing

/-!
# SCSI requests of xenvbd

`xenvbd/xen.c` and the queues of `xenvbd.c`, for a connected target that scsifilt does not serve: a
read or write SRB is cut into at most two block requests, which go to the ring together. An aligned
SRB is prepared when it comes; one that needs bounce buffers waits in `FreshSrbs` for the event
channel callback. Bounce buffers are shared with other targets. A failed assertion stops the system,
and so does a second acquisition of a lock. The references of the grant cache are taken to suffice.

The callback runs a response and a fresh SRB at a time, and `XenvbdStartIO` waits for it; during a
bus reset, which holds `XenvbdTargetInfoLock`, only the callback runs.
-/

namespace XcWindows.Xenvbd

open XcWindows.Lib

abbrev maxSegmentsPerRequest : Nat := 11
abbrev maxSegmentsPerSrb : Nat := 22

structure Disk where
  sectorSize : Nat
  pos : 0 < sectorSize
  dvd : sectorSize ∣ pageSize

structure Srb where
  dataBuffer : Nat
  dataTransferLength : Nat
  startLogicalBlock : Nat
  isUlong : dataTransferLength < 4294967296

/-- `struct xenvbd_request_segment`. -/
structure Segment where
  firstSect : Nat
  lastSect : Nat
  bid : Option Nat

/-- `xenvbd_request_t`; the segments that have a grant reference. -/
structure Request where
  firstSector : Nat
  nrSegments : Nat
  seg : List Segment

inductive Queue where
  | fresh
  | prepared
  | submitted
deriving DecidableEq

structure SrbExtension where
  request : Nat → Request
  nrRequests : Nat
  bounced : Bool
  queued : Option Queue

/-- A request on the ring: `rsp->id` is the SRB and the number of its request. -/
structure BlkifId where
  srb : Nat
  index : Nat
deriving DecidableEq, Inhabited

/-- Where `XenvbdEvtchnCallback` is. -/
inductive Callback where
  | idle
  /-- in `XenvbdCompleteRequests` -/
  | responses (prod : Nat) (finalCheck : Bool)
  | fresh (srbs : List Nat)

structure State where
  freshSrbs : List Nat
  preparedSrbs : List Nat
  submittedSrbs : List Nat
  ext : Nat → SrbExtension
  ring : SharedRing BlkifId BlkifId
  bounce : List Nat
  /-- the bounce buffers of other targets -/
  others : List Nat
  allocated : Nat
  /-- what `CompleteSrb` was called on -/
  completions : List Nat
  callback : Callback
  resetInProgress : Bool
  crashed : Option Crash

namespace State

variable (s : State)

def queue : Queue → List Nat
  | .fresh => s.freshSrbs
  | .prepared => s.preparedSrbs
  | .submitted => s.submittedSrbs

def setQueue (l : List Nat) : Queue → State
  | .fresh => { s with freshSrbs := l }
  | .prepared => { s with preparedSrbs := l }
  | .submitted => { s with submittedSrbs := l }

def setExt (srb : Nat) (e : SrbExtension) : State := { s with ext := Function.update s.ext srb e }

def setQueued (srb : Nat) (q : Option Queue) : State :=
  s.setExt srb { s.ext srb with queued := q }

/-- `RemoveSrbFromQueueRaw`. -/
def removeSrbFromQueue (srb : Nat) (q : Queue) : Except Crash State := do
  xmAssert ((s.ext srb).queued = some q) .bugCheck
  .ok ((s.setQueue ((s.queue q).erase srb) q).setQueued srb none)

/-- `QueueSrbRaw`. -/
def queueSrb (srb : Nat) (q : Queue) : Except Crash State := do
  xmAssert ((s.ext srb).queued = none) .bugCheck
  .ok ((s.setQueue (s.queue q ++ [srb]) q).setQueued srb (some q))

/-- `QueueSrbAtHeadRaw`. -/
def queueSrbAtHead (srb : Nat) (q : Queue) : Except Crash State := do
  xmAssert ((s.ext srb).queued = none) .bugCheck
  .ok ((s.setQueue (srb :: s.queue q) q).setQueued srb (some q))

def completeSrb (srb : Nat) : State := { s with completions := s.completions ++ [srb] }

end State

/-! ## Preparing an SRB -/

/-- `BTOPR`, on a number of bytes of the width that wraps at `modulus`. -/
def btopr (bytes modulus : Nat) : Nat := (bytes + (pageSize - 1)) % modulus / pageSize

def Srb.nrSegments (srb : Srb) : Nat :=
  btopr (srb.dataBuffer % pageSize + srb.dataTransferLength) (2 ^ 64)

def Srb.nrBouncedSegments (srb : Srb) : Nat := btopr srb.dataTransferLength (2 ^ 32)

/-- `srb_extension->nr_requests`. -/
def nrRequestsFor (nrSegments : Nat) : Nat :=
  (nrSegments + maxSegmentsPerRequest - 1) / maxSegmentsPerRequest

/-- What the loops of `PrepareSrb` and `PrepareBouncedSrb` go on from. -/
structure Progress where
  sectorsDone : Nat
  bounce : List Nat

section Prepare
variable (disk : Disk) (srb : Srb)

/-- `SrbNeedsBounceBuffer`; the page offset of an address is that of its page in memory. -/
def srbNeedsBounceBuffer : Bool := srb.dataBuffer % disk.sectorSize ≠ 0

def nrSectorsPerPage : Nat := pageSize / disk.sectorSize

def nrSectors : Nat := srb.dataTransferLength / disk.sectorSize

def alignedSegment (p : Progress) : Option (Segment × Progress) :=
  let firstSect := (srb.dataBuffer + p.sectorsDone * disk.sectorSize) % pageSize / disk.sectorSize
  let sectorsThisTime := min (nrSectors disk srb - p.sectorsDone) (nrSectorsPerPage disk - firstSect)
  some (⟨firstSect, sub32 (firstSect + sectorsThisTime) 1, none⟩,
    { p with sectorsDone := p.sectorsDone + sectorsThisTime })

/-- A segment of a bounced SRB, if there is a bounce buffer for it. -/
def bouncedSegment (p : Progress) : Option (Segment × Progress) :=
  let sectorsThisTime := min (nrSectors disk srb - p.sectorsDone) (nrSectorsPerPage disk)
  match p.bounce with
  | [] => none
  | bid :: bounce =>
    some (⟨0, sub32 sectorsThisTime 1, some bid⟩, ⟨p.sectorsDone + sectorsThisTime, bounce⟩)

end Prepare

section Loops
variable (segment : Progress → Option (Segment × Progress))

/-- The inner loop, with the segments it has; whether it came to its end. -/
def fillSegments : Nat → Progress → List Segment → List Segment × Progress × Bool
  | 0, p, segs => (segs, p, true)
  | n + 1, p, segs =>
    match segment p with
    | some (seg, p) => fillSegments n p (segs ++ [seg])
    | none => (segs, p, false)

/-- The outer loop, from request `i` on with `k` to go. -/
def fillRequests (start nrSegments : Nat) :
    Nat → Nat → Progress → (Nat → Request) → (Nat → Request) × Progress × Bool
  | 0, _, p, request => (request, p, true)
  | k + 1, i, p, request =>
    let segmentsThisTime := min (nrSegments - maxSegmentsPerRequest * i) maxSegmentsPerRequest
    let (segs, p', done) := fillSegments segment segmentsThisTime p []
    let request := Function.update request i ⟨start + p.sectorsDone, segmentsThisTime, segs⟩
    if done then fillRequests start nrSegments k (i + 1) p' request else (request, p', false)

end Loops

def zeroRequest : Request := ⟨0, 0, []⟩

namespace State

/-- `FreeBounceBuffer` looks for targets to wake under `XenvbdTargetInfoLock`, which a bus reset
holds. -/
def freeBounceBuffer (s : State) (bid : Nat) : Except Crash State :=
  if s.resetInProgress then .error .spin else .ok { s with bounce := bid :: s.bounce }

/-- `CleanupSrb`: every segment of its requests must have a reference. -/
def cleanupSrb (s : State) (x : Nat) : Except Crash State := do
  xmAssert (∀ i < (s.ext x).nrRequests,
    ((s.ext x).request i).seg.length = ((s.ext x).request i).nrSegments) .bugCheck
  let bids := (List.range (s.ext x).nrRequests).flatMap fun i =>
    (((s.ext x).request i).seg).filterMap (·.bid)
  let request := fun i => if i < (s.ext x).nrRequests then zeroRequest else (s.ext x).request i
  bids.foldlM freeBounceBuffer (s.setExt x { s.ext x with request })

section Prepare
variable (disk : Disk) (srb : Nat → Srb) (s : State) (x : Nat)

def prepareSrb : Except Crash State := do
  xmAssert (¬(s.ext x).bounced) .bugCheck
  let nrSegments := (srb x).nrSegments
  if nrSegments > maxSegmentsPerSrb then .ok (s.completeSrb x)
  else
    let nrRequests := nrRequestsFor nrSegments
    let (request, p, _) := fillRequests (alignedSegment disk (srb x)) (srb x).startLogicalBlock
      nrSegments nrRequests 0 ⟨0, s.bounce⟩ (s.ext x).request
    xmAssert (p.sectorsDone = nrSectors disk (srb x)) .bugCheck
    (s.setExt x { s.ext x with request, nrRequests }).queueSrb x .prepared

def prepareBouncedSrb : Except Crash State := do
  xmAssert (s.ext x).bounced .bugCheck
  let nrSegments := (srb x).nrBouncedSegments
  if nrSegments > maxSegmentsPerSrb then .ok (s.completeSrb x)
  else
    let nrRequests := nrRequestsFor nrSegments
    let (request, p, done) := fillRequests (bouncedSegment disk (srb x)) (srb x).startLogicalBlock
      nrSegments nrRequests 0 ⟨0, s.bounce⟩ (s.ext x).request
    let s := { s.setExt x { s.ext x with request, nrRequests } with bounce := p.bounce }
    if done then do
      xmAssert (p.sectorsDone = nrSectors disk (srb x)) .bugCheck
      s.queueSrb x .prepared
    else do
      let s ← s.cleanupSrb x
      s.queueSrbAtHead x .fresh

end Prepare

/-! ## The ring -/

section Ring
variable (s : State)

def submitSrb (x : Nat) : State :=
  { s with ring := ((List.range (s.ext x).nrRequests).foldl (fun r i => r.put ⟨x, i⟩)
      s.ring).pushRequests }

/-- `SubmitPreparedSrbs`; a turn takes an SRB from the queue or is the last. -/
def submitLoop : Nat → State → Except Crash State
  | 0, s => .ok s
  | n + 1, s =>
    match s.preparedSrbs with
    | [] => .ok s
    | x :: _ =>
      if s.ring.prodSlotsAvail < (s.ext x).nrRequests then .ok s
      else do
        let s ← (s.submitSrb x).removeSrbFromQueue x .prepared
        let s ← s.queueSrb x .submitted
        submitLoop n s

def submitPreparedSrbs : Except Crash State := submitLoop s.preparedSrbs.length s

/-- `XenvbdCompleteRequests`, for one response. -/
def completeRequest (rsp : BlkifId) : Except Crash State := do
  let e := s.ext rsp.srb
  let request := e.request rsp.index
  xmAssert (request.seg.length = request.nrSegments) .bugCheck
  xmAssert (e.bounced → ∀ seg ∈ request.seg, seg.bid.isSome) .bugCheck
  let bids := if e.bounced then request.seg.filterMap (·.bid) else []
  let s ← bids.foldlM freeBounceBuffer { s with ring := s.ring.consume }
  xmAssert (e.nrRequests ≠ 0) .bugCheck
  let e := { e with request := Function.update e.request rsp.index zeroRequest
                    nrRequests := e.nrRequests - 1 }
  let s := s.setExt rsp.srb e
  if e.nrRequests = 0 then do
    let s ← s.removeSrbFromQueue rsp.srb .submitted
    .ok (s.completeSrb rsp.srb)
  else .ok s

end Ring

end State

/-! ## The machine -/

inductive Act where
  /-- `XenvbdStartIO` with the next SRB -/
  | startIo
  | callbackBegin
  | callbackResponse
  | callbackCheck
  | callbackPrepare
  | callbackSubmit
  /-- `XenvbdResetBus` aborts the fresh SRBs -/
  | resetBegin
  | resetEnd
  | otherAllocate
  | otherFree (bid : Nat)
  | backTake
  | backAnswer (x : BlkifId)
deriving DecidableEq

section Machine
variable (disk : Disk) (srb : Nat → Srb)

/-- `XenvbdStartIO`, for a read or write of a connected target. -/
def State.startIo (s : State) : Except Crash State := do
  let x := s.allocated
  let e : SrbExtension := ⟨fun _ => zeroRequest, 0, srbNeedsBounceBuffer disk (srb x), none⟩
  let s := { s.setExt x e with allocated := s.allocated + 1 }
  if e.bounced then s.queueSrb x .fresh
  else do
    let s ← s.prepareSrb disk srb x
    s.submitPreparedSrbs

def State.callbackFresh (s : State) : State := { s with callback := .fresh s.freshSrbs }

def act (s : State) : Act → Option (Except Crash State)
  | .startIo =>
    match s.callback with
    | .idle => if s.resetInProgress then none else some (s.startIo disk srb)
    | _ => none
  | .callbackBegin =>
    match s.callback with
    | .idle => some (.ok { s with callback := .responses s.ring.rspProd false })
    | _ => none
  | .callbackResponse =>
    match s.callback with
    | .responses prod _ =>
      if s.ring.rspCons ≠ prod then
        match s.ring.getResponse with
        | some rsp => some (s.completeRequest rsp)
        | none => some (.error .bugCheck)
      else none
    | _ => none
  | .callbackCheck =>
    match s.callback with
    | .responses prod finalCheck =>
      if s.ring.rspCons = prod then
        if s.ring.hasUnconsumedResponses then
          some (.ok { s with callback := .responses s.ring.rspProd false })
        else if finalCheck then some (.ok s.callbackFresh)
        else
          some (.ok { s with callback := .responses prod true
                             ring := { s.ring with rspEvent := u32 (s.ring.rspCons + 1) } })
      else none
    | _ => none
  | .callbackPrepare =>
    match s.callback with
    | .fresh (x :: srbs) =>
      some do
        let s ← ({ s with callback := .fresh srbs } : State).removeSrbFromQueue x .fresh
        if (s.ext x).bounced then s.prepareBouncedSrb disk srb x else s.prepareSrb disk srb x
    | _ => none
  | .callbackSubmit =>
    match s.callback with
    | .fresh [] => some { s with callback := .idle }.submitPreparedSrbs
    | _ => none
  | .resetBegin =>
    match s.callback with
    | .idle =>
      if s.resetInProgress then none
      else
        some (.ok { s with
          resetInProgress := true
          freshSrbs := []
          ext := fun x => if x ∈ s.freshSrbs then { s.ext x with queued := none } else s.ext x
          completions := s.completions ++ s.freshSrbs })
    | _ => none
  | .resetEnd =>
    match s.callback with
    | .idle =>
      if s.resetInProgress ∧ s.preparedSrbs = [] ∧ s.submittedSrbs = [] then
        some (.ok { s with resetInProgress := false })
      else none
    | _ => none
  | .otherAllocate =>
    match s.bounce with
    | bid :: bounce => some (.ok { s with bounce, others := bid :: s.others })
    | [] => none
  | .otherFree bid =>
    if bid ∈ s.others then
      some (.ok { s with bounce := bid :: s.bounce, others := s.others.erase bid })
    else none
  | .backTake => s.ring.take.map fun ring => .ok { s with ring }
  | .backAnswer x =>
    if x ∈ s.ring.taken then some (.ok { s with ring := s.ring.answer x x }) else none

/-- A failed assertion stops the system. -/
def step (s : State) (a : Act) : Option State :=
  if s.crashed.isSome then none
  else (act disk srb s a).map fun
    | .ok t => t
    | .error c => { s with crashed := some c }

def init (nrEnts : Nat) (bounce : List Nat) : State where
  freshSrbs := []
  preparedSrbs := []
  submittedSrbs := []
  ext _ := ⟨fun _ => zeroRequest, 0, false, none⟩
  ring := .fresh nrEnts
  bounce
  others := []
  allocated := 0
  completions := []
  callback := .idle
  resetInProgress := false
  crashed := none

/-- `order` is at most `MAX_RING_PAGE_ORDER`. -/
def machine (order : Fin 3) (bounce : List Nat) : Machine State Act :=
  ⟨init (32 * 2 ^ order.val) bounce, step disk srb⟩

end Machine

end XcWindows.Xenvbd
