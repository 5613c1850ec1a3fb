import XcWindows.Gnttab.Table
import XcWindows.Xenvbd.Srbs

/-!
# The block requests of an SRB

`PrepareSrb`, `PrepareBouncedSrb`, `CleanupSrb` and `copy_to_req` in `xenvbd/xen.c`, with what they
write to the requests of an SRB. The references that the grant cache has to give are a list, and so are
the free bounce buffers. What `ScsiPortGetPhysicalAddress` answers is a parameter (`Memory`): memory is
paged, and is contiguous at least to the end of the page or of the buffer.
-/

namespace XcWindows.Xenvbd.Requests

open Lib
open XcWindows.Gnttab (GrantMode GrantRef nullGrantRef xenGrantRef)

/-- `SCSI_REQUEST_BLOCK`, at its address. -/
structure Srb where
  address : Nat
  cdb : Nat → UInt8
  cdbLength : Nat
  dataBuffer : Nat
  dataTransferLength : Nat
  aligned : address % 4 = 0
  isUlongPtr : address < 18446744073709551616
  isUlong : dataTransferLength < 4294967296

/-- The memory of an SRB and of the bounce buffers. -/
structure Memory (srb : Srb) where
  frame : Nat → Nat
  length : Nat → Nat
  bounceFrame : Nat → Nat
  frame_lt : ∀ v, frame v < 4294967296
  bounceFrame_lt : ∀ bid, bounceFrame bid < 4294967296
  le_length : ∀ v, srb.dataBuffer ≤ v → v < srb.dataBuffer + srb.dataTransferLength →
    min (pageSize - v % pageSize) (srb.dataBuffer + srb.dataTransferLength - v) ≤ length v

def Memory.physicalAddress {srb : Srb} (mem : Memory srb) (v : Nat) : Nat :=
  mem.frame (v / pageSize) * pageSize + v % pageSize

/-- `PHYS_TO_PFN`, of the low and the high part. -/
def physToPfn (pa : Nat) : Nat := u32 (u32 pa >>> 12 ||| (pa / 4294967296) <<< 20)

structure Target where
  disk : Disk
  backendId : Nat
  handle : Nat

structure Segment where
  gref : GrantRef
  firstSect : Nat
  lastSect : Nat
  bid : Nat
  offset : Nat
  length : Nat
deriving DecidableEq

/-- `xenvbd_request_t`. -/
structure Request where
  operation : Nat
  handle : Nat
  id : Nat
  firstSector : Nat
  lastSector : Nat
  nrSegments : Nat
  seg : Nat → Segment

def zeroRequest : Request := ⟨0, 0, 0, 0, 0, 0, fun _ => ⟨nullGrantRef, 0, 0, 0, 0, 0⟩⟩

/-- `SRB_EXTENSION`, without its links. -/
structure SrbExtension where
  request : Nat → Request
  nrRequests : Nat
  bounced : Bool

structure Grant where
  ref : GrantRef
  domid : Nat
  frame : Nat
  mode : GrantMode
deriving DecidableEq

/-- A `memcpy` between a bounce buffer and the memory at an address. -/
structure Copy where
  bid : Nat
  address : Nat
  length : Nat
deriving DecidableEq

structure Resources where
  grants : List GrantRef
  bounce : List Nat
  granted : List Grant
  copied : List Copy
  copiedBack : List Copy

inductive Assertion where
  | bounced
  | address
  | length
  | grantRef
  | segmentsDone
  | sectorsDone
  /-- `XM_BUG` in `GetStartLogicalBlock` -/
  | cdbLength
  | nrRequests
deriving DecidableEq

namespace Resources

variable (w : Resources)

def grantForeignAccess (domid frame : Nat) (mode : GrantMode) : GrantRef × Resources :=
  match w.grants with
  | [] => (nullGrantRef, w)
  | ref :: grants => (ref, { w with grants, granted := w.granted ++ [⟨ref, domid, frame, mode⟩] })

def endForeignAccess (ref : GrantRef) : Resources := { w with grants := ref :: w.grants }

def allocateBounceBuffer : Option (Nat × Resources) :=
  match w.bounce with
  | [] => none
  | bid :: bounce => some (bid, { w with bounce })

def freeBounceBuffer (bid : Nat) : Resources := { w with bounce := bid :: w.bounce }

def memcpy (bid address length : Nat) : Resources :=
  { w with copied := w.copied ++ [⟨bid, address, length⟩] }

def memcpyBack (bid address length : Nat) : Resources :=
  { w with copiedBack := w.copiedBack ++ [⟨bid, address, length⟩] }

end Resources

/-! ## The SRB -/

def bigEndian (cdb : Nat → UInt8) (at' : Nat) : Nat → Nat
  | 0 => 0
  | n + 1 => bigEndian cdb at' n * 256 + (cdb (at' + n)).toNat

def getStartLogicalBlock (srb : Srb) : Except Assertion Nat :=
  match srb.cdbLength with
  | 6 => .ok ((srb.cdb 1).toNat % 32 * 65536 + bigEndian srb.cdb 2 2)
  | 10 => .ok (bigEndian srb.cdb 2 4)
  | 12 => .ok (bigEndian srb.cdb 2 4)
  | 16 => .ok (bigEndian srb.cdb 2 8)
  | _ => .error .cdbLength

abbrev blkifOpRead : Nat := 0
abbrev blkifOpWrite : Nat := 1

/-- `SCSIOP_READ6`, `SCSIOP_READ`, `SCSIOP_READ12` and `SCSIOP_READ16` read. -/
def Srb.operation (srb : Srb) : Nat :=
  if srb.cdb 0 = 0x08 ∨ srb.cdb 0 = 0x28 ∨ srb.cdb 0 = 0xA8 ∨ srb.cdb 0 = 0x88 then blkifOpRead
  else blkifOpWrite

def Srb.mode (srb : Srb) : GrantMode := if srb.operation = blkifOpWrite then .ro else .rw

/-! ## Segments -/

structure Progress where
  sectorsDone : Nat
  resources : Resources

section Segments
variable (target : Target) {srb : Srb} (mem : Memory srb)

def nrSectors (disk : Disk) (srb : Srb) : Nat := srb.dataTransferLength / disk.sectorSize

/-- A turn of the inner loop of `PrepareSrb`. -/
def alignedSegment (seg : Segment) (p : Progress) : Except Assertion (Option (Segment × Progress)) := do
  let vaddr := srb.dataBuffer + u32 (p.sectorsDone * target.disk.sectorSize)
  let paddr := mem.physicalAddress vaddr
  let firstSect := u32 (paddr % pageSize / target.disk.sectorSize)
  let sectorsThisTime := min (sub32 (nrSectors target.disk srb) p.sectorsDone)
    (sub32 (nrSectorsPerPage target.disk) firstSect)
  xmAssert (u32 (sectorsThisTime * target.disk.sectorSize) ≤ mem.length vaddr) .length
  let lastSect := sub32 (firstSect + sectorsThisTime) 1
  let (gref, resources) := p.resources.grantForeignAccess target.backendId (physToPfn paddr) srb.mode
  xmAssert (gref ≠ nullGrantRef) .grantRef
  .ok (some ({ seg with gref, firstSect, lastSect },
    ⟨u32 (p.sectorsDone + sectorsThisTime), resources⟩))

/-- A turn of the inner loop of `PrepareBouncedSrb`; without a bounce buffer it goes to `cleanup`. -/
def bouncedSegment (_ : Segment) (p : Progress) : Except Assertion (Option (Segment × Progress)) := do
  let sectorsThisTime := min (sub32 (nrSectors target.disk srb) p.sectorsDone)
    (nrSectorsPerPage target.disk)
  match p.resources.allocateBounceBuffer with
  | none => .ok none
  | some (bid, resources) => do
    let offset := u32 (p.sectorsDone * target.disk.sectorSize)
    let length := u32 (sectorsThisTime * target.disk.sectorSize)
    let resources := resources.memcpy bid (srb.dataBuffer + offset) length
    let (gref, resources) := resources.grantForeignAccess target.backendId
      (physToPfn (mem.bounceFrame bid * pageSize)) srb.mode
    xmAssert (gref ≠ nullGrantRef) .grantRef
    .ok (some (⟨gref, 0, sub32 sectorsThisTime 1, bid, offset, length⟩,
      ⟨u32 (p.sectorsDone + sectorsThisTime), resources⟩))

end Segments

/-! ## The loops -/

structure Filled where
  request : Nat → Request
  segmentsDone : Nat
  progress : Progress
  /-- it was not left by `goto cleanup` -/
  done : Bool

section Loops
variable (segment : Segment → Progress → Except Assertion (Option (Segment × Progress)))

/-- The inner loop, from segment `j` on with `n` to go; whether it came to its end. -/
def fillSegments : Nat → Nat → Request → Progress → Except Assertion (Request × Progress × Bool)
  | 0, _, r, p => .ok (r, p, true)
  | n + 1, j, r, p => do
    match ← segment (r.seg j) p with
    | none => .ok (r, p, false)
    | some (seg, p) => fillSegments n (j + 1) { r with seg := Function.update r.seg j seg } p

/-- The outer loop, from request `i` on with `k` to go. -/
def fillRequests (target : Target) (srb : Srb) (start nrSegments : Nat) :
    Nat → Nat → (Nat → Request) → Nat → Progress → Except Assertion Filled
  | 0, _, request, segmentsDone, p => .ok ⟨request, segmentsDone, p, true⟩
  | k + 1, i, request, segmentsDone, p => do
    xmAssert (srb.address &&& 3 = 0) .address
    let segmentsThisTime := min (sub32 nrSegments segmentsDone) maxSegmentsPerRequest
    let r : Request := { request i with
      id := srb.address ||| i, operation := srb.operation, handle := target.handle
      firstSector := u64 (start + p.sectorsDone), nrSegments := segmentsThisTime % 256 }
    let (r, p, done) ← fillSegments segment segmentsThisTime 0 r p
    if done then
      let r : Request := { r with lastSector := u64 (start + p.sectorsDone + 18446744073709551615) }
      fillRequests target srb start nrSegments k (i + 1) (Function.update request i r)
        (u32 (segmentsDone + segmentsThisTime)) p
    else .ok ⟨Function.update request i r, segmentsDone, p, false⟩

end Loops

/-! ## Preparing an SRB -/

/-- An SRB that is prepared, and what goes with it. -/
structure State where
  ext : SrbExtension
  resources : Resources
  freshSrbs : List Nat
  preparedSrbs : List Nat
  needsWakeWhenBuffersAvail : Bool
  scsiStatus : Nat
  srbStatus : Nat
  completed : Bool

def Srb.nrSegments (srb : Srb) : Nat :=
  u32 (btopr (srb.dataBuffer % pageSize + srb.dataTransferLength) (2 ^ 64))

def Srb.nrBouncedSegments (srb : Srb) : Nat := btopr srb.dataTransferLength (2 ^ 32)

/-- `ScsiStatus` of a request that is given up. -/
abbrev scsiAborted : Nat := 0x40
abbrev srbStatusDataOverrun : Nat := 0x12

namespace State

def overrun (s : State) : State :=
  { s with scsiStatus := scsiAborted, srbStatus := srbStatusDataOverrun, completed := true }

end State

/-- `for (j ...)` in `CleanupSrb`. -/
def cleanupSegments (bounced : Bool) : List Segment → Resources → Except Assertion Resources
  | [], w => .ok w
  | seg :: segs, w => do
    xmAssert (seg.gref ≠ nullGrantRef) .grantRef
    let w := w.endForeignAccess seg.gref
    cleanupSegments bounced segs (if bounced then w.freeBounceBuffer seg.bid else w)

def Request.segments (r : Request) : List Segment := (List.range r.nrSegments).map r.seg

/-- `for (i ...)` in `CleanupSrb`. -/
def cleanupRequests : List Nat → SrbExtension → Resources → Except Assertion (SrbExtension × Resources)
  | [], e, w => .ok (e, w)
  | i :: is, e, w => do
    let w ← cleanupSegments e.bounced (e.request i).segments w
    cleanupRequests is { e with request := Function.update e.request i zeroRequest } w

def cleanupSrb (e : SrbExtension) (w : Resources) : Except Assertion (SrbExtension × Resources) :=
  cleanupRequests (List.range e.nrRequests) e w

section Prepare
variable (target : Target) {srb : Srb} (mem : Memory srb) (s : State)

def prepareSrb : Except Assertion State := do
  xmAssert (¬s.ext.bounced) .bounced
  let start ← getStartLogicalBlock srb
  if srb.nrSegments > maxSegmentsPerSrb then .ok s.overrun
  else
    let nrRequests := nrRequestsFor srb.nrSegments
    let f ← fillRequests (alignedSegment target mem) target srb start srb.nrSegments nrRequests 0
      s.ext.request 0 ⟨0, s.resources⟩
    xmAssert (f.segmentsDone = srb.nrSegments) .segmentsDone
    xmAssert (f.progress.sectorsDone = nrSectors target.disk srb) .sectorsDone
    .ok { s with
      ext := { s.ext with request := f.request, nrRequests }
      resources := f.progress.resources
      preparedSrbs := s.preparedSrbs ++ [srb.address] }

def prepareBouncedSrb : Except Assertion State := do
  xmAssert s.ext.bounced .bounced
  let start ← getStartLogicalBlock srb
  if srb.nrBouncedSegments > maxSegmentsPerSrb then .ok s.overrun
  else
    let nrRequests := nrRequestsFor srb.nrBouncedSegments
    let f ← fillRequests (bouncedSegment target mem) target srb start srb.nrBouncedSegments nrRequests 0
      s.ext.request 0 ⟨0, s.resources⟩
    let ext : SrbExtension := { s.ext with request := f.request, nrRequests }
    if f.done then do
      xmAssert (f.segmentsDone = srb.nrBouncedSegments) .segmentsDone
      xmAssert (f.progress.sectorsDone = nrSectors target.disk srb) .sectorsDone
      .ok { s with
        ext, resources := f.progress.resources, preparedSrbs := s.preparedSrbs ++ [srb.address] }
    else do
      let (ext, resources) ← cleanupSrb ext f.progress.resources
      .ok { s with
        ext, resources, needsWakeWhenBuffersAvail := true, freshSrbs := srb.address :: s.freshSrbs }

end Prepare

/-! ## The ring -/

structure BlkifRequest where
  operation : Nat
  nrSegments : Nat
  handle : Nat
  id : Nat
  sectorNumber : Nat
  /-- the reference, and the first and the last sector -/
  seg : List (Nat × Nat × Nat)
deriving DecidableEq

def copyToReq (src : Request) : BlkifRequest :=
  ⟨src.operation % 256, src.nrSegments % 256, u16 src.handle, u64 src.id, u64 src.firstSector,
    src.segments.map fun seg => (xenGrantRef seg.gref, seg.firstSect % 256, seg.lastSect % 256)⟩

/-- The SRB of a response, `rsp->id & ~XENVBD_REQUEST_MASK`. -/
def srbOfId (id : Nat) : Nat := id - (id &&& 3)

/-- The number of its request. -/
def indexOfId (id : Nat) : Nat := id &&& 3

end XcWindows.Xenvbd.Requests
