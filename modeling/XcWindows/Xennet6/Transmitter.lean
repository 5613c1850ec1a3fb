import Mathlib.Algebra.GroupWithZero.Nat
import XcWindows.Inc.Xsapi
import XcWindows.Lib.SharedRing

/-!
# The transmitter of xennet6

`net/xennet6/transmitter.c`: a net buffer list that NDIS sends is put on `QueuedList`, its net
buffers are cut into fragments with a TX shadow each (`TransmitterPrepare`), put on the ring
(`TransmitterSend`), and the list goes back to NDIS when the back end has answered for all of them.

Net buffer lists are numbered in the order NDIS sends them. A step is what is done in one go under
the transmitter's lock, or without it on a processor that has stopped the others (a suspend);
`TransmitterHandleNotification` is several steps, because the back end sees what it does, and holds
the lock all along. What NDIS and the grant tables answer during a run is chosen with the step. A
failed assertion stops the system.
-/

namespace XcWindows.Xennet6

open XcWindows.Lib

abbrev maxFragsPerPacket : Nat := 18
abbrev bounceBufferSize : Nat := 65536
/-- `XENNET_MAX_TX_FRAGS`, which is also the size of the ring. -/
abbrev maxTxFrags : Nat := 256

/-! ## Net buffers -/

structure Mdl where
  byteOffset : Nat
  byteCount : Nat
  offset_lt : byteOffset < pageSize

/-- A piece of data inside a page. -/
structure Fragment where
  pfnIndex : Nat
  offset : Nat
  size : Nat

/-- The pages of an MDL, with `fuel` bytes at most. -/
def mdlFragments : Nat → Nat → Nat → Nat → List Fragment
  | 0, _, _, _ => []
  | fuel + 1, mdlByteCount, mdlByteOffset, pfnIndex =>
    if mdlByteCount = 0 then []
    else
      let byteCount :=
        if mdlByteCount + mdlByteOffset > pageSize then pageSize - mdlByteOffset else mdlByteCount
      ⟨pfnIndex, mdlByteOffset, byteCount⟩ ::
        mdlFragments fuel (mdlByteCount - byteCount) 0 (pfnIndex + 1)

/-- The loops of `TransmitterPrepareNetBuffer` over the MDLs. -/
def fragments : List Mdl → Nat → Nat → Except Crash (List Fragment)
  | [], _, _ => .ok []
  | mdl :: mdls, offset, dataSize =>
    if dataSize = 0 then .ok []
    else if mdl.byteCount ≤ offset then fragments mdls (offset - mdl.byteCount) dataSize
    else do
      let mdlByteOffset := mdl.byteOffset + offset
      let pfnIndex := if mdlByteOffset ≥ pageSize then 1 else 0
      let mdlByteOffset := if mdlByteOffset ≥ pageSize then mdlByteOffset - pageSize else mdlByteOffset
      xmAssert (mdlByteOffset < pageSize) .bugCheck
      let mdlByteCount := min (mdl.byteCount - offset) dataSize
      let rest ← fragments mdls 0 (dataSize - mdlByteCount)
      .ok (mdlFragments mdlByteCount mdlByteCount mdlByteOffset pfnIndex ++ rest)

/-- A net buffer as NDIS hands it over. -/
structure NetBuffer where
  mdls : List Mdl
  currentMdlOffset : Nat
  dataLength : Nat
  /-- what `NdisQueryNetBufferPhysicalCount` says -/
  physicalCount : Nat
  /-- the adapter has announced how much it can take -/
  length_le : dataLength ≤ bounceBufferSize
  covers : currentMdlOffset + dataLength ≤ (mdls.map (·.byteCount)).sum
  /-- an upper bound on the number of physical breaks -/
  breaks : ∀ frags, fragments mdls currentMdlOffset dataLength = .ok frags →
    frags.length ≤ physicalCount + 1

structure NetBufferList where
  /-- how many net buffers it has -/
  count : Nat
  pos : 0 < count
  buffer : Nat → NetBuffer
  mss : Nat
  mss_le : mss ≤ bounceBufferSize
  userPriority : Nat

/-- A net buffer, by its list and its place there. -/
structure BufferId where
  list : Nat
  index : Nat
deriving DecidableEq

/-- `CopyNetBufferData` from a net buffer: how many bytes; `mapped` says of which MDLs
`NdisQueryMdl` finds an address. -/
def copyNetBufferData (mapped : Nat → Bool) : List Mdl → Nat → Nat → Nat → Nat → Nat
  | [], _, _, _, _ => 0
  | mdl :: mdls, i, offset, dataLength, size =>
    if dataLength = 0 then 0
    else if ¬mapped i then 0
    else if mdl.byteCount > offset then
      let currLength := min (mdl.byteCount - offset) dataLength
      if currLength ≥ size then size
      else currLength +
        copyNetBufferData mapped mdls (i + 1) 0 (dataLength - currLength) (size - currLength)
    else copyNetBufferData mapped mdls (i + 1) (offset - mdl.byteCount) dataLength size

def getNetBufferData (mapped : Nat → Bool) (nb : NetBuffer) (offset size : Nat) : Nat :=
  copyNetBufferData mapped nb.mdls 0 (offset + nb.currentMdlOffset) nb.dataLength size

/-! ## TX shadows -/

/-- `netif_tx_id_t`. -/
abbrev TxId := Nat

def wrapTxId (index generation : Nat) : TxId := u16 (index + generation * 256)

def invalidTxShadowId : TxId := wrapTxId 0xff 0xff

def txIdIndex (id : TxId) : Fin maxTxFrags := ⟨id % 256, Nat.mod_lt _ (by decide)⟩

def txIdGeneration (id : TxId) : Nat := id / 256

def txIdValid (id : TxId) : Prop := id / 0x8000 % 2 = 0

instance (id : TxId) : Decidable (txIdValid id) := inferInstanceAs (Decidable (_ = 0))

/-- `netif_tx_request_t`, without the checksum flags. -/
structure TxRequest where
  id : TxId
  gref : Option Nat
  size : Nat
  offset : Nat
  moreData : Bool
  extraInfo : Bool
deriving DecidableEq, Inhabited

/-- What goes to a slot of the ring: a request, or the segment size of a large send. -/
inductive TxSlot where
  | request (r : TxRequest)
  | extra (size : Nat)
deriving DecidableEq, Inhabited

/-- `netif_tx_response_t`; the status only matters if it is `NETIF_RSP_NULL`. -/
inductive TxResponse where
  | null
  | done (id : TxId)

structure TxShadow where
  grantRef : Option Nat
  inUse : Bool
  isExtra : Bool
  isFakeArp : Bool
  ownedByBackend : Bool
  next : TxId
  generation : Nat
  buffer : Option BufferId
  request : TxSlot

namespace TxShadow

variable (t : TxShadow)

/-- With another `Next`. -/
def link (id : TxId) : TxShadow := { t with next := id }

/-- Filled in for a fragment. -/
def filled (b : BufferId) (q : TxRequest) : TxShadow :=
  { t with
    buffer := some b, next := invalidTxShadowId, grantRef := q.gref, request := .request q }

/-- Filled in for the extra slot of a large send. -/
def filledExtra (mss : Nat) : TxShadow :=
  { t with next := invalidTxShadowId, isExtra := true, request := .extra (u16 mss) }

def give : TxShadow := { t with ownedByBackend := true }

def unown : TxShadow := { t with ownedByBackend := false }

end TxShadow

structure TxShadowInfo where
  shadow : Fin maxTxFrags → TxShadow
  headFreeId : TxId
  availableShadows : Nat

namespace TxShadowInfo

variable (p : TxShadowInfo)

def set (x : Fin maxTxFrags) (sh : TxShadow) : TxShadowInfo :=
  { p with shadow := Function.update p.shadow x sh }

def getTxShadow (id : TxId) : Except Crash (Fin maxTxFrags) := do
  xmAssert (txIdValid id) .bugCheck
  xmAssert ((p.shadow (txIdIndex id)).generation = txIdGeneration id) .bugCheck
  .ok (txIdIndex id)

def allocateTxShadowId : Except Crash (TxId × TxShadowInfo) := do
  let x ← p.getTxShadow p.headFreeId
  xmAssert (p.availableShadows ≠ 0) .bugCheck
  xmAssert (¬(p.shadow x).inUse) .bugCheck
  let generation := ((p.shadow x).generation + 1) % 128
  let headFreeId := (p.shadow x).next
  let availableShadows := p.availableShadows - 1
  xmAssert (txIdValid headFreeId ∨ availableShadows = 0) .bugCheck
  .ok (wrapTxId x generation,
    { p.set x { p.shadow x with inUse := true, generation, next := invalidTxShadowId } with
      headFreeId, availableShadows })

/-- `TransmitterFreeTxShadowId`; `initial` is for the shadows of a new transmitter. -/
def freeTxShadowId (id : TxId) (initial : Bool) : Except Crash TxShadowInfo := do
  let x ← p.getTxShadow id
  xmAssert (p.availableShadows < maxTxFrags) .bugCheck
  xmAssert (initial ∨ (p.shadow x).inUse) .bugCheck
  xmAssert (¬(p.shadow x).ownedByBackend) .bugCheck
  xmAssert ((p.shadow x).grantRef = none) .bugCheck
  xmAssert (¬(p.shadow x).isExtra) .bugCheck
  xmAssert (¬(p.shadow x).isFakeArp) .bugCheck
  xmAssert ((p.shadow x).buffer = none) .bugCheck
  .ok { p.set x { p.shadow x with
          inUse := initial && (p.shadow x).inUse, next := p.headFreeId } with
        headFreeId := id, availableShadows := p.availableShadows + 1 }

/-- The ids from `id` on. A loop over a chain reads `Next` of a shadow before it changes it and
changes no other shadow, so it is a loop over these. -/
def chainIds : Nat → TxId → Except Crash (List TxId)
  | 0, id => if txIdValid id then .error .spin else .ok []
  | n + 1, id =>
    if txIdValid id then do
      let x ← p.getTxShadow id
      let ids ← chainIds n (p.shadow x).next
      .ok (id :: ids)
    else .ok []

/-- The shadows of a new transmitter before `TransmitterInitialize` frees them. -/
def zeroed : TxShadowInfo where
  shadow _ := ⟨none, false, false, false, false, 0, 0, none, .request ⟨0, none, 0, 0, false, false⟩⟩
  headFreeId := invalidTxShadowId
  availableShadows := 0

/-- The free list after the first `n` shadows are freed. -/
def fresh (n : Nat) : TxShadowInfo where
  shadow x := { zeroed.shadow x with
    next := if x < n then if x.val = 0 then invalidTxShadowId else wrapTxId (x - 1) 0 else 0 }
  headFreeId := if n = 0 then invalidTxShadowId else wrapTxId (n - 1) 0
  availableShadows := n

end TxShadowInfo

/-! ## The state -/

inductive BufferState where
  | unprepared
  | prepared
  | sent
  | completed
  | drop
deriving DecidableEq

/-- `XENNET_NET_BUFFER_RESERVED` of a net buffer that has its magic number. -/
structure Reserved where
  bounced : Bool
  state : BufferState
  physicalBufferCount : Nat
  txShadowHeadId : TxId

/-- What the transmitter reads of its adapter, with its own `PauseState`. -/
structure Adapter where
  isStopped : Bool
  removalPending : Bool
  ringConnected : Bool
  mediaConnected : Bool
  is8021PEnabled : Bool
  pauseRunning : Bool

/-- A call of `TransmitterSendNetBufferLists`: the lists it has still to queue, and whether it has
broken off. -/
structure SendCall where
  rest : List Nat
  paused : Bool

/-- Where `TransmitterHandleNotification` is. -/
inductive Phase where
  | responses (producer : Nat)
  | run
  | event
  | check

/-- What is answered during `TransmitterRun`: the grants of the shadows it allocates, and the MDLs
that can be mapped when a net buffer is copied. -/
structure Answers where
  grant : TxId → Option Nat
  mapped : BufferId → Bool → Nat → Bool

structure State where
  info : TxShadowInfo
  bounceBufferInUse : Bool
  bounceByteCount : Nat
  reserved : BufferId → Option Reserved
  queuedList : List Nat
  queuedCount : Nat
  ring : SharedRing TxSlot TxResponse
  adapter : Adapter
  calls : List SendCall
  notification : Option Phase
  /-- how many net buffer lists NDIS has sent -/
  allocated : Nat
  completions : List Nat
  /-- the lists in the order they were queued -/
  enqueued : List Nat
  /-- the slots filled on this ring, with the net buffer each is for -/
  puts : List (Option BufferId × TxSlot)
  pending : Bool
  /-- how far the back end has checked whether to notify -/
  checked : Nat
  crashed : Option Crash

section Transmitter
variable (lists : Nat → NetBufferList) (s : State)

/-- The net buffers of a list. -/
def buffersOf (k : Nat) : List BufferId := (List.range (lists k).count).map (BufferId.mk k)

namespace State

def queuedBuffers : List BufferId := s.queuedList.flatMap (buffersOf lists)

def setShadow (x : Fin maxTxFrags) (sh : TxShadow) : State := { s with info := s.info.set x sh }

def setReserved (b : BufferId) (r : Reserved) : State :=
  { s with reserved := Function.update s.reserved b (some r) }

/-- The reserved part of a net buffer, with its magic number. -/
def getReserved (b : BufferId) : Except Crash Reserved :=
  match s.reserved b with
  | some r => .ok r
  | none => .error .bugCheck

/-! ## Preparing -/

/-- The bytes that `TransmitterBounceNetBuffer` copies if the bounce buffer is free. -/
def bounceBytes (answers : Answers) (b : BufferId) : Nat :=
  let nb := (lists b.list).buffer b.index
  if (lists b.list).userPriority ≠ 0 then
    getNetBufferData (answers.mapped b false) nb 0 12 + 2 + 2 +
      getNetBufferData (answers.mapped b true) nb 12 (bounceBufferSize - 16)
  else getNetBufferData (answers.mapped b false) nb 0 bounceBufferSize

/-- Too many pieces, or a priority tag to be put in. -/
def needsBounce (b : BufferId) (r : Reserved) : Prop :=
  r.physicalBufferCount ≥ maxFragsPerPacket ∨
    s.adapter.is8021PEnabled ∧ (lists b.list).userPriority ≠ 0

instance (b : BufferId) (r : Reserved) : Decidable (s.needsBounce lists b r) :=
  inferInstanceAs (Decidable (_ ∨ _))

/-- The shadows of the fragments, the one before them being `prev`. The first has an extra one after
it for a large send. -/
def allocateFragments (answers : Answers) (b : BufferId) (mss dataSize : Nat) :
    List Fragment → Option (Fin maxTxFrags) → State → Except Crash State
  | [], _, s => .ok s
  | f :: fs, prev, s => do
    let (id, info) ← s.info.allocateTxShadowId
    let s := { s with info }
    let s ← match prev with
      | some y => .ok (s.setShadow y ((s.info.shadow y).link id))
      | none => do
        let r ← s.getReserved b
        .ok (s.setReserved b { r with txShadowHeadId := id })
    let x ← s.info.getTxShadow id
    xmAssert (s.info.shadow x).inUse .bugCheck
    let request : TxRequest := {
      id
      gref := answers.grant id
      size := u16 (if prev.isNone then dataSize else f.size)
      offset := u16 f.offset
      moreData := !fs.isEmpty
      extraInfo := prev.isNone && mss ≠ 0 }
    let s := s.setShadow x ((s.info.shadow x).filled b request)
    if prev.isNone ∧ mss ≠ 0 then do
      let (id', info) ← s.info.allocateTxShadowId
      let s := { s with info }
      let s := s.setShadow x ((s.info.shadow x).link id')
      let y ← s.info.getTxShadow id'
      let s := s.setShadow y ((s.info.shadow y).filledExtra mss)
      allocateFragments answers b mss dataSize fs (some y) s
    else allocateFragments answers b mss dataSize fs (some x) s

/-- `TransmitterPrepareNetBuffer` from where it knows what to send; `count` is the number of shadows
it counts on. -/
def prepareFragments (answers : Answers) (b : BufferId) (mdls : List Mdl)
    (offset dataSize count : Nat) : Except Crash (Bool × State) := do
  let mss := (lists b.list).mss
  xmAssert (mss ≤ bounceBufferSize) .bugCheck
  let extra := if mss ≠ 0 then 1 else 0
  if count + extra ≥ s.info.availableShadows then .ok (false, s)
  else do
    let frags ← fragments mdls offset dataSize
    let s ← allocateFragments answers b mss dataSize frags none s
    xmAssert (frags ≠ []) .bugCheck
    let nrFrags := frags.length + extra
    xmAssert (nrFrags ≤ extra + count) .bugCheck
    let r ← s.getReserved b
    .ok (true, s.setReserved b
      { r with physicalBufferCount := u16 (nrFrags - extra), state := .prepared })

/-- Prepare what is in the bounce buffer. -/
def prepareBounced (answers : Answers) (b : BufferId) : Except Crash (Bool × State) :=
  s.prepareFragments lists answers b [⟨0, s.bounceByteCount, by decide⟩] 0 s.bounceByteCount
    ((s.bounceByteCount + pageSize - 1) / pageSize)

def prepareNetBuffer (answers : Answers) (b : BufferId) : Except Crash (Bool × State) := do
  let r ← s.getReserved b
  let nb := (lists b.list).buffer b.index
  if s.needsBounce lists b r then
    if r.bounced then s.prepareBounced lists answers b
    else
      let bytesCopied := if s.bounceBufferInUse then 0 else bounceBytes lists answers b
      if bytesCopied = 0 then .ok (false, s)
      else
        let s := { s with bounceBufferInUse := true, bounceByteCount := bytesCopied }
        (s.setReserved b { r with bounced := true }).prepareBounced lists answers b
  else if r.physicalBufferCount ≠ 0 then
    s.prepareFragments lists answers b nb.mdls nb.currentMdlOffset nb.dataLength
      r.physicalBufferCount
  else .ok (true, s.setReserved b { r with state := .completed })

/-- `TransmitterPrepare`, from the net buffer it has come to. -/
def prepareLoop (answers : Answers) : List BufferId → State → Except Crash State
  | [], s => .ok s
  | b :: bs, s => do
    let r ← s.getReserved b
    if r.state = .unprepared then do
      let (prepared, s) ← s.prepareNetBuffer lists answers b
      if prepared then prepareLoop answers bs s else .ok s
    else prepareLoop answers bs s

/-! ## Sending -/

/-- Give a shadow to the back end. -/
def sendShadow (b : BufferId) (s : State) (id : TxId) : Except Crash State := do
  let x ← s.info.getTxShadow id
  xmAssert (s.info.shadow x).inUse .bugCheck
  xmAssert (¬(s.info.shadow x).ownedByBackend) .bugCheck
  let slot := (s.info.shadow x).request
  .ok { s.setShadow x (s.info.shadow x).give with
        ring := s.ring.put slot, puts := s.puts ++ [(some b, slot)] }

def sendNetBuffer (b : BufferId) : Except Crash (Bool × State) := do
  let r ← s.getReserved b
  xmAssert (txIdValid r.txShadowHeadId) .bugCheck
  xmAssert (r.state = .prepared) .bugCheck
  if s.adapter.isStopped ∨ s.adapter.removalPending ∨ ¬s.adapter.ringConnected then .ok (false, s)
  else do
    let ids ← s.info.chainIds maxTxFrags r.txShadowHeadId
    xmAssert (ids.length ≠ 0) .bugCheck
    if s.ring.prodSlotsAvail < ids.length then .ok (false, s)
    else do
      let s ← ids.foldlM (sendShadow b) (s.setReserved b { r with state := .sent })
      .ok (true, s)

/-- `TransmitterSend`, from the net buffer it has come to, with what it has sent. -/
def sendLoop : List BufferId → Nat → State → Except Crash (Nat × State)
  | [], n, s => .ok (n, s)
  | b :: bs, n, s => do
    let r ← s.getReserved b
    if r.state = .prepared then do
      let (done, s) ← s.sendNetBuffer b
      if done then sendLoop bs (n + 1) s else .ok (n, s)
    else sendLoop bs n s

/-- `TransmitterRun`. -/
def run (answers : Answers) : Except Crash State := do
  let s ← prepareLoop lists answers (s.queuedBuffers lists) s
  let (sent, s) ← sendLoop (s.queuedBuffers lists) 0 s
  xmAssert (sent ≠ 0 → s.adapter.ringConnected) .bugCheck
  .ok { s with ring := s.ring.pushRequests }

def sendFakeArp (gref : Option Nat) : Except Crash State :=
  if s.info.availableShadows = 0 ∨ s.ring.full then .ok s
  else do
    let (id, info) ← s.info.allocateTxShadowId
    let x ← info.getTxShadow id
    let slot := TxSlot.request ⟨id, gref, 42, 0, false, false⟩
    .ok { s with
      info := info.set x { info.shadow x with
        grantRef := gref, isFakeArp := true, ownedByBackend := true, next := invalidTxShadowId
        request := slot }
      ring := s.ring.put slot
      puts := s.puts ++ [(none, slot)] }

/-! ## Completing -/

/-- `MaybeCompleteNetBufferList` looks whether all are completed. -/
def allCompleted : List BufferId → Except Crash Bool
  | [] => .ok true
  | b :: bs => do
    let r ← s.getReserved b
    if r.state ≠ .completed then .ok false else allCompleted bs

def maybeCompleteNetBufferList (k : Nat) : Except Crash State := do
  let completed ← s.allCompleted (buffersOf lists k)
  if completed then
    .ok { s with
      queuedList := s.queuedList.erase k
      queuedCount := s.queuedCount - 1
      reserved := fun b => if b ∈ buffersOf lists k then none else s.reserved b
      completions := s.completions ++ [k] }
  else .ok s

def cleanupShadow (b : BufferId) (s : State) (id : TxId) : Except Crash State := do
  let x ← s.info.getTxShadow id
  let sh := s.info.shadow x
  xmAssert (sh.isExtra ∨ sh.buffer = some b) .bugCheck
  let sh := if sh.isExtra then { sh with isExtra := false, ownedByBackend := false }
    else { sh with buffer := none, grantRef := none }
  let info ← (s.info.set x sh).freeTxShadowId id false
  .ok { s with info }

def cleanupNetBuffer (b : BufferId) : Except Crash State := do
  let r ← s.getReserved b
  xmAssert (txIdValid r.txShadowHeadId) .bugCheck
  let ids ← s.info.chainIds maxTxFrags r.txShadowHeadId
  let s ← ids.foldlM (cleanupShadow b) s
  .ok (s.setReserved b { r with txShadowHeadId := invalidTxShadowId })

/-- A net buffer is through: the end of its last response, or of a dropped one. -/
def completeNetBuffer (b : BufferId) (r : Reserved) : Except Crash State := do
  let s ← (s.setReserved b { r with state := .completed }).cleanupNetBuffer b
  if r.bounced then do
    xmAssert s.bounceBufferInUse .bugCheck
    .ok { s with bounceBufferInUse := false }
  else .ok s

/-- `TransmitterHandleNotification`, for one response. -/
def handleResponse : TxResponse → Except Crash State
  | .null => .ok { s with ring := s.ring.consume }
  | .done id => do
    let s := { s with ring := s.ring.consume }
    let x ← s.info.getTxShadow id
    xmAssert (¬(s.info.shadow x).isExtra) .bugCheck
    xmAssert (s.info.shadow x).ownedByBackend .bugCheck
    let s := s.setShadow x (s.info.shadow x).unown
    if (s.info.shadow x).isFakeArp then do
      let info ← (s.info.set x { s.info.shadow x with isFakeArp := false, grantRef := none })
        |>.freeTxShadowId id false
      .ok { s with info }
    else
      match (s.info.shadow x).buffer with
      | none => .error .bugCheck
      | some b => do
        let r ← s.getReserved b
        xmAssert (r.physicalBufferCount ≠ 0) .bugCheck
        let r := { r with physicalBufferCount := r.physicalBufferCount - 1 }
        if r.physicalBufferCount ≠ 0 then .ok (s.setReserved b r)
        else do
          xmAssert (r.state = .sent) .bugCheck
          let s ← s.completeNetBuffer b r
          s.maybeCompleteNetBufferList lists b.list

/-- How far ahead `rsp_event` is set. -/
def eventDelta : Nat :=
  let delta := sub32 s.ring.reqProd s.ring.rspCons
  if delta = 0 ∨ delta ≥ 2 ^ 31 then 1 else min delta 64

/-- The rule of `RING_PUSH_RESPONSES_AND_CHECK_NOTIFY`. -/
def crossesEvent : Bool :=
  sub32 s.ring.rspProd s.ring.rspEvent < sub32 s.ring.rspProd s.checked

/-! ## Suspend -/

/-- `TransmitterResumeEarly`, in `AdapterResumeEarly`. -/
def resumeEarly : State :=
  { s with
    adapter := { s.adapter with ringConnected := false }
    ring := .fresh maxTxFrags
    puts := []
    pending := false
    checked := 0
    reserved := fun b =>
      if b ∈ s.queuedBuffers lists then
        (s.reserved b).map fun r => if r.state = .sent then { r with state := .drop } else r
      else s.reserved b }

/-- Take a fragment back from the old back end, with the count of those it has. -/
def returnShadow (acc : State × Nat) (id : TxId) : Except Crash (State × Nat) := do
  let (s, n) := acc
  let x ← s.info.getTxShadow id
  xmAssert (¬(s.info.shadow x).isFakeArp) .bugCheck
  if (s.info.shadow x).ownedByBackend ∧ ¬(s.info.shadow x).isExtra then do
    xmAssert (n ≠ 0) .bugCheck
    .ok (s.setShadow x (s.info.shadow x).unown, n - 1)
  else .ok (s, n)

/-- `TransmitterResumeLate`, for one net buffer. -/
def resumeBuffer (s : State) (b : BufferId) : Except Crash State := do
  let r ← s.getReserved b
  if r.state = .drop then do
    let ids ← s.info.chainIds maxTxFrags r.txShadowHeadId
    let (s, n) ← ids.foldlM returnShadow (s, r.physicalBufferCount)
    xmAssert (n = 0) .bugCheck
    s.completeNetBuffer b { r with physicalBufferCount := n }
  else .ok s

/-- `TransmitterResumeLate`, for one net buffer list. -/
def resumeList (s : State) (k : Nat) : Except Crash State := do
  let s ← (buffersOf lists k).foldlM resumeBuffer s
  s.maybeCompleteNetBufferList lists k

/-- `TransmitterResumeLate`, up to its call of `TransmitterRestart`. -/
def resumeLate : Except Crash State := s.queuedList.foldlM (resumeList lists) s

/-! ## Sends -/

/-- A net buffer that `TransmitterSendNetBufferLists` has just got. -/
def newReserved (nb : NetBuffer) : Reserved :=
  ⟨false, .unprepared, u16 (u16 nb.physicalCount + 1), invalidTxShadowId⟩

/-- `TransmitterSendNetBufferLists` with its next list `k`: queue it, or break off. -/
def sendNext (i : Nat) (call : SendCall) (k : Nat) : Except Crash State := do
  xmAssert (∀ j < (lists k).count, ((lists k).buffer j).dataLength ≤ bounceBufferSize) .bugCheck
  let reserved := fun b =>
    if b ∈ buffersOf lists k then some (newReserved ((lists k).buffer b.index)) else s.reserved b
  if ¬s.adapter.pauseRunning ∨ ¬s.adapter.mediaConnected then
    .ok { s with reserved, calls := s.calls.set i { call with paused := true } }
  else
    .ok { s with
      reserved
      queuedList := s.queuedList ++ [k]
      queuedCount := s.queuedCount + 1
      enqueued := s.enqueued ++ [k]
      calls := s.calls.set i { call with rest := call.rest.tail } }

/-- The end of `TransmitterSendNetBufferLists`; `AdapterSendNetBufferLists` then completes what was
not queued. -/
def sendDone (answers : Answers) (i : Nat) (call : SendCall) : Except Crash State := do
  let s ← s.run lists answers
  .ok { s with calls := s.calls.eraseIdx i, completions := s.completions ++ call.rest }

end State

end Transmitter

/-! ## The machine -/

inductive Act where
  /-- NDIS sends a number of lists -/
  | sendBegin (n : Nat)
  | sendNext (call : Nat)
  | sendDone (call : Nat) (answers : Answers)
  /-- `TransmitterRun` from elsewhere, such as the end of `TransmitterResumeLate` -/
  | run (answers : Answers)
  | notifyBegin
  | notifyResponse
  | notifyCheck
  | notifyRun (answers : Answers)
  | notifyEvent
  | notifyEnd
  | sendFakeArp (gref : Option Nat)
  | resumeEarly
  | resumeLate
  | adapter (a : Adapter)
  | backTake
  | backAnswer (slot : TxSlot)
  /-- `RING_PUSH_RESPONSES_AND_CHECK_NOTIFY` looks at `rsp_event` -/
  | backCheck

/-- The answer to a slot: extra ones have `NETIF_RSP_NULL`. -/
def TxSlot.response : TxSlot → TxResponse
  | .request r => .done r.id
  | .extra _ => .null

section Machine
variable (lists : Nat → NetBufferList)

/-- What happens under the lock, or on a processor that has stopped the others. -/
def lockedAct (s : State) : Act → Option (Except Crash State)
  | .sendNext i =>
    match s.calls[i]? with
    | some ⟨k :: rest, false⟩ => some (s.sendNext lists i ⟨k :: rest, false⟩ k)
    | _ => none
  | .sendDone i answers =>
    match s.calls[i]? with
    | some call =>
      if call.paused ∨ call.rest = [] then some (s.sendDone lists answers i call) else none
    | none => none
  | .run answers => some (s.run lists answers)
  | .notifyBegin =>
    some (.ok { s with
      pending := false
      notification :=
        if s.ring.hasUnconsumedResponses then some (.responses s.ring.rspProd) else none })
  | .sendFakeArp gref => some (s.sendFakeArp gref)
  | .resumeEarly => some (.ok (s.resumeEarly lists))
  | .resumeLate => some (s.resumeLate lists)
  | _ => none

/-- The steps of `TransmitterHandleNotification`. -/
def notifyAct (s : State) : Phase → Act → Option (Except Crash State)
  | .responses producer, .notifyResponse =>
    if s.ring.rspCons ≠ producer then
      match s.ring.getResponse with
      | some rsp => some (s.handleResponse lists rsp)
      | none => some (.error .bugCheck)
    else none
  | .responses producer, .notifyCheck =>
    if s.ring.rspCons = producer then
      some (.ok { s with
        notification :=
          some (if s.ring.hasUnconsumedResponses then .responses s.ring.rspProd else .run) })
    else none
  | .run, .notifyRun answers =>
    some do
      let s ← s.run lists answers
      .ok { s with notification := some .event }
  | .event, .notifyEvent =>
    some (.ok { s with
      ring := { s.ring with rspEvent := u32 (s.ring.rspCons + s.eventDelta) }
      notification := some .check })
  | .check, .notifyEnd =>
    some (.ok { s with
      notification :=
        if s.ring.hasUnconsumedResponses then some (.responses s.ring.rspProd) else none })
  | _, _ => none

def act (s : State) : Act → Option (Except Crash State)
  | .sendBegin n =>
    some (.ok { s with
      allocated := s.allocated + n
      calls := s.calls ++ [⟨List.range' s.allocated n,
        s.adapter.isStopped || s.adapter.removalPending⟩] })
  | .adapter adapter => some (.ok { s with adapter })
  | .backTake => s.ring.take.map fun ring => .ok { s with ring }
  | .backAnswer slot =>
    if slot ∈ s.ring.taken then some (.ok { s with ring := s.ring.answer slot slot.response })
    else none
  | .backCheck =>
    some (.ok { s with
      checked := s.ring.rspProd
      pending := s.pending || s.crossesEvent })
  | a =>
    match s.notification with
    | none => lockedAct lists s a
    | some phase => notifyAct lists s phase a

/-- A failed assertion stops the system. -/
def step (s : State) (a : Act) : Option State :=
  if s.crashed.isSome then none
  else (act lists s a).map fun
    | .ok t => t
    | .error c => { s with crashed := some c }

/-- A transmitter that `TransmitterInitialize` has set up. -/
def init (adapter : Adapter) : State where
  info := .fresh maxTxFrags
  bounceBufferInUse := false
  bounceByteCount := 0
  reserved _ := none
  queuedList := []
  queuedCount := 0
  ring := .fresh maxTxFrags
  adapter
  calls := []
  notification := none
  allocated := 0
  completions := []
  enqueued := []
  puts := []
  pending := false
  checked := 0
  crashed := none

def machine (adapter : Adapter) : Machine State Act := ⟨init adapter, step lists⟩

end Machine

end XcWindows.Xennet6
