import Mathlib.Data.List.FinRange
import XcWindows.Lib.Machine
import XcWindows.Lib.Links
import XcWindows.Lib.SharedRing
import XcWindows.Xennet6.Shadows

/-!
# The receiver of xennet6

`net/receiver_common.c` and `net/xennet6/receiver.c`. A receive frame descriptor (RFD) is a page with
its MDL. It is offered to the back end under the id of a free shadow, comes back with a response,
goes up to NDIS in a net buffer list and from there to the return list, and is then kept in a cache
or freed. `PendingRfds`, `NumCachedRfds`, `NrFreeIds` and `CurrNumRfd` are counted along the way.

A net buffer list is the list of its RFDs. Everything but the return of net buffer lists is done
under the receiver's lock or with the other processors stopped; a return takes effect with the
exchange that succeeds. What the allocator answers is chosen with the step. A failed assertion stops
the system.
-/

namespace XcWindows.Xennet6.Rx

open XcWindows.Lib

/-- `MAX_RX_FRAGS`, which is also the size of the ring. -/
abbrev maxRxFrags : Nat := 256

abbrev Id := Fin maxRxFrags

/-- RFDs are numbered as they are allocated. -/
abbrev RfdId := Nat

/-- An `MP_RFD`: whether it has its page, whether its MDL points there, and its grant reference. -/
structure Rfd where
  receiveBufferVirt : Bool
  startVa : Bool
  gref : Bool
deriving DecidableEq

/-- `RX_SHADOW`; `none` for `Next` is `INVALID_RX_SHADOW_ID`. -/
structure RxShadow where
  rfd : Option RfdId
  inUse : Bool
  next : Option Id
deriving DecidableEq

/-- The flags `NETRXF_gso_prefix` and `NETRXF_more_data`, and whether there is one that no fragment may
have. -/
structure RxFlags where
  gsoPrefix : Bool
  moreData : Bool
  otherFlags : Bool
deriving DecidableEq

/-- `netif_rx_response_t`, of whose status it matters whether it is an error. -/
structure RxResponse extends RxFlags where
  id : Id
  failed : Bool
deriving DecidableEq

/-- A whole packet, as the back end answers: `NETRXF_more_data` is on all responses but the last, and
`NETRXF_gso_prefix` on none but the first. -/
def isPacket {α : Type} (flags : α → RxFlags) : Bool → List α → Bool
  | _, [] => false
  | _, [y] => !(flags y).moreData && !(flags y).gsoPrefix && !(flags y).otherFlags
  | first, y :: ys =>
    (flags y).moreData && (if (flags y).gsoPrefix then first else !(flags y).otherFlags) &&
      isPacket flags false ys

/-- What there is memory for when an RFD is allocated. -/
inductive Memory where
  | both
  | noRfd
  | noPage
deriving DecidableEq

inductive Phase where
  | fresh
  | running
  | cleaned
deriving DecidableEq

structure State where
  shadow : Id → RxShadow
  nextFreeId : Option Id
  nrFreeIds : Nat
  pendingRfds : Nat
  rfd : RfdId → Rfd
  allocated : Nat
  rfdCache : List RfdId
  numCachedRfds : Nat
  currNumRfd : Nat
  grantCache : Nat
  ring : SharedRing Id RxResponse
  /-- the net buffer lists a run of `ReceiverHandleNotification` has built -/
  made : List (List RfdId)
  inNdis : List (List RfdId)
  returnList : List (List RfdId)
  nRxInNdis : Nat
  phase : Phase
  /-- how many pages there was no memory for -/
  pageFailures : Nat
  crashed : Option Crash

namespace State

variable (s : State)

def setShadow (x : Id) (sh : RxShadow) : State := { s with shadow := Function.update s.shadow x sh }

def setRfd (r : RfdId) (d : Rfd) : State := { s with rfd := Function.update s.rfd r d }

/-! ## Shadows -/

def allocateShadow : Except Crash (Id × State) :=
  if s.nrFreeIds = 0 then .error .bugCheck
  else
    match s.nextFreeId with
    | none => .error .bugCheck
    | some id => do
      let sh := s.shadow id
      xmAssert (sh.inUse = false) .bugCheck
      xmAssert (sh.rfd = none) .bugCheck
      xmAssert (s.nrFreeIds - 1 = 0 ∨ sh.next ≠ none) .bugCheck
      .ok (id, { s.setShadow id { sh with inUse := true, next := none } with
        nrFreeIds := s.nrFreeIds - 1, nextFreeId := sh.next })

def freeShadow (id : Id) (check : Bool) : Except Crash State := do
  let sh := s.shadow id
  xmAssert (check = false ∨ sh.inUse = true) .bugCheck
  xmAssert (sh.rfd = none) .bugCheck
  xmAssert (check = false ∨ sh.next = none) .bugCheck
  .ok { s.setShadow id { sh with inUse := false, next := s.nextFreeId } with
    nextFreeId := some id
    nrFreeIds := if s.nrFreeIds < maxRxFrags then s.nrFreeIds + 1 else s.nrFreeIds }

/-! ## RFDs -/

/-- `ReceiverCommonReceiveRfd`. The back end keeps no mapping of a page that it has answered for, so that
`GnttabEndForeignAccessCache` succeeds, as the code asserts. -/
def receiveRfd (id : Id) : Except Crash (RfdId × State) := do
  let rfd := (s.shadow id).rfd
  let s ← (s.setShadow id { s.shadow id with rfd := none }).freeShadow id true
  match rfd with
  | none => .error .bugCheck
  | some r =>
    .ok (r, { s.setRfd r { s.rfd r with gref := false } with
      grantCache := s.grantCache + 1, pendingRfds := s.pendingRfds - 1 })

def releaseRfd (r : RfdId) (toCache : Bool) : Except Crash State := do
  xmAssert ((s.rfd r).startVa = (s.rfd r).receiveBufferVirt) .bugCheck
  xmAssert ((s.rfd r).gref = false) .bugCheck
  if toCache && s.numCachedRfds < 64 then do
    xmAssert (s.rfdCache = [] ↔ s.numCachedRfds = 0) .bugCheck
    .ok { s with numCachedRfds := s.numCachedRfds + 1, rfdCache := r :: s.rfdCache }
  else .ok { s with currNumRfd := sub32 s.currNumRfd 1 }

def allocateRfd (memory : Memory) : Except Crash (Option RfdId × State) :=
  match s.rfdCache with
  | r :: rest => do
    xmAssert (rest = [] ↔ s.numCachedRfds - 1 = 0) .bugCheck
    .ok (some r, { s with rfdCache := rest, numCachedRfds := s.numCachedRfds - 1 })
  | [] =>
    match memory with
    | .noRfd => .ok (none, s)
    | .noPage => do
      -- the zeroed RFD goes to the routine that releases whole ones
      let s ← ({ s.setRfd s.allocated ⟨false, false, false⟩ with
        allocated := s.allocated + 1, pageFailures := s.pageFailures + 1 }).releaseRfd s.allocated false
      .ok (none, s)
    | .both =>
      .ok (some s.allocated, { s.setRfd s.allocated ⟨true, true, false⟩ with
        allocated := s.allocated + 1, currNumRfd := u32 (s.currNumRfd + 1) })

def returnRfd (r : RfdId) (id : Id) : Except Crash State := do
  xmAssert ((s.rfd r).gref = false) .bugCheck
  xmAssert (s.grantCache ≠ 0) .bugCheck
  .ok { s.setRfd r { s.rfd r with gref := true } with
    grantCache := s.grantCache - 1
    pendingRfds := s.pendingRfds + 1
    ring := s.ring.put id }

/-- The loop of `ReceiverCommonReplenishRxRing`, with `fuel` turns at most. -/
def replenishLoop (memory : Nat → Memory) : Nat → State → Except Crash State
  | 0, s => if s.nrFreeIds = 0 then .ok s else .error .spin
  | fuel + 1, s =>
    if s.nrFreeIds = 0 then .ok s
    else do
      let (id, s) ← s.allocateShadow
      let (rfd, s) ← s.allocateRfd (memory fuel)
      match rfd with
      | none => s.freeShadow id true
      | some r => do
        let s ← (s.setShadow id { s.shadow id with rfd := some r }).returnRfd r id
        replenishLoop memory fuel s

def replenishRxRing (memory : Nat → Memory) : Except Crash State := do
  let s ← replenishLoop memory s.nrFreeIds s
  .ok { s with ring := s.ring.pushRequests }

/-- Take back and free the RFD under an id that is in use. -/
def dropPending (s : State) (id : Id) : Except Crash State :=
  if (s.shadow id).inUse then do
    let (r, s) ← s.receiveRfd id
    s.releaseRfd r false
  else .ok s

def dropAll : Except Crash State := do
  let s ← (List.finRange maxRxFrags).foldlM dropPending s
  xmAssert (s.pendingRfds = 0) .bugCheck
  xmAssert (s.nrFreeIds = maxRxFrags) .bugCheck
  .ok s

def restartEarly : Except Crash State := dropAll { s with ring := .fresh maxRxFrags }

/-- The loop of `ReceiverCommonCleanupBuffers` over the cache. -/
def dropCached : List RfdId → State → Except Crash State
  | [], s => do
    xmAssert (s.numCachedRfds = 0) .bugCheck
    .ok s
  | r :: rest, s =>
    if s.numCachedRfds = 0 then .ok s
    else do
      let s ← { s with rfdCache := rest, numCachedRfds := s.numCachedRfds - 1 }.releaseRfd r false
      dropCached rest s

/-- `ReceiverCleanup` and `ReceiverCommonCleanupBuffers` -/
def cleanupBuffers (tearDown : Bool) : Except Crash State := do
  let s ← dropAll (if tearDown then { s with nrFreeIds := maxRxFrags } else s)
  let s ← dropCached s.rfdCache s
  xmAssert (s.currNumRfd = 0) .bugCheck
  .ok { s with phase := .cleaned }

/-! ## Packets -/

/-- What `ReceiverCommonReceiveRfdChain` has got together. -/
structure Packet where
  prefixRfd : Option RfdId
  chain : List RfdId
  failed : Bool

/-- `ReceiverCommonReceiveRfdChain`, with `fuel` responses at most. -/
def receiveRfdChain : Nat → Packet → State → Except Crash (Packet × State)
  | 0, _, _ => .error .spin
  | fuel + 1, p, s =>
    match s.ring.getResponse with
    | none => .error .bugCheck
    | some response => do
      let (r, s) ← s.receiveRfd response.id
      let failed := p.failed || response.failed
      let p ←
        if response.gsoPrefix then do
          xmAssert (response.moreData = true) .bugCheck
          .ok { p with prefixRfd := some r, failed }
        else do
          xmAssert (response.otherFlags = false) .bugCheck
          .ok { p with chain := p.chain ++ [r], failed }
      let s := { s with ring := s.ring.consume }
      if response.moreData then receiveRfdChain fuel p s else .ok (p, s)

def releaseMdlChain (rs : List RfdId) (s : State) : Except Crash State :=
  rs.foldlM (fun s r => s.releaseRfd r true) s

/-- How a packet is received: whether anybody wants it, whether `ReceiverCreatePrefix` can split it,
and whether there is memory for the two net buffer lists. -/
structure Reception where
  wanted : Bool
  split : Bool
  list : Bool
  prefixList : Bool

/-- `discard:` in `ReceiverReceiveBufferList` -/
def discard (prefixRfd : Option RfdId) (chain : List RfdId) (s : State) : Except Crash State := do
  let s ← releaseMdlChain prefixRfd.toList s
  releaseMdlChain chain s

def receiveBufferList (how : Reception) : Except Crash State := do
  let (p, s) ← receiveRfdChain maxRxFrags ⟨none, [], false⟩ s
  if p.failed || !how.wanted then discard p.prefixRfd p.chain s
  else do
    let (prefixRfd, s) ←
      if how.split then Except.ok (p.prefixRfd, s)
      else do
        let s ← releaseMdlChain p.prefixRfd.toList s
        Except.ok (none, s)
    if !how.list then discard prefixRfd p.chain s
    else
      match prefixRfd with
      | none => .ok { s with made := s.made ++ [p.chain] }
      | some r =>
        if !how.prefixList then discard (some r) p.chain s
        else .ok { s with made := s.made ++ [[r], p.chain] }

/-- A net buffer list that has come back. -/
def releaseNetBufferList (s : State) (nbl : List RfdId) : Except Crash State := do
  let s ← releaseMdlChain nbl s
  xmAssert (s.nRxInNdis ≠ 0) .bugCheck
  .ok { s with nRxInNdis := s.nRxInNdis - 1 }

def swizzle (memory : Nat → Memory) : Except Crash State := do
  let s ← s.returnList.foldlM releaseNetBufferList { s with returnList := [] }
  s.replenishRxRing memory

/-- The end of `ReceiverHandleNotification`. -/
def indicate : State :=
  { s with
    nRxInNdis := s.nRxInNdis + s.made.length
    inNdis := s.inNdis ++ s.made
    made := [] }

/-- `ReceiverCommonInitializeBuffers` behind the set-up of the shadows. -/
def initializeBuffers (memory : Nat → Memory) : Except Crash State := do
  let s ← s.replenishRxRing memory
  xmAssert (s.ring.reqProd = s.pendingRfds) .bugCheck
  .ok { s with phase := .running }

end State

/-! ## Runs -/

inductive Act where
  | initializeBuffers (memory : Nat → Memory)
  | backTake
  | backPacket (ys : List RxResponse)
  | receive (how : State.Reception)
  | swizzle (memory : Nat → Memory)
  | indicate
  | returnLists (nbls : List (List RfdId))
  | restartEarly
  | restartLate (memory : Nat → Memory)
  | cleanupBuffers (tearDown : Bool)

/-- A run of `ReceiverHandleNotification` receives, swizzles and indicates. A return brings back any
of the lists NDIS has; the buffers are cleaned up once it has brought back all of them
(`ReceiverWaitForPacketReturn`). -/
def act (s : State) : Act → Option (Except Crash State)
  | .initializeBuffers memory =>
    if s.phase = .fresh then some (s.initializeBuffers memory) else none
  | a =>
    if s.phase ≠ .running then none
    else
      match a with
      | .initializeBuffers _ => none
      | .backTake => s.ring.take.map fun ring => .ok { s with ring }
      | .backPacket ys =>
        if isPacket RxResponse.toRxFlags true ys ∧ (ys.map (·.id)).Nodup ∧ ∀ y ∈ ys, y.id ∈ s.ring.taken then
          some (.ok { s with ring := ys.foldl (fun ring y => ring.answer y.id y) s.ring })
        else none
      | .receive how =>
        if s.ring.hasUnconsumedResponses then some (s.receiveBufferList how) else none
      | .swizzle memory => some (s.swizzle memory)
      | .indicate => some (.ok s.indicate)
      | .returnLists nbls =>
        if nbls ≠ [] ∧ nbls.Subperm s.inNdis then
          some (.ok { s with inNdis := s.inNdis.diff nbls, returnList := nbls ++ s.returnList })
        else none
      | .restartEarly => some s.restartEarly
      | .restartLate memory => some (s.replenishRxRing memory)
      | .cleanupBuffers tearDown =>
        if s.nRxInNdis = 0 ∧ s.made = [] then some (s.cleanupBuffers tearDown) else none

/-- A failed assertion stops the system. -/
def step (s : State) (a : Act) : Option State :=
  if s.crashed.isSome then none
  else (act s a).map fun
    | .ok t => t
    | .error c => { s with crashed := some c }

/-- A zeroed receiver with its ring and its grant cache, the first `n` shadows freed. -/
def fresh (n : Nat) : State where
  shadow x := ⟨none, false,
    if x.val < n then if h : 0 < x.val then some ⟨x.val - 1, by omega⟩ else none else some 0⟩
  nextFreeId := if h : 0 < n ∧ n ≤ maxRxFrags then some ⟨n - 1, by omega⟩ else none
  nrFreeIds := n
  pendingRfds := 0
  rfd _ := ⟨false, false, false⟩
  allocated := 0
  rfdCache := []
  numCachedRfds := 0
  currNumRfd := 0
  grantCache := maxRxFrags
  ring := .fresh maxRxFrags
  made := []
  inNdis := []
  returnList := []
  nRxInNdis := 0
  phase := .fresh
  pageFailures := 0
  crashed := none

def machine : Machine State Act := ⟨fresh maxRxFrags, step⟩

end XcWindows.Xennet6.Rx
