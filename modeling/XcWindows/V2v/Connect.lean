import Mathlib.Algebra.Group.Int.Defs
import Mathlib.Algebra.Group.Nat.Defs
import Mathlib.Data.List.TakeWhile
import XcWindows.Lib.Prog
import XcWindows.V2v.Ring

/-!
# Connecting to a listener

`v2v_connect` reads what the listener published in xenstore, maps its rings and the control page,
binds its two event channels and commits the transaction; a conflict makes it start over with a new
channel. An `Attempt` holds every answer one pass of the loop gets: the values read, and for each
call into the rest of the system whether it succeeds. `Held` counts what the driver has of each
kind of resource, so that what is left behind a failure can be compared with what was there before.
`GntmapMapGrants` is modelled down to the single page.

The orders are `int`s that the peer chose. `shl32` is the shift of x86, which uses five bits of its
count, so that `1 << order` is some number of pages for a negative order as well.
-/

namespace XcWindows.V2v

open Lib
open Function (update)

def maxRingPageOrder : Int := 4

def maxRingPages : Nat := 16

/-- The most pages `GntmapMapGrants` maps: `(32768 - sizeof(MDL)) / sizeof(PFN_NUMBER)` on amd64. -/
def maxMdlPages : Nat := 4090

/-- Conversion to a 32-bit `int`. -/
@[irreducible] def int32 (z : Int) : Int := (z + 2147483648) % 4294967296 - 2147483648

/-- `a << n` -/
def shl32 (a n : Int) : Int := int32 (a * 2 ^ (n % 32).toNat)

/-- Conversion of an `int` to `unsigned`. -/
@[irreducible] def unsigned (z : Int) : Nat := (z % 4294967296).toNat

/-- `1 << order` -/
def orderPages (order : Int) : Int := shl32 1 order

inductive Status where
  | noMemory
  | invalidParameter
  | noSuchDevice
  | dataError
  | insufficientResources
  | unsuccessful
  | accessViolation
  | other (code : Nat)
deriving DecidableEq

/-- What the listener's grants map to: its producer ring, its consumer ring and the control page. -/
inductive Region where
  | prod
  | cons
  | control
deriving DecidableEq

/-- The nodes `v2v_connect` reads: the first two under the local prefix, the others under the
listener's. -/
inductive Key where
  | backend
  | peerDomid
  | state
  | prodOrder
  | consOrder
  | controlGref
  | prodEvtchn
  | consEvtchn
  | prodGref (x : Nat)
  | consGref (x : Nat)
deriving DecidableEq

/-- What `MmMapLockedPagesSpecifyCache` does. -/
inductive MapVa where
  | mapped
  | null
  | raises
deriving DecidableEq

/-- The answers to one call of `v2v_xenops_grant_map`. -/
structure MapEnv where
  ops : Bool
  work : Bool
  pfn : Nat → Bool
  hypercall : Bool
  status : Nat → Bool
  va : MapVa

/-- How `xenbus_transaction_end` answers. -/
inductive Commit where
  | done
  | retry
  | failed (status : Status)
deriving DecidableEq

/-- The answers one pass of the loop gets. -/
structure Attempt where
  channel : Bool
  localPrefix : Bool
  read : Key → Except Status (List UInt8)
  remotePrefix : Bool
  watch : Bool
  map : Region → MapEnv
  receivePort : Bool
  sendPort : Bool
  changeState : Option Status
  commit : Commit

/-- The kinds of resources. -/
inductive Kind where
  | memory
  | callback
  | transaction
  | watch
  | pfn
  | grant
  | va
  | port
deriving DecidableEq

/-- How many the driver has of each. -/
abbrev Held := Kind → Int

def Held.add (h : Held) (k : Kind) (n : Int) : Held := fun k' => if k' = k then h k' + n else h k'

/-- A supplicant's `struct v2v_channel`. `detail` has `nr_grefs` of each `struct grant_map_detail`,
`va` tells whether the pointer to the region is set. -/
structure Channel where
  localPrefix : Bool
  remotePrefix : Bool
  remoteStateWatch : Bool
  peerDomid : Int
  grefs : Region → List Int
  prodEvtchnPort : Int
  consEvtchnPort : Int
  detail : Region → Option Nat
  va : Region → Bool
  receiveEvtchnPort : Bool
  sendEvtchnPort : Bool
  nrProdRingPages : Nat
  nrConsRingPages : Nat
  producerPayloadBytes : Nat
  consumerPayloadBytes : Nat

/-- The locals of `v2v_connect` with the resources held. -/
structure Connect where
  held : Held
  chan : Channel
  producerRingOrder : Int
  consumerRingOrder : Int

/-- Why a pass of the loop does not reach its end; behind a store past the end of an array or a
failed assertion there is nothing to go on with. -/
inductive Stop where
  | status (s : Status)
  | overrun
  | assertion
deriving DecidableEq

/-! ## Numbers from xenstore -/

/-- A value as C sees it, up to its first NUL. -/
def cstr (raw : List UInt8) : List UInt8 := raw.takeWhile (· ≠ 0)

def ascii (s : String) : List UInt8 := s.toList.map fun c => .ofNat c.toNat

section Parameters

-- RtlUnicodeStringToInteger with base 10, behind the conversion to Unicode
variable (toInteger : List UInt8 → Option Int)

/-- `v2v_string_to_num`; strings from `V2V_SAFE_INT_STRING` on are refused. -/
def stringToNum (raw : List UInt8) : Option Int :=
  let str := cstr raw
  if str.length = 0 || 25 ≤ str.length then none else toInteger str

/-- `v2v_xenstore_gather` of one node. -/
def gather (a : Attempt) (k : Key) : Except Status Int := do
  let raw ← a.read k
  match stringToNum toInteger raw with
  | some n => .ok n
  | none => .error .invalidParameter

/-- Go on with a value, or stop. -/
def orStop {α : Type} (r : Except Status α) (f : α → Connect → Except (Stop × Connect) Connect) :
    Prog Connect Stop := fun s =>
  match r with
  | .ok x => f x s
  | .error e => .error (.status e, s)

/-! ## Mapping grants -/

/-- `GntmapUnmapGrants`, with what of the pages was set up. -/
def gntmapUnmapGrants (h : Held) (pfns grants : Nat) : Held :=
  ((h.add .grant (-grants)).add .pfn (-pfns)).add .memory (-1)

def gntmapMapGrants (e : MapEnv) (nrGrefs : Nat) (h : Held) : Except Stop Unit × Held :=
  if nrGrefs > maxMdlPages then (.error (.status .invalidParameter), h)
  else if !e.work then (.error (.status .insufficientResources), h)
  -- the unwinding checks the flags of an MDL that was not filled in yet
  else if !e.ops then (.error .assertion, h)
  else
    let h := h.add .memory 2
    let pfns := ((List.range nrGrefs).takeWhile e.pfn).length
    let h := h.add .pfn pfns
    if pfns < nrGrefs then
      (.error (.status .insufficientResources), gntmapUnmapGrants (h.add .memory (-1)) pfns 0)
    else if !e.hypercall then
      (.error (.status .unsuccessful), gntmapUnmapGrants (h.add .memory (-1)) pfns 0)
    else
      let grants := ((List.range nrGrefs).filter e.status).length
      let h := (h.add .grant grants).add .memory (-1)
      if grants < nrGrefs then
        (.error (.status .unsuccessful), gntmapUnmapGrants h pfns grants)
      else (.ok (), h)

def grantMap (a : Attempt) (k : Region) (nrGrefs : Nat) : Prog Connect Stop := fun s =>
  match gntmapMapGrants (a.map k) nrGrefs s.held with
  | (.error e, h) => .error (e, { s with held := h })
  | (.ok _, h) =>
    match (a.map k).va with
    | .mapped =>
      .ok { s with
        held := h.add .va 1
        chan.detail := update s.chan.detail k (some nrGrefs)
        chan.va := update s.chan.va k true }
    | .null => .ok { s with held := h, chan.detail := update s.chan.detail k (some nrGrefs) }
    | .raises =>
      .error (.status .accessViolation, { s with held := gntmapUnmapGrants h nrGrefs nrGrefs })

/-- `v2v_xenops_grant_unmap`; `MmUnmapLockedPages` needs an MDL that is mapped. -/
def grantUnmap (c : Channel) (k : Region) (h : Held) : Except Stop Held :=
  match c.detail k with
  | none => .ok h
  | some n => if c.va k then .ok (gntmapUnmapGrants (h.add .va (-1)) n n) else .error .assertion

/-! ## The channel -/

/-- A zeroed channel with its local prefix. -/
def blankChannel : Channel where
  localPrefix := true
  remotePrefix := false
  remoteStateWatch := false
  peerDomid := 0
  grefs := fun _ => []
  prodEvtchnPort := 0
  consEvtchnPort := 0
  detail := fun _ => none
  va := fun _ => false
  receiveEvtchnPort := false
  sendEvtchnPort := false
  nrProdRingPages := 0
  nrConsRingPages := 0
  producerPayloadBytes := 0
  consumerPayloadBytes := 0

def Held.drop (h : Held) (has : Bool) (k : Kind) : Held := if has then h.add k (-1) else h

/-- `v2v_destroy_channel` for a supplicant. -/
def destroyChannel (c : Channel) (h : Held) : Except Stop Held := do
  let h := h.drop c.remoteStateWatch .watch
  let h := h.drop c.localPrefix .memory
  let h := h.drop c.remotePrefix .memory
  let h ← grantUnmap c .prod h
  let h ← grantUnmap c .cons h
  let h ← grantUnmap c .control h
  let h := h.drop c.receiveEvtchnPort .port
  let h := h.drop c.sendEvtchnPort .port
  .ok ((h.add .callback (-1)).add .memory (-1))

/-- `v2v_make_channel`, which destroys what it has if there is no memory for the prefix. -/
def makeChannel (a : Attempt) (h : Held) : Except Stop (Option Channel × Held) :=
  if !a.channel then .ok (none, h)
  else
    let h := (h.add .memory 1).add .callback 1
    if !a.localPrefix then do
      let h ← destroyChannel { blankChannel with localPrefix := false } h
      .ok (none, h)
    else .ok (some blankChannel, h.add .memory 1)

def readPeerDomid (a : Attempt) : Prog Connect Stop :=
  orStop (a.read .peerDomid) fun raw s =>
    match stringToNum toInteger raw with
    | none => .error (.status .dataError, s)
    | some val =>
      if val < 0 || val > 0xffff then .error (.status .dataError, s)
      else .ok { s with chan.peerDomid := val }

/-- The first half of `v2v_connect_channel_xenbus`. -/
def readBackend (a : Attempt) : Prog Connect Stop :=
  orStop (a.read .backend) fun _ s =>
    if !a.remotePrefix then .error (.status .noMemory, s)
    else .ok { s with held := s.held.add .memory 1, chan.remotePrefix := true }

/-- `v2v_xenstore_watchv` and `v2v_xenstore_watchv_cb` -/
def watchState (a : Attempt) : Prog Connect Stop := fun s =>
  if !a.watch then .error (.status .unsuccessful, s)
  else .ok { s with held := s.held.add .watch 1, chan.remoteStateWatch := true }

def connectChannelXenbus (a : Attempt) : Prog Connect Stop :=
  .all [readBackend a, readPeerDomid toInteger a, watchState a]

inductive EndpointState where
  | unknown
  | unready
  | listening
  | connected
  | disconnecting
  | disconnected
  | crashed
deriving DecidableEq

/-- The names of the states in xenstore. -/
def endpointStates : List (List UInt8 × EndpointState) :=
  [(ascii "unready", .unready), (ascii "listening", .listening), (ascii "connected", .connected),
    (ascii "disconnecting", .disconnecting), (ascii "disconnected", .disconnected),
    (ascii "crashed", .crashed)]

/-- `v2v_get_remote_state_internal` -/
def getRemoteState (raw : List UInt8) : EndpointState :=
  ((endpointStates.find? fun e => e.1 = cstr raw).map (·.2)).getD .unknown

def checkRemoteState (a : Attempt) : Prog Connect Stop :=
  orStop (a.read .state) fun raw s =>
    match getRemoteState raw with
    | .unknown => .error (.status .dataError, s)
    | .listening => .ok s
    | _ => .error (.status .noSuchDevice, s)

/-! ## `v2v_connect` -/

/-- The five nodes gathered at once. -/
def gatherRings (a : Attempt) : Prog Connect Stop :=
  .all
    [orStop (gather toInteger a .prodOrder) fun n s => .ok { s with producerRingOrder := n },
      orStop (gather toInteger a .consOrder) fun n s => .ok { s with consumerRingOrder := n },
      orStop (gather toInteger a .controlGref) fun n s =>
        .ok { s with chan.grefs := update s.chan.grefs .control [n] },
      orStop (gather toInteger a .prodEvtchn) fun n s => .ok { s with chan.prodEvtchnPort := n },
      orStop (gather toInteger a .consEvtchn) fun n s => .ok { s with chan.consEvtchnPort := n }]

def checkOrders : Prog Connect Stop := fun s =>
  if s.producerRingOrder > maxRingPageOrder || s.consumerRingOrder > maxRingPageOrder then
    .error (.status .invalidParameter, s)
  else .ok s

/-- `n` more calls of `v2v_read_grantref` from page `x` on; the array has `MAX_RING_PAGES`
elements. -/
def readGrantrefs (a : Attempt) (k : Region) (key : Nat → Key) : Nat → Nat → Prog Connect Stop
  | 0, _ => .ok
  | n + 1, x =>
    orStop (gather toInteger a (key x)) fun gref s =>
      if maxRingPages ≤ x then .error (.overrun, s)
      else
        readGrantrefs a k key n (x + 1)
          { s with chan.grefs := update s.chan.grefs k (s.chan.grefs k ++ [gref]) }

/-- The references of a ring of the given order. -/
def readRing (a : Attempt) (k : Region) (key : Nat → Key) (order : Int) : Prog Connect Stop :=
  readGrantrefs toInteger a k key (orderPages order).toNat 0

/-- The pages of a ring of the given order. -/
def mapRing (a : Attempt) (k : Region) (order : Int) : Prog Connect Stop :=
  grantMap a k (unsigned (orderPages order))

def connectReceivePort (a : Attempt) : Prog Connect Stop := fun s =>
  if !a.receivePort then .error (.status .insufficientResources, s)
  else .ok { s with held := s.held.add .port 1, chan.receiveEvtchnPort := true }

def connectSendPort (a : Attempt) : Prog Connect Stop := fun s =>
  if !a.sendPort then .error (.status .insufficientResources, s)
  else .ok { s with held := s.held.add .port 1, chan.sendEvtchnPort := true }

def changeLocalState (a : Attempt) : Prog Connect Stop := fun s =>
  match a.changeState with
  | some e => .error (.status e, s)
  | none => .ok s

/-- The body of the loop between the start and the end of the transaction. -/
def connectOnce (a : Attempt) : Prog Connect Stop :=
  .all
    [connectChannelXenbus toInteger a,
      checkRemoteState a,
      gatherRings toInteger a,
      checkOrders,
      fun s => readRing toInteger a .prod .prodGref s.producerRingOrder s,
      fun s => readRing toInteger a .cons .consGref s.consumerRingOrder s,
      fun s => mapRing a .prod s.producerRingOrder s,
      fun s => mapRing a .cons s.consumerRingOrder s,
      grantMap a .control 1,
      connectReceivePort a,
      connectSendPort a,
      changeLocalState a]

/-- Behind the loop: the orders are the listener's, so the rings change places. -/
def attachRingsSupplicant (s : Connect) : Connect :=
  { s with
    chan.nrProdRingPages := unsigned (orderPages s.consumerRingOrder)
    chan.nrConsRingPages := unsigned (orderPages s.producerRingOrder)
    chan.consumerPayloadBytes := unsigned (shl32 4096 s.producerRingOrder)
    chan.producerPayloadBytes := unsigned (shl32 4096 s.consumerRingOrder) }

/-- How `v2v_connect` ends; `retrying` when the attempts given do not bring it to an end. -/
inductive Outcome where
  | success (s : Connect)
  | failed (status : Status) (held : Held)
  | retrying (held : Held)
  | overrun
  | assertion

/-- `err:` -/
def unwind (status : Status) (c : Channel) (h : Held) : Outcome :=
  match destroyChannel c h with
  | .ok h => .failed status h
  | .error _ => .assertion

/-- The loop of `v2v_connect`. -/
def connectLoop : List Attempt → Held → Outcome
  | [], h => .retrying h
  | a :: as, h =>
    match makeChannel a h with
    | .error _ => .assertion
    | .ok (none, h) => .failed .noMemory h
    | .ok (some chan, h) =>
      match connectOnce toInteger a ⟨h.add .transaction 1, chan, 0, 0⟩ with
      | .error (.overrun, _) => .overrun
      | .error (.assertion, _) => .assertion
      | .error (.status e, s) => unwind e s.chan (s.held.add .transaction (-1))
      | .ok s =>
        let h := s.held.add .transaction (-1)
        match a.commit with
        | .done => .success (attachRingsSupplicant { s with held := h })
        | .failed e => unwind e s.chan h
        | .retry =>
          match destroyChannel s.chan h with
          | .ok h => connectLoop as h
          | .error _ => .assertion

/-- The handlers of an asynchronous client that are there. -/
structure AsyncValues where
  receiveDpc : Bool
  sendDpc : Bool

def connect (async : Option AsyncValues) (as : List Attempt) (h : Held) : Outcome :=
  match async with
  | some v =>
    if !v.receiveDpc || !v.sendDpc then .failed .invalidParameter h else connectLoop toInteger as h
  | none => connectLoop toInteger as h

end Parameters

/-! ## Accounting for resources -/

def one (b : Bool) : Int := if b then 1 else 0

/-- What a mapping of `n` pages takes of each kind. -/
def mapCount : Option Nat → Kind → Int
  | some n, .pfn | some n, .grant => n
  | some _, .memory | some _, .va => 1
  | _, _ => 0

/-- What a channel has of each kind beside its mappings. -/
def Channel.own (c : Channel) : Kind → Int
  | .memory => 1 + one c.localPrefix + one c.remotePrefix
  | .callback => 1
  | .watch => one c.remoteStateWatch
  | .port => one c.receiveEvtchnPort + one c.sendEvtchnPort
  | _ => 0

def Channel.count (c : Channel) (k : Kind) : Int :=
  c.own k + mapCount (c.detail .prod) k + mapCount (c.detail .cons) k + mapCount (c.detail .control) k

/-- Every region mapped has its address. -/
def Channel.Addressed (c : Channel) : Prop := ∀ r, (c.detail r).isSome = true → c.va r = true

section Accounting

variable {c : Channel} {h : Held}

@[simp] theorem Held.add_apply (h : Held) (k k' : Kind) (n : Int) :
    h.add k n k' = if k' = k then h k' + n else h k' := rfl

theorem Held.drop_apply (h : Held) (b : Bool) (k k' : Kind) :
    h.drop b k k' = if k' = k then h k' - one b else h k' := by
  cases b <;> simp only [Held.drop, one, Bool.false_eq_true, if_true, if_false, Held.add_apply] <;>
    split <;> omega

theorem gntmapUnmapGrants_apply (h : Held) (n : Nat) (k : Kind) :
    gntmapUnmapGrants (h.add .va (-1)) n n k = h k - mapCount (some n) k := by
  cases k <;> simp [gntmapUnmapGrants, mapCount] <;> omega

theorem grantUnmap_ok (hc : c.Addressed) (r : Region) (h : Held) :
    ∃ h', grantUnmap c r h = .ok h' ∧ ∀ k, h' k = h k - mapCount (c.detail r) k := by
  unfold grantUnmap
  cases hd : c.detail r with
  | none => exact ⟨h, rfl, fun k => by simp [mapCount]⟩
  | some n =>
    simp only [hc r (by rw [hd]; rfl), if_true]
    exact ⟨_, rfl, gntmapUnmapGrants_apply h n⟩

theorem destroyChannel_ok (hc : c.Addressed) (h : Held) :
    ∃ h', destroyChannel c h = .ok h' ∧ ∀ k, h' k = h k - c.count k := by
  set h0 := ((h.drop c.remoteStateWatch .watch).drop c.localPrefix .memory).drop c.remotePrefix
    .memory with hh0
  obtain ⟨h1, e1, hh1⟩ := grantUnmap_ok hc .prod h0
  obtain ⟨h2, e2, hh2⟩ := grantUnmap_ok hc .cons h1
  obtain ⟨h3, e3, hh3⟩ := grantUnmap_ok hc .control h2
  refine ⟨_, by simp only [destroyChannel, ← hh0, e1, e2, e3, bind, Except.bind]; rfl, ?_⟩
  intro k
  have e0 : h0 k = h k - (if k = .watch then one c.remoteStateWatch else 0) -
      (if k = .memory then one c.localPrefix + one c.remotePrefix else 0) := by
    cases k <;> simp [hh0, Held.drop_apply]
    omega
  cases k <;> simp [Held.drop_apply, Channel.count, Channel.own] <;> simp at e0 <;>
    simp only [hh3, hh2, hh1, e0] <;> omega

theorem unmap_undo (h : Held) (n : Nat) :
    gntmapUnmapGrants (((h.add .memory 2).add .pfn n).add .memory (-1)) n 0 = h := by
  funext k
  cases k <;> simp [gntmapUnmapGrants]
  all_goals omega

theorem unmap_mapped {h h' : Held} {n : Nat} (hc : ∀ k, (h'.add .va 1) k = h k + mapCount (some n) k) :
    gntmapUnmapGrants h' n n = h := by
  funext k
  have := hc k
  cases k <;> simp [mapCount, gntmapUnmapGrants] at this ⊢ <;> omega

theorem gntmapMapGrants_cases {e : MapEnv} (he : e.work = true → e.ops = true) (n : Nat) (h : Held) :
    (n ≤ maxMdlPages ∧ (gntmapMapGrants e n h).1 = .ok () ∧
      ∀ k, ((gntmapMapGrants e n h).2.add .va 1) k = h k + mapCount (some n) k) ∨
    ∃ st, gntmapMapGrants e n h = (.error (.status st), h) := by
  unfold gntmapMapGrants
  split
  · exact .inr ⟨_, rfl⟩
  next hn =>
  split
  · exact .inr ⟨_, rfl⟩
  next hw =>
  have ho : e.ops = true := he (by simpa using hw)
  simp only [ho, Bool.not_true, Bool.false_eq_true, if_false]
  set pfns := ((List.range n).takeWhile e.pfn).length
  set grants := ((List.range n).filter e.status).length with hg
  have hgrants : grants ≤ n := by
    rw [hg]
    exact (List.length_filter_le _ _).trans (List.length_range).le
  have hpfns : pfns ≤ n := by
    exact ((List.takeWhile_prefix _).length_le).trans (List.length_range).le
  split
  · exact .inr ⟨_, by rw [unmap_undo]⟩
  next hp =>
  split
  · exact .inr ⟨_, by rw [unmap_undo]⟩
  split
  · refine .inr ⟨.unsuccessful, Prod.ext rfl (funext fun k => ?_)⟩
    cases k <;> simp [gntmapUnmapGrants]
    all_goals omega
  · next hlt =>
    refine .inl ⟨by omega, rfl, fun k => ?_⟩
    cases k <;> simp [mapCount] <;> omega

end Accounting

/-! ## One pass of the loop -/

/-- Everything held beyond `base` is the channel's, and the transaction. -/
structure Accounted (base : Held) (s : Connect) : Prop where
  held : ∀ k, s.held k = base k + s.chan.count k + if k = .transaction then 1 else 0
  addressed : s.chan.Addressed

/-- How far a pass has come: the prefix and the watch, the mappings, the ports, and what is known of
the orders. -/
structure Stage (base : Held) (named watched : Bool) (detail : Region → Option Nat)
    (receive send : Bool) (orders : Int → Int → Prop) (s : Connect) : Prop
    extends Accounted base s where
  named : s.chan.remotePrefix = named
  watched : s.chan.remoteStateWatch = watched
  detail : s.chan.detail = detail
  receive : s.chan.receiveEvtchnPort = receive
  send : s.chan.sendEvtchnPort = send
  orders : orders s.producerRingOrder s.consumerRingOrder

/-- A pass that stops has a status to return and everything accounted for. -/
def Stopped (base : Held) (e : Stop) (s : Connect) : Prop := (∃ st, e = .status st) ∧ Accounted base s

/-- The orders with which the code does what it should: one of them is refused, or neither makes it
read more grants than there is room for and it does not get through with a negative one. -/
def OrdersOk (po co : Int) : Prop :=
  po > maxRingPageOrder ∨ co > maxRingPageOrder ∨
    orderPages po ≤ maxRingPages ∧ orderPages co ≤ maxRingPages ∧
      (0 ≤ po ∧ 0 ≤ co ∨ orderPages po < 0 ∨ orderPages co < 0)

/-- No call into the system fails in a way the code is not prepared for: a mapping into the kernel's
address space is made or raises an exception, and there is memory for the operations of a map
where there is for its detail. -/
def Attempt.Benign (a : Attempt) : Prop :=
  ∀ k, (a.map k).va ≠ .null ∧ ((a.map k).work = true → (a.map k).ops = true)

section Pass

open Prog

variable {base : Held} {named watched receive send : Bool} {detail : Region → Option Nat}
  {orders : Int → Int → Prop} {s : Connect} {a : Attempt} {toInteger : List UInt8 → Option Int}

theorem Accounted.stopped (h : Accounted base s) (st : Status) : Stopped base (.status st) s :=
  ⟨⟨st, rfl⟩, h⟩

theorem Stage.keep {s' : Connect} {orders' : Int → Int → Prop}
    (h : Stage base named watched detail receive send orders s)
    (hh : s'.held = s.held) (h1 : s'.chan.localPrefix = s.chan.localPrefix)
    (h2 : s'.chan.remotePrefix = s.chan.remotePrefix)
    (h3 : s'.chan.remoteStateWatch = s.chan.remoteStateWatch)
    (h4 : s'.chan.detail = s.chan.detail) (h5 : s'.chan.va = s.chan.va)
    (h6 : s'.chan.receiveEvtchnPort = s.chan.receiveEvtchnPort)
    (h7 : s'.chan.sendEvtchnPort = s.chan.sendEvtchnPort)
    (ho : orders' s'.producerRingOrder s'.consumerRingOrder) :
    Stage base named watched detail receive send orders' s' := by
  refine ⟨⟨fun k => ?_, fun r hr => ?_⟩, h2.trans h.named, h3.trans h.watched, h4.trans h.detail,
    h6.trans h.receive, h7.trans h.send, ho⟩
  · rw [hh, h.held k]
    simp only [Channel.count, Channel.own, h1, h2, h3, h4, h6, h7]
  · rw [h5]
    exact h.addressed r (h4 ▸ hr)

theorem orStop_triple {α : Type} {r : Except Status α} {f : α → Prog Connect Stop}
    {P Q : Connect → Prop} (hP : ∀ s, P s → Accounted base s)
    (hf : ∀ x, r = .ok x → Triple P (f x) Q (Stopped base)) :
    Triple P (orStop r f) Q (Stopped base) := by
  intro s hs
  cases r with
  | error e => exact (hP s hs).stopped e
  | ok x => exact hf x rfl s hs

theorem readBackend_triple :
    Triple (Stage base false watched detail receive send orders) (readBackend a)
      (Stage base true watched detail receive send orders) (Stopped base) := by
  refine orStop_triple (fun s hs => hs.toAccounted) fun _ _ s hs => ?_
  simp only
  split
  · exact hs.toAccounted.stopped _
  · refine ⟨⟨fun k => ?_, hs.addressed⟩, rfl, hs.watched, hs.detail, hs.receive, hs.send, hs.orders⟩
    have := hs.held k
    cases k <;> simp [Channel.count, Channel.own, one, hs.named] at this ⊢ <;> omega

theorem readPeerDomid_triple :
    Triple (Stage base named watched detail receive send orders) (readPeerDomid toInteger a)
      (Stage base named watched detail receive send orders) (Stopped base) := by
  refine orStop_triple (fun s hs => hs.toAccounted) fun raw _ s hs => ?_
  simp only
  split
  · exact hs.toAccounted.stopped _
  split
  · exact hs.toAccounted.stopped _
  · exact hs.keep rfl rfl rfl rfl rfl rfl rfl rfl hs.orders

theorem watchState_triple :
    Triple (Stage base named false detail receive send orders) (watchState a)
      (Stage base named true detail receive send orders) (Stopped base) := by
  intro s hs
  simp only [watchState]
  split
  · exact hs.toAccounted.stopped _
  · refine ⟨⟨fun k => ?_, hs.addressed⟩, hs.named, rfl, hs.detail, hs.receive, hs.send, hs.orders⟩
    have := hs.held k
    cases k <;> simp [Channel.count, Channel.own, one, hs.watched] at this ⊢ <;> omega

theorem connectChannelXenbus_triple :
    Triple (Stage base false false detail receive send orders) (connectChannelXenbus toInteger a)
      (Stage base true true detail receive send orders) (Stopped base) :=
  readBackend_triple.cons (readPeerDomid_triple.cons (watchState_triple.cons .nil))

theorem checkRemoteState_triple :
    Triple (Stage base named watched detail receive send orders) (checkRemoteState a)
      (Stage base named watched detail receive send orders) (Stopped base) := by
  refine orStop_triple (fun s hs => hs.toAccounted) fun raw _ s hs => ?_
  split
  · exact hs.toAccounted.stopped _
  · exact hs
  · exact hs.toAccounted.stopped _

theorem gather_ok {k : Key} {n : Int} (h : gather toInteger a k = .ok n) :
    ∃ raw, a.read k = .ok raw ∧ stringToNum toInteger raw = some n := by
  obtain ⟨raw, hr, h⟩ := bind_ok h
  refine ⟨raw, hr, ?_⟩
  split at h
  · next m hm => cases h; exact hm
  · cases h

/-- The orders are those the listener published. -/
def Attempt.Orders (a : Attempt) (toInteger : List UInt8 → Option Int) (po co : Int) : Prop :=
  gather toInteger a .prodOrder = .ok po ∧ gather toInteger a .consOrder = .ok co

theorem gatherRings_triple :
    Triple (Stage base named watched detail receive send orders) (gatherRings toInteger a)
      (Stage base named watched detail receive send (a.Orders toInteger)) (Stopped base) := by
  -- the first order is known once it is read, the second one behind the second node
  have h1 : Triple (Stage base named watched detail receive send orders)
      (orStop (gather toInteger a .prodOrder) fun n s => .ok { s with producerRingOrder := n })
      (Stage base named watched detail receive send fun po _ =>
        gather toInteger a .prodOrder = .ok po) (Stopped base) :=
    orStop_triple (fun s hs => hs.toAccounted) fun n hn s hs =>
      hs.keep rfl rfl rfl rfl rfl rfl rfl rfl hn
  have h2 : Triple (Stage base named watched detail receive send fun po _ =>
        gather toInteger a .prodOrder = .ok po)
      (orStop (gather toInteger a .consOrder) fun n s => .ok { s with consumerRingOrder := n })
      (Stage base named watched detail receive send (a.Orders toInteger)) (Stopped base) :=
    orStop_triple (fun s hs => hs.toAccounted) fun n hn s hs =>
      hs.keep rfl rfl rfl rfl rfl rfl rfl rfl ⟨hs.orders, hn⟩
  let Q := Stage base named watched detail receive send (a.Orders toInteger)
  refine h1.cons (h2.cons (.cons (Q := Q) ?_ (.cons (Q := Q) ?_ (.cons (Q := Q) ?_ .nil)))) <;>
    exact orStop_triple (fun s hs => hs.toAccounted) fun n hn s hs =>
      hs.keep rfl rfl rfl rfl rfl rfl rfl rfl hs.orders

theorem checkOrders_triple :
    Triple (Stage base named watched detail receive send orders) checkOrders
      (Stage base named watched detail receive send fun po co =>
        orders po co ∧ po ≤ maxRingPageOrder ∧ co ≤ maxRingPageOrder) (Stopped base) := by
  intro s hs
  simp only [checkOrders]
  split
  · exact hs.toAccounted.stopped _
  · next h =>
    simp only [Bool.or_eq_true, decide_eq_true_eq, not_or, Int.not_lt] at h
    exact hs.keep rfl rfl rfl rfl rfl rfl rfl rfl ⟨hs.orders, h⟩

theorem readGrantrefs_triple (k : Region) (key : Nat → Key) {n x : Nat} (hn : n + x ≤ maxRingPages) :
    Triple (Stage base named watched detail receive send orders)
      (readGrantrefs toInteger a k key n x)
      (Stage base named watched detail receive send orders) (Stopped base) := by
  induction n generalizing x with
  | zero => exact fun s hs => hs
  | succ n ih =>
    refine orStop_triple (fun s hs => hs.toAccounted) fun gref _ s hs => ?_
    simp only
    rw [if_neg (by omega)]
    exact ih (by omega) _ (hs.keep rfl rfl rfl rfl rfl rfl rfl rfl hs.orders)

theorem readRing_triple (k : Region) (key : Nat → Key) {o : Int} (ho : orderPages o ≤ maxRingPages) :
    Triple (Stage base named watched detail receive send orders) (readRing toInteger a k key o)
      (Stage base named watched detail receive send orders) (Stopped base) := by
  unfold readRing
  exact readGrantrefs_triple k key (by omega)

theorem mapCount_update {d : Region → Option Nat} {k : Region} (hk : d k = none) (n : Nat)
    (x : Kind) :
    mapCount (update d k (some n) .prod) x + mapCount (update d k (some n) .cons) x +
        mapCount (update d k (some n) .control) x =
      mapCount (d .prod) x + mapCount (d .cons) x + mapCount (d .control) x +
        mapCount (some n) x := by
  have h0 : mapCount none x = 0 := by cases x <;> rfl
  cases k <;> simp [update, hk, h0] <;> omega

theorem grantMap_triple (ha : a.Benign) {k : Region} (hk : detail k = none) (n : Nat) :
    Triple (Stage base named watched detail receive send orders) (grantMap a k n)
      (Stage base named watched (update detail k (some n)) receive send fun po co =>
        orders po co ∧ n ≤ maxMdlPages) (Stopped base) := by
  intro s hs
  obtain ⟨hnull, hops⟩ := ha k
  simp only [grantMap]
  rcases gntmapMapGrants_cases hops n s.held with ⟨hle, hok, hcount⟩ | ⟨st, he⟩
  · generalize gntmapMapGrants (a.map k) n s.held = out at hok hcount
    obtain ⟨res, h⟩ := out
    cases hok
    cases hva : (a.map k).va with
    | null => exact absurd hva hnull
    | mapped =>
      refine ⟨⟨fun x => ?_, fun r hr => ?_⟩, hs.named, hs.watched, by rw [hs.detail], hs.receive,
        hs.send, hs.orders, hle⟩
      · have h1 := hs.held x
        have h2 := mapCount_update (hs.detail ▸ hk) n x
        simp only [hcount, Channel.count, Channel.own] at h1 ⊢
        omega
      · by_cases hr' : r = k
        · subst hr'
          simp only [Function.update_self]
        · simp only [Function.update_of_ne hr'] at hr ⊢
          exact hs.addressed r hr
    | raises =>
      refine ⟨⟨_, rfl⟩, fun x => ?_, hs.addressed⟩
      have h1 := hs.held x
      simp only [unmap_mapped hcount, h1]
  · rw [he]
    exact hs.toAccounted.stopped st

theorem connectReceivePort_triple :
    Triple (Stage base named watched detail false send orders) (connectReceivePort a)
      (Stage base named watched detail true send orders) (Stopped base) := by
  intro s hs
  simp only [connectReceivePort]
  split
  · exact hs.toAccounted.stopped _
  · refine ⟨⟨fun k => ?_, hs.addressed⟩, hs.named, hs.watched, hs.detail, rfl, hs.send, hs.orders⟩
    have := hs.held k
    cases k <;> simp [Channel.count, Channel.own, one, hs.receive] at this ⊢ <;> omega

theorem connectSendPort_triple :
    Triple (Stage base named watched detail receive false orders) (connectSendPort a)
      (Stage base named watched detail receive true orders) (Stopped base) := by
  intro s hs
  simp only [connectSendPort]
  split
  · exact hs.toAccounted.stopped _
  · refine ⟨⟨fun k => ?_, hs.addressed⟩, hs.named, hs.watched, hs.detail, hs.receive, rfl, hs.orders⟩
    have := hs.held k
    cases k <;> simp [Channel.count, Channel.own, one, hs.send] at this ⊢ <;> omega

theorem changeLocalState_triple :
    Triple (Stage base named watched detail receive send orders) (changeLocalState a)
      (Stage base named watched detail receive send orders) (Stopped base) := by
  intro s hs
  simp only [changeLocalState]
  split
  · exact hs.toAccounted.stopped _
  · exact hs

/-- A pass with everything in place. -/
def Finished (base : Held) (s : Connect) : Prop :=
  Accounted base s ∧
    s.chan.detail .prod = some (unsigned (orderPages s.producerRingOrder)) ∧
    s.chan.detail .cons = some (unsigned (orderPages s.consumerRingOrder)) ∧
    s.chan.detail .control = some 1 ∧
    0 ≤ s.producerRingOrder ∧ s.producerRingOrder ≤ maxRingPageOrder ∧
    0 ≤ s.consumerRingOrder ∧ s.consumerRingOrder ≤ maxRingPageOrder

theorem orderPages_nonneg {o : Int} (h : unsigned (orderPages o) ≤ maxMdlPages) :
    0 ≤ orderPages o := by
  unfold unsigned at h
  unfold orderPages shl32 int32 at h ⊢
  simp only [maxMdlPages] at h
  omega

section Fixed

variable {po co : Int} {rest : Prop} {Q : Connect → Prop} {F : Int → Prog Connect Stop}

/-- Known orders, with what has been found out since. -/
def Are (po co : Int) (rest : Prop) (p c : Int) : Prop := (p = po ∧ c = co) ∧ rest

theorem Triple.producer
    (h : Triple (Stage base named watched detail receive send (Are po co rest)) (F po) Q (Stopped base)) :
    Triple (Stage base named watched detail receive send (Are po co rest))
      (fun s => F s.producerRingOrder s) Q (Stopped base) := by
  intro s hs
  have := h s hs
  rwa [← hs.orders.1.1] at this

theorem Triple.consumer
    (h : Triple (Stage base named watched detail receive send (Are po co rest)) (F co) Q (Stopped base)) :
    Triple (Stage base named watched detail receive send (Are po co rest))
      (fun s => F s.consumerRingOrder s) Q (Stopped base) := by
  intro s hs
  have := h s hs
  rwa [← hs.orders.1.2] at this

theorem mapped_are {n : Nat} {k : Region} {f : Prog Connect Stop}
    (hf : Triple (Stage base named watched detail receive send (Are po co rest)) f
      (Stage base named watched (update detail k (some n)) receive send fun p c =>
        Are po co rest p c ∧ n ≤ maxMdlPages) (Stopped base)) :
    Triple (Stage base named watched detail receive send (Are po co rest)) f
      (Stage base named watched (update detail k (some n)) receive send
        (Are po co (rest ∧ n ≤ maxMdlPages))) (Stopped base) := by
  refine hf.weaken fun s h => ?_
  exact h.keep rfl rfl rfl rfl rfl rfl rfl rfl ⟨h.orders.1.1, h.orders.1.2, h.orders.2⟩

theorem mapRing_are (ha : a.Benign) {k : Region} (hk : detail k = none) (o : Int) :
    Triple (Stage base named watched detail receive send (Are po co rest)) (mapRing a k o)
      (Stage base named watched (update detail k (some (unsigned (orderPages o)))) receive send
        (Are po co (rest ∧ unsigned (orderPages o) ≤ maxMdlPages))) (Stopped base) :=
  mapped_are (grantMap_triple ha hk _)

end Fixed

theorem OrdersOk.pages {po co : Int} (h : OrdersOk po co) (hpo : po ≤ maxRingPageOrder)
    (hco : co ≤ maxRingPageOrder) :
    orderPages po ≤ maxRingPages ∧ orderPages co ≤ maxRingPages ∧
      (0 ≤ po ∧ 0 ≤ co ∨ orderPages po < 0 ∨ orderPages co < 0) := by
  unfold OrdersOk at h
  exact (h.resolve_left (Int.not_lt.mpr hpo)).resolve_left (Int.not_lt.mpr hco)

theorem mapRings_triple (ha : a.Benign) {po co : Int} (hpo : po ≤ maxRingPageOrder)
    (hco : co ≤ maxRingPageOrder) (hok : OrdersOk po co) :
    Triple (Stage base true true (fun _ => none) false false (Are po co True))
      (.all
        [fun s => readRing toInteger a .prod .prodGref s.producerRingOrder s,
          fun s => readRing toInteger a .cons .consGref s.consumerRingOrder s,
          fun s => mapRing a .prod s.producerRingOrder s,
          fun s => mapRing a .cons s.consumerRingOrder s,
          grantMap a .control 1, connectReceivePort a, connectSendPort a, changeLocalState a])
      (Finished base) (Stopped base) := by
  obtain ⟨h16, h16', hsign⟩ := hok.pages hpo hco
  refine .cons (Triple.producer (F := readRing toInteger a .prod .prodGref)
    (readRing_triple _ _ h16)) ?_
  refine .cons (Triple.consumer (F := readRing toInteger a .cons .consGref)
    (readRing_triple _ _ h16')) ?_
  refine .cons (Triple.producer (F := mapRing a .prod) (mapRing_are ha rfl po)) ?_
  refine .cons (Triple.consumer (F := mapRing a .cons) (mapRing_are ha rfl co)) ?_
  refine .cons (mapped_are (grantMap_triple ha rfl 1)) (.cons connectReceivePort_triple
    (.cons connectSendPort_triple (.cons ?_ .nil)))
  refine changeLocalState_triple.weaken fun s hs => ?_
  obtain ⟨⟨rfl, rfl⟩, ⟨⟨-, hle⟩, hle'⟩, -⟩ := hs.orders
  have hn := orderPages_nonneg hle
  have hn' := orderPages_nonneg hle'
  have hd := congrFun hs.detail
  refine ⟨hs.toAccounted, (hd .prod).trans rfl, (hd .cons).trans rfl, (hd .control).trans rfl, ?_⟩
  rcases hsign with ⟨h1, h2⟩ | h | h
  · exact ⟨h1, hpo, h2, hco⟩
  · exact absurd h (Int.not_lt.mpr hn)
  · exact absurd h (Int.not_lt.mpr hn')

theorem connectOnce_triple (ha : a.Benign) (ho : ∀ po co, a.Orders toInteger po co → OrdersOk po co) :
    Triple (Stage base false false (fun _ => none) false false orders) (connectOnce toInteger a)
      (Finished base) (Stopped base) := by
  refine .cons connectChannelXenbus_triple (.cons checkRemoteState_triple
    (.cons gatherRings_triple (.cons checkOrders_triple ?_)))
  intro s hs
  obtain ⟨horders, hpo, hco⟩ := hs.orders
  exact mapRings_triple ha hpo hco (ho _ _ horders) s
    (hs.keep rfl rfl rfl rfl rfl rfl rfl rfl ⟨⟨rfl, rfl⟩, trivial⟩)

end Pass

/-! ## `v2v_connect` as a whole -/

/-- A connected channel: both orders are in range, each ring is mapped with the pages of its order,
and its recorded size is that of the pages mapped. -/
structure Attached (base : Held) (s : Connect) : Prop where
  producer : 0 ≤ s.producerRingOrder ∧ s.producerRingOrder ≤ maxRingPageOrder
  consumer : 0 ≤ s.consumerRingOrder ∧ s.consumerRingOrder ≤ maxRingPageOrder
  consRing : s.chan.detail .prod = some (2 ^ s.producerRingOrder.toNat) ∧ s.chan.va .prod = true
  prodRing : s.chan.detail .cons = some (2 ^ s.consumerRingOrder.toNat) ∧ s.chan.va .cons = true
  consPages : s.chan.nrConsRingPages = 2 ^ s.producerRingOrder.toNat
  prodPages : s.chan.nrProdRingPages = 2 ^ s.consumerRingOrder.toNat
  consBytes : s.chan.consumerPayloadBytes = 4096 * 2 ^ s.producerRingOrder.toNat
  prodBytes : s.chan.producerPayloadBytes = 4096 * 2 ^ s.consumerRingOrder.toNat
  grants : s.held .grant = base .grant +
    (2 ^ s.producerRingOrder.toNat + 2 ^ s.consumerRingOrder.toNat + 1 : Nat)

/-- What the call should come to: a success is a channel that fits its orders, and a failure leaves
nothing behind. -/
def Validated (base : Held) : Outcome → Prop
  | .success s => Attached base s
  | .failed _ h => h = base
  | .retrying h => h = base
  | .overrun => False
  | .assertion => False

section Whole

open Prog

variable {base : Held} {s : Connect} {a : Attempt} {toInteger : List UInt8 → Option Int}

theorem unsigned_pages {o : Int} (h : 0 ≤ o ∧ o ≤ maxRingPageOrder) :
    unsigned (orderPages o) = 2 ^ o.toNat ∧ unsigned (shl32 4096 o) = 4096 * 2 ^ o.toNat := by
  have : o = 0 ∨ o = 1 ∨ o = 2 ∨ o = 3 ∨ o = 4 := by
    simp only [maxRingPageOrder] at h
    omega
  rcases this with rfl | rfl | rfl | rfl | rfl <;> decide +kernel

theorem Accounted.destroy (h : Accounted base s) :
    destroyChannel s.chan (s.held.add .transaction (-1)) = .ok base := by
  obtain ⟨h', e, hh⟩ := destroyChannel_ok h.addressed (s.held.add .transaction (-1))
  rw [e]
  congr 1
  funext k
  have := h.held k
  rw [hh k, Held.add_apply]
  split at this
  · next hk =>
    rw [if_pos hk]
    omega
  · next hk =>
    rw [if_neg hk]
    omega

theorem Finished.attached (h : Finished base s) :
    Attached base (attachRingsSupplicant { s with held := s.held.add .transaction (-1) }) := by
  obtain ⟨hacc, hp, hc, hx, hpo, hpo', hco, hco'⟩ := h
  obtain ⟨p1, p2⟩ := unsigned_pages ⟨hpo, hpo'⟩
  obtain ⟨c1, c2⟩ := unsigned_pages ⟨hco, hco'⟩
  refine ⟨⟨hpo, hpo'⟩, ⟨hco, hco'⟩, ⟨p1 ▸ hp, hacc.addressed _ (by rw [hp]; rfl)⟩,
    ⟨c1 ▸ hc, hacc.addressed _ (by rw [hc]; rfl)⟩, p1, c1, p2, c2, ?_⟩
  have := hacc.held .grant
  simp only [Channel.count, Channel.own, hp, hc, hx, mapCount, p1, c1, reduceCtorEq, if_false] at this
  simp only [attachRingsSupplicant, Held.add_apply, reduceCtorEq, if_false]
  push_cast at this ⊢
  omega

theorem makeChannel_cases (a : Attempt) (h : Held) :
    makeChannel a h = .ok (none, h) ∨
    ∃ h', makeChannel a h = .ok (some blankChannel, h') ∧
      Stage h false false (fun _ => none) false false (fun _ _ => True)
        ⟨h'.add .transaction 1, blankChannel, 0, 0⟩ := by
  unfold makeChannel
  split
  · exact .inl rfl
  simp only
  split
  · obtain ⟨h', e, hh⟩ := destroyChannel_ok (c := { blankChannel with localPrefix := false })
      (fun _ hr => nomatch hr) ((h.add .memory 1).add .callback 1)
    refine .inl ?_
    rw [e]
    refine congrArg (fun x => Except.ok (none, x)) (funext fun k => ?_)
    rw [hh k]
    cases k <;> simp [Channel.count, Channel.own, blankChannel, mapCount, one]
  · refine .inr ⟨_, rfl, ⟨fun k => ?_, fun _ hr => nomatch hr⟩, rfl, rfl, rfl, rfl, rfl, trivial⟩
    cases k <;> simp [Channel.count, Channel.own, blankChannel, mapCount, one]
    omega

theorem connectLoop_validated {as : List Attempt} (h : ∀ a ∈ as, a.Benign ∧
    ∀ po co, a.Orders toInteger po co → OrdersOk po co) :
    Validated base (connectLoop toInteger as base) := by
  induction as with
  | nil => exact rfl
  | cons a as ih =>
    obtain ⟨ha, ho⟩ := h a List.mem_cons_self
    have ih := ih fun b hb => h b (List.mem_cons_of_mem _ hb)
    unfold connectLoop
    rcases makeChannel_cases a base with e | ⟨h', e, hst⟩
    · simp only [e]
      exact rfl
    · simp only [e]
      have hpost := connectOnce_triple ha ho _ hst
      cases hc : connectOnce toInteger a ⟨h'.add .transaction 1, blankChannel, 0, 0⟩ with
      | error x =>
        obtain ⟨e, t⟩ := x
        rw [hc] at hpost
        obtain ⟨⟨st, rfl⟩, hacc⟩ := hpost
        simp only [unwind, hacc.destroy]
        exact rfl
      | ok t =>
        rw [hc] at hpost
        cases hcommit : a.commit with
        | done => exact hpost.attached
        | failed st => simp only [unwind, hpost.1.destroy]; exact rfl
        | retry => simp only [hpost.1.destroy]; exact ih

end Whole

/-! ## The orders that must not be published -/

/-- A listener that publishes the orders `ps` and `cs` and zeros, with a system that grants every
request. -/
def accepting (ps cs : List UInt8) : Attempt where
  channel := true
  localPrefix := true
  read := fun
    | .prodOrder => .ok ps
    | .consOrder => .ok cs
    | .state => .ok (ascii "listening")
    | _ => .ok (ascii "0")
  remotePrefix := true
  watch := true
  map := fun _ => ⟨true, true, fun _ => true, true, fun _ => true, .mapped⟩
  receivePort := true
  sendPort := true
  changeState := none
  commit := .done

section Accepting

open Prog

variable {toInteger : List UInt8 → Option Int} {ps cs : List UInt8} {po co : Int}
  {P : Connect → Prop} {E : Stop → Connect → Prop}

/-- The orders of a pass are known, and what follows from its having come so far. -/
def Known (po co : Int) (rest : Prop) (s : Connect) : Prop :=
  (s.producerRingOrder = po ∧ s.consumerRingOrder = co) ∧ rest

/-- A pass that stops has stored past the end of an array, or its orders are to blame. -/
def Blamed (po co : Int) (e : Stop) (_ : Connect) : Prop := e = .overrun ∨ OrdersOk po co

theorem stringToNum_zero (h0 : toInteger (ascii "0") = some 0) :
    stringToNum toInteger (ascii "0") = some 0 := by
  have : cstr (ascii "0") = ascii "0" := by decide
  simp only [stringToNum, this]
  exact h0

theorem gather_zero (h0 : toInteger (ascii "0") = some 0) {k : Key}
    (hk : (accepting ps cs).read k = .ok (ascii "0")) :
    gather toInteger (accepting ps cs) k = .ok 0 := by
  simp only [gather, hk, bind, Except.bind, stringToNum_zero h0]

theorem gather_order {k : Key} {raw : List UInt8} {n : Int}
    (hk : (accepting ps cs).read k = .ok raw) (hn : stringToNum toInteger raw = some n) :
    gather toInteger (accepting ps cs) k = .ok n := by
  simp only [gather, hk, bind, Except.bind, hn]

theorem accepting_xenbus (h0 : toInteger (ascii "0") = some 0) :
    Triple (fun _ => True) (connectChannelXenbus toInteger (accepting ps cs)) (fun _ => True) E := by
  have h2 : Triple (fun _ => True) (readPeerDomid toInteger (accepting ps cs)) (fun _ => True) E := by
    intro s _
    simp only [readPeerDomid, orStop, accepting, stringToNum_zero h0]
    trivial
  exact .cons (Q := fun _ => True) (fun _ _ => trivial)
    (h2.cons (.cons (Q := fun _ => True) (fun _ _ => trivial) .nil))

theorem accepting_listening :
    Triple (fun _ => True) (checkRemoteState (accepting ps cs)) (fun _ => True) E := by
  have : getRemoteState (ascii "listening") = .listening := by decide
  intro s _
  simp only [checkRemoteState, orStop, accepting, this]
  trivial

theorem accepting_gather (h0 : toInteger (ascii "0") = some 0)
    (hp : stringToNum toInteger ps = some po) (hc : stringToNum toInteger cs = some co) :
    Triple (fun _ => True) (gatherRings toInteger (accepting ps cs)) (Known po co True) E := by
  have e1 : gather toInteger (accepting ps cs) .prodOrder = .ok po := gather_order rfl hp
  have e2 : gather toInteger (accepting ps cs) .consOrder = .ok co := gather_order rfl hc
  intro s _
  simp only [gatherRings, all, Prog.andThen, orStop, e1, e2,
    gather_zero h0 (k := .controlGref) rfl, gather_zero h0 (k := .prodEvtchn) rfl,
    gather_zero h0 (k := .consEvtchn) rfl, Except.bind]
  exact ⟨⟨rfl, rfl⟩, trivial⟩

theorem accepting_grefs (h0 : toInteger (ascii "0") = some 0) {rest : Prop} (k : Region)
    {key : Nat → Key} (hkey : ∀ x, (accepting ps cs).read (key x) = .ok (ascii "0")) (n x : Nat)
    (hx : x ≤ maxRingPages) :
    Triple (Known po co rest) (readGrantrefs toInteger (accepting ps cs) k key n x)
      (Known po co (rest ∧ n + x ≤ maxRingPages)) (Blamed po co) := by
  induction n generalizing x with
  | zero => exact fun s hs => ⟨hs.1, hs.2, by omega⟩
  | succ n ih =>
    intro s hs
    simp only [readGrantrefs, orStop, gather_zero h0 (hkey x)]
    split
    · exact .inl rfl
    · rw [show n + 1 + x = n + (x + 1) by omega]
      exact ih (x + 1) (by omega) _ hs

theorem accepting_readRing (h0 : toInteger (ascii "0") = some 0) {rest : Prop} (k : Region)
    {key : Nat → Key} (hkey : ∀ x, (accepting ps cs).read (key x) = .ok (ascii "0")) (o : Int) :
    Triple (Known po co rest) (readRing toInteger (accepting ps cs) k key o)
      (Known po co (rest ∧ orderPages o ≤ maxRingPages)) (Blamed po co) := by
  refine (accepting_grefs h0 k hkey _ 0 (by decide)).weaken fun s hs => ?_
  exact ⟨hs.1, hs.2.1, by have := hs.2.2; omega⟩

theorem gntmapMapGrants_accepting {n : Nat} (hn : n ≤ maxMdlPages) (k : Region) (h : Held) :
    (gntmapMapGrants ((accepting ps cs).map k) n h).1 = .ok () := by
  have hn' : ¬ n > maxMdlPages := by omega
  have ht : (List.range n).takeWhile (fun _ => true) = List.range n :=
    List.takeWhile_eq_self_iff.mpr fun _ _ => rfl
  simp [gntmapMapGrants, accepting, hn', ht]

theorem accepting_grantMap {rest : Prop} {n : Nat} (hn : rest → n ≤ maxMdlPages ∨ OrdersOk po co)
    (k : Region) :
    Triple (Known po co rest) (grantMap (accepting ps cs) k n) (Known po co rest) (Blamed po co) := by
  intro s hs
  simp only [grantMap]
  rcases hn hs.2 with hn | hok
  · have : (gntmapMapGrants ((accepting ps cs).map k) n s.held).1 = .ok () :=
      gntmapMapGrants_accepting hn k s.held
    generalize gntmapMapGrants ((accepting ps cs).map k) n s.held = out at this
    obtain ⟨res, h⟩ := out
    cases this
    exact hs
  · split
    · exact .inr hok
    · exact hs

theorem unsigned_le {o : Int} (h : 0 ≤ orderPages o) (h16 : orderPages o ≤ maxRingPages) :
    unsigned (orderPages o) ≤ maxMdlPages := by
  unfold unsigned
  generalize orderPages o = n at h h16 ⊢
  simp only [maxRingPages, maxMdlPages] at h16 ⊢
  omega

theorem accepting_once (h0 : toInteger (ascii "0") = some 0)
    (hp : stringToNum toInteger ps = some po) (hc : stringToNum toInteger cs = some co) :
    Triple (fun _ => True) (connectOnce toInteger (accepting ps cs)) (Known po co True)
      (Blamed po co) := by
  refine (accepting_xenbus h0).cons (accepting_listening.cons ((accepting_gather h0 hp hc).cons ?_))
  have hcheck : Triple (Known po co True) checkOrders (Known po co True) (Blamed po co) := by
    intro s hs
    simp only [checkOrders]
    split
    · next h =>
      simp only [Bool.or_eq_true, decide_eq_true_eq, hs.1.1, hs.1.2] at h
      exact .inr (h.imp_right .inl)
    · exact hs
  apply hcheck.cons
  let Pages := (True ∧ orderPages po ≤ maxRingPages) ∧ orderPages co ≤ maxRingPages
  have hprod : Pages → unsigned (orderPages po) ≤ maxMdlPages ∨ OrdersOk po co := by
    rintro ⟨⟨-, h1⟩, h2⟩
    rcases Int.lt_or_le (orderPages po) 0 with hneg | hpos
    · exact .inr (.inr (.inr ⟨h1, h2, .inr (.inl hneg)⟩))
    · exact .inl (unsigned_le hpos h1)
  have hcons : Pages → unsigned (orderPages co) ≤ maxMdlPages ∨ OrdersOk po co := by
    rintro ⟨⟨-, h1⟩, h2⟩
    rcases Int.lt_or_le (orderPages co) 0 with hneg | hpos
    · exact .inr (.inr (.inr ⟨h1, h2, .inr (.inr hneg)⟩))
    · exact .inl (unsigned_le hpos h2)
  refine .cons (Q := Known po co (True ∧ orderPages po ≤ maxRingPages)) (fun s hs => ?_) <|
    .cons (Q := Known po co Pages) (fun s hs => ?_) <|
    .cons (Q := Known po co Pages) (fun s hs => ?_) <|
    .cons (Q := Known po co Pages) (fun s hs => ?_) <|
    .cons (Q := Known po co Pages) (accepting_grantMap (fun _ => .inl (by decide)) .control) <|
    .cons (Q := Known po co Pages) (fun s hs => hs) <|
    .cons (Q := Known po co Pages) (fun s hs => hs) <|
    .cons (Q := Known po co True) (fun s hs => ⟨hs.1, trivial⟩) .nil
  · rw [hs.1.1]
    exact accepting_readRing h0 .prod (fun _ => rfl) po s hs
  · rw [hs.1.2]
    exact accepting_readRing h0 .cons (fun _ => rfl) co s hs
  · rw [hs.1.1]
    exact accepting_grantMap hprod .prod s hs
  · rw [hs.1.2]
    exact accepting_grantMap hcons .cons s hs

theorem Attached.ordersOk {base : Held} {s : Connect} (h : Attached base s) :
    OrdersOk s.producerRingOrder s.consumerRingOrder := by
  have bound : ∀ {o : Int}, 0 ≤ o ∧ o ≤ maxRingPageOrder → orderPages o ≤ maxRingPages := by
    intro o ho
    have : o = 0 ∨ o = 1 ∨ o = 2 ∨ o = 3 ∨ o = 4 := by
      simp only [maxRingPageOrder] at ho
      omega
    rcases this with rfl | rfl | rfl | rfl | rfl <;> decide +kernel
  exact .inr (.inr ⟨bound h.producer, bound h.consumer, .inl ⟨h.producer.1, h.consumer.1⟩⟩)

theorem ordersOk_of_accepting (h0 : toInteger (ascii "0") = some 0)
    (hp : stringToNum toInteger ps = some po) (hc : stringToNum toInteger cs = some co)
    {base : Held} (h : Validated base (connectLoop toInteger [accepting ps cs] base)) :
    OrdersOk po co := by
  have hm : makeChannel (accepting ps cs) base =
      .ok (some blankChannel, ((base.add .memory 1).add .callback 1).add .memory 1) := rfl
  simp only [connectLoop, hm] at h
  have hpost := accepting_once h0 hp hc
    ⟨(((base.add .memory 1).add .callback 1).add .memory 1).add .transaction 1, blankChannel, 0, 0⟩
    trivial
  split at h
  · exact h.elim
  · exact h.elim
  · next e t ht =>
    rw [ht] at hpost
    exact hpost.resolve_left (by simp)
  · next t ht =>
    rw [ht] at hpost
    obtain ⟨⟨rfl, rfl⟩, -⟩ := hpost
    have h : Attached base (attachRingsSupplicant { t with held := t.held.add .transaction (-1) }) := h
    exact h.ordersOk

end Accepting

theorem accepting_benign (ps cs : List UInt8) : (accepting ps cs).Benign :=
  fun _ => ⟨nofun, fun _ => rfl⟩

/-- The orders published are a pair of `S`. -/
def Attempt.Publishes (a : Attempt) (S : Set (List UInt8 × List UInt8)) : Prop :=
  ∀ ps cs, a.read .prodOrder = .ok ps → a.read .consOrder = .ok cs → (ps, cs) ∈ S

/-- The call does what it should whatever else happens, exactly when the orders the listener may
publish are ones it does so for. -/
theorem connect_validated_iff (toInteger : List UInt8 → Option Int)
    (h0 : toInteger (ascii "0") = some 0) (S : Set (List UInt8 × List UInt8)) :
    (∀ async as base, (∀ a ∈ as, a.Benign ∧ a.Publishes S) →
      Validated base (connect toInteger async as base)) ↔
    ∀ ps cs, (ps, cs) ∈ S → ∀ po co, stringToNum toInteger ps = some po →
      stringToNum toInteger cs = some co → OrdersOk po co := by
  constructor
  · intro h ps cs hS po co hp hc
    refine ordersOk_of_accepting h0 hp hc (h none [accepting ps cs] (fun _ => 0) ?_)
    intro a ha
    rw [List.mem_singleton.mp ha]
    refine ⟨accepting_benign ps cs, fun ps' cs' e e' => ?_⟩
    cases e
    cases e'
    exact hS
  · intro h async as base has
    have hloop : Validated base (connectLoop toInteger as base) := by
      refine connectLoop_validated fun a ha => ⟨(has a ha).1, fun po co ho => ?_⟩
      obtain ⟨ps, hps, hp⟩ := gather_ok ho.1
      obtain ⟨cs, hcs, hc⟩ := gather_ok ho.2
      exact h ps cs ((has a ha).2 ps cs hps hcs) po co hp hc
    cases async with
    | none => exact hloop
    | some v =>
      simp only [connect]
      split
      · exact rfl
      · exact hloop

/-- A signed decimal number, up to the first character that is no digit. -/
def decimal (str : List UInt8) : Option Int :=
  let digits (ds : List UInt8) : Nat :=
    (ds.takeWhile fun c => 48 ≤ c && c ≤ 57).foldl (fun n c => n * 10 + (c.toNat - 48)) 0
  match str with
  | 45 :: ds => some (int32 (-digits ds))
  | ds => some (int32 (digits ds))

theorem connect_validated_iff_decimal :
    (∀ async as base, (∀ a ∈ as, a.Benign ∧ a.Publishes {(ascii "2", ascii "3")}) →
      Validated base (connect decimal async as base)) ↔
    ∀ ps cs, (ps, cs) ∈ ({(ascii "2", ascii "3")} : Set _) → ∀ po co,
      stringToNum decimal ps = some po → stringToNum decimal cs = some co → OrdersOk po co :=
  connect_validated_iff decimal (by decide +kernel) _

/-- The orders a successful call goes on with. -/
def Outcome.orders : Outcome → Option (Int × Int)
  | .success s => some (s.producerRingOrder, s.consumerRingOrder)
  | _ => none

theorem connect_negative_order :
    (accepting (ascii "-32") (ascii "0")).Benign ∧
    (connect decimal none [accepting (ascii "-32") (ascii "0")] fun _ => 0).orders =
      some (-32, 0) ∧
    ¬ Validated (fun _ => 0)
      (connect decimal none [accepting (ascii "-32") (ascii "0")] fun _ => 0) := by
  refine ⟨accepting_benign _ _, by decide +kernel, fun h => ?_⟩
  have hok : OrdersOk (-32) 0 :=
    ordersOk_of_accepting (by decide +kernel) (by decide +kernel) (by decide +kernel) h
  have : ¬ OrdersOk (-32) 0 := by
    unfold OrdersOk
    decide +kernel
  exact this hok

end XcWindows.V2v
