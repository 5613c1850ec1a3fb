import Mathlib.Logic.Function.Basic
import XcWindows.V4v.Ring

/-!
# The listener's reads

`V4vProcessListenerReads` of `xenv4v/rw.c` and what it calls. The accepters of a listener share its
ring; the listener peeks at each message, queues a SYN for an accept, resets what belongs to no
connection, and passes data on to the accepted context, which takes it in a read IRP or in its data
queue. `World` is the part of the device extension these functions touch. Contexts are found by
their file object, ring objects by their address; the SYN records from `synHead` to `synTail` are a
list, and so are the accept IRPs and the read IRPs of the cancel-safe queue.

One turn of the listener's loop is `listenerDecision`, what the message and the contexts call for,
followed by `listenerApply`. What the environment chooses in a turn (`Env`) is the outcome of the
allocation and of the acknowledgements.
-/

namespace XcWindows.V4v

open Lib

/-- `XENV4V_STATE_*` -/
inductive CtxState where
  | uninitialized | idle | bound | listening | connecting | waiting | accepting
  | connected | accepted | disconnected | passive | closed
deriving DecidableEq, Repr

/-- `XENV4V_TYPE_*` -/
inductive CtxType where
  | unspecified | datagram | listener | connector | accepter
deriving DecidableEq, Repr

/-- `XENV4V_DATA`: an entry of an accepter's data queue. -/
structure Data where
  data : List UInt8
  length : Nat
deriving DecidableEq, Repr

/-- `XENV4V_CONTEXT`, with the data queue of an accepter. -/
structure Context where
  state : CtxState
  type : CtxType
  ringObject : Nat
  sdst : Addr
  connId : Nat
  kevReceive : Bool
  dataList : List Data
deriving DecidableEq, Repr

/-- A queued stream read; `preStream` are the IOCTL reads that wait for a SYN or an ACK. -/
structure ReadIrp where
  id : Nat
  pfo : Nat
  len : Nat
  preStream : Bool
deriving DecidableEq, Repr

inductive Status where
  | success | bufferOverflow | invalidDeviceRequest | internalDbCorruption
deriving DecidableEq, Repr

/-- A completed read: its `IoStatus` and the bytes in its buffer. -/
structure Completion where
  irp : ReadIrp
  status : Status
  information : Nat
  data : List UInt8
deriving DecidableEq, Repr

/-- `XENV4V_SYN` -/
structure Syn where
  sdst : Addr
  connId : Nat
deriving DecidableEq, Repr

/-- `V4V_STREAM`, the stream header in front of the data. -/
structure Stream where
  flags : Nat
  conid : Nat
deriving DecidableEq, Repr

/-- The device as seen by the reads of the context `listener`. -/
structure World where
  rings : Nat → Ring
  ctx : Nat → Context
  contextList : List Nat
  irps : List ReadIrp
  listener : Nat
  backlog : Nat
  syns : List Syn
  accepts : List Nat
  completed : List Completion
  resets : List (Nat × Addr)
  assertFailed : Bool

structure Env where
  alloc : Bool
  acks : List Bool
deriving DecidableEq, Repr

abbrev v4vProtoStream : Nat := 0x70f6a8e5

/-- `sizeof (V4V_STREAM)` -/
abbrev streamSize : Nat := 8

/-- `V4V_SHF_SYN` -/
def Stream.syn (sh : Stream) : Bool := sh.flags.testBit 0

/-- `V4V_SHF_RST` -/
def Stream.rst (sh : Stream) : Bool := sh.flags.testBit 2

def streamOf (l : List UInt8) : Stream := ⟨u32At (l.getD · 0) 0, u32At (l.getD · 0) 4⟩

namespace World

def setCtx (w : World) (c : Nat) (x : Context) : World :=
  { w with ctx := Function.update w.ctx c x }

def setRing (w : World) (o : Nat) (r : Ring) : World :=
  { w with rings := Function.update w.rings o r }

/-- The ring of a context. -/
def ringOf (w : World) (c : Nat) : Ring := w.rings (w.ctx c).ringObject

def setEvent (w : World) (c : Nat) (b : Bool) : World :=
  w.setCtx c { w.ctx c with kevReceive := b }

def setDataList (w : World) (c : Nat) (l : List Data) : World :=
  w.setCtx c { w.ctx c with dataList := l }

/-- `IoCompleteRequest` -/
def complete (w : World) (irp : ReadIrp) (status : Status) (information : Nat)
    (data : List UInt8) : World :=
  { w with completed := w.completed ++ [⟨irp, status, information, data⟩] }

end World

def v4vSimpleCompleteIrp (w : World) (irp : ReadIrp) (status : Status) : World :=
  w.complete irp status 0 []

/-- `IoCsqRemoveNextIrp` for the stream reads of a file object. -/
def ioCsqRemoveNextIrp (w : World) (c : Nat) : Option ReadIrp × World :=
  (w.irps.find? (·.pfo = c), { w with irps := w.irps.eraseP (·.pfo = c) })

def v4vRecoverRing (w : World) (c : Nat) : World :=
  w.setRing (w.ctx c).ringObject { w.ringOf c with rxPtr := (w.ringOf c).txPtr }

/-- `(VOID)v4v_copy_out(ring, NULL, NULL, NULL, 0, 1)` -/
def consume (w : World) (c : Nat) : World :=
  match v4vCopyOut (w.ringOf c) false 0 true with
  | none => w
  | some p => w.setRing (w.ctx c).ringObject p.ring

/-- `V4vSendReset`; only that the RST is sent matters here. -/
def v4vSendReset (w : World) (connId : Nat) (dst : Addr) : World :=
  { w with resets := w.resets ++ [(connId, dst)] }

/-- The first ACCEPTED accepter with this connection id, of whichever listener. -/
def v4vGetContextByConnectionId (w : World) (connId : Nat) : Option Nat :=
  w.contextList.find? fun c =>
    (w.ctx c).state = .accepted ∧ (w.ctx c).type = .accepter ∧ (w.ctx c).connId = connId

/-- The loop of `V4vDoAccepts`. -/
def acceptSyns (ctx : Nat → Context) : List Syn → List Nat → List Bool →
    (Nat → Context) × List Syn × List Nat
  | s :: syns, a :: accepts, acks =>
    let state := if acks.headD true then CtxState.accepted else .disconnected
    acceptSyns (Function.update ctx a { ctx a with sdst := s.sdst, connId := s.connId, state })
      syns accepts acks.tail
  | syns, accepts, _ => (ctx, syns, accepts)

def v4vDoAccepts (w : World) (acks : List Bool) : World :=
  let (ctx, syns, accepts) := acceptSyns w.ctx w.syns w.accepts acks
  { w with ctx, syns, accepts }.setEvent w.listener (syns ≠ [])

def v4vProcessPreAcceptReads (w : World) (sh : Stream) (src : Addr) (acks : List Bool) : World :=
  if w.syns.length = w.backlog then v4vSendReset w sh.conid src
  else v4vDoAccepts { w with syns := w.syns ++ [⟨src, sh.conid⟩] } acks

/-- One turn of the loop in `V4vProcessAccepterReads`; `some signaled` ends it. -/
def accepterReadsTurn (w : World) (c : Nat) (notify : Bool) : World × Option Bool :=
  match (w.ctx c).dataList with
  | [] => (if notify then w else w.setEvent c false, some false)
  | pd :: rest =>
    match ioCsqRemoveNextIrp w c with
    | (none, _) => (w.setEvent c true, some true)
    | (some irp, w) =>
      if irp.preStream then (v4vSimpleCompleteIrp w irp .invalidDeviceRequest, none)
      else if irp.len < pd.length then (v4vSimpleCompleteIrp w irp .bufferOverflow, none)
      else
        ((w.complete irp .success pd.length (pd.data.take pd.length)).setDataList c rest, none)

def accepterReads : Nat → World → Nat → Bool → World × Bool
  | 0, w, _, _ => (w, false)
  | n + 1, w, c, notify =>
    match accepterReadsTurn w c notify with
    | (w, some signaled) => (w, signaled)
    | (w, none) => accepterReads n w c notify

/-- Every turn but the last removes an IRP, so that this many turns are enough. -/
def v4vProcessAccepterReads (w : World) (c : Nat) (notify : Bool) : World × Bool :=
  accepterReads (w.irps.length + 1) w c notify

/-- Take an IRP for the message; one that is too short is failed. -/
def takeReadIrp (w : World) (c dlen : Nat) : Option ReadIrp × World :=
  match ioCsqRemoveNextIrp w c with
  | (none, w) => (none, w)
  | (some irp, w) =>
    if irp.len < dlen - streamSize then (none, v4vSimpleCompleteIrp w irp .bufferOverflow)
    else (some irp, w)

/-- Nobody to take the message: read it into a new entry (`none` is a failed read). -/
def readToQueue (w : World) (c dlen : Nat) : World × Option Data :=
  match v4vCopyOutOffset (w.ringOf c) true dlen true streamSize with
  | none => (v4vRecoverRing w c, none)
  | some p =>
    if p.ret < 0 then (v4vRecoverRing (w.setRing (w.ctx c).ringObject p.ring) c, none)
    else (w.setRing (w.ctx c).ringObject p.ring, some ⟨p.data, u32 (dlen - streamSize)⟩)

/-- Chain an entry at the end of the data queue. -/
def chainData (w : World) (c : Nat) (pd : Data) (signaled : Bool) : World :=
  let w := w.setDataList c ((w.ctx c).dataList ++ [pd])
  if signaled then w else w.setEvent c true

/-- Read the message into an IRP. -/
def readToIrp (w : World) (c dlen : Nat) (irp : ReadIrp) : World :=
  let w := { w with assertFailed := w.assertFailed || !(w.ctx c).dataList.isEmpty }
  match v4vCopyOutOffset (w.ringOf c) true (dlen + streamSize) true streamSize with
  | none => v4vSimpleCompleteIrp (v4vRecoverRing w c) irp .internalDbCorruption
  | some p =>
    let w := w.setRing (w.ctx c).ringObject p.ring
    if p.ret < 0 then v4vSimpleCompleteIrp (v4vRecoverRing w c) irp .internalDbCorruption
    else w.complete irp .success (p.ret.toNat - streamSize) p.data

def v4vProcessAccepterBufferedReads (w : World) (c dlen : Nat) (alloc : Bool) : World :=
  let (w, signaled) := v4vProcessAccepterReads w c true
  match takeReadIrp w c dlen with
  | (some irp, w) => readToIrp w c dlen irp
  | (none, w) =>
    if alloc then
      match readToQueue w c dlen with
      | (w, none) => w
      | (w, some pd) => chainData w c pd signaled
    else w

/-- `V4vDisconnectStreamAndSignal`; the IRPs it cancels are writes. -/
def v4vDisconnectStreamAndSignal (w : World) (c : Nat) : World :=
  let x := w.ctx c
  let dataList := if x.state = .accepted then [] else x.dataList
  w.setCtx c { x with dataList, state := .disconnected, kevReceive := true }

/-- The objects whose addresses the listener compares. -/
inductive Loc where
  | sdst (c : Nat)
  | src
deriving DecidableEq, Repr

/-- `XENV4V_ADDR_COMPARE` applied to two pointers: it compares the addresses of their fields. -/
def xenv4vAddrComparePtr (a b : Loc) : Bool := a = b

/-- What one turn of the listener's loop does. -/
inductive Decision where
  | done
  | recover
  | drop
  | syn (src : Addr) (sh : Stream)
  | unknown (src : Addr) (sh : Stream)
  | stranger (actx : Nat) (src : Addr) (sh : Stream)
  | disconnect (actx : Nat) (src : Addr) (sh : Stream)
  | data (actx : Nat) (src : Addr) (sh : Stream) (dlen : Nat)
deriving DecidableEq, Repr

/-- What a peek shows: the source, the header and the length of a stream message, if it is one. -/
inductive Peek where
  | unreadable
  | notStream
  | stream (src : Addr) (sh : Stream) (dlen : Nat)
deriving DecidableEq, Repr

def peekStream (r : Ring) : Peek :=
  match v4vCopyOut r true streamSize false with
  | none => .unreadable
  | some p =>
    if p.ret < 0 then .unreadable
    else if p.protocol ≠ v4vProtoStream ∨ p.ret < streamSize then .notStream
    else .stream p.source (streamOf p.data) p.ret.toNat

def listenerDecision (w : World) : Decision :=
  let r := w.ringOf w.listener
  if r.rxPtr = r.txPtr then .done
  else
    match peekStream r with
    | .unreadable => .recover
    | .notStream => .drop
    | .stream src sh dlen =>
      if sh.syn then .syn src sh
      else
        match v4vGetContextByConnectionId w sh.conid with
        | none => .unknown src sh
        | some actx =>
          if xenv4vAddrComparePtr (.sdst actx) .src then .stranger actx src sh
          else if sh.rst then .disconnect actx src sh
          else .data actx src sh dlen

/-- Send a RST unless the message is one. -/
def resetUnlessRst (w : World) (sh : Stream) (src : Addr) : World :=
  if sh.rst then w else v4vSendReset w sh.conid src

/-- The SYN branch; `passive` is whether `state` is not LISTENING. -/
def listenerSyn (w : World) (passive : Bool) (acks : List Bool) : World :=
  match v4vCopyOut (w.ringOf w.listener) true streamSize true with
  | none => v4vRecoverRing w w.listener
  | some p =>
    let w := w.setRing (w.ctx w.listener).ringObject p.ring
    let sh := streamOf p.data
    if p.ret < 0 then v4vRecoverRing w w.listener
    else if passive then resetUnlessRst (consume w w.listener) sh p.source
    else v4vProcessPreAcceptReads w sh p.source acks

/-- Carry a decision out; `false` leaves the loop. -/
def listenerApply (w : World) (passive : Bool) (env : Env) : Decision → World × Bool
  | .done => (w, false)
  | .recover => (v4vRecoverRing w w.listener, true)
  | .drop => (consume w w.listener, true)
  | .syn _ _ => (listenerSyn w passive env.acks, true)
  | .unknown src sh => (resetUnlessRst (consume w w.listener) sh src, true)
  | .stranger _ src sh => (resetUnlessRst (consume w w.listener) sh src, true)
  | .disconnect actx _ _ => (v4vDisconnectStreamAndSignal w actx, false)
  | .data actx _ _ dlen => (v4vProcessAccepterBufferedReads w actx dlen env.alloc, true)

/-- A turn of the loop that met a message. -/
structure Turn where
  before : World
  decision : Decision
  after : World

/-- `V4vProcessListenerReads`, for as many turns as there are environments: the turns, and the
world it returns in (`none` if it has not returned yet). -/
def v4vProcessListenerReads (passive : Bool) : List Env → World → List Turn × Option World
  | [], _ => ([], none)
  | env :: envs, w =>
    match listenerDecision w with
    | .done => ([], some w)
    | d =>
      let (w', continues) := listenerApply w passive env d
      if continues then
        let (turns, res) := v4vProcessListenerReads passive envs w'
        (⟨w, d, w'⟩ :: turns, res)
      else ([⟨w, d, w'⟩], some w')

end XcWindows.V4v
