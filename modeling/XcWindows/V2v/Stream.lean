import XcWindows.V2v.Ring

/-!
# Byte streams over a channel

`v2v_stream_send` cuts a buffer into messages of the outgoing ring, `v2v_stream_recv` copies the
messages of the incoming ring to a buffer, and while a send waits for space
`v2v_pull_incoming_messages` moves incoming messages to a local queue. `EndPc` are the places of
one end between its accesses to the rings; a call of the layer below (`ringStep`) goes on one
access at a time, so that the two ends interleave as finely as the rings allow. An end runs one
call at a time. `endStep` is one step of an end: what it does to the ring it produces on and to
the one it consumes from, and what becomes of its own state.
-/

namespace XcWindows.V2v

open Lib
open Function (update)

def maxInlineBytes : Nat := 2048

def streamMsgData : UInt8 := 1

/-- A `struct queued_message` in a pool block of its own. -/
structure QueuedMessage where
  payload : List UInt8
  type : UInt8
  bytesAlreadyUsed : Nat
deriving DecidableEq

/-- What `recv_state.current_message` points to: nothing, `in_ring_message`, whose payload is at
`addr` of the ring, or a pool block. -/
inductive Current where
  | null
  | inRing (type : UInt8) (addr size bytesAlreadyUsed : Nat)
  | queued (m : QueuedMessage)
deriving DecidableEq

/-- `recv_state`; `head` is the list `queue.head` starts and `tailAtHead` tells whether `queue.tail`
points to `queue.head` itself. -/
structure RecvState where
  current : Current
  head : List QueuedMessage
  tailAtHead : Bool

/-- What the pool block of a `struct v2v_stream` held before. -/
structure PoolBlock where
  current : Current
  head : List QueuedMessage

/-- `v2v_stream_attach`: of `recv_state` only `queue.tail` is set. -/
def v2vStreamAttach (block : PoolBlock) : RecvState := ⟨block.current, block.head, true⟩

namespace RecvState

variable (rs : RecvState)

/-- `*queue.tail = qm; queue.tail = &qm->next` -/
def append (m : QueuedMessage) : RecvState :=
  if rs.tailAtHead then { rs with head := [m], tailAtHead := false }
  else { rs with head := rs.head ++ [m] }

/-- Unlink the first queued message, with `rest` behind it. -/
def unlink (rest : List QueuedMessage) : RecvState :=
  { rs with head := rest, tailAtHead := rs.tailAtHead || rest.isEmpty }

end RecvState

/-- `v2v_nc2_producer_bytes_available`, which reads `cons` -/
def producerBytesAvailable (r : Ring) (cons : Nat) : Nat :=
  let prod := r.localProdPvt % r.payloadBytes
  let res :=
    if cons % r.payloadBytes > prod then cons % r.payloadBytes - prod
    else if r.payloadBytes - prod < 16 then cons % r.payloadBytes else r.payloadBytes - prod
  if res < hdrSize + 8 then 0 else res - hdrSize - 8

/-- A send in progress: its buffer and `bytes_sent`. -/
structure Sending where
  buf : List UInt8
  bytesSent : Nat

/-- Where an end is. A pull goes back to the send `k` that called it. -/
inductive EndPc where
  | idle
  | sendTop (k : Sending)
  | sendAvail (k : Sending) (bytesAvail : Nat)
  | sendPrep (k : Sending) (bytesThisTime : Nat)
  | pullCurrent (k : Option Sending)
  | pullFinish (k : Option Sending)
  | pullGet (k : Option Sending)
  | retryFlush (k : Sending)
  | sendWait (k : Sending)
  | sendFlush (k : Sending)
  | recvTop (bufSize : Nat) (buf : List UInt8)
  | recvGet (bufSize : Nat) (buf : List UInt8)
  | recvDiscard (bufSize : Nat) (buf : List UInt8)
  | recvWait (bufSize : Nat) (buf : List UInt8)
  | recvRelease (bufSize : Nat) (buf : List UInt8)

/-- One step of an end. -/
structure Effect where
  out : Option RingAct := none
  inn : Option RingAct := none
  recv : RecvState
  pc : EndPc
  /-- The bytes a send that returns reports as sent. -/
  reported : List UInt8 := []
  returned : List UInt8 := []

section Calls

variable (out inn : Ring) (rs : RecvState)

/-- The end of `v2v_stream_send`. -/
def sendEnd (k : Sending) : Effect :=
  if k.bytesSent ≠ 0 then { out := some .send, recv := rs, pc := .sendFlush k }
  else { recv := rs, pc := .idle, reported := k.buf.take k.bytesSent }

/-- The end of `v2v_pull_incoming_messages`. -/
def pullEnd : Option Sending → Effect
  | none => { recv := rs, pc := .idle }
  | some k =>
    if k.bytesSent ≠ 0 then { out := some .send, recv := rs, pc := .retryFlush k }
    else { recv := rs, pc := .sendWait k }

/-- The `out` label of `v2v_stream_recv`. -/
def recvOut (buf : List UInt8) : Effect :=
  { inn := some (.fastReceive false), recv := rs, pc := .idle, returned := buf }

/-- The copy of `v2v_stream_recv` from a message with `payload` behind what was already used. -/
def copyLen (left bufSize : Nat) (buf : List UInt8) : Nat := min left (bufSize - buf.length)

/-- A round of the loop of `v2v_stream_recv`: take the next message, or copy from the current one. -/
def recvRound (bufSize : Nat) (buf : List UInt8) : Effect :=
  match rs.current with
  | .null =>
    match rs.head with
    | [] => { inn := some .get, recv := rs, pc := .recvGet bufSize buf }
    | m :: rest =>
      -- a message of another type is freed
      { recv := if m.type = streamMsgData then { rs.unlink rest with current := .queued m }
          else rs.unlink rest
        pc := .recvTop bufSize buf }
  | .inRing type addr size used =>
    let n := copyLen (size - used) bufSize buf
    let buf' := buf ++ bytes inn.payload (addr + used) n
    let rs' := { rs with current := .inRing type addr size (used + n) }
    if used + n = size then { inn := some .finish, recv := rs', pc := .recvRelease bufSize buf' }
    else { recv := rs', pc := .recvTop bufSize buf' }
  | .queued m =>
    let n := copyLen (m.payload.length - m.bytesAlreadyUsed) bufSize buf
    let buf' := buf ++ (m.payload.drop m.bytesAlreadyUsed).take n
    if m.bytesAlreadyUsed + n = m.payload.length then
      { recv := { rs with current := .null }, pc := .recvTop bufSize buf' }
    else
      { recv := { rs with current := .queued { m with bytesAlreadyUsed := m.bytesAlreadyUsed + n } }
        pc := .recvTop bufSize buf' }

/-- The next step of an end; `disconnect` is what a wait ended with. -/
def endStep (disconnect : Bool) : EndPc → Option Effect
  | .idle => none
  -- v2v_stream_send
  | .sendTop k =>
    some <|
      if k.bytesSent < k.buf.length then
        { recv := rs, pc := .sendAvail k (producerBytesAvailable out out.cons) }
      else sendEnd rs k
  | .sendAvail k bytesAvail =>
    let avail := if out.consumerActive then min maxInlineBytes bytesAvail else bytesAvail
    let bytesThisTime := u16 (min avail (k.buf.length - k.bytesSent))
    some { out := some (.prep bytesThisTime streamMsgData 0), recv := rs
           pc := .sendPrep k bytesThisTime }
  | .sendPrep k n =>
    if out.ppc ≠ .idle then some { out := some .producer, recv := rs, pc := .sendPrep k n }
    else
      match out.prepStatus with
      | .success =>
        some { out := some (.write (out.sent.length - 1) 0 ((k.buf.drop k.bytesSent).take n))
               recv := rs
               pc := .sendTop { k with bytesSent := u32 (k.bytesSent + n) } }
      | .retry _ => some { recv := rs, pc := .pullCurrent (some k) }
      | .none | .invalidParameter | .notImplemented => some (sendEnd rs k)
  | .retryFlush k =>
    some <|
      if out.ppc ≠ .idle then { out := some .producer, recv := rs, pc := .retryFlush k }
      else { recv := rs, pc := .sendWait k }
  | .sendWait k => some <| if disconnect then sendEnd rs k else { recv := rs, pc := .sendTop k }
  | .sendFlush k =>
    some <|
      if out.ppc ≠ .idle then { out := some .producer, recv := rs, pc := .sendFlush k }
      else { recv := rs, pc := .idle, reported := k.buf.take k.bytesSent }
  -- v2v_pull_incoming_messages
  | .pullCurrent k =>
    some <|
      match rs.current with
      | .inRing type addr size used =>
        { inn := some .finish
          recv := { rs with current := .queued ⟨bytes inn.payload addr size, type, used⟩ }
          pc := .pullFinish k }
      | .null | .queued _ => { inn := some .get, recv := rs, pc := .pullGet k }
  | .pullFinish k =>
    some <|
      if inn.cpc ≠ .idle then { inn := some .consumer, recv := rs, pc := .pullFinish k }
      else { inn := some .get, recv := rs, pc := .pullGet k }
  | .pullGet k =>
    if inn.cpc = .held then
      inn.got.getLast?.map fun m =>
        { inn := some .finish
          recv := rs.append
            ⟨bytes inn.payload (inn.incomingMessage + hdrSize) inn.currentMessageSize, m.type, 0⟩
          pc := .pullFinish k }
    else
      some <|
        if inn.cpc ≠ .idle then { inn := some .consumer, recv := rs, pc := .pullGet k }
        else pullEnd rs k
  -- v2v_stream_recv
  | .recvTop bufSize buf =>
    some <| if buf.length < bufSize then recvRound inn rs bufSize buf else recvOut rs buf
  | .recvGet bufSize buf =>
    if inn.cpc = .held then
      inn.got.getLast?.map fun m =>
        if m.type = streamMsgData then
          { recv := { rs with
              current := .inRing m.type (inn.incomingMessage + hdrSize) inn.currentMessageSize 0 }
            pc := .recvTop bufSize buf }
        else { inn := some .finish, recv := rs, pc := .recvDiscard bufSize buf }
    else
      some <|
        if inn.cpc ≠ .idle then { inn := some .consumer, recv := rs, pc := .recvGet bufSize buf }
        else if inn.getStatus = .noMoreEntries ∧ buf = [] then
          { recv := rs, pc := .recvWait bufSize buf }
        else recvOut rs buf
  | .recvDiscard bufSize buf =>
    some <|
      if inn.cpc ≠ .idle then { inn := some .consumer, recv := rs, pc := .recvDiscard bufSize buf }
      else { recv := rs, pc := .recvTop bufSize buf }
  | .recvWait bufSize buf =>
    some <| if disconnect then recvOut rs buf else { recv := rs, pc := .recvTop bufSize buf }
  | .recvRelease bufSize buf =>
    some <|
      if inn.cpc ≠ .idle then { inn := some .consumer, recv := rs, pc := .recvRelease bufSize buf }
      else { recv := { rs with current := .null }, pc := .recvTop bufSize buf }

end Calls

/-! ## Runs -/

def Side.other : Side → Side
  | .temple => .supplicant
  | .supplicant => .temple

/-- Two ends with a stream attached; `ring x` is the ring side `x` produces on. -/
structure Streams where
  ring : Side → Ring
  recv : Side → RecvState
  pc : Side → EndPc
  reported : Side → List UInt8
  returned : Side → List UInt8

inductive StreamAct where
  | send (buf : List UInt8)
  | recv (bufSize : Nat)
  | pull
  | run (disconnect : Bool)

/-- What a call or a step of side `x` does. -/
def effect (s : Streams) (x : Side) : StreamAct → Option Effect
  | .send buf =>
    match s.pc x with
    | .idle => some { recv := s.recv x, pc := .sendTop ⟨buf, 0⟩ }
    | _ => none
  | .recv bufSize =>
    match s.pc x with
    | .idle => some { inn := some (.fastReceive true), recv := s.recv x, pc := .recvTop bufSize [] }
    | _ => none
  | .pull =>
    match s.pc x with
    | .idle => some { recv := s.recv x, pc := .pullCurrent none }
    | _ => none
  | .run disconnect => endStep (s.ring x) (s.ring x.other) (s.recv x) disconnect (s.pc x)

/-- An access to a ring, if there is one. -/
def ringAct (r : Ring) : Option RingAct → Option Ring
  | none => some r
  | some a => ringStep r a

def streamStep (s : Streams) (a : Side × StreamAct) : Option Streams :=
  (effect s a.1 a.2).bind fun e =>
    (ringAct (s.ring a.1) e.out).bind fun out =>
      (ringAct (s.ring a.1.other) e.inn).map fun inn =>
        { ring := update (update s.ring a.1 out) a.1.other inn
          recv := update s.recv a.1 e.recv
          pc := update s.pc a.1 e.pc
          reported := update s.reported a.1 (s.reported a.1 ++ e.reported)
          returned := update s.returned a.1 (s.returned a.1 ++ e.returned) }

/-- `v2v_stream_attach` on both ends of a freshly connected channel. -/
def streamMachine (order : Side → Nat) (block : Side → PoolBlock) :
    Machine Streams (Side × StreamAct) where
  init :=
    { ring := fun x => attachRings (order x)
      recv := fun x => v2vStreamAttach (block x)
      pc := fun _ => .idle
      reported := fun _ => []
      returned := fun _ => [] }
  step := streamStep

end XcWindows.V2v
