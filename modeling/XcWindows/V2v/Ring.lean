import XcWindows.Lib.Machine
import XcWindows.Lib.Circ

/-!
# One direction of a v2v channel

A channel is two rings of messages; each end produces on one and consumes from the other. The
fields of `struct netchannel2_sring_fields` that a direction uses are written by one side only:
`prod`, `cons_event` and `producer_active` by the producer, `cons`, `prod_event`,
`consumer_active` and `consumer_spinning` by the consumer. A `Ring` holds these, the payload
bytes and the private indices of `struct nc2_ring_pair` on both sides. `ProdPc` and `ConsPc` are
the places between two accesses to a shared field in `v2v_nc2_prep_message`,
`v2v_nc2_send_messages` on one side and `v2v_nc2_get_message`, `v2v_nc2_finish_message` on the
other; a step of `ringMachine` is one such access. `sent`, `published` and `got` record what the
calls were asked and answered.
-/

namespace XcWindows.V2v

open Lib

/-- `sizeof(struct netchannel2_msg_hdr)`. -/
def hdrSize : Nat := 4

def msgPad : UInt8 := 255

def consumerSpinLimit : Nat := 2048

/-- `PAGE_SIZE << order`. -/
def ringBytes (order : Nat) : Nat := 4096 <<< order

/-- `(n + 7) & ~7` -/
def roundup8 (n : Nat) : Nat := (n + 7) / 8 * 8

/-- Conversion to a 64-bit `size_t`. -/
abbrev sizeT (n : Nat) : Nat := n % 18446744073709551616

structure Msg where
  type : UInt8
  flags : UInt8
  payload : List UInt8
deriving DecidableEq

/-- A message `v2v_nc2_prep_message` gave out, with the ring offset of its payload. -/
structure Prepared where
  msg : Msg
  addr : Nat
deriving DecidableEq

/-- What `v2v_nc2_prep_message` returned; `nr` is the ring space that was missing. -/
inductive PrepStatus where
  | none
  | success
  | invalidParameter
  | notImplemented
  | retry (nr : Nat)
deriving DecidableEq

/-- What `v2v_nc2_get_message` returned. -/
inductive GetStatus where
  | none
  | success
  | noMoreEntries
  | dataError
deriving DecidableEq

/-- The locals of `v2v_nc2_prep_message`; `size` and `roundedSize` are `unsigned short`. -/
structure Call where
  msgSize : Nat
  size : Nat
  roundedSize : Nat
  type : UInt8
  flags : UInt8
deriving DecidableEq

/-- Where the producer is. `k` is the call of `v2v_nc2_prep_message` that flushes, or `none` for a
flush on behalf of the caller; `again` tells the second try from the first. -/
inductive ProdPc where
  | idle
  | readActive (c : Call)
  | flushProd (k : Option Call)
  | flushEvent (old : Nat) (k : Option Call)
  | flushSpinning (k : Option Call)
  | flushClear (k : Option Call)
  | canSend (c : Call) (again : Bool)
  | readCons (c : Call) (again : Bool) (nr : Nat)
  | setConsEvent (c : Call) (again : Bool) (nr cons : Nat)
  | recheckCons (c : Call) (again : Bool) (nr cons : Nat)
  | resetSend (c : Call)
  | fill (c : Call)
  | postActive
  | postEvent
  | postNotify
deriving DecidableEq

/-- Where the consumer is; `n` is `counter`. -/
inductive ConsPc where
  | idle
  | readProd (n : Nat)
  | readActive (n prod : Nat)
  | setSpinning (n : Nat)
  | spin (n : Nat)
  | clearSpinning (n : Nat)
  | resetReceive (n prod : Nat)
  | finalCheck (n prod : Nat)
  | setProdEvent (n prod : Nat)
  | recheckProd (n prod : Nat)
  | setReceive (n : Nat)
  | readHdr (n : Nat)
  | held
  | finishCons
  | finishEvent (old : Nat)
deriving DecidableEq

structure Ring where
  payloadBytes : Nat
  -- shared, written by the producer
  prod : Nat
  consEvent : Nat
  producerActive : Bool
  payload : Nat → UInt8
  -- shared, written by the consumer
  cons : Nat
  prodEvent : Nat
  consumerActive : Bool
  consumerSpinning : Bool
  -- private to the producer
  localProd : Nat
  localProdPvt : Nat
  localProdBytesAvailable : Nat
  localProducerActive : Bool
  ppc : ProdPc
  prepStatus : PrepStatus
  -- private to the consumer
  localCons : Nat
  localConsPvt : Nat
  currentMessageSize : Nat
  cpc : ConsPc
  getStatus : GetStatus
  -- whether the event was set since its last `KeResetEvent`
  sendEvent : Bool
  receiveEvent : Bool
  -- the messages prepared, how many of them were flushed, and those the consumer was given
  sent : List Prepared
  published : Nat
  got : List Msg

namespace Ring

variable (r : Ring)

/-! ## Messages -/

/-- The bytes of a `struct netchannel2_msg_hdr`. -/
def hdr (type flags : UInt8) (size : Nat) : List UInt8 :=
  [type, flags, .ofNat size, .ofNat (size / 256)]

/-- `hdr->size` of the header at `a`. -/
def hdrSizeAt (mem : Nat → UInt8) (a : Nat) : Nat := (mem (a + 2)).toNat + 256 * (mem (a + 3)).toNat

/-- `__nc2_contained_in_cons_ring`, for a message at offset `a` of the ring. -/
def containedInConsRing (a size : Nat) : Bool := size ≤ r.payloadBytes && a + size ≤ r.payloadBytes

def incomingMessage : Nat := r.localConsPvt % r.payloadBytes

def getMessagePtr : Nat := r.localProdPvt % r.payloadBytes

/-- `__nc2_ring_would_wrap`: the indices differ above the ring's bits. -/
def ringWouldWrap (nrBytes : Nat) : Bool :=
  r.localProdPvt / r.payloadBytes ≠ u32 (r.localProdPvt + nrBytes) / r.payloadBytes

def padNeeded : Nat := u16 (r.payloadBytes - r.localProdPvt % r.payloadBytes)

/-- Write a header and advance the private producer index. -/
def putHdr (type flags : UInt8) (size advance : Nat) : Ring :=
  { r with
    payload := blit r.payload r.getMessagePtr (hdr type flags size)
    localProdPvt := u32 (r.localProdPvt + advance)
    localProdBytesAvailable := sub32 r.localProdBytesAvailable advance }

def sendPad (nrBytes : Nat) : Ring := r.putHdr msgPad 0 nrBytes nrBytes

def avoidRingWrap (nrBytes : Nat) : Ring :=
  if r.ringWouldWrap nrBytes then r.sendPad r.padNeeded else r

/-- The rest of `v2v_nc2_prep_message` once there is space. -/
def putMessage (c : Call) : Ring :=
  let r1 := r.avoidRingWrap c.roundedSize
  let r2 := r1.putHdr c.type c.flags c.size c.roundedSize
  let addr := r1.getMessagePtr + hdrSize
  { r2 with sent := r.sent ++ [⟨⟨c.type, c.flags, bytes r2.payload addr c.msgSize⟩, addr⟩] }

/-- An index that moved from `old` to `new` crossed `event`. -/
def crosses (event old new : Nat) : Bool := sub32 new event < sub32 new old

/-- `space` in `nc2_can_send_payload_bytes` -/
def space (cons : Nat) : Nat := sub32 r.payloadBytes (sub32 r.localProdPvt cons)

def flushWouldTriggerEvent : Bool := crosses r.prodEvent r.localProd r.localProdPvt

/-! ## The producer -/

/-- `v2v_nc2_prep_message` up to its first access to the ring. -/
def prepMessage (msgSize : Nat) (type flags : UInt8) : Ring :=
  let size := sizeT (msgSize + hdrSize)
  if sizeT (size + 7) / 8 * 8 > r.payloadBytes then { r with prepStatus := .invalidParameter }
  else if type ≥ msgPad then { r with prepStatus := .notImplemented }
  else
    { r with
      prepStatus := .none
      ppc := .readActive ⟨msgSize, u16 size, u16 (roundup8 (u16 size)), type, flags⟩ }

/-- Where `v2v_nc2_send_messages` returns to. -/
def afterFlush : Option Call → ProdPc
  | none => .idle
  | some c => .canSend c false

/-- The producer is in no call or in one of `v2v_nc2_send_messages`. -/
def Quiet : ProdPc → Prop
  | .idle | .flushProd none | .flushEvent _ none | .flushSpinning none | .flushClear none => True
  | _ => False

/-- The next access of the producer to a shared field. -/
def prodStep : Option Ring :=
  match r.ppc with
  | .idle => none
  | .readActive c =>
    some { r with ppc := if r.consumerActive then .flushProd (some c) else .canSend c false }
  -- nc2_flush_ring, v2v_nc2_send_messages
  | .flushProd k =>
    some { r with
      prod := r.localProdPvt, localProd := r.localProdPvt, published := r.sent.length
      ppc := .flushEvent r.localProd k }
  | .flushEvent old k =>
    some { r with
      ppc := if crosses r.prodEvent old r.localProd then .flushSpinning k else afterFlush k }
  | .flushSpinning k =>
    some { r with
      receiveEvent := r.receiveEvent || !r.consumerSpinning
      ppc := if r.localProducerActive then .flushClear k else afterFlush k }
  | .flushClear k =>
    some { r with producerActive := false, localProducerActive := false, ppc := afterFlush k }
  -- nc2_can_send_payload_bytes
  | .canSend c again =>
    some <|
      if r.localProdBytesAvailable > c.roundedSize * 2 then
        { r with sendEvent := r.sendEvent || again, ppc := .fill c }
      else if r.ringWouldWrap c.roundedSize then
        { r with ppc := .readCons c again (u16 (c.roundedSize + r.padNeeded)) }
      else { r with ppc := .readCons c again c.roundedSize }
  | .readCons c again nr =>
    some <|
      if r.space r.cons ≥ nr then
        { r with
          localProdBytesAvailable := r.space r.cons
          sendEvent := r.sendEvent || again
          ppc := .fill c }
      else { r with ppc := .setConsEvent c again nr r.cons }
  | .setConsEvent c again nr cons =>
    some { r with consEvent := u32 (cons + 1), ppc := .recheckCons c again nr cons }
  | .recheckCons c again nr cons =>
    some <|
      if cons ≠ r.cons then { r with ppc := .readCons c again nr }
      else if again then { r with prepStatus := .retry nr, ppc := .idle }
      else { r with ppc := .resetSend c }
  | .resetSend c => some { r with sendEvent := false, ppc := .canSend c true }
  | .fill c => some { r.putMessage c with ppc := .postActive }
  | .postActive =>
    some <|
      if r.consumerActive && !r.localProducerActive then { r with ppc := .postEvent }
      else { r with prepStatus := .success, ppc := .idle }
  | .postEvent =>
    some <|
      if r.flushWouldTriggerEvent then { r with ppc := .postNotify }
      else { r with prepStatus := .success, ppc := .idle }
  | .postNotify =>
    some { r with
      producerActive := true, localProducerActive := true, receiveEvent := true
      prepStatus := .success, ppc := .idle }

/-- The caller stores `xs` in the payload of message `i`, from byte `off` of it on. -/
def writePayload (i off : Nat) (xs : List UInt8) : Option Ring :=
  r.sent[i]?.bind fun p =>
    if off + xs.length ≤ p.msg.payload.length then
      some { r with
        payload := blit r.payload (p.addr + off) xs
        sent := r.sent.set i { p with
          msg.payload := p.msg.payload.take off ++ xs ++ p.msg.payload.drop (off + xs.length) } }
    else none

/-! ## The consumer -/

/-- The part of `v2v_nc2_get_message` behind the check for an empty ring. -/
def readHdr (n : Nat) : Ring :=
  let a := r.incomingMessage
  let size := hdrSizeAt r.payload a
  if !r.containedInConsRing a hdrSize then { r with getStatus := .dataError, cpc := .idle }
  else if size < hdrSize || !r.containedInConsRing a size then
    { r with getStatus := .dataError, cpc := .idle }
  else if r.payload a = msgPad then
    { r with localConsPvt := u32 (r.localConsPvt + size), cpc := .readProd n }
  else
    { r with
      currentMessageSize := size - hdrSize
      got := r.got ++
        [⟨r.payload a, r.payload (a + 1), bytes r.payload (a + hdrSize) (size - hdrSize)⟩]
      getStatus := .success
      cpc := .held }

/-- The next access of the consumer to a shared field. -/
def consStep : Option Ring :=
  match r.cpc with
  | .idle | .held => none
  | .readProd n =>
    some { r with cpc := if r.prod = r.localConsPvt then .readActive n r.prod else .readHdr n }
  | .readActive n prod =>
    some { r with
      cpc := if r.producerActive && n < consumerSpinLimit then .setSpinning n
        else .resetReceive n prod }
  | .setSpinning n => some { r with consumerSpinning := true, cpc := .spin n }
  | .spin n =>
    -- while (producer_active && counter++ < CONSUMER_SPIN_LIMIT);
    some { r with
      cpc := if !r.producerActive then .clearSpinning n
        else if n < consumerSpinLimit then .spin (n + 1) else .clearSpinning (n + 1) }
  | .clearSpinning n => some { r with consumerSpinning := false, cpc := .readProd n }
  | .resetReceive n prod => some { r with receiveEvent := false, cpc := .finalCheck n prod }
  -- nc2_final_check_for_messages
  | .finalCheck n prod =>
    some { r with cpc := if prod ≠ r.prod then .setReceive n else .setProdEvent n prod }
  | .setProdEvent n prod =>
    some { r with prodEvent := u32 (prod + 1), cpc := .recheckProd n prod }
  | .recheckProd n prod =>
    some <|
      if prod ≠ r.prod then { r with cpc := .setReceive n }
      else { r with getStatus := .noMoreEntries, cpc := .idle }
  | .setReceive n => some { r with receiveEvent := true, cpc := .readProd n }
  | .readHdr n => some (r.readHdr n)
  -- nc2_finish_messages
  | .finishCons =>
    some { r with
      cons := r.localConsPvt, localCons := r.localConsPvt, cpc := .finishEvent r.localCons }
  | .finishEvent old =>
    some { r with
      sendEvent := r.sendEvent || crosses r.consEvent old r.localCons, cpc := .idle }

/-- `v2v_nc2_finish_message` up to its first access to the ring. -/
def finishMessage : Ring :=
  { r with
    localConsPvt := u32 (r.localConsPvt + roundup8 (r.currentMessageSize + hdrSize))
    cpc := .finishCons }

end Ring

/-! ## Runs -/

/-- What the two clients can do: call a function, let a call go on, or store to a payload. The
consumer finishes a message before it asks for the next. -/
inductive RingAct where
  | prep (msgSize : Nat) (type flags : UInt8)
  | write (i off : Nat) (xs : List UInt8)
  | send
  | producer
  | get
  | finish
  | fastReceive (on : Bool)
  | consumer

def ringStep (r : Ring) : RingAct → Option Ring
  | .prep msgSize type flags => if r.ppc = .idle then some (r.prepMessage msgSize type flags) else none
  | .write i off xs => if r.ppc = .idle then r.writePayload i off xs else none
  | .send => if r.ppc = .idle then some { r with ppc := .flushProd none } else none
  | .producer => r.prodStep
  | .get =>
    if r.cpc = .idle then some { r with getStatus := .none, cpc := .readProd 0 } else none
  | .finish => if r.cpc = .held then some r.finishMessage else none
  | .fastReceive on =>
    if r.cpc = .idle ∨ r.cpc = .held then some { r with consumerActive := on } else none
  | .consumer => r.consStep

/-! ## Each side writes its own fields -/

/-- The consumer's fields are as they were. -/
structure SameCons (r r' : Ring) : Prop where
  payloadBytes : r'.payloadBytes = r.payloadBytes
  cons : r'.cons = r.cons
  prodEvent : r'.prodEvent = r.prodEvent
  consumerActive : r'.consumerActive = r.consumerActive
  consumerSpinning : r'.consumerSpinning = r.consumerSpinning
  localCons : r'.localCons = r.localCons
  localConsPvt : r'.localConsPvt = r.localConsPvt
  currentMessageSize : r'.currentMessageSize = r.currentMessageSize
  cpc : r'.cpc = r.cpc
  getStatus : r'.getStatus = r.getStatus
  got : r'.got = r.got

/-- The producer's fields are as they were. -/
structure SameProd (r r' : Ring) : Prop where
  payloadBytes : r'.payloadBytes = r.payloadBytes
  prod : r'.prod = r.prod
  consEvent : r'.consEvent = r.consEvent
  producerActive : r'.producerActive = r.producerActive
  payload : r'.payload = r.payload
  localProd : r'.localProd = r.localProd
  localProdPvt : r'.localProdPvt = r.localProdPvt
  localProdBytesAvailable : r'.localProdBytesAvailable = r.localProdBytesAvailable
  localProducerActive : r'.localProducerActive = r.localProducerActive
  ppc : r'.ppc = r.ppc
  prepStatus : r'.prepStatus = r.prepStatus
  sent : r'.sent = r.sent
  published : r'.published = r.published

theorem SameCons.refl (r : Ring) : SameCons r r :=
  ⟨rfl, rfl, rfl, rfl, rfl, rfl, rfl, rfl, rfl, rfl, rfl⟩

theorem SameProd.refl (r : Ring) : SameProd r r :=
  ⟨rfl, rfl, rfl, rfl, rfl, rfl, rfl, rfl, rfl, rfl, rfl, rfl, rfl⟩

section Sides

variable {r r' : Ring}

theorem prepMessage_sameCons (msgSize : Nat) (type flags : UInt8) :
    SameCons r (r.prepMessage msgSize type flags) := by
  unfold Ring.prepMessage
  simp only
  split <;> (try split) <;> constructor <;> rfl

theorem writePayload_sameCons {i off : Nat} {xs : List UInt8}
    (h : r.writePayload i off xs = some r') : SameCons r r' := by
  obtain ⟨q, -, h⟩ := Option.bind_eq_some_iff.mp h
  split at h
  · cases h; constructor <;> rfl
  · cases h

theorem prodStep_sameCons (h : r.prodStep = some r') : SameCons r r' := by
  unfold Ring.prodStep at h
  cases hpc : r.ppc <;> simp only [hpc, Option.some.injEq, reduceCtorEq] at h <;>
    (try split at h) <;> (try split at h) <;> subst h <;> try (constructor <;> rfl)
  simp only [Ring.putMessage, Ring.avoidRingWrap, Ring.putHdr, Ring.sendPad]
  split <;> constructor <;> rfl

theorem consStep_sameProd (h : r.consStep = some r') : SameProd r r' := by
  unfold Ring.consStep at h
  cases hpc : r.cpc <;> simp only [hpc, Option.some.injEq, reduceCtorEq] at h <;>
    (try split at h) <;> subst h <;> try (constructor <;> rfl)
  unfold Ring.readHdr
  simp only
  split <;> (try split) <;> (try split) <;> constructor <;> rfl

end Sides

/-- The ring both `v2v_nc2_attach_rings` functions leave behind on a zeroed control page. -/
def attachRings (order : Nat) : Ring where
  payloadBytes := ringBytes order
  prod := 0
  consEvent := 0
  producerActive := false
  payload := fun _ => 0
  cons := 0
  prodEvent := 1
  consumerActive := false
  consumerSpinning := false
  localProd := 0
  localProdPvt := 0
  localProdBytesAvailable := 0
  localProducerActive := false
  ppc := .idle
  prepStatus := .none
  localCons := 0
  localConsPvt := 0
  currentMessageSize := 0
  cpc := .idle
  getStatus := .none
  sendEvent := true
  receiveEvent := false
  sent := []
  published := 0
  got := []

def ringMachine (order : Nat) : Machine Ring RingAct := ⟨attachRings order, ringStep⟩

/-- The ends of a channel: the one that listened and the one that connected. -/
inductive Side where
  | temple
  | supplicant
deriving DecidableEq

/-- A freshly connected channel; `order x` is that of the ring side `x` produces on. -/
def channelMachine (order : Side → Nat) : Machine (Side → Ring) (Side × RingAct) :=
  .pi fun x => ringMachine (order x)

end XcWindows.V2v
