import XcWindows.Lib.Circ
import XcWindows.Xenbus.Transmit
import XcWindows.Xenbus.Watch

/-!
# The XenStore response ring

`receive_from_xenstored` of `xenutil/xenbus.c`, which the DPC calls under the ring lock until it
answers `FALSE`. It is a resumable parser: a header of 16 bytes, then either a whole watch event or
the payload of a reply, in as many pieces as xenstored puts on the ring, or a number of bytes to
throw away. Ring indices and lengths are 32 bits wide and wrap; `size_t` is 64 bits wide, so that
`sizeof(hdr) + hdr.len` does not.

The requests are records in memory, listed by their addresses; the watches are those of
`XcWindows.Xenbus.Watch`, a handler's token the hexadecimal text of its address. A buffer is a list
of bytes of which the ones never written are `none`.
-/

namespace XcWindows.Xenbus.Receive

open XcWindows.Lib

/-- `struct xsd_sockmsg` -/
structure Sockmsg where
  type : Nat
  reqId : Nat
  txId : Nat
  len : Nat
deriving DecidableEq

abbrev xsWatchEvent : Nat := 15

abbrev xsError : Nat := 16

abbrev xsIsDomainIntroduced : Nat := 17

/-- `sizeof (struct xsd_sockmsg)` -/
abbrev hdrSize : Nat := 16

/-- A little-endian `uint32_t`. -/
def uint32 (bs : List UInt8) : Nat := bs.foldr (fun b n => b.toNat + 256 * n) 0

def Sockmsg.ofBytes (bs : List UInt8) : Sockmsg :=
  ⟨uint32 (bs.take 4), uint32 ((bs.drop 4).take 4), uint32 ((bs.drop 8).take 4),
    uint32 ((bs.drop 12).take 4)⟩

/-- The memory of a buffer. -/
abbrev Buffer := List (Option UInt8)

/-- `struct xenbus_pending_req`, its receive half. -/
structure RxReq where
  id : Nat
  replyHeader : Sockmsg
  replyPayload : Option Buffer
  /-- `set_reply_buffer` was called -/
  own : Bool
  replyBufSize : Nat
  replyPayloadReceived : Nat
  replyBytes : List UInt8
  xenbusReplied : Bool
  completionEvent : Bool
deriving DecidableEq

structure Rx where
  rsp : Nat → UInt8
  rspCons : Nat
  rspProd : Nat
  consResponseDiscardBytes : Nat
  /-- the memory the requests are in -/
  req : Nat → RxReq
  /-- `head_pending_xenbus_req` to `tail_pending_xenbus_req` -/
  pending : List Nat
  currentRxReq : Option Nat
  watches : Watch.Bus
  token : Nat → List UInt8
  austereMode : Bool
  allowXenbusWatchOperation : Bool

/-- What ends a call early. -/
inductive Fault where
  | assertion
  | bugCheck
  /-- a write outside the reply buffer -/
  | overrun
deriving DecidableEq

def memcpyFromRing (ring : Nat → UInt8) (size idx : Nat) : Except Fault (List UInt8) :=
  if size ≤ xenstoreRingSize ∧ idx < xenstoreRingSize then
    .ok (bytes ring idx (min size (xenstoreRingSize - idx)) ++
      bytes ring 0 (size - min size (xenstoreRingSize - idx)))
  else .error .assertion

/-- `memcpy` of `data` to offset `off` of a buffer. -/
def writeBuffer (buf : Option Buffer) (off : Nat) (data : List UInt8) :
    Except Fault (Option Buffer) :=
  match data, buf with
  | [], buf => .ok buf
  | _, none => .error .overrun
  | data, some buf =>
    if off + data.length ≤ buf.length then
      .ok (some (buf.take off ++ data.map some ++ buf.drop (off + data.length)))
    else .error .overrun

/-- The loops over `rsp` that look for a NUL: `n` bytes from `pos` on, up to `message_end`. -/
def scanNul (ring : Nat → UInt8) : Nat → Nat → Nat
  | 0, pos => pos
  | n + 1, pos =>
    if ring (pos % xenstoreRingSize) = 0 then pos else scanNul ring n (u32 (pos + 1))

namespace RxReq

/-- What the header of a reply leaves in its request; `alloc` tells whether `XmAllocateMemory`
succeeds. -/
def startReply (req : RxReq) (hdr : Sockmsg) (alloc : Bool) : RxReq :=
  let req := { req with replyHeader := hdr, replyPayloadReceived := 0, replyBytes := [] }
  match req.replyPayload with
  | some _ => req
  | none =>
    if alloc then
      { req with replyPayload := some (List.replicate hdr.len none), replyBufSize := hdr.len }
    else { req with replyBufSize := 0 }

end RxReq

namespace Rx

variable (s : Rx)

def bytesAvail : Nat := sub32 s.rspProd s.rspCons

def setReq (a : Nat) (r : RxReq) : Rx := { s with req := Function.update s.req a r }

def findPendingRxReq (id : Nat) : Option Nat := s.pending.find? fun a => (s.req a).id = id

/-- The reply buffer after a piece of `avail` bytes was taken from the ring. -/
def copyPayload (req : RxReq) (avail : Nat) : Except Fault (Option Buffer) :=
  let bytesRxed := u32 req.replyPayloadReceived
  if bytesRxed < req.replyBufSize then
    (memcpyFromRing s.rsp (min avail (req.replyBufSize - bytesRxed))
      (s.rspCons % xenstoreRingSize)).bind (writeBuffer req.replyPayload bytesRxed)
  else .ok req.replyPayload

/-- What is left of the current reply, as far as it is on the ring. -/
def payloadAvail (req : RxReq) : Nat :=
  min s.bytesAvail (sub32 req.replyHeader.len (u32 req.replyPayloadReceived))

/-- `if (current_rx_req)`: the state and `cons`. -/
def receivePayload (a : Nat) : Except Fault (Rx × Nat) :=
  let req := s.req a
  let avail := s.payloadAvail req
  (s.copyPayload req avail).bind fun payload =>
    let received := req.replyPayloadReceived + avail
    let replied := decide (received = req.replyHeader.len)
    if received ≤ req.replyHeader.len then
      .ok
        ({ s.setReq a { req with
             replyPayload := payload
             replyPayloadReceived := received
             replyBytes := req.replyBytes ++ window s.rsp xenstoreRingSize s.rspCons avail
             xenbusReplied := req.xenbusReplied || replied
             completionEvent := req.completionEvent || replied && !s.austereMode } with
           currentRxReq := if replied then none else some a },
          u32 (s.rspCons + avail))
    else .error .assertion

def fireWatchByIdent (ident : List UInt8) : Except Fault Rx :=
  if s.austereMode then .error .assertion
  else
    match s.watches.list.find? fun h => s.token h = ident with
    | some h => .ok { s with watches := s.watches.trigger h }
    | none => .ok s

/-- The identifier of the watch event that ends at `messageEnd`; `none` is a malformed event. -/
def watchIdent (messageEnd : Nat) : Except Fault (Option (List UInt8)) :=
  let pathStart := u32 (s.rspCons + hdrSize)
  let pathEnd := scanNul s.rsp (sub32 messageEnd pathStart) pathStart
  if messageEnd < pathEnd then .error .assertion
  else if pathEnd = messageEnd then .ok none
  else
    let identStart := u32 (pathEnd + 1)
    let identEnd := scanNul s.rsp (sub32 messageEnd identStart) identStart
    if messageEnd < identEnd then .error .assertion
    else if identEnd = messageEnd ∧ s.rsp (identEnd % xenstoreRingSize) ≠ 0 then .ok none
    else if 17 ≤ sub32 identEnd identStart then .error .assertion
    else
      (memcpyFromRing s.rsp (sub32 identEnd identStart + 1) (identStart % xenstoreRingSize)).map
        fun ident => some (ident.takeWhile (· ≠ 0))

/-- `if (hdr.type == XS_WATCH_EVENT)` -/
def receiveWatchEvent (hdr : Sockmsg) : Except Fault (Rx × Nat) :=
  if s.bytesAvail < hdrSize + hdr.len then .ok (s, s.rspCons)
  else
    let messageEnd := u32 (s.rspCons + hdrSize + hdr.len)
    if s.rspProd < messageEnd then .error .assertion
    else if s.austereMode then .ok (s, messageEnd)
    else
      (s.watchIdent messageEnd).bind fun
        | none => .ok (s, messageEnd)
        | some ident =>
          if s.allowXenbusWatchOperation then
            (s.fireWatchByIdent ident).map fun s => (s, messageEnd)
          else .ok (s, messageEnd)

/-- The header of an ordinary reply. -/
def receiveReply (hdr : Sockmsg) (alloc : Bool) : Except Fault (Rx × Nat) :=
  let cons := u32 (s.rspCons + hdrSize)
  if xsIsDomainIntroduced < hdr.type then .error .bugCheck
  else
    match s.findPendingRxReq hdr.reqId with
    | none => .ok ({ s with consResponseDiscardBytes := hdr.len }, cons)
    | some a =>
      .ok ({ s.setReq a ((s.req a).startReply hdr alloc) with currentRxReq := some a }, cons)

/-- `if (!current_rx_req)` -/
def receiveHeader (alloc : Bool) : Except Fault (Rx × Nat) :=
  if s.bytesAvail < hdrSize then .ok (s, s.rspCons)
  else
    (memcpyFromRing s.rsp hdrSize (s.rspCons % xenstoreRingSize)).bind fun bs =>
      let hdr := Sockmsg.ofBytes bs
      if hdr.type = xsWatchEvent then s.receiveWatchEvent hdr else s.receiveReply hdr alloc

def receiveFromXenstored (alloc : Bool) : Except Fault (Bool × Rx) :=
  if s.consResponseDiscardBytes ≠ 0 then
    let n := min s.bytesAvail s.consResponseDiscardBytes
    .ok (true, { s with
      rspCons := u32 (s.rspCons + n)
      consResponseDiscardBytes := s.consResponseDiscardBytes - n })
  else
    (match s.currentRxReq with
      | some a => s.receivePayload a
      | none => s.receiveHeader alloc).map fun (r : Rx × Nat) =>
        -- the return value: whether `cons` has moved
        (decide (s.rspCons ≠ r.2), { r.1 with rspCons := r.2 })

end Rx

/-- A request before `initialise_pending_req`. -/
def RxReq.zero : RxReq := ⟨0, ⟨0, 0, 0, 0⟩, none, false, 0, 0, [], false, false⟩

/-- The receiver with both indices at `idx` and nothing under way. -/
def Rx.init (idx : Nat) (token : Nat → List UInt8) : Rx where
  rsp := fun _ => 0
  rspCons := idx
  rspProd := idx
  consResponseDiscardBytes := 0
  req := fun _ => .zero
  pending := []
  currentRxReq := none
  watches := Watch.watchMachine.init
  token := token
  austereMode := false
  allowXenbusWatchOperation := true

/-- `initialise_pending_req`, and `set_reply_buffer` for a buffer of the size `own`. -/
def RxReq.fresh (id : Nat) (own : Option Nat) : RxReq :=
  { RxReq.zero with
    id := id
    replyPayload := own.map fun size => List.replicate size (some 0)
    own := own.isSome
    replyBufSize := own.getD 0 }

namespace Rx

variable (s : Rx)

/-- `submit_request` -/
def submit (a id : Nat) (own : Option Nat) : Rx :=
  { s.setReq a (.fresh id own) with pending := s.pending ++ [a] }

/-- xenstored puts bytes on the ring. -/
def write (bs : List UInt8) : Rx :=
  { s with
    rsp := circBlit s.rsp xenstoreRingSize (s.rspProd % xenstoreRingSize) bs
    rspProd := u32 (s.rspProd + bs.length) }

end Rx

/-! ## Reading the ring -/

theorem memcpyFromRing_eq {ring : Nat → UInt8} {size : Nat} (pos : Nat)
    (h : size ≤ xenstoreRingSize) :
    memcpyFromRing ring size (pos % xenstoreRingSize) =
      .ok (window ring xenstoreRingSize pos size) := by
  have hp : pos % xenstoreRingSize < xenstoreRingSize := Nat.mod_lt _ (by decide)
  rw [memcpyFromRing, if_pos ⟨h, hp⟩]
  congr 1
  have hsplit : size = min size (xenstoreRingSize - pos % xenstoreRingSize) +
      (size - min size (xenstoreRingSize - pos % xenstoreRingSize)) := by omega
  conv_rhs => rw [hsplit, window_add]
  congr 1
  · exact (window_eq_bytes 0 (by omega)).symm
  · by_cases hle : size ≤ xenstoreRingSize - pos % xenstoreRingSize
    · simp [Nat.min_eq_left hle]
    · rw [Nat.min_eq_right (by omega), @bytes_eq_window _ _ xenstoreRingSize _ _ (by omega)]
      apply window_congr_pos
      rw [← Nat.mod_add_mod, show pos % xenstoreRingSize + (xenstoreRingSize -
        pos % xenstoreRingSize) = xenstoreRingSize by omega]
      rfl

@[simp] theorem bytesAvail_lt (s : Rx) : s.bytesAvail < 4294967296 := Nat.mod_lt _ (by decide)

theorem bytesAvail_take {s t : Rx} {n : Nat}
    (hp : t.rspProd = s.rspProd) (hc : t.rspCons = u32 (s.rspCons + n)) (hn : n ≤ s.bytesAvail) :
    t.bytesAvail = s.bytesAvail - n := by
  simp only [Rx.bytesAvail, sub32, u32, hp, hc] at hn ⊢
  omega

/-! ## What a call does -/

namespace Rx

variable (s : Rx)

/-- The header at the front of the ring. -/
def frontHeader : Sockmsg := .ofBytes (window s.rsp xenstoreRingSize s.rspCons hdrSize)

/-- There is a header, and all of the message if it is a watch event. -/
def HeaderReady : Prop :=
  hdrSize ≤ s.bytesAvail ∧
    (s.frontHeader.type = xsWatchEvent → hdrSize + s.frontHeader.len ≤ s.bytesAvail)

instance : Decidable s.HeaderReady := inferInstanceAs (Decidable (_ ∧ _))

/-- What the parser keeps of its state. -/
structure Wf : Prop where
  cons : s.rspCons < 4294967296
  discard : s.consResponseDiscardBytes < 4294967296
  current : ∀ a, s.currentRxReq = some a →
    (s.req a).replyPayloadReceived ≤ (s.req a).replyHeader.len ∧
      (s.req a).replyHeader.len < 4294967296

end Rx

theorem uint32_lt {bs : List UInt8} {n : Nat} (h : bs.length ≤ n) : uint32 bs < 256 ^ n := by
  induction bs generalizing n with
  | nil => exact Nat.pow_pos (by decide)
  | cons b bs ih =>
    obtain ⟨n, rfl⟩ : ∃ m, n = m + 1 := ⟨n - 1, by simp at h; omega⟩
    have h1 := ih (show bs.length ≤ n by simpa using h)
    have h2 := b.toNat_lt
    rw [Nat.pow_succ]
    simp only [uint32, List.foldr_cons] at h1 ⊢
    omega

theorem ofBytes_len_lt (bs : List UInt8) : (Sockmsg.ofBytes bs).len < 4294967296 :=
  @uint32_lt _ 4 (by rw [List.length_take]; omega)

section Call

variable {s t : Rx} {a cons : Nat} {alloc b : Bool}

theorem headerReady_congr (h1 : t.rsp = s.rsp) (h2 : t.rspCons = s.rspCons)
    (h3 : t.rspProd = s.rspProd) : t.HeaderReady ↔ s.HeaderReady := by
  simp only [Rx.HeaderReady, Rx.frontHeader, Rx.bytesAvail, h1, h2, h3]

theorem u32_add_ne {n : Nat} (h : s.Wf) (h0 : 0 < n) (hn : n ≤ s.bytesAvail) :
    u32 (s.rspCons + n) ≠ s.rspCons := by
  have := h.cons
  have := bytesAvail_lt s
  simp only [u32]
  omega

theorem payloadAvail_eq (h : s.Wf) (hc : s.currentRxReq = some a) :
    s.payloadAvail (s.req a) = min s.bytesAvail
      ((s.req a).replyHeader.len - (s.req a).replyPayloadReceived) := by
  obtain ⟨h1, h2⟩ := h.current a hc
  simp only [Rx.payloadAvail, sub32, u32]
  omega

theorem receiveHeader_eq (h : hdrSize ≤ s.bytesAvail) :
    s.receiveHeader alloc =
      if s.frontHeader.type = xsWatchEvent then s.receiveWatchEvent s.frontHeader
      else s.receiveReply s.frontHeader alloc := by
  rw [Rx.receiveHeader, if_neg (Nat.not_lt.mpr h), memcpyFromRing_eq _ (by decide)]
  rfl

theorem receivePayload_ok (h : s.receivePayload a = .ok (t, cons)) :
    ∃ payload, s.copyPayload (s.req a) (s.payloadAvail (s.req a)) = .ok payload ∧
      (s.req a).replyPayloadReceived + s.payloadAvail (s.req a) ≤ (s.req a).replyHeader.len ∧
      cons = u32 (s.rspCons + s.payloadAvail (s.req a)) ∧
      t = { s.setReq a { s.req a with
              replyPayload := payload
              replyPayloadReceived :=
                (s.req a).replyPayloadReceived + s.payloadAvail (s.req a)
              replyBytes := (s.req a).replyBytes ++
                window s.rsp xenstoreRingSize s.rspCons (s.payloadAvail (s.req a))
              xenbusReplied := (s.req a).xenbusReplied ||
                decide ((s.req a).replyPayloadReceived + s.payloadAvail (s.req a) =
                  (s.req a).replyHeader.len)
              completionEvent := (s.req a).completionEvent ||
                decide ((s.req a).replyPayloadReceived + s.payloadAvail (s.req a) =
                  (s.req a).replyHeader.len) && !s.austereMode } with
            currentRxReq :=
              if (s.req a).replyPayloadReceived + s.payloadAvail (s.req a) =
                (s.req a).replyHeader.len then none else some a } := by
  unfold Rx.receivePayload at h
  obtain ⟨payload, h1, h2⟩ := bind_ok h
  simp only at h2
  split at h2
  · next hle =>
    cases h2
    exact ⟨payload, h1, hle, rfl, by simp⟩
  · cases h2

theorem receiveWatchEvent_ok {hdr : Sockmsg} (h : s.receiveWatchEvent hdr = .ok (t, cons)) :
    (t = s ∧ cons = s.rspCons ∧ s.bytesAvail < hdrSize + hdr.len) ∨
      hdrSize + hdr.len ≤ s.bytesAvail ∧ cons = u32 (s.rspCons + hdrSize + hdr.len) ∧
        ∃ watches, t = { s with watches } := by
  unfold Rx.receiveWatchEvent at h
  split at h
  · next hlt => cases h; exact .inl ⟨rfl, rfl, hlt⟩
  · next hge =>
    refine .inr ⟨Nat.not_lt.mp hge, ?_⟩
    simp only at h
    split at h
    · cases h
    · split at h
      · cases h; exact ⟨rfl, s.watches, rfl⟩
      · obtain ⟨ident, -, h⟩ := bind_ok h
        cases ident with
        | none => cases h; exact ⟨rfl, s.watches, rfl⟩
        | some ident =>
          simp only at h
          split at h
          · unfold Rx.fireWatchByIdent at h
            split at h
            · cases h
            · split at h
              · cases h; exact ⟨rfl, _, rfl⟩
              · cases h; exact ⟨rfl, s.watches, rfl⟩
          · cases h; exact ⟨rfl, s.watches, rfl⟩

theorem receiveHeader_ok (h : s.receiveHeader alloc = .ok (t, cons)) :
    (t = s ∧ cons = s.rspCons ∧ ¬ s.HeaderReady) ∨
    (s.HeaderReady ∧ s.frontHeader.type = xsWatchEvent ∧
      cons = u32 (s.rspCons + hdrSize + s.frontHeader.len) ∧ ∃ watches, t = { s with watches }) ∨
    (s.HeaderReady ∧ s.frontHeader.type ≠ xsWatchEvent ∧
      s.findPendingRxReq s.frontHeader.reqId = none ∧ cons = u32 (s.rspCons + hdrSize) ∧
      t = { s with consResponseDiscardBytes := s.frontHeader.len }) ∨
    ∃ a, s.HeaderReady ∧ s.frontHeader.type ≠ xsWatchEvent ∧
      s.findPendingRxReq s.frontHeader.reqId = some a ∧ cons = u32 (s.rspCons + hdrSize) ∧
      t = { s.setReq a ((s.req a).startReply s.frontHeader alloc) with currentRxReq := some a } := by
  by_cases hle : hdrSize ≤ s.bytesAvail
  · rw [receiveHeader_eq hle] at h
    split at h
    · next hw =>
      rcases receiveWatchEvent_ok h with ⟨rfl, rfl, hlt⟩ | ⟨hle', hc, ht⟩
      · exact .inl ⟨rfl, rfl, fun hr => Nat.not_lt.mpr (hr.2 hw) hlt⟩
      · exact .inr (.inl ⟨⟨hle, fun _ => hle'⟩, hw, hc, ht⟩)
    · next hw =>
      have hready : s.HeaderReady := ⟨hle, fun hw' => absurd hw' hw⟩
      unfold Rx.receiveReply at h
      simp only at h
      split at h
      · cases h
      · cases hfind : s.findPendingRxReq s.frontHeader.reqId with
        | none =>
          rw [hfind] at h
          cases h
          exact .inr (.inr (.inl ⟨hready, hw, rfl, rfl, rfl⟩))
        | some a =>
          rw [hfind] at h
          cases h
          exact .inr (.inr (.inr ⟨a, hready, hw, rfl, rfl, rfl⟩))
  · rw [Rx.receiveHeader, if_pos (Nat.not_le.mp hle)] at h
    cases h
    exact .inl ⟨rfl, rfl, fun hr => hle hr.1⟩

theorem receiveFromXenstored_ok (h : s.receiveFromXenstored alloc = .ok (b, t)) :
    (s.consResponseDiscardBytes ≠ 0 ∧ b = true ∧
      t = { s with
            rspCons := u32 (s.rspCons + min s.bytesAvail s.consResponseDiscardBytes)
            consResponseDiscardBytes :=
              s.consResponseDiscardBytes - min s.bytesAvail s.consResponseDiscardBytes }) ∨
    s.consResponseDiscardBytes = 0 ∧ ∃ u cons, b = decide (s.rspCons ≠ cons) ∧
      t = { u with rspCons := cons } ∧
      ((∃ a, s.currentRxReq = some a ∧ s.receivePayload a = .ok (u, cons)) ∨
        s.currentRxReq = none ∧ s.receiveHeader alloc = .ok (u, cons)) := by
  unfold Rx.receiveFromXenstored at h
  split at h
  · next hd => cases h; exact .inl ⟨hd, rfl, rfl⟩
  · next hd =>
    refine .inr ⟨not_not.mp hd, ?_⟩
    cases hc : s.currentRxReq with
    | some a =>
      simp only [hc] at h
      cases hr : s.receivePayload a with
      | error e => rw [hr] at h; cases h
      | ok r => rw [hr] at h; cases h; exact ⟨_, _, rfl, rfl, .inl ⟨a, rfl, hr⟩⟩
    | none =>
      simp only [hc] at h
      cases hr : s.receiveHeader alloc with
      | error e => rw [hr] at h; cases h
      | ok r => rw [hr] at h; cases h; exact ⟨_, _, rfl, rfl, .inr ⟨rfl, rfl⟩⟩

theorem receive_req (hcall : s.receiveFromXenstored alloc = .ok (b, t)) :
    t.pending = s.pending ∧
      ((t.req = s.req ∧ t.currentRxReq = s.currentRxReq) ∨
      (∃ a, s.consResponseDiscardBytes = 0 ∧ s.currentRxReq = none ∧ s.HeaderReady ∧
        s.frontHeader.type ≠ xsWatchEvent ∧ s.findPendingRxReq s.frontHeader.reqId = some a ∧
        t.req = Function.update s.req a ((s.req a).startReply s.frontHeader alloc) ∧
        t.currentRxReq = some a) ∨
      ∃ a n payload, s.currentRxReq = some a ∧ s.copyPayload (s.req a) n = .ok payload ∧
        (s.req a).replyPayloadReceived + n ≤ (s.req a).replyHeader.len ∧
        t.req = Function.update s.req a
          { s.req a with
            replyPayload := payload
            replyPayloadReceived := (s.req a).replyPayloadReceived + n
            replyBytes := (s.req a).replyBytes ++ window s.rsp xenstoreRingSize s.rspCons n
            xenbusReplied := (s.req a).xenbusReplied ||
              decide ((s.req a).replyPayloadReceived + n = (s.req a).replyHeader.len)
            completionEvent := (s.req a).completionEvent ||
              decide ((s.req a).replyPayloadReceived + n = (s.req a).replyHeader.len) &&
                !s.austereMode } ∧
        t.currentRxReq =
          if (s.req a).replyPayloadReceived + n = (s.req a).replyHeader.len then none
          else some a) := by
  rcases receiveFromXenstored_ok hcall with ⟨hd, rfl, rfl⟩ | ⟨hd, u, cons, rfl, rfl, hstep⟩
  · exact ⟨rfl, .inl ⟨rfl, rfl⟩⟩
  rcases hstep with ⟨a, hc, hstep⟩ | ⟨hc, hstep⟩
  · obtain ⟨payload, hcopy, hle, rfl, rfl⟩ := receivePayload_ok hstep
    exact ⟨rfl, .inr (.inr ⟨a, _, payload, hc, hcopy, hle, rfl, rfl⟩)⟩
  · rcases receiveHeader_ok hstep with ⟨rfl, rfl, -⟩ | ⟨-, -, rfl, watches, rfl⟩ |
      ⟨-, -, -, rfl, rfl⟩ | ⟨a, hr, hw, hfind, rfl, rfl⟩
    · exact ⟨rfl, .inl ⟨rfl, rfl⟩⟩
    · exact ⟨rfl, .inl ⟨rfl, rfl⟩⟩
    · exact ⟨rfl, .inl ⟨rfl, rfl⟩⟩
    · exact ⟨rfl, .inr (.inl ⟨a, hd, hc, hr, hw, hfind, rfl, rfl⟩)⟩

theorem startReply_header (req : RxReq) (hdr : Sockmsg) (alloc : Bool) :
    (req.startReply hdr alloc).replyHeader = hdr ∧
      (req.startReply hdr alloc).replyPayloadReceived = 0 ∧
      (req.startReply hdr alloc).replyBytes = [] := by
  unfold RxReq.startReply
  cases req.replyPayload <;> cases alloc <;> exact ⟨rfl, rfl, rfl⟩

theorem Rx.Wf.receive (h : s.Wf) (hcall : s.receiveFromXenstored alloc = .ok (b, t)) : t.Wf := by
  have hu : ∀ n, u32 n < 4294967296 := fun n => Nat.mod_lt _ (by decide)
  rcases receiveFromXenstored_ok hcall with ⟨hd, rfl, rfl⟩ | ⟨hd, u, cons, rfl, rfl, hstep⟩
  · exact ⟨hu _, Nat.lt_of_le_of_lt (Nat.sub_le _ _) h.discard, h.current⟩
  rcases hstep with ⟨a, hc, hstep⟩ | ⟨hc, hstep⟩
  · obtain ⟨payload, -, hle, rfl, rfl⟩ := receivePayload_ok hstep
    refine ⟨hu _, h.discard, fun a' ha' => ?_⟩
    simp only [Rx.setReq] at ha' ⊢
    split at ha'
    · cases ha'
    · obtain rfl := Option.some.inj ha'
      rw [Function.update_self]
      exact ⟨hle, (h.current a hc).2⟩
  · rcases receiveHeader_ok hstep with ⟨rfl, rfl, -⟩ | ⟨-, -, rfl, watches, rfl⟩ |
      ⟨-, -, -, rfl, rfl⟩ | ⟨a, -, -, -, rfl, rfl⟩
    · exact ⟨h.cons, h.discard, h.current⟩
    · exact ⟨hu _, h.discard, h.current⟩
    · exact ⟨hu _, ofBytes_len_lt _, h.current⟩
    · refine ⟨hu _, h.discard, fun a' ha' => ?_⟩
      obtain rfl := Option.some.inj ha'
      obtain ⟨h1, h2, -⟩ := startReply_header (s.req a) s.frontHeader alloc
      simp only [Rx.setReq, Function.update_self, h1, h2]
      exact ⟨Nat.zero_le _, ofBytes_len_lt _⟩

end Call

end XcWindows.Xenbus.Receive
