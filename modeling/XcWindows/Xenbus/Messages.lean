import XcWindows.Lib.Keyed
import XcWindows.Xenbus.ReplyBuffers

/-!
# Whole XenStore messages

xenstored answers the requests in the order they wait in and sends watch events in between; the
bytes come to the ring in pieces of any size, from any 32-bit index on. A machine runs
`receive_from_xenstored` on them and keeps beside the receiver what is in flight. Every message is
handled as such (`Handled`), unless a watch event meets the comparisons of ring indices in
`XM_ASSERT` while the bytes of the ring go over index `2^32` (`EventOk`), or a reply finds no memory.
-/

namespace XcWindows.Xenbus.Messages

open XcWindows.Lib Receive
open Function (update update_of_ne update_self)

/-! ## Messages -/

def le32 (n : Nat) : List UInt8 :=
  [UInt8.ofNat n, UInt8.ofNat (n / 256), UInt8.ofNat (n / 65536), UInt8.ofNat (n / 16777216)]

/-- The bytes of a header. -/
def headerBytes (hdr : Sockmsg) : List UInt8 :=
  le32 hdr.type ++ (le32 hdr.reqId ++ (le32 hdr.txId ++ le32 hdr.len))

/-- What xenstored sends. -/
inductive Msg where
  | reply (type reqId txId : Nat) (payload : List UInt8)
  | event (reqId txId : Nat) (path token : List UInt8)
deriving DecidableEq

namespace Msg

variable (m : Msg)

/-- What follows the header; the path and the identifier of a watch event end in a NUL. -/
def body : List UInt8 :=
  match m with
  | .reply _ _ _ payload => payload
  | .event _ _ path token => path ++ 0 :: (token ++ [0])

def header : Sockmsg :=
  match m with
  | .reply type reqId txId _ => ⟨type, reqId, txId, m.body.length⟩
  | .event reqId txId _ _ => ⟨xsWatchEvent, reqId, txId, m.body.length⟩

def encode : List UInt8 := headerBytes m.header ++ m.body

/-- The request a reply is for. -/
def replyId : Option Nat :=
  match m with
  | .reply _ reqId _ _ => some reqId
  | .event _ _ _ _ => none

/-- What xenstored may send: a reply of a known type, and an event with the text of a token. -/
def WellFormed : Prop :=
  m.header.reqId < 4294967296 ∧ m.header.txId < 4294967296 ∧ m.body.length < 4294967296 ∧
    match m with
    | .reply type _ _ _ => type ≤ xsIsDomainIntroduced ∧ type ≠ xsWatchEvent
    | .event _ _ path token => 0 ∉ path ∧ 0 ∉ token ∧ token.length ≤ 16

instance : Decidable m.WellFormed := by
  unfold WellFormed
  cases m <;> infer_instance

end Msg

/-! ## The receiver and what is in flight -/

structure Wire where
  rx : Rx
  fault : Option Fault
  /-- the messages that xenstored has sent and that are not done with -/
  flight : List Msg
  /-- their bytes that are not on the ring yet -/
  unsent : List UInt8
  /-- `rsp_cons` at the end of the last message -/
  start : Nat

inductive Act where
  /-- `submit_request` -/
  | submit (a id : Nat) (own : Option Nat)
  /-- xenstored begins a message. -/
  | send (m : Msg)
  /-- The next `n` bytes come to the ring. -/
  | write (n : Nat)
  | receive (alloc : Bool)
  /-- `get_request_results` has seen `xenbus_replied`. -/
  | complete (a : Nat)
  | watch (act : Watch.Act)
  | mode (austereMode allowXenbusWatchOperation : Bool)

/-- The requests that wait for a reply. -/
def awaiting (s : Rx) : List Nat := s.pending.filter fun a => !(s.req a).xenbusReplied

/-- The identifiers of requests. -/
def ids (s : Rx) (l : List Nat) : List Nat := l.map fun a => (s.req a).id

/-- A call has come to the end of a message. -/
def Finished (s t : Rx) : Prop :=
  t.currentRxReq = none ∧ (s.currentRxReq ≠ none ∨ t.rspCons ≠ s.rspCons)

instance (s t : Rx) : Decidable (Finished s t) := inferInstanceAs (Decidable (_ ∧ _))

namespace Wire

variable (w : Wire)

/-- The result of a call of `receive_from_xenstored`. -/
def received (r : Except Fault Rx) : Wire :=
  match r with
  | .error e => { w with fault := some e }
  | .ok rx =>
    if Finished w.rx rx then { w with rx, flight := w.flight.tail, start := rx.rspCons }
    else { w with rx }

def step (w : Wire) (act : Act) : Option Wire :=
  if w.fault ≠ none then none
  else
    match act with
    | .submit a id own =>
      -- the identifiers are the values of a counter
      if a ∉ w.rx.pending ∧ id ∉ ids w.rx w.rx.pending ∧ ∀ size, own = some size → 12 ≤ size then
        some { w with rx := w.rx.submit a id own }
      else none
    | .send m =>
      -- a reply is for the first request that has none in flight
      if m.WellFormed ∧ ∀ id, m.replyId = some id →
          (ids w.rx (awaiting w.rx))[(w.flight.filterMap Msg.replyId).length]? = some id then
        some { w with flight := w.flight ++ [m], unsent := w.unsent ++ m.encode }
      else none
    | .write n =>
      if n ≤ w.unsent.length ∧ w.rx.bytesAvail + n ≤ xenstoreRingSize then
        some { w with rx := w.rx.write (w.unsent.take n), unsent := w.unsent.drop n }
      else none
    | .receive alloc => some (w.received ((w.rx.receiveFromXenstored alloc).map Prod.snd))
    | .complete a =>
      if a ∈ w.rx.pending ∧ (w.rx.req a).xenbusReplied = true then
        match w.rx.complete a with
        | .ok rx => some { w with rx }
        | .error e => some { w with fault := some e }
      else none
    | .watch act => (w.rx.watches.step act).map fun watches => { w with rx := { w.rx with watches } }
    | .mode austereMode allowXenbusWatchOperation =>
      some { w with rx := { w.rx with austereMode, allowXenbusWatchOperation } }

end Wire

/-- The ring starts at any index; `token` are the texts of the handlers' addresses. -/
def wireMachine (idx : Nat) (token : Nat → List UInt8) : Machine Wire Act where
  init := ⟨.init (u32 idx) token, none, [], [], u32 idx⟩
  step := Wire.step

/-! ## Handled messages -/

/-- The watches after the event of `token`: it triggers the handler of that token, in austere mode
and when watches are off none. -/
def fired (s : Rx) (token : List UInt8) : Watch.Bus :=
  if s.austereMode = true ∨ s.allowXenbusWatchOperation = false then s.watches
  else
    match s.watches.list.find? fun h => s.token h = token with
    | some h => s.watches.trigger h
    | none => s.watches

/-- The reply is in the buffer as far as it fits, and as a whole unless the buffer is the
caller's. -/
def Holds (r : RxReq) (payload : List UInt8) : Prop :=
  ∃ buf, r.replyPayload = some buf ∧
    buf.take payload.length = (payload.take buf.length).map some ∧
    (r.own = false → payload.length ≤ buf.length)

/-- What a message does: an event its watch, a reply the first request that waits. -/
def Effect (s t : Rx) (m : Msg) : Prop :=
  match m with
  | .event _ _ _ token => t.req = s.req ∧ t.watches = fired s token
  | .reply _ reqId _ payload =>
    t.watches = s.watches ∧ ∃ a others, awaiting s = a :: others ∧ (s.req a).id = reqId ∧
      (t.req a).xenbusReplied = true ∧ (t.req a).replyHeader = m.header ∧ Holds (t.req a) payload ∧
      ∀ b, b ≠ a → t.req b = s.req b

/-- All that is left of the message under way is on the ring; of a reply, behind its header. -/
def Complete (w : Wire) : Prop :=
  match w.rx.currentRxReq with
  | some a =>
    (w.rx.req a).replyHeader.len - (w.rx.req a).replyPayloadReceived ≤ w.rx.bytesAvail
  | none => ∃ m rest, w.flight = m :: rest ∧ m.replyId = none ∧ m.encode.length ≤ w.rx.bytesAvail

/-- A call does what the messages say: it trips no assertion, comes to the end of a message that is
there, and then has done what the message is for and advanced `rsp_cons` by its length. -/
structure Handled (w w' : Wire) : Prop where
  fault : w'.fault = none
  finish : Complete w → Finished w.rx w'.rx
  effect : Finished w.rx w'.rx → ∃ m rest, w.flight = m :: rest ∧ Effect w.rx w'.rx m ∧
    w'.rx.rspCons = u32 (w.start + m.encode.length)
  quiet : ¬ Finished w.rx w'.rx → w'.rx.watches = w.rx.watches ∧
    ∀ a, (w'.rx.req a).xenbusReplied = (w.rx.req a).xenbusReplied

/-- The event in front, once it is there as a whole, does not have the NUL of its path (in austere
mode its end) before index `2^32` and the end of the bytes on the ring at that index or behind. -/
def EventOk (w : Wire) : Prop :=
  ∀ reqId txId path token rest, w.flight = .event reqId txId path token :: rest →
    (Msg.event reqId txId path token).encode.length ≤ w.rx.bytesAvail →
      ¬ (w.rx.rspCons + hdrSize + path.length +
            (if w.rx.austereMode then token.length + 2 else 0) < 4294967296 ∧
          4294967296 ≤ w.rx.rspCons + w.rx.bytesAvail)

/-- The reply whose header is in front has the caller's buffer or finds memory. -/
def AllocOk (w : Wire) (alloc : Bool) : Prop :=
  w.rx.currentRxReq = none → hdrSize ≤ w.rx.bytesAvail →
    ∀ m rest, w.flight = m :: rest → m.replyId ≠ none →
      ∀ a others, awaiting w.rx = a :: others → (w.rx.req a).own = false → alloc = true

def StepOk (w : Wire) : Act → Prop
  | .receive alloc => EventOk w ∧ AllocOk w alloc
  | _ => True

/-! ## Bytes -/

theorem uint32_le32 {n : Nat} (h : n < 4294967296) : uint32 (le32 n) = n := by
  simp only [uint32, le32, List.foldr_cons, List.foldr_nil, UInt8.toNat_ofNat']
  omega

theorem ofBytes_headerBytes {hdr : Sockmsg} (h1 : hdr.type < 4294967296)
    (h2 : hdr.reqId < 4294967296) (h3 : hdr.txId < 4294967296) (h4 : hdr.len < 4294967296) :
    Sockmsg.ofBytes (headerBytes hdr) = hdr := by
  have e1 : (headerBytes hdr).take 4 = le32 hdr.type := rfl
  have e2 : ((headerBytes hdr).drop 4).take 4 = le32 hdr.reqId := rfl
  have e3 : ((headerBytes hdr).drop 8).take 4 = le32 hdr.txId := rfl
  have e4 : ((headerBytes hdr).drop 12).take 4 = le32 hdr.len := rfl
  rw [Sockmsg.ofBytes, e1, e2, e3, e4, uint32_le32 h1, uint32_le32 h2, uint32_le32 h3,
    uint32_le32 h4]

@[simp] theorem length_headerBytes (hdr : Sockmsg) : (headerBytes hdr).length = hdrSize := rfl

namespace Msg

variable {m : Msg}

theorem length_encode (m : Msg) : m.encode.length = hdrSize + m.body.length := by
  simp [encode]

theorem WellFormed.ofBytes (h : m.WellFormed) : Sockmsg.ofBytes (headerBytes m.header) = m.header := by
  obtain ⟨h1, h2, h3, h4⟩ := h
  refine ofBytes_headerBytes ?_ h1 h2 ?_
  · cases m with
    | reply type reqId txId payload => exact Nat.lt_of_le_of_lt h4.1 (by decide)
    | event reqId txId path token => exact (by decide : 15 < 4294967296)
  · cases m <;> exact h3

end Msg

/-- The bytes on the ring. -/
def stream (s : Rx) : List UInt8 := window s.rsp xenstoreRingSize s.rspCons s.bytesAvail

section Ring

variable {s t : Rx} {n : Nat} {bs xs : List UInt8}

@[simp] theorem length_stream (s : Rx) : (stream s).length = s.bytesAvail := length_window _ _ _ _

theorem rspProd_eq (hp : s.rspProd < 4294967296) : s.rspProd = u32 (s.rspCons + s.bytesAvail) := by
  simp only [Rx.bytesAvail, sub32, u32]
  omega

theorem bytesAvail_write (h : s.bytesAvail + bs.length ≤ xenstoreRingSize) :
    (s.write bs).bytesAvail = s.bytesAvail + bs.length := by
  simp only [Rx.bytesAvail, Rx.write, sub32, u32, xenstoreRingSize] at h ⊢
  omega

theorem stream_write (hp : s.rspProd < 4294967296)
    (h : s.bytesAvail + bs.length ≤ xenstoreRingSize) :
    stream (s.write bs) = stream s ++ bs := by
  have hpos : s.rspProd % xenstoreRingSize = (s.rspCons + s.bytesAvail) % xenstoreRingSize := by
    conv_lhs => rw [rspProd_eq hp]
    exact u32_mod (by decide) _
  rw [stream, bytesAvail_write h, window_add]
  simp only [Rx.write, hpos]
  congr 1
  · exact window_circBlit_other _ (by decide) (Nat.le_refl _) (by omega)
  · exact window_circBlit_self _ _ (by decide) (by omega)

theorem stream_take (hr : t.rsp = s.rsp) (hp : t.rspProd = s.rspProd)
    (hc : t.rspCons = u32 (s.rspCons + n)) (hn : n ≤ s.bytesAvail) :
    stream t = (stream s).drop n := by
  rw [stream, stream, drop_window hn, bytesAvail_take hp hc hn, hr, hc]
  exact window_congr_pos (u32_mod (by decide) _)

theorem window_of_stream (h : bs <+: stream s) :
    window s.rsp xenstoreRingSize s.rspCons bs.length = bs := by
  have hle : bs.length ≤ s.bytesAvail := by simpa using h.length_le
  rw [← take_window hle]
  exact (List.prefix_iff_eq_take.mp h).symm

theorem scanNul_eq {ring : Nat → UInt8} {pos : Nat} (h0 : 0 ∉ xs) (hpos : pos < 4294967296)
    (hw : window ring xenstoreRingSize pos (xs.length + 1) = xs ++ [0]) (hn : xs.length < n) :
    scanNul ring n pos = u32 (pos + xs.length) := by
  induction xs generalizing n pos with
  | nil =>
    obtain ⟨n, rfl⟩ : ∃ m, n = m + 1 := ⟨n - 1, by simp at hn; omega⟩
    have hz : ring (pos % xenstoreRingSize) = 0 := by simpa [window] using hw
    rw [scanNul, if_pos hz]
    exact (Nat.mod_eq_of_lt hpos).symm
  | cons x xs ih =>
    obtain ⟨n, rfl⟩ : ∃ m, n = m + 1 := ⟨n - 1, by simp at hn; omega⟩
    rw [List.length_cons, Nat.add_comm xs.length, Nat.add_assoc, window_add,
      show x :: xs ++ [0] = [x] ++ (xs ++ [0]) from rfl] at hw
    obtain ⟨hx, hw⟩ := List.append_inj hw (by rw [length_window]; rfl)
    have hx : ring (pos % xenstoreRingSize) = x := by simpa [window] using hx
    have hne : x ≠ 0 := fun e => h0 (e ▸ List.mem_cons_self)
    have hstep : window ring xenstoreRingSize (u32 (pos + 1)) (xs.length + 1) = xs ++ [0] :=
      (window_congr_pos (u32_mod (by decide) _)).trans hw
    rw [scanNul, if_neg (by rw [hx]; exact hne),
      ih (fun hm => h0 (.tail _ hm)) (Nat.mod_lt _ (by decide)) hstep (by simpa using hn), u32_add]
    congr 1
    simp only [List.length_cons]
    omega

end Ring

/-! ## Watch events -/

section Event

variable {s : Rx} {path token : List UInt8}

theorem event_windows {ring : Nat → UInt8} {pos : Nat}
    (h : window ring xenstoreRingSize pos (path.length + token.length + 2) =
      path ++ 0 :: (token ++ [0])) :
    window ring xenstoreRingSize pos (path.length + 1) = path ++ [0] ∧
      window ring xenstoreRingSize (pos + path.length + 1) (token.length + 1) = token ++ [0] := by
  rw [show path.length + token.length + 2 = (path.length + 1) + (token.length + 1) by omega,
    window_add, show path ++ 0 :: (token ++ [0]) = (path ++ [0]) ++ (token ++ [0]) by simp,
    ← Nat.add_assoc] at h
  exact List.append_inj h (by simp)

theorem watchIdent_eq {e : Nat} (hp : 0 ∉ path) (ht : 0 ∉ token) (htl : token.length ≤ 16)
    (hlen : path.length + token.length + 2 ≤ xenstoreRingSize)
    (hw : window s.rsp xenstoreRingSize (s.rspCons + hdrSize) (path.length + token.length + 2) =
      path ++ 0 :: (token ++ [0]))
    (he : e = u32 (s.rspCons + hdrSize + (path.length + token.length + 2))) :
    s.watchIdent e =
      if e < u32 (s.rspCons + hdrSize + path.length) then .error .assertion
      else if e < u32 (s.rspCons + hdrSize + path.length + 1 + token.length) then .error .assertion
      else .ok (some token) := by
  obtain ⟨hw1, hw2⟩ := event_windows hw
  have hstart : ∀ n k, window s.rsp xenstoreRingSize (u32 n) k = window s.rsp xenstoreRingSize n k :=
    fun n k => window_congr_pos (u32_mod (by decide) n)
  have hd1 : sub32 e (u32 (s.rspCons + hdrSize)) = path.length + token.length + 2 := by
    rw [he, sub32_u32 (Nat.le_add_right _ _) (by simp only [xenstoreRingSize] at hlen; omega)]
    omega
  have hscan1 : scanNul s.rsp (sub32 e (u32 (s.rspCons + hdrSize))) (u32 (s.rspCons + hdrSize)) =
      u32 (s.rspCons + hdrSize + path.length) := by
    rw [scanNul_eq hp (Nat.mod_lt _ (by decide)) (by rw [hstart, hw1]) (by omega), u32_add]
  have hd2 : sub32 e (u32 (s.rspCons + hdrSize + path.length + 1)) = token.length + 1 := by
    rw [he, sub32_u32 (by omega) (by simp only [xenstoreRingSize] at hlen; omega)]
    omega
  have hscan2 : scanNul s.rsp (sub32 e (u32 (s.rspCons + hdrSize + path.length + 1)))
      (u32 (s.rspCons + hdrSize + path.length + 1)) =
      u32 (s.rspCons + hdrSize + path.length + 1 + token.length) := by
    rw [scanNul_eq ht (Nat.mod_lt _ (by decide)) (by rw [hstart, hw2]) (by omega), u32_add]
  have hne1 : u32 (s.rspCons + hdrSize + path.length) ≠ e := by
    rw [he]
    simp only [u32, xenstoreRingSize] at hlen ⊢
    omega
  have hne2 : u32 (s.rspCons + hdrSize + path.length + 1 + token.length) ≠ e := by
    rw [he]
    simp only [u32]
    omega
  have hident : sub32 (u32 (s.rspCons + hdrSize + path.length + 1 + token.length))
      (u32 (s.rspCons + hdrSize + path.length + 1)) = token.length := by
    rw [sub32_u32 (Nat.le_add_right _ _) (by omega)]
    omega
  have htext : (token ++ [0]).takeWhile (· ≠ 0) = token := by
    rw [List.takeWhile_append_of_pos (fun b hb => by simpa using fun e : b = 0 => ht (e ▸ hb))]
    simp
  unfold Rx.watchIdent
  simp only [hscan1, u32_add, hscan2, hne1, hne2, hident, false_and, if_false]
  rw [memcpyFromRing_eq _ (by simp only [xenstoreRingSize]; omega), hstart, hw2,
    if_neg (show ¬ 17 ≤ token.length by omega)]
  simp only [Except.map, htext]

/-- The two ways in which a comparison of indices goes wrong are one: the bytes of the ring go over
index `2^32` between the position `p` and their end. -/
theorem index_order {cons p e n : Nat} (hc : cons < 4294967296) (hp : cons ≤ p) (he : p ≤ e)
    (hle : e ≤ cons + n) (hroom : n ≤ xenstoreRingSize) :
    (u32 (cons + n) < u32 e ∨ u32 e < u32 p) ↔
      p < 4294967296 ∧ 4294967296 ≤ cons + n := by
  simp only [u32, xenstoreRingSize] at hroom ⊢
  omega

theorem fire_eq (ha : ¬ s.austereMode = true) (token : List UInt8) (e : Nat) :
    (if s.allowXenbusWatchOperation then (s.fireWatchByIdent token).map fun s => (s, e)
      else .ok (s, e)) = .ok ({ s with watches := fired s token }, e) := by
  by_cases hw : s.allowXenbusWatchOperation = true
  · have hf : fired s token =
        match s.watches.list.find? fun h => s.token h = token with
        | some h => s.watches.trigger h
        | none => s.watches := if_neg (by simp [ha, hw])
    rw [if_pos hw, hf, Rx.fireWatchByIdent, if_neg ha]
    cases s.watches.list.find? fun h => s.token h = token <;> rfl
  · rw [if_neg hw, fired, if_pos (.inr (by simpa using hw))]

theorem length_event_body (reqId txId : Nat) (path token : List UInt8) :
    (Msg.event reqId txId path token).body.length = path.length + token.length + 2 := by
  simp only [Msg.body, List.length_append, List.length_cons, List.length_nil]
  omega

theorem receiveWatchEvent_eq {reqId txId : Nat} {m : Msg} (hm : m = .event reqId txId path token)
    (hwf : m.WellFormed) (hb : m.encode <+: stream s) (hc : s.rspCons < 4294967296)
    (hp : s.rspProd < 4294967296) (hroom : s.bytesAvail ≤ xenstoreRingSize) :
    s.receiveWatchEvent m.header =
      if s.rspCons + hdrSize + path.length + (if s.austereMode then token.length + 2 else 0) <
            4294967296 ∧ 4294967296 ≤ s.rspCons + s.bytesAvail then
        .error .assertion
      else .ok ({ s with watches := fired s token }, u32 (s.rspCons + m.encode.length)) := by
  have hbody : m.body.length = path.length + token.length + 2 := by
    rw [hm]
    exact length_event_body reqId txId path token
  have hlen : m.header.len = path.length + token.length + 2 := by
    rw [← hbody, hm]
    rfl
  have hle : hdrSize + (path.length + token.length + 2) ≤ s.bytesAvail := by
    have := hb.length_le
    rwa [length_stream, Msg.length_encode, hbody] at this
  obtain ⟨h0p, h0t, htl⟩ : 0 ∉ path ∧ 0 ∉ token ∧ token.length ≤ 16 := by
    subst hm
    exact hwf.2.2.2
  have hend : s.rspCons + m.encode.length =
      s.rspCons + hdrSize + (path.length + token.length + 2) := by
    rw [Msg.length_encode, hbody, ← Nat.add_assoc]
  have horder := fun p => index_order (p := p)
    (e := s.rspCons + hdrSize + (path.length + token.length + 2)) (n := s.bytesAvail) hc
  rw [← rspProd_eq hp] at horder
  unfold Rx.receiveWatchEvent
  rw [hlen, if_neg (Nat.not_lt.mpr hle), hend]
  simp only
  by_cases ha : s.austereMode = true
  · have h := horder _ (by omega) (Nat.le_refl _) (by omega) hroom
    simp only [Nat.lt_irrefl, or_false] at h
    have hpos : s.rspCons + hdrSize + path.length + (token.length + 2) =
        s.rspCons + hdrSize + (path.length + token.length + 2) := by omega
    rw [if_pos ha, if_pos ha, hpos]
    by_cases hlt : s.rspProd < u32 (s.rspCons + hdrSize + (path.length + token.length + 2))
    · rw [if_pos hlt, if_pos (h.mp hlt)]
    · rw [if_neg hlt, if_neg fun hw => hlt (h.mpr hw), fired, if_pos (.inl ha)]
  · have h := horder (s.rspCons + hdrSize + path.length) (by omega) (by omega) (by omega) hroom
    have hwin : window s.rsp xenstoreRingSize (s.rspCons + hdrSize)
        (path.length + token.length + 2) = path ++ 0 :: (token ++ [0]) := by
      have hall := window_of_stream hb
      rw [Msg.length_encode, hbody, window_add] at hall
      have := (List.append_inj hall (by rw [length_window]; rfl)).2
      rwa [hm] at this
    rw [if_neg ha, if_neg ha, Nat.add_zero (s.rspCons + hdrSize + path.length),
      watchIdent_eq h0p h0t htl (by omega) hwin rfl]
    by_cases h1 : s.rspProd < u32 (s.rspCons + hdrSize + (path.length + token.length + 2))
    · rw [if_pos h1, if_pos (h.mp (.inl h1))]
    rw [if_neg h1]
    by_cases h2 : u32 (s.rspCons + hdrSize + (path.length + token.length + 2)) <
        u32 (s.rspCons + hdrSize + path.length)
    · rw [if_pos h2, if_pos (h.mp (.inr h2))]
      rfl
    have hok := fun hw => (h.mpr hw).elim h1 h2
    -- the identifier's NUL is the last byte before the end
    have h3 : ¬ u32 (s.rspCons + hdrSize + (path.length + token.length + 2)) <
        u32 (s.rspCons + hdrSize + path.length + 1 + token.length) := by
      simp only [u32, xenstoreRingSize] at hok hroom ⊢
      omega
    rw [if_neg h2, if_neg h3, if_neg hok]
    exact fire_eq ha token _

end Event

/-! ## The invariant -/

/-- The request `r` receives the reply with the header `hdr`: its buffer has the beginning. -/
structure Receiving (r : RxReq) (hdr : Sockmsg) (payload : List UInt8) : Prop where
  replied : r.xenbusReplied = false
  header : r.replyHeader = hdr
  len : hdr.len = payload.length
  received : r.replyPayloadReceived ≤ payload.length
  bytes : r.replyBytes = payload.take r.replyPayloadReceived
  buffer : ∃ buf, r.replyPayload = some buf ∧
    buf.take r.replyPayloadReceived = (r.replyBytes.take buf.length).map some ∧
    (r.own = false → payload.length ≤ buf.length)

/-- The bytes on the ring and those to come are what is left of the messages in flight. -/
def Front (w : Wire) : Prop :=
  match w.rx.currentRxReq with
  | none => w.start = w.rx.rspCons ∧ stream w.rx ++ w.unsent = (w.flight.map Msg.encode).flatten
  | some a => ∃ type txId payload rest, w.flight = .reply type (w.rx.req a).id txId payload :: rest ∧
      Receiving (w.rx.req a) (Msg.reply type (w.rx.req a).id txId payload).header payload ∧
      w.rx.rspCons = u32 (w.start + (hdrSize + (w.rx.req a).replyPayloadReceived)) ∧
      stream w.rx ++ w.unsent =
        payload.drop (w.rx.req a).replyPayloadReceived ++ (rest.map Msg.encode).flatten

structure Inv (w : Wire) : Prop where
  fault : w.fault = none
  buffered : Buffered w.rx
  discard : w.rx.consResponseDiscardBytes = 0
  prod : w.rx.rspProd < 4294967296
  room : w.rx.bytesAvail ≤ xenstoreRingSize
  distinct : (ids w.rx w.rx.pending).Nodup
  formed : ∀ m ∈ w.flight, m.WellFormed
  order : w.flight.filterMap Msg.replyId <+: ids w.rx (awaiting w.rx)
  fresh : ∀ a ∈ awaiting w.rx, w.rx.currentRxReq ≠ some a →
    (w.rx.req a).replyPayload.isSome = (w.rx.req a).own
  front : Front w

section Requests

variable {s t : Rx} {a b : Nat} {l : List Nat} {r : RxReq}

theorem mem_awaiting : a ∈ awaiting s ↔ a ∈ s.pending ∧ (s.req a).xenbusReplied = false := by
  simp [awaiting]

theorem awaiting_congr (hp : t.pending = s.pending)
    (h : ∀ a ∈ s.pending, (t.req a).xenbusReplied = (s.req a).xenbusReplied) :
    awaiting t = awaiting s := by
  rw [awaiting, awaiting, hp]
  exact List.filter_congr fun a ha => by rw [h a ha]

theorem ids_congr (h : ∀ a ∈ l, (t.req a).id = (s.req a).id) : ids t l = ids s l :=
  List.map_congr_left h

/-- What a change of a request leaves of it is left of all. -/
theorem update_field {β : Type} (f : RxReq → β) (h : f r = f (s.req a)) (b : Nat) :
    f (update s.req a r b) = f (s.req b) := by
  by_cases hb : b = a
  · rw [hb, update_self, h]
  · rw [update_of_ne hb]

/-- A request is found by its identifier. -/
theorem findPendingRxReq_eq (hd : (ids s s.pending).Nodup) (ha : a ∈ s.pending) :
    s.findPendingRxReq (s.req a).id = some a := by
  obtain ⟨as, bs, h⟩ := List.append_of_mem ha
  rw [Rx.findPendingRxReq, h]
  exact @find?_key _ _ _ (fun a => (s.req a).id) _ _ _ (by rw [← h]; exact hd)

theorem id_inj (hd : (ids s s.pending).Nodup) (ha : a ∈ s.pending) (hb : b ∈ s.pending)
    (h : (s.req a).id = (s.req b).id) : a = b := by
  have h1 := findPendingRxReq_eq hd ha
  rw [h, findPendingRxReq_eq hd hb] at h1
  exact (Option.some.inj h1).symm

theorem Inv.awaiting_cons {w : Wire} {type reqId txId : Nat} {payload : List UInt8}
    {rest : List Msg} (h : Inv w) (hf : w.flight = .reply type reqId txId payload :: rest) :
    ∃ a others, awaiting w.rx = a :: others ∧ (w.rx.req a).id = reqId ∧
      rest.filterMap Msg.replyId <+: ids w.rx others := by
  obtain ⟨tl, htl⟩ := h.order
  rw [hf] at htl
  obtain ⟨a, others, hw, hid, ho⟩ := List.map_eq_cons_iff.mp htl.symm
  exact ⟨a, others, hw, hid, tl, ho.symm⟩

end Requests

/-! ## What a call does -/

/-- A call takes `n` bytes from the ring. -/
structure Taken (s t : Rx) (n : Nat) : Prop where
  le : n ≤ s.bytesAvail
  rsp : t.rsp = s.rsp
  prod : t.rspProd = s.rspProd
  cons : t.rspCons = u32 (s.rspCons + n)
  discard : t.consResponseDiscardBytes = s.consResponseDiscardBytes
  pending : t.pending = s.pending

/-- A call that handles a watch event. -/
structure EventCall (w : Wire) (t : Rx) (reqId txId : Nat) (path token : List UInt8)
    (rest : List Msg) : Prop where
  idle : w.rx.currentRxReq = none
  flight : w.flight = .event reqId txId path token :: rest
  ok : EventOk w
  taken : Taken w.rx t (Msg.event reqId txId path token).encode.length
  req : t.req = w.rx.req
  current : t.currentRxReq = none
  watches : t.watches = fired w.rx token

/-- A call that reads the header of a reply. -/
structure HeaderCall (w : Wire) (alloc : Bool) (t : Rx) (type txId a : Nat)
    (payload : List UInt8) (rest : List Msg) (others : List Nat) : Prop where
  idle : w.rx.currentRxReq = none
  flight : w.flight = .reply type (w.rx.req a).id txId payload :: rest
  waiting : awaiting w.rx = a :: others
  taken : Taken w.rx t hdrSize
  req : t.req = update w.rx.req a
    ((w.rx.req a).startReply (Msg.reply type (w.rx.req a).id txId payload).header alloc)
  current : t.currentRxReq = some a
  watches : t.watches = w.rx.watches

/-- A call that takes `n` bytes of a payload, and leaves the request as `r`. -/
structure PieceCall (w : Wire) (t : Rx) (type txId a : Nat) (payload : List UInt8)
    (rest : List Msg) (others : List Nat) (n : Nat) (r : RxReq) : Prop where
  active : w.rx.currentRxReq = some a
  flight : w.flight = .reply type (w.rx.req a).id txId payload :: rest
  waiting : awaiting w.rx = a :: others
  taken : Taken w.rx t n
  amount : n = min w.rx.bytesAvail (payload.length - (w.rx.req a).replyPayloadReceived)
  receiving : Receiving { r with xenbusReplied := false }
    (Msg.reply type (w.rx.req a).id txId payload).header payload
  id : r.id = (w.rx.req a).id
  received : r.replyPayloadReceived = (w.rx.req a).replyPayloadReceived + n
  replied : r.xenbusReplied = decide (r.replyPayloadReceived = payload.length)
  req : t.req = update w.rx.req a r
  current : t.currentRxReq = if r.replyPayloadReceived = payload.length then none else some a
  watches : t.watches = w.rx.watches

/-- What a call of `receive_from_xenstored` does. -/
inductive Outcome (w : Wire) (alloc : Bool) : Except Fault Rx → Prop where
  /-- Neither a header nor an event is there as a whole. -/
  | wait : w.rx.currentRxReq = none → ¬ Complete w → Outcome w alloc (.ok w.rx)
  /-- The indices of an event are in the wrong order. -/
  | wrapped : ¬ EventOk w → Outcome w alloc (.error .assertion)
  | event {t : Rx} {reqId txId : Nat} {path token : List UInt8} {rest : List Msg} :
      EventCall w t reqId txId path token rest → Outcome w alloc (.ok t)
  | header {t : Rx} {type txId a : Nat} {payload : List UInt8} {rest : List Msg}
      {others : List Nat} :
      HeaderCall w alloc t type txId a payload rest others → Outcome w alloc (.ok t)
  | piece {t : Rx} {type txId a : Nat} {payload : List UInt8} {rest : List Msg}
      {others : List Nat} {n : Nat} {r : RxReq} :
      PieceCall w t type txId a payload rest others n r → Outcome w alloc (.ok t)

section Calls

variable {w : Wire} {s : Rx} {a : Nat} {alloc : Bool}

theorem receive_none (hd : s.consResponseDiscardBytes = 0) (hc : s.currentRxReq = none) :
    (s.receiveFromXenstored alloc).map Prod.snd =
      (s.receiveHeader alloc).map fun (r : Rx × Nat) => { r.1 with rspCons := r.2 } := by
  rw [Rx.receiveFromXenstored, if_neg (not_not.mpr hd)]
  simp only [hc]
  cases s.receiveHeader alloc <;> rfl

theorem receive_some (hd : s.consResponseDiscardBytes = 0) (hc : s.currentRxReq = some a) :
    (s.receiveFromXenstored alloc).map Prod.snd =
      (s.receivePayload a).map fun (r : Rx × Nat) => { r.1 with rspCons := r.2 } := by
  rw [Rx.receiveFromXenstored, if_neg (not_not.mpr hd)]
  simp only [hc]
  cases s.receivePayload a <;> rfl

theorem eventOk_iff {reqId txId : Nat} {path token : List UInt8} {rest : List Msg}
    (hf : w.flight = .event reqId txId path token :: rest)
    (hle : (Msg.event reqId txId path token).encode.length ≤ w.rx.bytesAvail) :
    EventOk w ↔ ¬ (w.rx.rspCons + hdrSize + path.length +
      (if w.rx.austereMode then token.length + 2 else 0) < 4294967296 ∧
        4294967296 ≤ w.rx.rspCons + w.rx.bytesAvail) := by
  refine ⟨fun h => h _ _ _ _ _ hf hle, fun h reqId' txId' path' token' rest' hf' _ => ?_⟩
  rw [hf] at hf'
  cases hf'
  exact h

theorem eventOk_of_reply {type reqId txId : Nat} {payload : List UInt8} {rest : List Msg}
    (hf : w.flight = .reply type reqId txId payload :: rest) : EventOk w := by
  intro reqId' txId' path token rest' hf'
  rw [hf] at hf'
  cases hf'

theorem Inv.front_header (h : Inv w) (hc : w.rx.currentRxReq = none)
    (hle : hdrSize ≤ w.rx.bytesAvail) :
    ∃ m rest, w.flight = m :: rest ∧ w.rx.frontHeader = m.header ∧
      (m.encode.length ≤ w.rx.bytesAvail → m.encode <+: stream w.rx) := by
  have hfront := h.front
  simp only [Front, hc] at hfront
  obtain ⟨-, hbytes⟩ := hfront
  cases hf : w.flight with
  | nil =>
    rw [hf] at hbytes
    have hnil : stream w.rx = [] := (List.append_eq_nil_iff.mp hbytes).1
    rw [← length_stream, hnil] at hle
    exact absurd hle (by decide)
  | cons m rest =>
    rw [hf, List.map_cons, List.flatten_cons] at hbytes
    refine ⟨m, rest, rfl, ?_, fun hm => ?_⟩
    · have hring : (stream w.rx ++ w.unsent).take hdrSize = (stream w.rx).take hdrSize :=
        List.take_append_of_le_length (by simpa using hle)
      have htake : (stream w.rx).take hdrSize = headerBytes m.header := by
        rw [← hring, hbytes, Msg.encode, List.append_assoc, List.take_append_of_le_length (by simp),
          List.take_of_length_le (by simp)]
      rw [Rx.frontHeader, ← take_window hle]
      exact (congrArg Sockmsg.ofBytes htake).trans
        (h.formed m (hf ▸ List.mem_cons_self)).ofBytes
    · exact List.prefix_of_prefix_length_le ⟨_, hbytes.symm⟩ ⟨_, rfl⟩ (by simpa using hm)

theorem not_complete {m : Msg} {rest : List Msg} (hc : w.rx.currentRxReq = none)
    (hf : w.flight = m :: rest) (hlt : w.rx.bytesAvail < m.encode.length) : ¬ Complete w := by
  simp only [Complete, hc]
  rintro ⟨m', rest', hf', -, hle⟩
  rw [hf] at hf'
  cases hf'
  omega

/-- A call between two messages. -/
theorem Inv.outcome_none (h : Inv w) (hc : w.rx.currentRxReq = none) (alloc : Bool) :
    Outcome w alloc ((w.rx.receiveFromXenstored alloc).map Prod.snd) := by
  rw [receive_none h.discard hc]
  by_cases hle : hdrSize ≤ w.rx.bytesAvail
  · obtain ⟨m, rest, hf, hhdr, hpre⟩ := h.front_header hc hle
    have hwf := h.formed m (hf ▸ List.mem_cons_self)
    rw [receiveHeader_eq hle, hhdr]
    cases m with
    | event reqId txId path token =>
      rw [if_pos (show (Msg.event reqId txId path token).header.type = xsWatchEvent from rfl)]
      by_cases hm : (Msg.event reqId txId path token).encode.length ≤ w.rx.bytesAvail
      · rw [receiveWatchEvent_eq rfl hwf (hpre hm) h.buffered.wf.cons h.prod h.room]
        by_cases hok : EventOk w
        · rw [if_neg ((eventOk_iff hf hm).mp hok)]
          exact .event ⟨hc, hf, hok, ⟨hm, rfl, rfl, rfl, rfl, rfl⟩, rfl, hc, rfl⟩
        · rw [if_pos (not_not.mp fun hn => hok ((eventOk_iff hf hm).mpr hn))]
          exact .wrapped hok
      · have hlt := Nat.not_le.mp hm
        rw [Rx.receiveWatchEvent, if_pos (by rwa [Msg.length_encode] at hlt)]
        exact .wait hc (not_complete hc hf hlt)
    | reply type reqId txId payload =>
      obtain ⟨-, -, -, htype, hne⟩ := hwf
      obtain ⟨a, others, hw, rfl, -⟩ := h.awaiting_cons hf
      have ha : a ∈ w.rx.pending := (mem_awaiting.mp (hw ▸ List.mem_cons_self)).1
      rw [if_neg (show ¬ (Msg.reply type (w.rx.req a).id txId payload).header.type = xsWatchEvent
        from hne), Rx.receiveReply, if_neg (show ¬ xsIsDomainIntroduced <
          (Msg.reply type (w.rx.req a).id txId payload).header.type from Nat.not_lt.mpr htype)]
      have hfind : w.rx.findPendingRxReq (Msg.reply type (w.rx.req a).id txId payload).header.reqId =
          some a := findPendingRxReq_eq h.distinct ha
      rw [hfind]
      exact .header ⟨hc, hf, hw, ⟨hle, rfl, rfl, rfl, rfl, rfl⟩, rfl, rfl, rfl⟩
  · have hlt := Nat.not_le.mp hle
    rw [Rx.receiveHeader, if_pos hlt]
    refine .wait hc ?_
    simp only [Complete, hc]
    rintro ⟨m, rest, -, -, hm⟩
    rw [Msg.length_encode] at hm
    omega

/-- A call in the middle of a reply. -/
theorem Inv.outcome_some (h : Inv w) (hc : w.rx.currentRxReq = some a) (alloc : Bool) :
    Outcome w alloc ((w.rx.receiveFromXenstored alloc).map Prod.snd) := by
  have hfront := h.front
  simp only [Front, hc] at hfront
  obtain ⟨type, txId, payload, rest, hf, hr, -, hbytes⟩ := hfront
  obtain ⟨b, others, hw, hid, -⟩ := h.awaiting_cons hf
  have hb : b ∈ w.rx.pending := (mem_awaiting.mp (hw ▸ List.mem_cons_self)).1
  obtain rfl := id_inj h.distinct hb (h.buffered.listed a hc) hid
  have hlen : (w.rx.req b).replyHeader.len = payload.length := by rw [hr.header, hr.len]
  have hwf : (Msg.reply type (w.rx.req b).id txId payload).WellFormed :=
    h.formed _ (hf ▸ List.mem_cons_self)
  have hlt : payload.length < 4294967296 := hwf.2.2.1
  have hrec := hr.received
  obtain ⟨n, hn⟩ : ∃ n, n = w.rx.payloadAvail (w.rx.req b) := ⟨_, rfl⟩
  have hn' : n = min w.rx.bytesAvail (payload.length - (w.rx.req b).replyPayloadReceived) := by
    rw [hn, payloadAvail_eq h.buffered.wf hc, hlen]
  -- the bytes taken are the next of the payload
  have hwin : window w.rx.rsp xenstoreRingSize w.rx.rspCons n =
      (payload.drop (w.rx.req b).replyPayloadReceived).take n := by
    rw [← take_window (n := w.rx.bytesAvail) (by omega)]
    have := congrArg (List.take n) hbytes
    rwa [List.take_append_of_le_length (by rw [length_stream]; omega),
      List.take_append_of_le_length (by rw [List.length_drop]; omega)] at this
  have hnext : (w.rx.req b).replyBytes ++ window w.rx.rsp xenstoreRingSize w.rx.rspCons n =
      payload.take ((w.rx.req b).replyPayloadReceived + n) := by
    rw [hr.bytes, hwin, List.take_add]
  obtain ⟨buf, hp, htake, hown⟩ := hr.buffer
  obtain ⟨buf', hcopy, hlen', htake'⟩ := @copyPayload_some w.rx _ buf n (h.buffered.sized b) hp
    (by rw [hr.bytes, List.length_take]; omega) htake (by omega)
    (by have := h.room; omega)
  rw [hnext] at htake'
  obtain ⟨⟨t, cons⟩, hres⟩ : ∃ res, w.rx.receivePayload b = .ok res := by
    rw [Rx.receivePayload, ← hn, hcopy]
    simp only [Except.bind, hlen]
    rw [if_pos (by omega)]
    exact ⟨_, rfl⟩
  obtain ⟨payload', hcopy', -, hcons, ht⟩ := receivePayload_ok hres
  rw [← hn] at hcopy' hcons ht
  rw [hcopy] at hcopy'
  obtain rfl := Except.ok.inj hcopy'
  rw [receive_some h.discard hc, hres, hcons, ht, hlen]
  refine .piece ⟨hc, hf, hw, ⟨by omega, rfl, rfl, rfl, rfl, rfl⟩, hn', ?_, ?_, ?_, ?_, rfl, rfl, rfl⟩
  · refine ⟨rfl, hr.header, hr.len, ?_, hnext, buf', rfl, ?_, ?_⟩
    · show (w.rx.req b).replyPayloadReceived + n ≤ payload.length
      omega
    · show buf'.take ((w.rx.req b).replyPayloadReceived + n) = _
      rw [htake', hlen', ← hnext]
    · rw [hlen']
      exact hown
  · rfl
  · rfl
  · simp [hr.replied]

theorem Inv.outcome (h : Inv w) (alloc : Bool) :
    Outcome w alloc ((w.rx.receiveFromXenstored alloc).map Prod.snd) := by
  cases hc : w.rx.currentRxReq with
  | none => exact h.outcome_none hc alloc
  | some a => exact h.outcome_some hc alloc

end Calls

/-! ## One call keeps the invariant -/

section Received

variable {w : Wire} {s t : Rx} {a : Nat} {alloc : Bool}

theorem encode_pos (m : Msg) : 0 < m.encode.length := by
  rw [Msg.length_encode]
  exact Nat.lt_of_lt_of_le (by decide : 0 < hdrSize) (Nat.le_add_right _ _)

theorem received_finished (h : Finished w.rx t) :
    w.received (.ok t) = { w with rx := t, flight := w.flight.tail, start := t.rspCons } :=
  if_pos h

theorem received_going (h : ¬ Finished w.rx t) : w.received (.ok t) = { w with rx := t } :=
  if_neg h

theorem rest_bytes (xs : List UInt8) {toCome ys : List UInt8} (h : stream s ++ toCome = xs ++ ys)
    (ht : Taken s t xs.length) : stream t ++ toCome = ys := by
  rw [stream_take ht.rsp ht.prod ht.cons ht.le,
    ← List.drop_append_of_le_length (by simpa using ht.le), h, List.drop_left]

theorem startReply_id (r : RxReq) (hdr : Sockmsg) (alloc : Bool) :
    (r.startReply hdr alloc).id = r.id := by
  unfold RxReq.startReply
  cases r.replyPayload <;> cases alloc <;> rfl

/-- A header that finds the caller's buffer or memory. -/
theorem receiving_startReply {r : RxReq} {hdr : Sockmsg} {payload : List UInt8}
    (hlen : hdr.len = payload.length) (hrep : r.xenbusReplied = false)
    (hfresh : r.replyPayload.isSome = r.own) (halloc : r.own = false → alloc = true) :
    Receiving (r.startReply hdr alloc) hdr payload := by
  obtain ⟨h1, h2⟩ := startReply_flags r hdr alloc
  obtain ⟨h3, h4, h5⟩ := startReply_header r hdr alloc
  refine ⟨h1.trans hrep, h3, hlen, by rw [h4]; exact Nat.zero_le _, by rw [h4, h5]; rfl, ?_⟩
  rw [h2, h4, h5]
  cases hp : r.replyPayload with
  | some buf =>
    have hown : r.own = true := by rw [← hfresh, hp]; rfl
    exact ⟨buf, by simp [RxReq.startReply, hp], by simp, by simp [hown]⟩
  | none =>
    have hown : r.own = false := by rw [← hfresh, hp]; rfl
    have ha := halloc hown
    refine ⟨List.replicate hdr.len none, by simp [RxReq.startReply, hp, ha], by simp, fun _ => ?_⟩
    exact Nat.le_of_eq (by rw [List.length_replicate, hlen])

/-- The requests that wait when the first of them has its reply. -/
theorem awaiting_replied {others : List Nat} (hd : (ids s s.pending).Nodup)
    (hw : awaiting s = a :: others) (hp : t.pending = s.pending)
    (ha : (t.req a).xenbusReplied = true)
    (ht : ∀ b, b ≠ a → (t.req b).xenbusReplied = (s.req b).xenbusReplied) :
    awaiting t = others := by
  have hnodup : (awaiting s).Nodup := (List.Nodup.of_map _ hd).filter _
  rw [hw, List.nodup_cons] at hnodup
  have hfilter : awaiting t = (awaiting s).filter fun b => b ≠ a := by
    rw [awaiting, awaiting, hp, List.filter_filter]
    refine List.filter_congr fun b _ => ?_
    by_cases hb : b = a
    · simp [hb, ha]
    · simp [hb, ht b hb]
  rw [hfilter, hw, List.filter_cons_of_neg (by simp), List.filter_eq_self]
  intro b hb
  simpa using fun e : b = a => hnodup.1 (e ▸ hb)

/-- A call that changes the requests little keeps what the invariant says of them. -/
theorem Inv.of_rx {n : Nat} {flight : List Msg} {start : Nat} (h : Inv w) (hb : Buffered t)
    (ht : Taken w.rx t n) (hid : ∀ b, (t.req b).id = (w.rx.req b).id)
    (hformed : ∀ m ∈ flight, m ∈ w.flight)
    (horder : flight.filterMap Msg.replyId <+: ids w.rx (awaiting t))
    (hfresh : ∀ a ∈ awaiting t, t.currentRxReq ≠ some a →
      (t.req a).replyPayload.isSome = (t.req a).own)
    (hfront : Front { w with rx := t, flight, start }) : Inv { w with rx := t, flight, start } := by
  have hids : ∀ l, ids t l = ids w.rx l := fun l => ids_congr fun b _ => hid b
  refine ⟨h.fault, hb, ht.discard.trans h.discard, ht.prod ▸ h.prod, ?_, ?_,
    fun m hm => h.formed m (hformed m hm), ?_, hfresh, hfront⟩
  · show t.bytesAvail ≤ xenstoreRingSize
    rw [bytesAvail_take ht.prod ht.cons ht.le]
    exact Nat.le_trans (Nat.sub_le _ _) h.room
  · show (ids t t.pending).Nodup
    rw [ht.pending, hids]
    exact h.distinct
  · show flight.filterMap Msg.replyId <+: ids t (awaiting t)
    rw [hids]
    exact horder

section Event

variable {reqId txId : Nat} {path token : List UInt8} {rest : List Msg}

theorem EventCall.finished (c : EventCall w t reqId txId path token rest) (h : Inv w) :
    Finished w.rx t :=
  ⟨c.current, .inr (c.taken.cons ▸ u32_add_ne h.buffered.wf (encode_pos _) c.taken.le)⟩

theorem EventCall.inv (c : EventCall w t reqId txId path token rest) (h : Inv w)
    (hb : Buffered t) : Inv (w.received (.ok t)) := by
  have hcur := h.front
  have horder := h.order
  have hwait : awaiting t = awaiting w.rx :=
    awaiting_congr c.taken.pending fun b _ => by rw [c.req]
  simp only [Front, c.idle] at hcur
  rw [received_finished (c.finished h)]
  rw [c.flight] at horder hcur ⊢
  refine h.of_rx hb c.taken (fun b => by rw [c.req])
    (fun m hm => c.flight ▸ List.mem_cons_of_mem _ hm) (hwait ▸ horder) (fun a ha _ => ?_) ?_
  · rw [c.req]
    exact h.fresh a (hwait ▸ ha) (by simp [c.idle])
  · simp only [Front, c.current]
    exact ⟨trivial, rest_bytes _ hcur.2 c.taken⟩

theorem EventCall.handled (c : EventCall w t reqId txId path token rest) (h : Inv w) :
    Handled w (w.received (.ok t)) := by
  have hcur := h.front
  have hfin := c.finished h
  simp only [Front, c.idle] at hcur
  rw [received_finished hfin]
  refine ⟨h.fault, fun _ => hfin, fun _ => ⟨_, rest, c.flight, ⟨c.req, c.watches⟩, ?_⟩,
    fun hgo => absurd hfin hgo⟩
  rw [hcur.1]
  exact c.taken.cons

end Event

section Header

variable {type txId : Nat} {payload : List UInt8} {rest : List Msg} {others : List Nat}

theorem HeaderCall.going (c : HeaderCall w alloc t type txId a payload rest others) :
    ¬ Finished w.rx t :=
  fun hfin => nomatch c.current.symm.trans hfin.1

theorem HeaderCall.replied (c : HeaderCall w alloc t type txId a payload rest others) (b : Nat) :
    (t.req b).xenbusReplied = (w.rx.req b).xenbusReplied := by
  rw [c.req]
  exact update_field RxReq.xenbusReplied (startReply_flags _ _ _).1 b

theorem HeaderCall.inv (c : HeaderCall w alloc t type txId a payload rest others) (h : Inv w)
    (hb : Buffered t) (hok : AllocOk w alloc) : Inv (w.received (.ok t)) := by
  have hcur := h.front
  simp only [Front, c.idle] at hcur
  have hwaits : a ∈ awaiting w.rx := c.waiting ▸ List.mem_cons_self
  have hwait : awaiting t = awaiting w.rx := awaiting_congr c.taken.pending fun b _ => c.replied b
  rw [received_going c.going]
  refine h.of_rx hb c.taken (fun b => ?_) (fun m hm => hm) (hwait ▸ h.order) (fun b hb hne => ?_) ?_
  · rw [c.req]
    exact update_field RxReq.id (startReply_id _ _ _) b
  · have hba : b ≠ a := fun e => hne (e ▸ c.current)
    rw [c.req, update_of_ne hba]
    exact h.fresh b (hwait ▸ hb) (by simp [c.idle])
  · have hself := congrFun c.req a
    rw [update_self] at hself
    obtain ⟨-, h0, -⟩ := startReply_header (w.rx.req a)
      (Msg.reply type (w.rx.req a).id txId payload).header alloc
    simp only [Front, c.current, hself, startReply_id, h0]
    refine ⟨type, txId, payload, rest, c.flight, ?_, ?_, ?_⟩
    · refine receiving_startReply rfl (mem_awaiting.mp hwaits).2
        (h.fresh a hwaits (by simp [c.idle])) fun hown => ?_
      exact hok c.idle c.taken.le _ _ c.flight nofun _ _ c.waiting hown
    · rw [c.taken.cons, hcur.1]
    · refine rest_bytes (headerBytes (Msg.reply type (w.rx.req a).id txId payload).header) ?_ c.taken
      rw [hcur.2, c.flight, List.map_cons, List.flatten_cons, Msg.encode, List.append_assoc]
      rfl

theorem HeaderCall.handled (c : HeaderCall w alloc t type txId a payload rest others)
    (h : Inv w) : Handled w (w.received (.ok t)) := by
  rw [received_going c.going]
  refine ⟨h.fault, fun hdone => ?_, fun hf => absurd hf c.going, fun _ => ⟨c.watches, c.replied⟩⟩
  simp only [Complete, c.idle] at hdone
  obtain ⟨m, rest', hf, hm, -⟩ := hdone
  rw [c.flight] at hf
  cases hf
  cases hm

end Header

section Piece

variable {type txId n : Nat} {payload : List UInt8} {rest : List Msg} {others : List Nat}
  {r : RxReq}

theorem PieceCall.front (c : PieceCall w t type txId a payload rest others n r) (h : Inv w) :
    Receiving (w.rx.req a) (Msg.reply type (w.rx.req a).id txId payload).header payload ∧
      w.rx.rspCons = u32 (w.start + (hdrSize + (w.rx.req a).replyPayloadReceived)) ∧
      stream w.rx ++ w.unsent =
        payload.drop (w.rx.req a).replyPayloadReceived ++ (rest.map Msg.encode).flatten := by
  have hcur := h.front
  simp only [Front, c.active] at hcur
  obtain ⟨type', txId', payload', rest', hf, hr, hstart, hbytes⟩ := hcur
  rw [c.flight] at hf
  cases hf
  exact ⟨hr, hstart, hbytes⟩

theorem PieceCall.cons (c : PieceCall w t type txId a payload rest others n r) (h : Inv w) :
    t.rspCons = u32 (w.start + (hdrSize + r.replyPayloadReceived)) := by
  rw [c.taken.cons, (c.front h).2.1, u32_add, c.received, Nat.add_assoc, Nat.add_assoc]

theorem PieceCall.bytes (c : PieceCall w t type txId a payload rest others n r) (h : Inv w) :
    stream t ++ w.unsent =
      payload.drop r.replyPayloadReceived ++ (rest.map Msg.encode).flatten := by
  have hamount := c.amount
  have hlen : ((payload.drop (w.rx.req a).replyPayloadReceived).take n).length = n := by
    rw [List.length_take, List.length_drop]
    omega
  refine rest_bytes ((payload.drop (w.rx.req a).replyPayloadReceived).take n) ?_
    (hlen.symm ▸ c.taken)
  rw [(c.front h).2.2, c.received, ← List.drop_drop, ← List.append_assoc, List.take_append_drop]

theorem PieceCall.ids (c : PieceCall w t type txId a payload rest others n r) (b : Nat) :
    (t.req b).id = (w.rx.req b).id := by
  rw [c.req]
  exact update_field RxReq.id c.id b

theorem PieceCall.fresh (c : PieceCall w t type txId a payload rest others n r) (h : Inv w)
    {b : Nat} (hb : b ∈ awaiting w.rx) (hba : b ≠ a) :
    (t.req b).replyPayload.isSome = (t.req b).own := by
  rw [c.req, update_of_ne hba]
  exact h.fresh b hb (by simpa [c.active] using Ne.symm hba)

theorem PieceCall.going (c : PieceCall w t type txId a payload rest others n r)
    (hmore : r.replyPayloadReceived ≠ payload.length) :
    t.currentRxReq = some a ∧ r.xenbusReplied = false ∧ ¬ Finished w.rx t := by
  have hc : t.currentRxReq = some a := by rw [c.current, if_neg hmore]
  exact ⟨hc, by rw [c.replied]; exact decide_eq_false hmore,
    fun hfin => nomatch hc.symm.trans hfin.1⟩

theorem PieceCall.finished (c : PieceCall w t type txId a payload rest others n r)
    (hdone : r.replyPayloadReceived = payload.length) :
    t.currentRxReq = none ∧ r.xenbusReplied = true ∧ Finished w.rx t := by
  have hc : t.currentRxReq = none := by rw [c.current, if_pos hdone]
  exact ⟨hc, by rw [c.replied]; exact decide_eq_true hdone, hc, .inl (by simp [c.active])⟩

theorem PieceCall.replied_going (c : PieceCall w t type txId a payload rest others n r)
    (h : Inv w) (hmore : r.replyPayloadReceived ≠ payload.length) (b : Nat) :
    (t.req b).xenbusReplied = (w.rx.req b).xenbusReplied := by
  rw [c.req]
  exact update_field RxReq.xenbusReplied
    ((c.going hmore).2.1.trans (c.front h).1.replied.symm) b

theorem PieceCall.inv (c : PieceCall w t type txId a payload rest others n r) (h : Inv w)
    (hb : Buffered t) : Inv (w.received (.ok t)) := by
  by_cases hdone : r.replyPayloadReceived = payload.length
  · obtain ⟨hc, hreplied, hfin⟩ := c.finished hdone
    obtain ⟨a', others', hw', -, horder⟩ := h.awaiting_cons c.flight
    rw [c.waiting] at hw'
    cases hw'
    have hwait : awaiting t = others := by
      refine awaiting_replied h.distinct c.waiting c.taken.pending ?_ fun b hb => ?_
      · rwa [c.req, update_self]
      · rw [c.req, update_of_ne hb]
    have hnodup : (awaiting w.rx).Nodup := (List.Nodup.of_map _ h.distinct).filter _
    rw [c.waiting, List.nodup_cons] at hnodup
    rw [received_finished hfin, c.flight]
    refine h.of_rx hb c.taken c.ids (fun m hm => c.flight ▸ List.mem_cons_of_mem _ hm)
      (hwait ▸ horder) (fun b hb _ => ?_) ?_
    · rw [hwait] at hb
      exact c.fresh h (c.waiting ▸ List.mem_cons_of_mem _ hb) fun e => hnodup.1 (e ▸ hb)
    · simp only [Front, hc]
      refine ⟨trivial, ?_⟩
      rw [c.bytes h, hdone, List.drop_length]
      rfl
  · obtain ⟨hc, hreplied, hgo⟩ := c.going hdone
    have hwait : awaiting t = awaiting w.rx :=
      awaiting_congr c.taken.pending fun b _ => c.replied_going h hdone b
    rw [received_going hgo]
    refine h.of_rx hb c.taken c.ids (fun m hm => hm) (hwait ▸ h.order)
      (fun b hb hne => c.fresh h (hwait ▸ hb) fun e => hne (e ▸ hc)) ?_
    have hself := congrFun c.req a
    rw [update_self] at hself
    have hr := c.receiving
    simp only [Front, hc, hself, c.id]
    refine ⟨type, txId, payload, rest, c.flight, ?_, c.cons h, c.bytes h⟩
    exact ⟨hreplied, hr.header, hr.len, hr.received, hr.bytes, hr.buffer⟩

theorem PieceCall.handled (c : PieceCall w t type txId a payload rest others n r) (h : Inv w) :
    Handled w (w.received (.ok t)) := by
  have hr := (c.front h).1
  have hrec := c.received
  have hamount := c.amount
  by_cases hdone : r.replyPayloadReceived = payload.length
  · obtain ⟨hc, hreplied, hfin⟩ := c.finished hdone
    have hself := congrFun c.req a
    rw [update_self] at hself
    obtain ⟨buf, hp, htake, hown⟩ := c.receiving.buffer
    have hbytes := c.receiving.bytes
    simp only [hdone, List.take_length] at htake hbytes
    rw [received_finished hfin]
    refine ⟨h.fault, fun _ => hfin, fun _ => ⟨_, rest, c.flight, ?_, ?_⟩, fun hgo => absurd hfin hgo⟩
    · refine ⟨c.watches, a, others, c.waiting, rfl, ?_⟩
      show (t.req a).xenbusReplied = true ∧ (t.req a).replyHeader = _ ∧ Holds (t.req a) payload ∧
        ∀ b, b ≠ a → t.req b = w.rx.req b
      rw [hself]
      refine ⟨hreplied, c.receiving.header, ⟨buf, hp, by rw [htake, hbytes], hown⟩, fun b hb => ?_⟩
      rw [c.req, update_of_ne hb]
    · show t.rspCons = _
      rw [c.cons h, hdone, Msg.length_encode]
      rfl
  · obtain ⟨-, -, hgo⟩ := c.going hdone
    rw [received_going hgo]
    refine ⟨h.fault, fun hcomplete => ?_, fun hf => absurd hf hgo,
      fun _ => ⟨c.watches, c.replied_going h hdone⟩⟩
    have hreceived := hr.received
    simp only [Complete, c.active, hr.header, hr.len] at hcomplete
    omega

end Piece

theorem Inv.received (h : Inv w) (hok : StepOk w (.receive alloc)) :
    Inv (w.received ((w.rx.receiveFromXenstored alloc).map Prod.snd)) := by
  have hbuf : ∀ t, (w.rx.receiveFromXenstored alloc).map Prod.snd = .ok t → Buffered t := by
    intro t ht
    cases hcall : w.rx.receiveFromXenstored alloc with
    | error e => rw [hcall] at ht; cases ht
    | ok r => rw [hcall] at ht; cases ht; exact h.buffered.receive hcall
  have hout := h.outcome alloc
  generalize (w.rx.receiveFromXenstored alloc).map Prod.snd = res at hbuf hout
  cases hout with
  | wait hc _ =>
    rw [received_going fun hf => hf.2.elim (fun hne => hne hc) fun hne => hne rfl]
    exact h
  | wrapped hno => exact absurd hok.1 hno
  | event c => exact c.inv h (hbuf _ rfl)
  | header c => exact c.inv h (hbuf _ rfl) hok.2
  | piece c => exact c.inv h (hbuf _ rfl)

theorem Inv.handled_iff (h : Inv w) :
    Handled w (w.received ((w.rx.receiveFromXenstored alloc).map Prod.snd)) ↔ EventOk w := by
  have hout := h.outcome alloc
  generalize (w.rx.receiveFromXenstored alloc).map Prod.snd = res at hout
  cases hout with
  | wait hc hno =>
    have hgo : ¬ Finished w.rx w.rx := fun hf => hf.2.elim (fun hne => hne hc) fun hne => hne rfl
    rw [received_going hgo]
    refine iff_of_true ⟨h.fault, fun hdone => absurd hdone hno, fun hf => absurd hf hgo,
      fun _ => ⟨rfl, fun _ => rfl⟩⟩ fun reqId txId path token rest hf hle => absurd ?_ hno
    simp only [Complete, hc]
    exact ⟨_, _, hf, rfl, hle⟩
  | wrapped hno => exact iff_of_false (fun hh => nomatch hh.fault) hno
  | event c => exact iff_of_true (c.handled h) c.ok
  | header c => exact iff_of_true (c.handled h) (eventOk_of_reply c.flight)
  | piece c => exact iff_of_true (c.handled h) (eventOk_of_reply c.flight)

end Received

/-! ## The other steps -/

section Steps

variable {w w' : Wire} {a : Nat}

/-- A step that leaves the parser alone and puts `ms` in flight. -/
theorem Front.congr (ms : List Msg) (h : Front w)
    (hc : w'.rx.currentRxReq = w.rx.currentRxReq)
    (hreq : ∀ a, w.rx.currentRxReq = some a → w'.rx.req a = w.rx.req a)
    (hcons : w'.rx.rspCons = w.rx.rspCons) (hstart : w'.start = w.start)
    (hflight : w'.flight = w.flight ++ ms)
    (hbytes : stream w'.rx ++ w'.unsent =
      stream w.rx ++ w.unsent ++ (ms.map Msg.encode).flatten) : Front w' := by
  unfold Front at h ⊢
  rw [hc, hcons, hstart, hflight, hbytes]
  cases hcur : w.rx.currentRxReq with
  | none =>
    simp only [hcur] at h
    refine ⟨h.1, ?_⟩
    rw [h.2, List.map_append, List.flatten_append]
  | some a =>
    simp only [hcur, hreq a hcur] at h ⊢
    obtain ⟨type, txId, payload, rest, hf, hr, hpos, hrest⟩ := h
    refine ⟨type, txId, payload, rest ++ ms, by rw [hf]; rfl, hr, hpos, ?_⟩
    rw [hrest, List.map_append, List.flatten_append, List.append_assoc]

theorem Inv.submit {id : Nat} (own : Option Nat) (h : Inv w) (ha : a ∉ w.rx.pending)
    (hid : id ∉ ids w.rx w.rx.pending) : Inv { w with rx := w.rx.submit a id own } := by
  have hne : ∀ b ∈ w.rx.pending, (w.rx.submit a id own).req b = w.rx.req b := by
    intro b hb
    exact update_of_ne (ne_of_mem_of_not_mem hb ha) _ _
  have hself : (w.rx.submit a id own).req a = .fresh id own := update_self ..
  have hids : ∀ l, (∀ b ∈ l, b ∈ w.rx.pending) →
      ids (w.rx.submit a id own) l = ids w.rx l :=
    fun l hl => ids_congr fun b hb => by rw [hne b (hl b hb)]
  have hwait : awaiting (w.rx.submit a id own) = awaiting w.rx ++ [a] := by
    show (w.rx.pending ++ [a]).filter _ = _
    rw [List.filter_append]
    congr 1
    · exact List.filter_congr fun b hb => by rw [hne b hb]
    · exact List.filter_cons_of_pos (by rw [hself]; rfl)
  refine ⟨h.fault, h.buffered.submit ha, h.discard, h.prod, h.room, ?_, h.formed, ?_, ?_, ?_⟩
  · show (ids (w.rx.submit a id own) (w.rx.pending ++ [a])).Nodup
    have hall : ids (w.rx.submit a id own) (w.rx.pending ++ [a]) = ids w.rx w.rx.pending ++ [id] := by
      rw [ids, List.map_append, ← ids, hids _ fun b hb => hb, List.map_singleton, hself]
      rfl
    rw [hall, List.nodup_append]
    refine ⟨h.distinct, List.nodup_singleton _, fun i hi j hj => ?_⟩
    rw [List.mem_singleton.mp hj]
    exact ne_of_mem_of_not_mem hi hid
  · show _ <+: ids _ (awaiting _)
    rw [hwait, ids, List.map_append]
    exact ((hids _ fun b hb => (mem_awaiting.mp hb).1).symm ▸ h.order).trans (List.prefix_append _ _)
  · intro b hb hc
    rw [hwait, List.mem_append, List.mem_singleton] at hb
    rcases hb with hb | rfl
    · show ((w.rx.submit a id own).req b).replyPayload.isSome = ((w.rx.submit a id own).req b).own
      rw [hne b (mem_awaiting.mp hb).1]
      exact h.fresh b hb hc
    · show ((w.rx.submit b id own).req b).replyPayload.isSome = ((w.rx.submit b id own).req b).own
      rw [hself]
      cases own <;> rfl
  · exact Front.congr [] h.front rfl (fun b hb => hne b (h.buffered.listed b hb)) rfl rfl
      (List.append_nil _).symm (List.append_nil _).symm

theorem Inv.send {m : Msg} (h : Inv w) (hm : m.WellFormed)
    (hid : ∀ id, m.replyId = some id →
      (ids w.rx (awaiting w.rx))[(w.flight.filterMap Msg.replyId).length]? = some id) :
    Inv { w with flight := w.flight ++ [m], unsent := w.unsent ++ m.encode } := by
  refine ⟨h.fault, h.buffered, h.discard, h.prod, h.room, h.distinct, fun m' hm' => ?_, ?_, h.fresh,
    h.front.congr [m] rfl (fun _ _ => rfl) rfl rfl rfl (by simp)⟩
  · rcases List.mem_append.mp hm' with hm' | hm'
    · exact h.formed m' hm'
    · rwa [List.mem_singleton.mp hm']
  · show (w.flight ++ [m]).filterMap Msg.replyId <+: _
    rw [List.filterMap_append]
    cases hr : m.replyId with
    | none => simpa [hr] using h.order
    | some id =>
      obtain ⟨others, ho⟩ := h.order
      have hnext := hid id hr
      rw [← ho, List.getElem?_append_right (Nat.le_refl _), Nat.sub_self] at hnext
      cases others with
      | nil => cases hnext
      | cons i others =>
        obtain rfl := Option.some.inj hnext
        exact ⟨others, by rw [← ho]; simp [hr]⟩

theorem Inv.write {n : Nat} (h : Inv w) (hn : n ≤ w.unsent.length)
    (hroom : w.rx.bytesAvail + n ≤ xenstoreRingSize) :
    Inv { w with rx := w.rx.write (w.unsent.take n), unsent := w.unsent.drop n } := by
  have hlen : (w.unsent.take n).length = n := by rw [List.length_take, Nat.min_eq_left hn]
  have hfit : w.rx.bytesAvail + (w.unsent.take n).length ≤ xenstoreRingSize := by rwa [hlen]
  refine ⟨h.fault, h.buffered.congr rfl (fun b hb => ⟨hb, h.buffered.listed b hb⟩)
    h.buffered.wf.cons rfl, h.discard, Nat.mod_lt _ (by decide), ?_, h.distinct, h.formed, h.order,
    h.fresh, Front.congr [] h.front rfl (fun _ _ => rfl) rfl rfl (List.append_nil _).symm ?_⟩
  · show (w.rx.write _).bytesAvail ≤ _
    rw [bytesAvail_write hfit]
    exact hfit
  · show stream (w.rx.write _) ++ w.unsent.drop n = _
    rw [stream_write h.prod hfit, List.append_assoc, List.take_append_drop]
    exact (List.append_nil _).symm

theorem Inv.complete (h : Inv w) (ha : (w.rx.req a).xenbusReplied = true) :
    w.rx.complete a = .ok { w.rx with pending := w.rx.pending.erase a } ∧
      Inv { w with rx := { w.rx with pending := w.rx.pending.erase a } } := by
  have hne : ∀ b, w.rx.currentRxReq = some b → b ≠ a := by
    rintro b hb rfl
    have hfront := h.front
    simp only [Front, hb] at hfront
    obtain ⟨_, _, _, _, -, hr, -⟩ := hfront
    rw [hr.replied] at ha
    cases ha
  have hwait : awaiting { w.rx with pending := w.rx.pending.erase a } = awaiting w.rx := by
    show (w.rx.pending.erase a).filter _ = _
    rw [List.Nodup.erase_eq_filter (List.Nodup.of_map _ h.distinct), List.filter_filter]
    refine List.filter_congr fun b _ => ?_
    by_cases hb : b = a
    · simp [hb, ha]
    · simp [hb]
  refine ⟨if_neg fun hc => hne a hc rfl, h.fault, ?_, h.discard, h.prod, h.room,
    h.distinct.sublist (List.erase_sublist.map _), h.formed, hwait.symm ▸ h.order,
    fun b hb => h.fresh b (hwait ▸ hb), Front.congr [] h.front rfl (fun _ _ => rfl) rfl rfl
      (List.append_nil _).symm (List.append_nil _).symm⟩
  exact h.buffered.congr rfl (fun b hb => ⟨hb, (List.mem_erase_of_ne (hne b hb)).mpr
    (h.buffered.listed b hb)⟩) h.buffered.wf.cons rfl

theorem Inv.step {act : Act} (h : Inv w) (hok : StepOk w act) (hst : w.step act = some w') :
    Inv w' := by
  unfold Wire.step at hst
  rw [if_neg (not_not.mpr h.fault)] at hst
  cases act with
  | submit a id own =>
    simp only at hst
    split at hst
    · next hc =>
      cases hst
      exact h.submit own hc.1 hc.2.1
    · cases hst
  | send m =>
    simp only at hst
    split at hst
    · next hc =>
      cases hst
      exact h.send hc.1 hc.2
    · cases hst
  | write n =>
    simp only at hst
    split at hst
    · next hc =>
      cases hst
      exact h.write hc.1 hc.2
    · cases hst
  | receive alloc =>
    obtain rfl := Option.some.inj hst
    exact h.received hok
  | complete a =>
    simp only at hst
    split at hst
    · next hc =>
      obtain ⟨hok, hinv⟩ := h.complete hc.2
      rw [hok] at hst
      cases hst
      exact hinv
    · cases hst
  | watch act =>
    obtain ⟨watches, -, rfl⟩ := Option.map_eq_some_iff.mp hst
    exact ⟨h.fault, h.buffered.congr rfl (fun b hb => ⟨hb, h.buffered.listed b hb⟩)
      h.buffered.wf.cons rfl, h.discard, h.prod, h.room, h.distinct, h.formed, h.order, h.fresh,
      h.front⟩
  | mode austereMode allowXenbusWatchOperation =>
    cases hst
    exact ⟨h.fault, h.buffered.congr rfl (fun b hb => ⟨hb, h.buffered.listed b hb⟩)
      h.buffered.wf.cons rfl, h.discard, h.prod, h.room, h.distinct, h.formed, h.order, h.fresh,
      h.front⟩

end Steps

/-! ## Runs -/

section Runs

open Machine

variable (idx : Nat) (token : Nat → List UInt8)

theorem inv_init : Inv (wireMachine idx token).init where
  fault := rfl
  buffered := (within_init idx token).buffered
  discard := rfl
  prod := Nat.mod_lt _ (by decide)
  room := by
    show sub32 (u32 idx) (u32 idx) ≤ xenstoreRingSize
    rw [sub32_u32 (Nat.le_refl _) (by omega), Nat.sub_self]
    exact Nat.zero_le _
  distinct := List.nodup_nil
  formed := fun m hm => nomatch hm
  order := List.nil_prefix
  fresh := fun a ha => nomatch ha
  front := by
    refine ⟨rfl, ?_⟩
    show stream (Rx.init (u32 idx) token) ++ [] = []
    rw [List.append_nil, ← List.length_eq_zero_iff, length_stream]
    show sub32 (u32 idx) (u32 idx) = 0
    rw [sub32_u32 (Nat.le_refl _) (by omega), Nat.sub_self]

/-- In a run whose steps meet `StepOk`, nothing is stopped, and every call does what the messages
say iff the event in front allows it. -/
theorem messages_handled {w : Wire} (hw : Reach (wireMachine idx token) StepOk w) :
    w.fault = none ∧ ∀ alloc w', w.step (.receive alloc) = some w' → (Handled w w' ↔ EventOk w) := by
  have h : Inv w := hw.inv (inv_init idx token) fun s act t hs hok hst => hs.step hok hst
  refine ⟨h.fault, fun alloc w' hst => ?_⟩
  unfold Wire.step at hst
  rw [if_neg (not_not.mpr h.fault)] at hst
  obtain rfl := Option.some.inj hst
  exact h.handled_iff

/-- An event over the end of the ring. -/
theorem messages_handled_event : ∃ w : Wire, w.rx.bytesAvail = 21 ∧ w.fault = none ∧
    ∀ alloc w', w.step (.receive alloc) = some w' → (Handled w w' ↔ EventOk w) := by
  obtain ⟨w, hw, hp⟩ := exists_reach_of_forall (wireMachine 1010 fun _ => [65]) StepOk
    (fun w => decide (w.rx.bytesAvail = 21)) [.send (.event 0 0 [97, 98] [65]), .write 21]
    (by
      intro act ha s
      simp only [List.mem_cons, List.not_mem_nil, or_false] at ha
      rcases ha with rfl | rfl <;> trivial)
    (by decide)
  exact ⟨w, of_decide_eq_true hp, messages_handled 1010 (fun _ => [65]) hw⟩

/-- An event whose path ends before index `2^32` and which itself ends behind it: the call trips an
assertion. -/
theorem messages_handled_false : ∃ w w' : Wire,
    Reach (wireMachine 4294967276 fun _ => [65]) Any w ∧ Complete w ∧
      w.step (.receive true) = some w' ∧ w'.fault = some .assertion ∧ ¬ Handled w w' := by
  obtain ⟨w, hw, hp⟩ := exists_reach (wireMachine 4294967276 fun _ => [65]) Any
    (fun w => decide (w.rx.currentRxReq = none ∧ w.flight = [.event 0 0 [97, 98] [65]] ∧
      w.rx.bytesAvail = 21 ∧ (w.step (.receive true)).map Wire.fault = some (some .assertion)))
    [.watch (.watchPath "" false), .send (.event 0 0 [97, 98] [65]), .write 21] (by decide)
  obtain ⟨hc, hf, ha, hst⟩ := of_decide_eq_true hp
  obtain ⟨w', hst, hfault⟩ := Option.map_eq_some_iff.mp hst
  refine ⟨w, w', hw, ?_, hst, hfault, fun hh => nomatch hfault.symm.trans hh.fault⟩
  simp only [Complete, hc]
  exact ⟨_, _, hf, rfl, by rw [ha]; decide⟩

end Runs

end XcWindows.Xenbus.Messages
