import XcWindows.Lib.Machine
import XcWindows.Xenbus.Receive

/-!
# XenStore reply buffers

The buffer of a reply is the caller's (`set_reply_buffer`) or is allocated when the header of the
reply arrives, and is kept when a resume resets the request in the middle of its reply. Here the
calls of `receive_from_xenstored` are interleaved with submissions, with whatever xenstored writes
to the ring, with resumes and with the completion of requests in `get_request_results`.

No reply is written outside its buffer (`fault_ne_overrun`). A successful reply is all there unless
its header found no buffer and no memory, or the smaller buffer of an earlier reply, or a request
that had its reply (`HeaderOk`).
-/

namespace XcWindows.Xenbus.Receive

open XcWindows.Lib
open Function (update_of_ne update_self)

/-- The receiver, and what has stopped it. -/
structure Requests where
  rx : Rx
  fault : Option Fault

inductive Act where
  /-- `submit_request` -/
  | submit (a id : Nat) (own : Option Nat)
  | write (bs : List UInt8)
  | receive (alloc : Bool)
  /-- `XenbusResumeEarly`; the ring is a new page -/
  | resume (rsp : Nat → UInt8) (cons prod : Nat)
  /-- `get_request_results` has seen `xenbus_replied`. -/
  | complete (a : Nat)
  | watch (act : Watch.Act)
  | mode (austereMode allowXenbusWatchOperation : Bool)

namespace Rx

variable (s : Rx)

/-- `reset_requests`, whose relinking is that of `Reset.reset_requests`. -/
def resetRequests : Rx :=
  { s with
    pending := s.pending.filter (fun a => (s.req a).xenbusReplied) ++
      s.pending.filter fun a => !(s.req a).xenbusReplied
    currentRxReq := none }

/-- `get_request_results` unhooks the request. -/
def complete (a : Nat) : Except Fault Rx :=
  if s.currentRxReq = some a then .error .assertion
  else .ok { s with pending := s.pending.erase a }

end Rx

namespace Requests

variable (s : Requests)

/-- A call that may be stopped. -/
def run (r : Except Fault Rx) : Requests :=
  match r with
  | .ok rx => { s with rx }
  | .error e => { s with fault := some e }

def step (s : Requests) (act : Act) : Option Requests :=
  if s.fault ≠ none then none
  else
    match act with
    | .submit a id own =>
      if a ∉ s.rx.pending ∧ ∀ size, own = some size → 12 ≤ size then
        some { s with rx := s.rx.submit a id own }
      else none
    | .write bs =>
      if s.rx.bytesAvail + bs.length ≤ xenstoreRingSize then some { s with rx := s.rx.write bs }
      else none
    | .receive alloc => some (s.run ((s.rx.receiveFromXenstored alloc).map Prod.snd))
    | .resume rsp cons prod =>
      some { s with
        rx := { s.rx.resetRequests with rsp, rspCons := u32 cons, rspProd := u32 prod } }
    | .complete a =>
      if a ∈ s.rx.pending ∧ (s.rx.req a).xenbusReplied = true then
        some (s.run (s.rx.complete a))
      else none
    | .watch act => (s.rx.watches.step act).map fun watches => { s with rx := { s.rx with watches } }
    | .mode austereMode allowXenbusWatchOperation =>
      some { s with rx := { s.rx with austereMode, allowXenbusWatchOperation } }

end Requests

/-- The ring starts at any index; `token` are the texts of the handlers' addresses. -/
def requestsMachine (idx : Nat) (token : Nat → List UInt8) : Machine Requests Act where
  init := ⟨.init (u32 idx) token, none⟩
  step := Requests.step

/-! ## The buffer of a request -/

namespace RxReq

variable (r : RxReq)

/-- `reply_buf_size` is the size of the buffer. -/
def Sized : Prop :=
  match r.replyPayload with
  | none => r.replyBufSize = 0
  | some buf => r.replyBufSize = buf.length

/-- The bytes received are at the start of a buffer that has room for the whole reply. -/
def Filled : Prop :=
  r.replyBytes.length = r.replyPayloadReceived ∧
    ∃ buf, r.replyPayload = some buf ∧ r.replyHeader.len ≤ buf.length ∧
      buf.take r.replyPayloadReceived = r.replyBytes.map some

/-- A request that has completed successfully has its reply, unless the buffer is the caller's. -/
def Delivered : Prop :=
  r.xenbusReplied = true → r.replyHeader.type ≠ xsError → r.own = false →
    r.Filled ∧ r.replyPayloadReceived = r.replyHeader.len

/-- The header finds a request without a reply, and for a success a buffer of the caller's, or one
of sufficient size, or none and memory for one. -/
def HeaderOk (hdr : Sockmsg) (alloc : Bool) : Prop :=
  r.xenbusReplied = false ∧
    (hdr.type ≠ xsError → r.own = false →
      match r.replyPayload with
      | none => alloc = true
      | some buf => hdr.len ≤ buf.length)

instance (hdr : Sockmsg) (alloc : Bool) : Decidable (r.HeaderOk hdr alloc) := by
  unfold HeaderOk
  split <;> infer_instance

end RxReq

/-- The step does not start a reply that finds no buffer for it. -/
def BufferOk (s : Requests) : Act → Prop
  | .receive alloc =>
    s.rx.consResponseDiscardBytes = 0 → s.rx.currentRxReq = none → s.rx.HeaderReady →
      s.rx.frontHeader.type ≠ xsWatchEvent →
      ∀ a, s.rx.findPendingRxReq s.rx.frontHeader.reqId = some a →
        (s.rx.req a).HeaderOk s.rx.frontHeader alloc
  | _ => True

instance (s : Requests) (a : Act) : Decidable (BufferOk s a) := by
  unfold BufferOk
  split
  · next alloc =>
    exact inferInstanceAs (Decidable (_ → _ → _ → _ →
      ∀ a ∈ s.rx.findPendingRxReq s.rx.frontHeader.reqId, (s.rx.req a).HeaderOk s.rx.frontHeader alloc))
  · infer_instance

section Buffer

variable {s : Rx} {r : RxReq} {buf : Buffer} {off n : Nat} {data : List UInt8} {e : Fault}
  {payload : Option Buffer} {alloc : Bool} {hdr : Sockmsg}

theorem sized_fresh (id : Nat) (own : Option Nat) : (RxReq.fresh id own).Sized := by
  cases own <;> simp [RxReq.fresh, RxReq.Sized]

theorem RxReq.Sized.startReply (h : r.Sized) : (r.startReply hdr alloc).Sized := by
  unfold RxReq.startReply
  cases hp : r.replyPayload with
  | some buf => simpa [RxReq.Sized, hp] using h
  | none => cases alloc <;> simp [RxReq.Sized]

theorem writeBuffer_ok (h : off + data.length ≤ buf.length) :
    ∃ buf', writeBuffer (some buf) off data = .ok (some buf') ∧ buf'.length = buf.length ∧
      ∀ bs, buf.take off = bs.map some → buf'.take (off + data.length) = (bs ++ data).map some := by
  cases data with
  | nil => exact ⟨buf, rfl, rfl, fun bs hbs => by simpa using hbs⟩
  | cons b data =>
    refine ⟨_, by rw [writeBuffer, if_pos h]; nofun, ?_, fun bs hbs => ?_⟩
    · simp only [List.length_append, List.length_take, List.length_map, List.length_drop]
      omega
    · have hlen : off = bs.length := by
        have := congrArg List.length hbs
        simp only [List.length_take, List.length_map] at this
        omega
      rw [hbs, List.take_append_of_le_length, List.take_of_length_le, List.map_append]
      · simp [hlen]
      · simp [hlen]

theorem memcpyFromRing_error {ring : Nat → UInt8} {size idx : Nat}
    (h : memcpyFromRing ring size idx = .error e) : e = .assertion := by
  unfold memcpyFromRing at h
  split at h <;> cases h
  rfl

/-- A copy into a buffer whose size is known stays inside it. -/
theorem copyPayload_sized (h : r.Sized) :
    (∀ e, s.copyPayload r n = .error e → e = .assertion) ∧
      ∀ payload, s.copyPayload r n = .ok payload →
        RxReq.Sized { r with replyPayload := payload } := by
  unfold Rx.copyPayload
  simp only
  split
  · next hlt =>
    cases hp : r.replyPayload with
    | none => simp [RxReq.Sized, hp] at h; omega
    | some buf =>
      simp only [RxReq.Sized, hp] at h
      by_cases hm : min n (r.replyBufSize - u32 r.replyPayloadReceived) ≤ xenstoreRingSize
      · rw [memcpyFromRing_eq _ hm]
        obtain ⟨buf', hw, hlen, -⟩ := @writeBuffer_ok buf (u32 r.replyPayloadReceived)
          (window s.rsp xenstoreRingSize s.rspCons
            (min n (r.replyBufSize - u32 r.replyPayloadReceived)))
          (by rw [length_window]; omega)
        simp only [Except.bind, hw]
        refine ⟨nofun, fun payload hpay => ?_⟩
        cases hpay
        exact h.trans hlen.symm
      · have herr : memcpyFromRing s.rsp (min n (r.replyBufSize - u32 r.replyPayloadReceived))
            (s.rspCons % xenstoreRingSize) = .error .assertion := if_neg fun hc => hm hc.1
        rw [herr]
        refine ⟨fun e he => by cases he; rfl, fun payload hpay => by cases hpay⟩
  · refine ⟨nofun, fun payload hpay => ?_⟩
    cases hpay
    exact h

theorem copyPayload_some (h : r.Sized) (hp : r.replyPayload = some buf)
    (hb : r.replyBytes.length = r.replyPayloadReceived)
    (htake : buf.take r.replyPayloadReceived = (r.replyBytes.take buf.length).map some)
    (hlt : r.replyPayloadReceived < 4294967296) (hn : n ≤ xenstoreRingSize) :
    ∃ buf', s.copyPayload r n = .ok (some buf') ∧ buf'.length = buf.length ∧
      buf'.take (r.replyPayloadReceived + n) =
        ((r.replyBytes ++ window s.rsp xenstoreRingSize s.rspCons n).take buf.length).map some := by
  simp only [RxReq.Sized, hp] at h
  have hu : u32 r.replyPayloadReceived = r.replyPayloadReceived := Nat.mod_eq_of_lt hlt
  unfold Rx.copyPayload
  simp only [hu, hp, h]
  split
  · next hroom =>
    rw [memcpyFromRing_eq _ (by omega)]
    obtain ⟨buf', hw, hlen, htake'⟩ := @writeBuffer_ok buf r.replyPayloadReceived
      (window s.rsp xenstoreRingSize s.rspCons (min n (buf.length - r.replyPayloadReceived)))
      (by rw [length_window]; omega)
    have hwrote := htake' r.replyBytes (by rw [htake, List.take_of_length_le (by omega)])
    rw [length_window] at hwrote
    refine ⟨buf', by simp only [Except.bind, hw], hlen, ?_⟩
    have hall : buf'.take (r.replyPayloadReceived + n) = buf'.take (r.replyPayloadReceived +
        min n (buf.length - r.replyPayloadReceived)) := by
      rcases Nat.le_total n (buf.length - r.replyPayloadReceived) with hle | hle
      · rw [Nat.min_eq_left hle]
      · rw [Nat.min_eq_right hle, List.take_of_length_le (by omega), List.take_of_length_le (by omega)]
    rw [hall, hwrote, List.take_append, List.take_of_length_le (by omega), hb]
    congr 2
    rcases Nat.le_total n (buf.length - r.replyPayloadReceived) with hle | hle
    · rw [Nat.min_eq_left hle, List.take_of_length_le (by rw [length_window]; exact hle)]
    · rw [Nat.min_eq_right hle, take_window hle]
  · next hfull =>
    refine ⟨buf, rfl, rfl, ?_⟩
    rw [List.take_of_length_le (by omega), List.take_append_of_le_length (by omega), ← htake,
      List.take_of_length_le (by omega)]

/-- What is copied to the buffer as a whole is no longer than the ring. -/
theorem copyPayload_ring (h : r.Sized) (hp : r.replyPayload = some buf)
    (hlt : r.replyPayloadReceived < 4294967296) (hn : r.replyPayloadReceived + n ≤ buf.length)
    (hcopy : s.copyPayload r n = .ok payload) : n ≤ xenstoreRingSize := by
  simp only [RxReq.Sized, hp] at h
  by_contra hbig
  have hu : u32 r.replyPayloadReceived = r.replyPayloadReceived := Nat.mod_eq_of_lt hlt
  unfold Rx.copyPayload at hcopy
  simp only [hu, h] at hcopy
  rw [if_pos (by omega), Nat.min_eq_left (by omega), memcpyFromRing, if_neg fun hc => hbig hc.1]
    at hcopy
  cases hcopy

/-- A piece of a reply that has room in its buffer. -/
theorem copyPayload_filled (h : r.Sized) (hf : r.Filled) (hlen : r.replyHeader.len < 4294967296)
    (hn : r.replyPayloadReceived + n ≤ r.replyHeader.len)
    (hcopy : s.copyPayload r n = .ok payload) :
    ∃ buf, payload = some buf ∧ r.replyHeader.len ≤ buf.length ∧
      buf.take (r.replyPayloadReceived + n) =
        (r.replyBytes ++ window s.rsp xenstoreRingSize s.rspCons n).map some := by
  obtain ⟨hb, buf, hp, hle, htake⟩ := hf
  have hring : n ≤ xenstoreRingSize := copyPayload_ring h hp (by omega) (by omega) hcopy
  obtain ⟨buf', hcopy', hlen', htake'⟩ := @copyPayload_some s r buf n h hp hb
    (by rw [htake, List.take_of_length_le (by omega)]) (by omega) hring
  rw [hcopy'] at hcopy
  cases hcopy
  refine ⟨buf', rfl, by omega, ?_⟩
  rw [htake', List.take_of_length_le (by rw [List.length_append, length_window]; omega)]

end Buffer

/-! ## No overrun -/

section Faults

variable {s t : Rx} {a cons : Nat} {e : Fault} {hdr : Sockmsg} {alloc b : Bool}

theorem watchIdent_error {messageEnd : Nat} (h : s.watchIdent messageEnd = .error e) :
    e = .assertion := by
  unfold Rx.watchIdent at h
  simp only at h
  split at h
  · cases h; rfl
  · split at h
    · cases h
    · split at h
      · cases h; rfl
      · split at h
        · cases h
        · split at h
          · cases h; rfl
          · cases hm : memcpyFromRing s.rsp _ _ with
            | error e' =>
              rw [hm] at h
              cases h
              exact memcpyFromRing_error hm
            | ok bs => rw [hm] at h; cases h

theorem receiveWatchEvent_error (h : s.receiveWatchEvent hdr = .error e) : e = .assertion := by
  unfold Rx.receiveWatchEvent at h
  simp only at h
  split at h
  · cases h
  · split at h
    · cases h; rfl
    · split at h
      · cases h
      · rcases bind_error h with h | ⟨ident, -, h⟩
        · exact watchIdent_error h
        · cases ident with
          | none => cases h
          | some ident =>
            simp only at h
            split at h
            · unfold Rx.fireWatchByIdent at h
              split at h
              · cases h; rfl
              · split at h <;> cases h
            · cases h

theorem receiveHeader_error (h : s.receiveHeader alloc = .error e) : e ≠ .overrun := by
  rintro rfl
  unfold Rx.receiveHeader at h
  split at h
  · cases h
  · rcases bind_error h with h | ⟨bs, -, h⟩
    · cases memcpyFromRing_error h
    · simp only at h
      split at h
      · cases receiveWatchEvent_error h
      · unfold Rx.receiveReply at h
        simp only at h
        split at h
        · cases h
        · split at h <;> cases h

theorem receive_error (hs : ∀ a, (s.req a).Sized) (h : s.receiveFromXenstored alloc = .error e) :
    e ≠ .overrun := by
  rintro rfl
  unfold Rx.receiveFromXenstored at h
  split at h
  · cases h
  · cases hc : s.currentRxReq with
    | some a =>
      simp only [hc] at h
      cases hr : s.receivePayload a with
      | ok r => rw [hr] at h; cases h
      | error e =>
        rw [hr] at h
        cases h
        unfold Rx.receivePayload at hr
        rcases bind_error hr with hr | ⟨payload, -, hr⟩
        · cases (copyPayload_sized (hs a)).1 _ hr
        · simp only at hr
          split at hr <;> cases hr
    | none =>
      simp only [hc] at h
      cases hr : s.receiveHeader alloc with
      | ok r => rw [hr] at h; cases h
      | error e => rw [hr] at h; cases h; exact receiveHeader_error hr rfl

end Faults

/-! ## The invariant -/

/-- What every run keeps. -/
structure Buffered (s : Rx) : Prop where
  wf : s.Wf
  sized : ∀ a, (s.req a).Sized
  listed : ∀ a, s.currentRxReq = some a → a ∈ s.pending

/-- What a run keeps in which every header finds its buffer. -/
structure Good (s : Rx) : Prop where
  delivered : ∀ a ∈ s.pending, (s.req a).Delivered
  current : ∀ a, s.currentRxReq = some a → (s.req a).xenbusReplied = false ∧
    ((s.req a).replyHeader.type ≠ xsError → (s.req a).own = false → (s.req a).Filled)

section Steps

variable {s t : Rx} {a : Nat} {alloc b : Bool}

theorem Buffered.receive (h : Buffered s) (hcall : s.receiveFromXenstored alloc = .ok (b, t)) :
    Buffered t := by
  obtain ⟨hp, hreq⟩ := receive_req hcall
  refine ⟨h.wf.receive hcall, fun a' => ?_, fun a' ha' => ?_⟩
  · rcases hreq with ⟨hr, -⟩ | ⟨a, -, -, -, -, -, hr, -⟩ | ⟨a, n, payload, -, hcopy, -, hr, -⟩
    · rw [hr]
      exact h.sized a'
    · rw [hr]
      by_cases ha : a' = a
      · rw [ha, update_self]
        exact (h.sized a).startReply
      · rw [update_of_ne ha]
        exact h.sized a'
    · rw [hr]
      by_cases ha : a' = a
      · rw [ha, update_self]
        exact (copyPayload_sized (h.sized a)).2 payload hcopy
      · rw [update_of_ne ha]
        exact h.sized a'
  · rw [hp]
    rcases hreq with ⟨-, hc⟩ | ⟨a, -, -, -, -, hfind, -, hc⟩ | ⟨a, n, payload, hcur, -, -, -, hc⟩
    · exact h.listed a' (hc ▸ ha')
    · rw [hc] at ha'
      obtain rfl := Option.some.inj ha'
      exact List.mem_of_find?_eq_some hfind
    · rw [hc] at ha'
      split at ha'
      · cases ha'
      · obtain rfl := Option.some.inj ha'
        exact h.listed a hcur

theorem startReply_flags (r : RxReq) (hdr : Sockmsg) (alloc : Bool) :
    (r.startReply hdr alloc).xenbusReplied = r.xenbusReplied ∧
      (r.startReply hdr alloc).own = r.own := by
  unfold RxReq.startReply
  cases r.replyPayload <;> cases alloc <;> exact ⟨rfl, rfl⟩

theorem RxReq.HeaderOk.filled {r : RxReq} {hdr : Sockmsg} (h : r.HeaderOk hdr alloc)
    (ht : hdr.type ≠ xsError) (ho : r.own = false) : (r.startReply hdr alloc).Filled := by
  have hbuf := h.2 ht ho
  unfold RxReq.startReply RxReq.Filled
  cases hp : r.replyPayload with
  | some buf =>
    rw [hp] at hbuf
    exact ⟨rfl, buf, rfl, hbuf, rfl⟩
  | none =>
    rw [hp] at hbuf
    obtain rfl := hbuf
    exact ⟨rfl, _, rfl, by simp, rfl⟩

theorem Good.receive (hb : Buffered s) (h : Good s)
    (hok : BufferOk ⟨s, none⟩ (.receive alloc))
    (hcall : s.receiveFromXenstored alloc = .ok (b, t)) : Good t := by
  obtain ⟨hp, hreq⟩ := receive_req hcall
  rcases hreq with ⟨hr, hc⟩ | ⟨a, hd, hcur, hready, hw, hfind, hr, hc⟩ |
    ⟨a, n, payload, hcur, hcopy, hn, hr, hc⟩
  · exact ⟨by rw [hp, hr]; exact h.delivered, by rw [hr, hc]; exact h.current⟩
  · have hheader := hok hd hcur hready hw a hfind
    obtain ⟨h1, h2⟩ := startReply_flags (s.req a) s.frontHeader alloc
    have h3 := (startReply_header (s.req a) s.frontHeader alloc).1
    refine ⟨fun a' ha' => ?_, fun a' ha' => ?_⟩
    · rw [hp] at ha'
      rw [hr]
      by_cases ha : a' = a
      · rw [ha, update_self]
        intro hrep
        rw [h1, hheader.1] at hrep
        cases hrep
      · rw [update_of_ne ha]
        exact h.delivered a' ha'
    · rw [hc] at ha'
      obtain rfl := Option.some.inj ha'
      rw [hr, update_self, h1, h2, h3]
      exact ⟨hheader.1, hheader.filled⟩
  · obtain ⟨hrep, hfill⟩ := h.current a hcur
    obtain ⟨hle, hlt⟩ := hb.wf.current a hcur
    have hfilled : (s.req a).replyHeader.type ≠ xsError → (s.req a).own = false →
        RxReq.Filled
          { s.req a with
            replyPayload := payload
            replyPayloadReceived := (s.req a).replyPayloadReceived + n
            replyBytes := (s.req a).replyBytes ++ window s.rsp xenstoreRingSize s.rspCons n } := by
      intro ht ho
      have hf := hfill ht ho
      obtain ⟨buf, hbuf, hlen, htake⟩ := copyPayload_filled (hb.sized a) hf hlt hn hcopy
      exact ⟨by simp [hf.1], buf, hbuf, hlen, htake⟩
    refine ⟨fun a' ha' => ?_, fun a' ha' => ?_⟩
    · rw [hp] at ha'
      rw [hr]
      by_cases ha : a' = a
      · rw [ha, update_self]
        intro hdone ht ho
        simp only [hrep, Bool.false_or, decide_eq_true_eq] at hdone
        exact ⟨hfilled ht ho, hdone⟩
      · rw [update_of_ne ha]
        exact h.delivered a' ha'
    · rw [hc] at ha'
      split at ha'
      · cases ha'
      · next hmore =>
        obtain rfl := Option.some.inj ha'
        rw [hr, update_self]
        exact ⟨by simp [hrep, hmore], hfilled⟩

theorem Buffered.submit {id : Nat} {own : Option Nat} (h : Buffered s) (ha : a ∉ s.pending) :
    Buffered (s.submit a id own) := by
  have hne : ∀ a', s.currentRxReq = some a' → a' ≠ a := fun a' hc e => ha (e ▸ h.listed a' hc)
  refine ⟨⟨h.wf.cons, h.wf.discard, fun a' hc => ?_⟩, fun a' => ?_, fun a' hc => ?_⟩
  · simp only [Rx.submit, Rx.setReq, update_of_ne (hne a' hc)]
    exact h.wf.current a' hc
  · simp only [Rx.submit, Rx.setReq]
    by_cases he : a' = a
    · rw [he, update_self]
      exact sized_fresh id own
    · rw [update_of_ne he]
      exact h.sized a'
  · exact List.mem_append_left _ (h.listed a' hc)

theorem Good.submit {id : Nat} {own : Option Nat} (hb : Buffered s) (h : Good s)
    (ha : a ∉ s.pending) : Good (s.submit a id own) := by
  have hne : ∀ a', s.currentRxReq = some a' → a' ≠ a := fun a' hc e => ha (e ▸ hb.listed a' hc)
  refine ⟨fun a' hm => ?_, fun a' hc => ?_⟩
  · simp only [Rx.submit, Rx.setReq] at hm ⊢
    by_cases he : a' = a
    · rw [he, update_self]
      exact fun e => absurd e Bool.false_ne_true
    · rw [update_of_ne he]
      exact h.delivered a' (by simpa [he] using hm)
  · simp only [Rx.submit, Rx.setReq, update_of_ne (hne a' hc)]
    exact h.current a' hc

end Steps

/-- The requests stay within their buffers. -/
structure Within (s : Requests) : Prop where
  buffered : Buffered s.rx
  fault : s.fault ≠ some .overrun

/-- Changes that leave the requests and the parser alone. -/
theorem Buffered.congr {s t : Rx} (h : Buffered s) (hr : t.req = s.req)
    (hl : ∀ a, t.currentRxReq = some a → s.currentRxReq = some a ∧ a ∈ t.pending)
    (hc : t.rspCons < 4294967296) (hd : t.consResponseDiscardBytes = s.consResponseDiscardBytes) :
    Buffered t :=
  ⟨⟨hc, hd ▸ h.wf.discard, fun a ha => hr ▸ h.wf.current a (hl a ha).1⟩, fun a => hr ▸ h.sized a,
    fun a ha => (hl a ha).2⟩

theorem Good.congr {s t : Rx} (h : Good s) (hr : t.req = s.req)
    (hp : ∀ a ∈ t.pending, a ∈ s.pending)
    (hl : ∀ a, t.currentRxReq = some a → s.currentRxReq = some a) : Good t :=
  ⟨fun a ha => hr ▸ h.delivered a (hp a ha), fun a ha => hr ▸ h.current a (hl a ha)⟩

theorem mem_resetRequests {s : Rx} {a : Nat} : a ∈ s.resetRequests.pending ↔ a ∈ s.pending := by
  simp only [Rx.resetRequests, List.mem_append, List.mem_filter]
  cases (s.req a).xenbusReplied <;> simp

theorem Within.step_inv {s t : Requests} {act : Act} (h : Within s)
    (hst : s.step act = some t) : Within t ∧ (BufferOk s act → Good s.rx → Good t.rx) := by
  unfold Requests.step at hst
  split at hst
  · cases hst
  next hf =>
  have hnone : s.fault = none := not_not.mp hf
  have hb := h.buffered
  cases act with
  | submit a id own =>
    simp only at hst
    split at hst
    · next hok =>
      cases hst
      exact ⟨⟨hb.submit hok.1, h.fault⟩, fun _ hg => hg.submit hb hok.1⟩
    · cases hst
  | write bs =>
    simp only at hst
    split at hst
    · cases hst
      exact ⟨⟨hb.congr rfl (fun a ha => ⟨ha, hb.listed a ha⟩) hb.wf.cons rfl, h.fault⟩,
        fun _ hg => hg.congr rfl (fun _ ha => ha) fun _ ha => ha⟩
    · cases hst
  | receive alloc =>
    obtain rfl := Option.some.inj hst
    cases hcall : s.rx.receiveFromXenstored alloc with
    | error e =>
      exact ⟨⟨hb, fun he => receive_error hb.sized hcall (Option.some.inj he)⟩, fun _ hg => hg⟩
    | ok r =>
      exact ⟨⟨hb.receive hcall, h.fault⟩, fun hok hg => hg.receive hb hok hcall⟩
  | resume rsp cons prod =>
    obtain rfl := Option.some.inj hst
    exact ⟨⟨hb.congr rfl (fun a ha => by cases ha) (Nat.mod_lt _ (by decide)) rfl, h.fault⟩,
      fun _ hg => hg.congr rfl (fun a ha => mem_resetRequests.mp ha) fun a ha => by cases ha⟩
  | complete a =>
    simp only at hst
    split at hst
    · obtain rfl := Option.some.inj hst
      unfold Rx.complete
      split
      · exact ⟨⟨hb, nofun⟩, fun _ hg => hg⟩
      · next hc =>
        refine ⟨⟨hb.congr rfl (fun a' ha' => ⟨ha', ?_⟩) hb.wf.cons rfl, h.fault⟩,
          fun _ hg => hg.congr rfl (fun a' ha' => List.mem_of_mem_erase ha') fun _ ha' => ha'⟩
        have hne : a' ≠ a := by
          rintro rfl
          exact hc ha'
        exact (List.mem_erase_of_ne hne).mpr (hb.listed a' ha')
    · cases hst
  | watch act =>
    obtain ⟨watches, -, rfl⟩ := Option.map_eq_some_iff.mp hst
    exact ⟨⟨hb.congr rfl (fun a ha => ⟨ha, hb.listed a ha⟩) hb.wf.cons rfl, h.fault⟩,
      fun _ hg => hg.congr rfl (fun _ ha => ha) fun _ ha => ha⟩
  | mode austereMode allow =>
    obtain rfl := Option.some.inj hst
    exact ⟨⟨hb.congr rfl (fun a ha => ⟨ha, hb.listed a ha⟩) hb.wf.cons rfl, h.fault⟩,
      fun _ hg => hg.congr rfl (fun _ ha => ha) fun _ ha => ha⟩

/-! ## Runs -/

section Runs

open Machine

variable (idx : Nat) (token : Nat → List UInt8)

theorem within_init : Within (requestsMachine idx token).init :=
  ⟨⟨⟨Nat.mod_lt _ (by decide), (by decide : 0 < 4294967296), fun a ha => by cases ha⟩, fun a => rfl,
    fun a ha => by cases ha⟩, nofun⟩

/-- In every run no reply is written outside its buffer. In a run whose reply headers all find
their buffers, every request that has completed successfully has its whole reply. -/
theorem reply_buffers :
    (∀ s, Reach (requestsMachine idx token) Any s → s.fault ≠ some .overrun) ∧
      ∀ s, Reach (requestsMachine idx token) BufferOk s →
        ∀ a ∈ s.rx.pending, (s.rx.req a).Delivered := by
  constructor
  · intro s hs
    exact (hs.inv (within_init idx token) fun s a t h _ hst => (h.step_inv hst).1).fault
  · intro s hs
    have hinv : Within s ∧ Good s.rx := by
      refine hs.inv (I := fun s => Within s ∧ Good s.rx) ⟨within_init idx token, ?_⟩ ?_
      · exact ⟨nofun, fun a ha => by cases ha⟩
      · rintro s act t ⟨hw, hg⟩ hok hst
        obtain ⟨hw', hg'⟩ := hw.step_inv hst
        exact ⟨hw', hg' hok hg⟩
    exact hinv.2.delivered

/-- A reply of three bytes, with memory for it. -/
theorem reply_buffers_run : ∃ s, Reach (requestsMachine 0 fun _ => []) BufferOk s ∧ 0 ∈ s.rx.pending ∧
    (s.rx.req 0).replyPayload = some [some 97, some 98, some 99] ∧ (s.rx.req 0).Delivered := by
  obtain ⟨s, hs, hp⟩ := exists_reach (requestsMachine 0 fun _ => []) BufferOk
    (fun s => decide (0 ∈ s.rx.pending ∧ (s.rx.req 0).replyPayload = some [some 97, some 98, some 99]))
    [.submit 0 7 none, .write [2, 0, 0, 0, 7, 0, 0, 0, 0, 0, 0, 0, 3, 0, 0, 0, 97, 98, 99],
      .receive true, .receive true] (by decide)
  obtain ⟨h0, h1⟩ := of_decide_eq_true hp
  exact ⟨s, hs, h0, h1, (reply_buffers 0 fun _ => []).2 s hs 0 h0⟩

/-- A reply of three bytes without memory for it, and one of one byte that a resume cuts off and
that is answered again with three. -/
theorem reply_buffers_fail :
    (∃ s, Reach (requestsMachine 0 fun _ => []) Any s ∧ 0 ∈ s.rx.pending ∧
      ¬ (s.rx.req 0).Delivered ∧ (s.rx.req 0).replyPayload = none) ∧
      ∃ s, Reach (requestsMachine 0 fun _ => []) Any s ∧ 0 ∈ s.rx.pending ∧
        ¬ (s.rx.req 0).Delivered ∧ (s.rx.req 0).replyPayload = some [some 97] := by
  have key : ∀ s : Requests, (s.rx.req 0).xenbusReplied = true →
      (s.rx.req 0).replyHeader = ⟨2, 7, 0, 3⟩ → (s.rx.req 0).own = false →
      (∀ buf, (s.rx.req 0).replyPayload = some buf → buf.length < 3) →
      ¬ (s.rx.req 0).Delivered := by
    intro s h1 h2 h3 h4 hd
    obtain ⟨⟨-, buf, hb, hle, -⟩, -⟩ := hd h1 (by rw [h2]; decide) h3
    rw [h2] at hle
    exact absurd (h4 buf hb) (Nat.not_lt.mpr hle)
  constructor
  · obtain ⟨s, hs, hp⟩ := exists_reach (requestsMachine 0 fun _ => []) Any
      (fun s => decide (0 ∈ s.rx.pending ∧ (s.rx.req 0).xenbusReplied = true ∧
        (s.rx.req 0).replyHeader = ⟨2, 7, 0, 3⟩ ∧ (s.rx.req 0).own = false ∧
        (s.rx.req 0).replyPayload = none))
      [.submit 0 7 none, .write [2, 0, 0, 0, 7, 0, 0, 0, 0, 0, 0, 0, 3, 0, 0, 0, 97, 98, 99],
        .receive false, .receive true] (by decide)
    obtain ⟨h0, h1, h2, h3, h4⟩ := of_decide_eq_true hp
    exact ⟨s, hs, h0, key s h1 h2 h3 (by rw [h4]; nofun), h4⟩
  · obtain ⟨s, hs, hp⟩ := exists_reach (requestsMachine 0 fun _ => []) Any
      (fun s => decide (0 ∈ s.rx.pending ∧ (s.rx.req 0).xenbusReplied = true ∧
        (s.rx.req 0).replyHeader = ⟨2, 7, 0, 3⟩ ∧ (s.rx.req 0).own = false ∧
        (s.rx.req 0).replyPayload = some [some 97]))
      [.submit 0 7 none, .write [2, 0, 0, 0, 7, 0, 0, 0, 0, 0, 0, 0, 1, 0, 0, 0], .receive true,
        .resume (fun _ => 0) 0 0,
        .write [2, 0, 0, 0, 7, 0, 0, 0, 0, 0, 0, 0, 3, 0, 0, 0, 97, 98, 99], .receive true,
        .receive true] (by decide)
    obtain ⟨h0, h1, h2, h3, h4⟩ := of_decide_eq_true hp
    refine ⟨s, hs, h0, key s h1 h2 h3 ?_, h4⟩
    rw [h4]
    rintro buf ⟨⟩
    decide

end Runs

end XcWindows.Xenbus.Receive
