import XcWindows.Lib.Machine
import XcWindows.Lib.Circ
import XcWindows.Lib.Keyed

/-!
# The XenStore request stream

`xenutil/xenbus.c`: requests are scatter-gather lists (header first) on a doubly linked list, and
the DPC copies them onto a 1024-byte ring that xenstored drains. `advanceTxReq` is the resumable
copy of one request; `step` interleaves it with submissions, with xenstored's reads of the ring and
with the completion of answered requests.

`Transmitting` is the invariant: the bytes placed on the ring followed by the bytes the pending
requests still have to send are the submitted ones, and `current_tx_req` is the first request that
has any. A request whose last segment is empty breaks it when the ring fills with the request's
last byte, since the copy loop then stops in front of that segment; `TxOk` excludes that step.
-/

namespace XcWindows.Xenbus

open XcWindows.Lib

abbrev xenstoreRingSize : Nat := 1024

/-- `struct xenbus_sg_segment`: the bytes `data[0 .. len)`. A `next` chain is a list. -/
abbrev SgSegment := List UInt8

/-- `struct xenbus_pending_req`, its transmit half. -/
structure PendingReq where
  /-- The address of the structure. -/
  addr : Nat
  txIo : List SgSegment
  nextTxSeg : List SgSegment
  txSgOff : Nat
  xenbusReplied : Bool
  /-- Where the request ends in the stream of submitted bytes. -/
  endPos : Nat

/-- Where the DPC is; it holds the ring lock unless `idle`. -/
inductive Dpc where
  | idle
  | loop
  /-- Inside `advance_tx_req`, having read `req_cons`. -/
  | copy (cons : Nat)
  deriving DecidableEq

structure State where
  pending : List PendingReq
  currentTxReq : Option Nat
  reqProd : Nat
  reqCons : Nat
  /-- `shared_buf->req`. -/
  ring : Nat → UInt8
  dpc : Dpc
  assertFailed : Bool
  submitted : List (List SgSegment)
  /-- The bytes copied to the ring so far. -/
  placed : List UInt8
  /-- The bytes xenstored has read from the ring so far. -/
  consumed : List UInt8

/-- `memcpy_to_ring`; `none` is a failed assertion. -/
def memcpyToRing (ring : Nat → UInt8) (src : List UInt8) (idx : Nat) : Option (Nat → UInt8) :=
  if idx < xenstoreRingSize ∧ src.length ≤ xenstoreRingSize then
    some (circBlit ring xenstoreRingSize idx src)
  else none

/-- What the copy loop of `advance_tx_req` computes. -/
structure Copied where
  seg : List SgSegment
  off : Nat
  prod : Nat
  ring : Nat → UInt8
  bytes : List UInt8

/-- The `while` loop of `advance_tx_req`. A pass that leaves its segment unfinished has filled the
ring (`thisPass_fills`), so that the loop ends there. -/
def copyLoop (cons : Nat) : List SgSegment → Nat → Nat → (Nat → UInt8) → Option Copied
  | [], off, prod, ring => some ⟨[], off, prod, ring, []⟩
  | seg :: rest, off, prod, ring =>
    if prod = u32 (cons + xenstoreRingSize) then some ⟨seg :: rest, off, prod, ring, []⟩
    else
      let thisPass := min (u32 (seg.length - off)) (sub32 (cons + xenstoreRingSize) prod)
      let src := (seg.drop off).take thisPass
      match memcpyToRing ring src (prod % xenstoreRingSize) with
      | none => none
      | some ring =>
        let prod := u32 (prod + thisPass)
        let off := u32 (off + thisPass)
        if off = u32 seg.length then
          (copyLoop cons rest 0 prod ring).map fun c => { c with bytes := src ++ c.bytes }
        else some ⟨seg :: rest, off, prod, ring, src⟩

/-- `advance_tx_req` after its read of `req_cons`: the request, the copied part and whether there
was progress. -/
def advanceTxReq (req : PendingReq) (prod cons : Nat) (ring : Nat → UInt8) :
    Option (PendingReq × Copied × Bool) :=
  (copyLoop cons req.nextTxSeg req.txSgOff prod ring).map fun c =>
    ({ req with nextTxSeg := c.seg, txSgOff := c.off }, c, c.prod != prod)

/-- `req->next`, for the request at address `a`. -/
def nextOf (a : Nat) : List PendingReq → Option Nat
  | [] => none
  | q :: qs => if q.addr = a then qs.head?.map (·.addr) else nextOf a qs

/-- The bytes a request still has to transmit. -/
def PendingReq.rem (q : PendingReq) : List UInt8 := q.nextTxSeg.flatten.drop q.txSgOff

inductive Act where
  /-- `submit_request` of a fresh request: a 16-byte header and the payload segments. -/
  | submit (addr : Nat) (hdr : SgSegment) (segs : List SgSegment)
  /-- The next step of `xenbus_dpc_func`: take the lock, read `req_cons`, or copy and test. -/
  | dpc
  /-- xenstored reads `n` bytes from the ring. -/
  | consume (n : Nat)
  /-- xenstored's answer to a request it has read completely. -/
  | reply (addr : Nat)
  /-- `get_request_results` unhooks an answered request. -/
  | complete (addr : Nat)

def submitRequest (s : State) (addr : Nat) (io : List SgSegment) : State :=
  { s with
    pending := s.pending ++ [⟨addr, io, io, 0, false, (s.submitted ++ [io]).flatten.flatten.length⟩]
    currentTxReq := if s.currentTxReq.isNone then some addr else s.currentTxReq
    submitted := s.submitted ++ [io] }

/-- The body of the transmit loop once `req_cons` is read. -/
def dpcCopy (s : State) (req : PendingReq) (cons : Nat) : State :=
  match advanceTxReq req s.reqProd cons s.ring with
  | none => { s with assertFailed := true }
  | some (req, c, progress) =>
    let s := { s with pending := putKey (·.addr) req s.pending, ring := c.ring, reqProd := c.prod,
                      placed := s.placed ++ c.bytes }
    if progress then
      { s with
        currentTxReq := if req.nextTxSeg = [] then nextOf req.addr s.pending else s.currentTxReq
        dpc := .loop }
    else { s with dpc := .idle }

def dpcStep (s : State) : Option State :=
  match s.dpc, s.currentTxReq with
  | .idle, _ => some { s with dpc := .loop }
  | .loop, none => some { s with dpc := .idle }
  | .loop, some _ => some { s with dpc := .copy s.reqCons }
  | .copy cons, some a =>
    match s.pending.find? (·.addr = a) with
    | some req => some (dpcCopy s req cons)
    | none => none
  | .copy _, none => none

def step (s : State) : Act → Option State
  | .submit addr hdr segs =>
    if s.dpc = .idle ∧ addr ∉ s.pending.map (·.addr) ∧ hdr.length = 16 then
      some (submitRequest s addr (hdr :: segs))
    else none
  | .dpc => dpcStep s
  | .consume n =>
    if n ≤ sub32 s.reqProd s.reqCons then
      some { s with consumed := s.consumed ++ window s.ring xenstoreRingSize s.reqCons n
                    reqCons := u32 (s.reqCons + n) }
    else none
  | .reply addr =>
    match s.pending.find? (·.addr = addr) with
    | some req =>
      if s.dpc = .idle ∧ req.endPos ≤ s.consumed.length then
        some { s with pending := putKey (·.addr) { req with xenbusReplied := true } s.pending }
      else none
    | none => none
  | .complete addr =>
    match s.pending.find? (·.addr = addr) with
    | some req =>
      if s.dpc = .idle ∧ req.xenbusReplied then
        some { s with pending := s.pending.filter (·.addr ≠ addr)
                      assertFailed := s.assertFailed || s.currentTxReq == some addr }
      else none
    | none => none

/-- An empty ring whose indices start at `start`. -/
def init (start : Nat) : State :=
  ⟨[], none, u32 start, u32 start, fun _ => 0, .idle, false, [], [], []⟩

def machine (start : Nat) : Machine State Act := ⟨init start, step⟩

/-! ## The copy loop -/

/-- `tx_sg_off` lies inside `next_tx_seg`. -/
def OffOk : List SgSegment → Nat → Prop
  | [], off => off = 0
  | seg :: _, off => off = 0 ∨ off < seg.length

theorem OffOk.drop {segs : List SgSegment} {off : Nat} {seg : SgSegment}
    (h : OffOk (seg :: segs) off) :
    (seg :: segs).flatten.drop off = seg.drop off ++ segs.flatten := by
  have : off ≤ seg.length := by rcases h with h | h <;> omega
  rw [List.flatten_cons, List.drop_append_of_le_length this]

theorem getLast?_of_flatten_nil {segs : List SgSegment} (hne : segs ≠ [])
    (h : segs.flatten = []) : segs.getLast? = some [] := by
  rw [List.getLast?_eq_some_getLast hne]
  congr 1
  exact List.flatten_eq_nil_iff.mp h _ (List.getLast_mem hne)

section Copy
variable {C P : Nat}

theorem ring_full_iff (h1 : C ≤ P) (h2 : P ≤ C + xenstoreRingSize) :
    u32 P = u32 (u32 C + xenstoreRingSize) ↔ P = C + xenstoreRingSize := by
  simp only [u32, xenstoreRingSize] at *; omega

theorem ring_space (h1 : C ≤ P) (h2 : P ≤ C + xenstoreRingSize) :
    sub32 (u32 C + xenstoreRingSize) (u32 P) = C + xenstoreRingSize - P := by
  simp only [u32, sub32, xenstoreRingSize] at *; omega

theorem thisPass_fills (h1 : C ≤ P) (h2 : P ≤ C + xenstoreRingSize) {len off : Nat}
    (hlen : len < 4294967296) (hoff : off ≤ len)
    (hne : u32 (off + min (u32 (len - off)) (C + xenstoreRingSize - P)) ≠ u32 len) :
    min (u32 (len - off)) (C + xenstoreRingSize - P) = C + xenstoreRingSize - P ∧
      C + xenstoreRingSize - P < len - off := by
  simp only [u32, xenstoreRingSize] at *; omega

/-- What the copy loop does from stream position `P`, when it saw the consumer at `C`. -/
structure CopySpec (C P : Nat) (segs : List SgSegment) (off : Nat) (ring : Nat → UInt8)
    (c : Copied) : Prop where
  prod : c.prod = u32 (P + c.bytes.length)
  bytes : c.bytes = (segs.flatten.drop off).take (C + xenstoreRingSize - P)
  rest : c.seg.flatten.drop c.off = (segs.flatten.drop off).drop (C + xenstoreRingSize - P)
  offOk : OffOk c.seg c.off
  sub : ∀ g ∈ c.seg, g ∈ segs
  last : c.seg ≠ [] → c.seg.getLast? = segs.getLast?
  written : window c.ring xenstoreRingSize P c.bytes.length = c.bytes
  kept : ∀ q k, q + k ≤ P → P + c.bytes.length ≤ q + xenstoreRingSize →
    window c.ring xenstoreRingSize q k = window ring xenstoreRingSize q k
  done : (segs.flatten.drop off).length < C + xenstoreRingSize - P → c.seg = []
  filled : (segs.flatten.drop off).length = C + xenstoreRingSize - P →
    segs.getLast? ≠ some [] → c.seg = []

theorem copyLoop_full {segs : List SgSegment} {off : Nat} {ring : Nat → UInt8}
    (hne : segs ≠ []) (hoff : OffOk segs off) :
    CopySpec C (C + xenstoreRingSize) segs off ring
      ⟨segs, off, u32 (C + xenstoreRingSize), ring, []⟩ where
  prod := by simp
  bytes := by simp
  rest := by simp
  offOk := hoff
  sub _ h := h
  last _ := rfl
  written := rfl
  kept _ _ _ _ := rfl
  done h := by simp at h
  filled h hl := by
    obtain ⟨seg, rest, rfl⟩ := List.exists_cons_of_ne_nil hne
    refine absurd (getLast?_of_flatten_nil hne ?_) hl
    rw [Nat.sub_self, List.length_eq_zero_iff] at h
    -- nothing is left to send, so the offset is zero and every segment is empty
    rcases hoff with rfl | hlt
    · simpa using h
    · rw [OffOk.drop (.inr hlt)] at h
      have := congrArg List.length h
      simp at this; omega

theorem CopySpec.cons {seg : SgSegment} {segs : List SgSegment} {off t : Nat}
    {ring : Nat → UInt8} {c : Copied} (hoff : off + t = seg.length)
    (ht : t ≤ C + xenstoreRingSize - P) (h1 : C ≤ P) (ho : OffOk (seg :: segs) off)
    (h : CopySpec C (P + t) segs 0
      (circBlit ring xenstoreRingSize (P % xenstoreRingSize) (seg.drop off)) c) :
    CopySpec C P (seg :: segs) off ring { c with bytes := seg.drop off ++ c.bytes } := by
  have hd : (seg.drop off).length = t := by simp; omega
  have hsp : C + xenstoreRingSize - (P + t) = C + xenstoreRingSize - P - t := by omega
  have hbytes : c.bytes = segs.flatten.take (C + xenstoreRingSize - P - t) := by
    rw [h.bytes, hsp]; rfl
  have hb : c.bytes.length ≤ C + xenstoreRingSize - P - t := by
    rw [hbytes]; exact List.length_take_le _ _
  have hpos : 0 < xenstoreRingSize := by decide
  constructor
  case prod => rw [h.prod, List.length_append, hd, Nat.add_assoc]
  case bytes =>
    rw [ho.drop, List.take_append, List.take_of_length_le (by omega), hd, ← hbytes]
  case rest =>
    have hle : (seg.drop off).length ≤ C + xenstoreRingSize - P := by omega
    rw [h.rest, ho.drop, List.drop_append, List.drop_of_length_le hle, hd, hsp]; rfl
  case offOk => exact h.offOk
  case sub => exact fun g hg => List.mem_cons_of_mem _ (h.sub g hg)
  case last =>
    intro hne
    rw [h.last hne]
    cases segs with
    | nil =>
      obtain ⟨g, hg⟩ := List.exists_mem_of_ne_nil _ hne
      exact absurd (h.sub g hg) List.not_mem_nil
    | cons g gs => rfl
  case written =>
    rw [List.length_append, hd, window_add, h.written,
      h.kept P t (by omega) (by omega)]
    congr 1
    rw [← hd, window_circBlit_self _ _ hpos (by omega)]
  case kept =>
    intro q k hq hk
    rw [List.length_append, hd] at hk
    rw [h.kept q k (by omega) (by omega), window_circBlit_other _ hpos hq (by omega)]
  case done =>
    intro hlt
    rw [ho.drop, List.length_append, hd] at hlt
    apply h.done
    rw [List.drop_zero]; omega
  case filled =>
    intro he hl
    rw [ho.drop, List.length_append, hd] at he
    apply h.filled (by rw [List.drop_zero]; omega)
    cases segs with
    | nil => simp
    | cons g gs => exact hl

theorem copyLoop_spec (segs : List SgSegment) : ∀ (off : Nat) {P : Nat} (ring : Nat → UInt8), C ≤ P →
    P ≤ C + xenstoreRingSize → (∀ g ∈ segs, g.length < 4294967296) → OffOk segs off →
    ∃ c, copyLoop (u32 C) segs off (u32 P) ring = some c ∧ CopySpec C P segs off ring c := by
  induction segs with
  | nil =>
    intro off P ring _ _ _ hoff
    have hoff : off = 0 := hoff
    subst hoff
    exact ⟨_, rfl, by constructor <;> simp [OffOk]⟩
  | cons seg segs ih =>
    intro off P ring h1 h2 hlen hoff
    have hs := hlen seg List.mem_cons_self
    have hle : off ≤ seg.length := by rcases hoff with h | h <;> omega
    by_cases hfull : P = C + xenstoreRingSize
    · subst hfull
      refine ⟨_, ?_, copyLoop_full (List.cons_ne_nil _ _) hoff⟩
      rw [copyLoop, if_pos ((ring_full_iff h1 h2).mpr rfl)]
    rw [copyLoop, if_neg (mt (ring_full_iff h1 h2).mp hfull), ring_space h1 h2,
      show u32 P % xenstoreRingSize = P % xenstoreRingSize from u32_mod (by decide) P]
    have hu : u32 (seg.length - off) = seg.length - off := Nat.mod_eq_of_lt (by omega)
    have hmod : P % xenstoreRingSize < xenstoreRingSize := Nat.mod_lt _ (by decide)
    simp only
    generalize ht : min (u32 (seg.length - off)) (C + xenstoreRingSize - P) = t
    have hsrc : ((seg.drop off).take t).length = t := by simp; omega
    rw [memcpyToRing, if_pos ⟨hmod, by rw [hsrc]; omega⟩]
    simp only
    have hp : u32 (u32 P + t) = u32 (P + t) := by simp only [u32]; omega
    rw [hp]
    split
    · next he =>
      -- the segment is finished: the copy took all of its remaining bytes
      have hoff' : off + t = seg.length := by simp only [u32] at he hu ht; omega
      have htake : (seg.drop off).take t = seg.drop off :=
        List.take_of_length_le (by simp; omega)
      rw [htake]
      obtain ⟨c, hc, hspec⟩ := ih 0
        (circBlit ring xenstoreRingSize (P % xenstoreRingSize) (seg.drop off))
        (show C ≤ P + t by omega) (by omega)
        (fun g hg => hlen g (List.mem_cons_of_mem _ hg)) (by cases segs <;> simp [OffOk])
      exact ⟨_, by rw [hc]; rfl, hspec.cons hoff' (by omega) h1 hoff⟩
    · next hne =>
      obtain ⟨hsp, hlt⟩ := thisPass_fills h1 h2 hs hle (by rw [ht]; exact hne)
      rw [ht] at hsp
      have hin : off + t < seg.length := by omega
      have hoff' : u32 (off + t) = off + t := Nat.mod_eq_of_lt (by omega)
      rw [hoff']
      refine ⟨_, rfl, ?_⟩
      constructor
      case prod => rw [hsrc]
      case bytes =>
        rw [hoff.drop, List.take_append_of_le_length (by simp; omega), hsp]
      case rest =>
        rw [OffOk.drop (.inr hin), hoff.drop, List.drop_append_of_le_length (by simp; omega),
          List.drop_drop, hsp]
      case offOk => exact .inr hin
      case sub => exact fun g hg => hg
      case last => exact fun _ => rfl
      case written =>
        rw [window_circBlit_self _ _ (by decide) (by omega)]
      case kept =>
        intro q k hq hk
        rw [hsrc] at hk
        exact window_circBlit_other _ (by decide) hq (by omega)
      case done =>
        intro h; rw [hoff.drop, List.length_append] at h; simp at h; omega
      case filled =>
        intro h; rw [hoff.drop, List.length_append] at h; simp at h; omega

end Copy

/-! ## The pending list -/

section Pending
variable {r : PendingReq} {as bs : List PendingReq}

theorem nextOf_split (h : ((as ++ r :: bs).map (·.addr)).Nodup) :
    nextOf r.addr (as ++ r :: bs) = bs.head?.map (·.addr) := by
  induction as with
  | nil => simp [nextOf]
  | cons q as ih =>
    simp only [List.cons_append, List.map_cons, List.nodup_cons] at h
    have hne : q.addr ≠ r.addr := fun e => h.1 (by simp [e])
    simp [nextOf, hne, ih h.2]

end Pending

/-- Of a list of requests starting at stream position `n`, those not fully sent end where they
say. -/
def EndsFrom : Nat → List PendingReq → Prop
  | _, [] => True
  | n, q :: l => (q.rem ≠ [] → q.endPos = n + q.rem.length) ∧ EndsFrom (n + q.rem.length) l

theorem endsFrom_append {n : Nat} {l l' : List PendingReq} :
    EndsFrom n (l ++ l') ↔ EndsFrom n l ∧ EndsFrom (n + (l.flatMap (·.rem)).length) l' := by
  induction l generalizing n with
  | nil => simp [EndsFrom]
  | cons q l ih =>
    rw [List.cons_append, EndsFrom, EndsFrom, ih, List.flatMap_cons, List.length_append,
      and_assoc, Nat.add_assoc]

theorem endsFrom_done {n : Nat} {l : List PendingReq} (h : ∀ q ∈ l, q.rem = []) :
    EndsFrom n l ∧ l.flatMap (·.rem) = [] := by
  induction l generalizing n with
  | nil => simp [EndsFrom]
  | cons q l ih =>
    have hq := h q List.mem_cons_self
    have := ih (n := n) fun q hq => h q (List.mem_cons_of_mem _ hq)
    simp [EndsFrom, hq, this]

/-! ## The invariant -/

/-- The ring between two stream positions, for a ring whose indices started at `start`. -/
structure RingOk (start : Nat) (s : State) : Prop where
  prod : s.reqProd = u32 (start + s.placed.length)
  cons : s.reqCons = u32 (start + s.consumed.length)
  le : s.consumed.length ≤ s.placed.length
  cap : s.placed.length ≤ s.consumed.length + xenstoreRingSize
  read : s.consumed = s.placed.take s.consumed.length
  mem : window s.ring xenstoreRingSize (start + s.consumed.length)
    (s.placed.length - s.consumed.length) = s.placed.drop s.consumed.length

/-- The requests before `current_tx_req` are sent, the others have bytes left. -/
structure Queued (s : State) (done todo : List PendingReq) : Prop where
  pending : s.pending = done ++ todo
  sent : ∀ q ∈ done, q.rem = []
  unsent : ∀ q ∈ todo, q.rem ≠ [] ∧ q.xenbusReplied = false
  current : s.currentTxReq = todo.head?.map (·.addr)

structure Transmitting (start : Nat) (s : State) : Prop where
  nodup : (s.pending.map (·.addr)).Nodup
  segs : ∀ q ∈ s.pending, OffOk q.nextTxSeg q.txSgOff ∧ ∀ g ∈ q.nextTxSeg, g.length < 4294967296
  queued : ∃ done todo, Queued s done todo
  stream : s.placed ++ s.pending.flatMap (·.rem) = s.submitted.flatten.flatten
  ends : EndsFrom s.placed.length s.pending
  ring : RingOk start s
  -- `req_cons` may have moved since the DPC read it
  seen : ∀ c, s.dpc = .copy c → s.currentTxReq ≠ none ∧
    ∃ C, c = u32 (start + C) ∧ C ≤ s.consumed.length ∧ s.placed.length ≤ C + xenstoreRingSize
  noAssert : s.assertFailed = false

/-- The copy that goes wrong: the ring fills with the last byte of a request that ends in an empty
segment. -/
def FillsBeforeEmpty (s : State) (cons : Nat) (q : PendingReq) : Prop :=
  q.rem.length = sub32 (cons + xenstoreRingSize) s.reqProd ∧ q.nextTxSeg.getLast? = some []

/-- The copy the DPC does next: the `req_cons` it has read and the request. -/
def nextCopy (s : State) : Option (Nat × PendingReq) :=
  match s.dpc, s.currentTxReq with
  | .copy cons, some a => (s.pending.find? (·.addr = a)).map (cons, ·)
  | _, _ => none

/-- No segment is too long for `unsigned`, and no copy goes wrong. -/
def TxOk (s : State) : Act → Prop
  | .submit _ _ segs => ∀ g ∈ segs, g.length < 4294967296
  | .dpc => ∀ c ∈ nextCopy s, ¬ FillsBeforeEmpty s c.1 c.2
  | _ => True

instance (s : State) (cons : Nat) (q : PendingReq) : Decidable (FillsBeforeEmpty s cons q) :=
  inferInstanceAs (Decidable (_ ∧ _))

instance (s : State) : ∀ a, Decidable (TxOk s a)
  | .submit _ _ segs => inferInstanceAs (Decidable (∀ g ∈ segs, g.length < 4294967296))
  | .dpc => inferInstanceAs (Decidable (∀ c ∈ nextCopy s, ¬ FillsBeforeEmpty s c.1 c.2))
  | .consume _ | .reply _ | .complete _ => isTrue trivial

section Invariant
variable {start : Nat} {s s' : State}

theorem transmitting_init : Transmitting start (init start) where
  nodup := List.nodup_nil
  segs := by simp [init]
  queued := ⟨[], [], rfl, by simp, by simp, rfl⟩
  stream := rfl
  ends := trivial
  ring := ⟨rfl, rfl, Nat.le_refl _, by simp [init], rfl, rfl⟩
  seen := by simp [init]
  noAssert := rfl

theorem Transmitting.current_eq (h : Transmitting start s) :
    s.currentTxReq = (s.pending.find? (·.rem ≠ [])).map (·.addr) := by
  obtain ⟨done, todo, hq⟩ := h.queued
  have hd : done.find? (·.rem ≠ []) = none := by
    rw [List.find?_eq_none]
    intro q hm; simp [hq.sent q hm]
  rw [hq.current, hq.pending, List.find?_append, hd, Option.none_or]
  cases todo with
  | nil => rfl
  | cons r bs => rw [List.find?_cons_of_pos (by simpa using (hq.unsent r List.mem_cons_self).1)]; rfl

theorem RingOk.copied {segs : List SgSegment} {off C : Nat} {c : Copied} (h : RingOk start s)
    (h1 : C ≤ s.consumed.length) (h2 : s.placed.length ≤ C + xenstoreRingSize)
    (spec : CopySpec (start + C) (start + s.placed.length) segs off s.ring c)
    (hp : s'.reqProd = c.prod) (hr : s'.ring = c.ring) (hpl : s'.placed = s.placed ++ c.bytes)
    (hc : s'.reqCons = s.reqCons) (hco : s'.consumed = s.consumed) : RingOk start s' := by
  have hlen : c.bytes.length ≤ C + xenstoreRingSize - s.placed.length := by
    rw [spec.bytes, List.length_take]; omega
  have hle := h.le
  constructor
  case prod => rw [hp, spec.prod, hpl, List.length_append, Nat.add_assoc]
  case cons => rw [hc, h.cons, hco]
  case le => rw [hco, hpl, List.length_append]; omega
  case cap => rw [hco, hpl, List.length_append]; omega
  case read => rw [hco, hpl, List.take_append_of_le_length h.le]; exact h.read
  case mem =>
    have e : s.placed.length + c.bytes.length - s.consumed.length =
      (s.placed.length - s.consumed.length) + c.bytes.length := by omega
    have e' : start + s.consumed.length + (s.placed.length - s.consumed.length) =
      start + s.placed.length := by omega
    rw [hco, hr, hpl, List.length_append, e, window_add, e', spec.written,
      spec.kept _ _ (by omega) (by omega), h.mem, List.drop_append_of_le_length h.le]

theorem CopySpec.finished {C P : Nat} {segs : List SgSegment} {off : Nat} {ring : Nat → UInt8}
    {c : Copied} (spec : CopySpec C P segs off ring c)
    (hok : ¬ ((segs.flatten.drop off).length = C + xenstoreRingSize - P ∧ segs.getLast? = some [])) :
    c.seg = [] ↔ c.seg.flatten.drop c.off = [] := by
  constructor
  · intro h; rw [h]; simp
  · intro h
    rw [spec.rest, List.drop_eq_nil_iff] at h
    rcases Nat.lt_or_eq_of_le h with h | h
    · exact spec.done h
    · exact spec.filled h fun hl => hok ⟨h, hl⟩

theorem Transmitting.copy (h : Transmitting start s) {cons a : Nat} {q : PendingReq}
    (hdpc : s.dpc = .copy cons) (hcur : s.currentTxReq = some a)
    (hfind : s.pending.find? (·.addr = a) = some q) (hok : ¬ FillsBeforeEmpty s cons q) :
    Transmitting start (dpcCopy s q cons) := by
  obtain ⟨done, todo, hq⟩ := h.queued
  obtain ⟨-, C, rfl, hC1, hC2⟩ := h.seen cons hdpc
  -- the request being copied is the head of the unsent ones
  have hnd := h.nodup
  obtain ⟨bs, rfl, rfl⟩ : ∃ bs, todo = q :: bs ∧ a = q.addr := by
    have hcur' := hcur.symm.trans hq.current
    cases todo with
    | nil => simp at hcur'
    | cons r bs =>
      obtain rfl : a = r.addr := by simpa using hcur'
      rw [hq.pending] at hnd hfind
      rw [find?_key hnd] at hfind
      cases hfind
      exact ⟨bs, rfl, rfl⟩
  rw [hq.pending] at hnd
  have hmem : q ∈ s.pending := by rw [hq.pending]; simp
  obtain ⟨c, hc, spec⟩ := copyLoop_spec (C := start + C) (P := start + s.placed.length)
    q.nextTxSeg _ s.ring (by have := h.ring.le; omega) (by omega) (h.segs q hmem).2 (h.segs q hmem).1
  rw [← h.ring.prod] at hc
  rw [FillsBeforeEmpty, h.ring.prod, ring_space (by have := h.ring.le; omega) (by omega)] at hok
  have hfin := spec.finished hok
  -- the bytes of the request: those copied and those left
  have hrem : c.bytes ++ c.seg.flatten.drop c.off = q.rem := by
    rw [spec.bytes, spec.rest, List.take_append_drop]; rfl
  let r : PendingReq := { q with nextTxSeg := c.seg, txSgOff := c.off }
  have hlive := hq.unsent q (by simp)
  have hidle : c.prod = s.reqProd → c.seg ≠ [] := by
    intro he hnil
    have hlen : c.bytes.length ≤ xenstoreRingSize := by
      rw [spec.bytes, List.length_take]; have := h.ring.le; omega
    rw [spec.prod, h.ring.prod] at he
    have h0 : c.bytes = [] := by
      rw [← List.length_eq_zero_iff]; simp only [u32, xenstoreRingSize] at *; omega
    rw [h0, hfin.mp hnil] at hrem
    exact hlive.1 hrem.symm
  have hst : dpcCopy s q (u32 (start + C)) =
      { s with pending := done ++ r :: bs, ring := c.ring, reqProd := c.prod
               placed := s.placed ++ c.bytes
               currentTxReq := if c.seg = [] then bs.head?.map (·.addr) else some q.addr
               dpc := if c.prod = s.reqProd then .idle else .loop } := by
    have hset : putKey (·.addr) r s.pending = done ++ r :: bs := by
      rw [hq.pending]; exact putKey_split hnd rfl
    have hnext : nextOf q.addr (done ++ r :: bs) = bs.head?.map (·.addr) :=
      nextOf_split (r := r) (by simpa using hnd)
    simp only [dpcCopy, advanceTxReq, hc, Option.map_some, bne_iff_ne]
    rw [hset, hnext, hcur]
    by_cases hp : c.prod = s.reqProd
    · simp [hp, hidle hp]
    · simp [hp]
  rw [hst]
  constructor
  case nodup => simpa using hnd
  case segs =>
    intro g hg
    rcases List.mem_append.mp hg with hg | hg
    · exact h.segs g (by rw [hq.pending]; simp [hg])
    · rcases List.mem_cons.mp hg with rfl | hg
      · exact ⟨spec.offOk, fun x hx => (h.segs q hmem).2 x (spec.sub x hx)⟩
      · exact h.segs g (by rw [hq.pending]; simp [hg])
  case queued =>
    by_cases hnil : c.seg = []
    · refine ⟨done ++ [r], bs, by simp, ?_, fun g hg => hq.unsent g (by simp [hg]), by simp [hnil]⟩
      intro g hg
      rcases List.mem_append.mp hg with hg | hg
      · exact hq.sent g hg
      · rw [List.mem_singleton.mp hg]; exact hfin.mp hnil
    · refine ⟨done, r :: bs, rfl, hq.sent, ?_, by simp [hnil, r]⟩
      intro g hg
      rcases List.mem_cons.mp hg with rfl | hg
      · exact ⟨mt hfin.mpr hnil, hlive.2⟩
      · exact hq.unsent g (by simp [hg])
  case stream =>
    have hs := h.stream
    rw [hq.pending, List.flatMap_append, (endsFrom_done (n := 0) hq.sent).2, List.flatMap_cons,
      List.nil_append] at hs
    rw [List.flatMap_append, (endsFrom_done (n := 0) hq.sent).2, List.flatMap_cons,
      List.nil_append, ← hs, ← hrem]
    simp only [PendingReq.rem, List.append_assoc, r]
  case ends =>
    have he := h.ends
    rw [hq.pending, endsFrom_append, (endsFrom_done (n := 0) hq.sent).2] at he
    rw [endsFrom_append, (endsFrom_done (n := 0) hq.sent).2]
    have hl : c.bytes.length + r.rem.length = q.rem.length := by
      rw [← hrem, List.length_append]; rfl
    obtain ⟨-, hend, hbs⟩ := he
    have hend := hend hlive.1
    refine ⟨(endsFrom_done hq.sent).1, fun _ => ?_, ?_⟩
    · simp only [List.length_append, List.length_nil, r] at *; omega
    · convert hbs using 1
      simp only [List.length_append, List.length_nil] at *; omega
  case ring => exact h.ring.copied hC1 hC2 spec rfl rfl rfl rfl rfl
  case seen =>
    intro c' hc'
    simp only at hc'
    split at hc' <;> cases hc'
  case noAssert => exact h.noAssert

theorem Transmitting.dpc {d : Dpc} (h : Transmitting start s)
    (hd : ∀ c, d = .copy c → s.currentTxReq ≠ none ∧ c = s.reqCons) :
    Transmitting start { s with dpc := d } where
  nodup := h.nodup
  segs := h.segs
  queued := by obtain ⟨done, todo, hq⟩ := h.queued; exact ⟨done, todo, hq.1, hq.2, hq.3, hq.4⟩
  stream := h.stream
  ends := h.ends
  ring := ⟨h.ring.1, h.ring.2, h.ring.3, h.ring.4, h.ring.5, h.ring.6⟩
  seen c hc := by
    obtain ⟨hcur, rfl⟩ := hd c hc
    exact ⟨hcur, _, h.ring.cons, Nat.le_refl _, h.ring.cap⟩
  noAssert := h.noAssert

theorem Transmitting.submit (h : Transmitting start s) {addr : Nat} {hdr : SgSegment}
    {segs : List SgSegment} (hidle : s.dpc = .idle) (hnew : addr ∉ s.pending.map (·.addr))
    (hlen : hdr.length = 16) (hok : ∀ g ∈ segs, g.length < 4294967296) :
    Transmitting start (submitRequest s addr (hdr :: segs)) := by
  obtain ⟨done, todo, hq⟩ := h.queued
  have hrem : (hdr :: segs).flatten ≠ [] := by
    intro e; have := congrArg List.length e; simp [hlen] at this
  have hall := congrArg List.length h.stream
  rw [List.length_append] at hall
  unfold submitRequest
  constructor
  case nodup =>
    rw [List.map_append, List.nodup_append]
    refine ⟨h.nodup, by simp, ?_⟩
    rintro a ha b hb rfl
    obtain rfl : a = addr := by simpa using hb
    exact hnew ha
  case segs =>
    intro q hm
    rcases List.mem_append.mp hm with hm | hm
    · exact h.segs q hm
    · rw [List.mem_singleton.mp hm]
      refine ⟨.inl rfl, fun g hg => ?_⟩
      rcases List.mem_cons.mp hg with rfl | hg
      · omega
      · exact hok g hg
  case queued =>
    refine ⟨done, todo ++ [_], by simp only [hq.pending, List.append_assoc]; rfl, hq.sent, ?_, ?_⟩
    · intro q hm
      rcases List.mem_append.mp hm with hm | hm
      · exact hq.unsent q hm
      · rw [List.mem_singleton.mp hm]; exact ⟨hrem, rfl⟩
    · rw [hq.current]; cases todo <;> rfl
  case stream =>
    simp only [List.flatMap_append, List.flatMap_singleton, ← List.append_assoc, h.stream]
    simp [PendingReq.rem]
  case ends =>
    rw [endsFrom_append]
    refine ⟨h.ends, fun _ => ?_, trivial⟩
    simp only [List.flatten_append, List.length_append, PendingReq.rem, List.drop_zero,
      List.flatten_cons, List.flatten_nil, List.append_nil] at *
    omega
  case ring => exact ⟨h.ring.1, h.ring.2, h.ring.3, h.ring.4, h.ring.5, h.ring.6⟩
  case seen => intro c hc; rw [hidle] at hc; cases hc
  case noAssert => exact h.noAssert

theorem Transmitting.consume (h : Transmitting start s) {n : Nat}
    (hn : n ≤ sub32 s.reqProd s.reqCons) :
    Transmitting start
      { s with consumed := s.consumed ++ window s.ring xenstoreRingSize s.reqCons n
               reqCons := u32 (s.reqCons + n) } := by
  obtain ⟨hp, hc, hle, hcap, hread, hmem⟩ := h.ring
  rw [hp, hc, sub32_u32 (by omega) (by simp only [xenstoreRingSize] at hcap; omega)] at hn
  have hn : s.consumed.length + n ≤ s.placed.length := by omega
  -- the bytes read are the next ones placed
  have hw : window s.ring xenstoreRingSize s.reqCons n =
      (s.placed.drop s.consumed.length).take n := by
    rw [← hmem, take_window (by omega), hc]
    exact window_congr_pos (u32_mod (by decide) _)
  constructor
  case nodup => exact h.nodup
  case segs => exact h.segs
  case queued => obtain ⟨done, todo, hq⟩ := h.queued; exact ⟨done, todo, hq.1, hq.2, hq.3, hq.4⟩
  case stream => exact h.stream
  case ends => exact h.ends
  case ring =>
    constructor
    case prod => exact hp
    case cons => simp only [hc, List.length_append, length_window, u32]; omega
    case le => simpa using hn
    case cap => simp only [List.length_append]; omega
    case read =>
      rw [List.length_append, length_window, List.take_add, ← hread, hw]
    case mem =>
      simp only [List.length_append, length_window]
      rw [← List.drop_drop, ← hmem, drop_window (by omega)]
      congr 1 <;> omega
  case seen =>
    intro c hc
    obtain ⟨h1, C, h2, h3, h4⟩ := h.seen c hc
    exact ⟨h1, C, h2, by simp only [List.length_append]; omega, h4⟩
  case noAssert => exact h.noAssert

theorem Transmitting.sent_of_end (h : Transmitting start s) {q : PendingReq} (hm : q ∈ s.pending)
    (he : q.endPos ≤ s.placed.length) : q.rem = [] := by
  obtain ⟨as, bs, hpend⟩ := List.append_of_mem hm
  have hends := h.ends
  rw [hpend, endsFrom_append] at hends
  by_contra hne
  have := hends.2.1 hne
  have := List.length_pos_iff.mpr hne
  omega

theorem Transmitting.reply (h : Transmitting start s) {q : PendingReq} (hidle : s.dpc = .idle)
    (hm : q ∈ s.pending) (he : q.endPos ≤ s.consumed.length) :
    Transmitting start { s with pending := putKey (·.addr) { q with xenbusReplied := true } s.pending } := by
  obtain ⟨done, todo, hq⟩ := h.queued
  have hrem := h.sent_of_end hm (Nat.le_trans he h.ring.le)
  let r : PendingReq := { q with xenbusReplied := true }
  -- the request is among the sent ones
  have hdone : q ∈ done := by
    rw [hq.pending, List.mem_append] at hm
    exact hm.resolve_right fun ht => (hq.unsent q ht).1 hrem
  obtain ⟨as, bs, rfl⟩ := List.append_of_mem hdone
  have hpend : s.pending = as ++ q :: (bs ++ todo) := by rw [hq.pending]; simp
  have hset : putKey (·.addr) r s.pending = as ++ r :: (bs ++ todo) := by
    rw [hpend]; exact putKey_split (hpend ▸ h.nodup) rfl
  show Transmitting start { s with pending := putKey (·.addr) r s.pending }
  rw [hset]
  constructor
  case nodup => simpa [hpend] using h.nodup
  case segs =>
    intro g hg
    rcases List.mem_append.mp hg with hg | hg
    · exact h.segs g (by rw [hpend]; simp [hg])
    · rcases List.mem_cons.mp hg with rfl | hg
      · exact h.segs q hm
      · exact h.segs g (by rw [hpend]; exact List.mem_append_right _ (List.mem_cons_of_mem _ hg))
  case queued =>
    refine ⟨as ++ r :: bs, todo, by simp, fun g hg => ?_, hq.unsent, hq.current⟩
    rcases List.mem_append.mp hg with hg | hg
    · exact hq.sent g (by simp [hg])
    · rcases List.mem_cons.mp hg with rfl | hg
      · exact hrem
      · exact hq.sent g (by simp [hg])
  case stream => rw [← h.stream, hpend]; simp [PendingReq.rem, r]
  case ends =>
    have := h.ends
    rw [hpend, endsFrom_append, EndsFrom] at this
    rw [endsFrom_append, EndsFrom]
    exact this
  case ring => exact ⟨h.ring.1, h.ring.2, h.ring.3, h.ring.4, h.ring.5, h.ring.6⟩
  case seen => intro c hc; rw [hidle] at hc; cases hc
  case noAssert => exact h.noAssert

theorem Transmitting.complete (h : Transmitting start s) {q : PendingReq} (hidle : s.dpc = .idle)
    (hm : q ∈ s.pending) (hr : q.xenbusReplied) :
    Transmitting start
      { s with pending := s.pending.filter (·.addr ≠ q.addr)
               assertFailed := s.assertFailed || s.currentTxReq == some q.addr } := by
  obtain ⟨done, todo, hq⟩ := h.queued
  have hdone : q ∈ done := by
    rw [hq.pending, List.mem_append] at hm
    exact hm.resolve_right fun ht => by simp [(hq.unsent q ht).2] at hr
  have hrem := hq.sent q hdone
  obtain ⟨as, bs, rfl⟩ := List.append_of_mem hdone
  have hpend : s.pending = as ++ q :: (bs ++ todo) := by rw [hq.pending]; simp
  have hnd := hpend ▸ h.nodup
  rw [List.map_append, List.map_cons, List.nodup_append, List.nodup_cons] at hnd
  have hfilter : s.pending.filter (·.addr ≠ q.addr) = as ++ (bs ++ todo) := by
    rw [hpend]; exact filter_key_split (hpend ▸ h.nodup)
  have hcur : s.currentTxReq ≠ some q.addr := by
    rw [hq.current]
    intro e
    obtain ⟨t, ht, e⟩ := Option.map_eq_some_iff.mp e
    have ht := List.mem_map_of_mem (f := (·.addr)) (List.mem_of_head? ht)
    exact hnd.2.1.1 (by rw [← e, List.map_append]; exact List.mem_append_right _ ht)
  constructor
  case nodup => exact h.nodup.sublist (List.Sublist.map _ List.filter_sublist)
  case segs => exact fun g hg => h.segs g (List.mem_of_mem_filter hg)
  case queued =>
    refine ⟨as ++ bs, todo, by simp only [hfilter, List.append_assoc], fun g hg => ?_, hq.unsent,
      hq.current⟩
    rcases List.mem_append.mp hg with hg | hg <;> exact hq.sent g (by simp [hg])
  case stream =>
    have := h.stream
    simp only [hfilter]
    simp only [hpend, List.flatMap_append, List.flatMap_cons, hrem, List.nil_append] at this ⊢
    exact this
  case ends =>
    have := h.ends
    simp only [hfilter]
    rw [hpend, endsFrom_append, EndsFrom, hrem] at this
    rw [endsFrom_append]
    exact ⟨this.1, this.2.2⟩
  case ring => exact ⟨h.ring.1, h.ring.2, h.ring.3, h.ring.4, h.ring.5, h.ring.6⟩
  case seen => intro c hc; rw [hidle] at hc; cases hc
  case noAssert => simp [h.noAssert, hcur]

theorem Transmitting.dpcStep (h : Transmitting start s) (hok : TxOk s .dpc)
    (hs : dpcStep s = some s') : Transmitting start s' := by
  unfold Xenbus.dpcStep at hs
  split at hs
  · cases hs; exact h.dpc (by simp)
  · cases hs; exact h.dpc (by simp)
  · next hcur =>
    cases hs
    exact h.dpc fun c hc => ⟨by simp [hcur], by injection hc with hc; exact hc.symm⟩
  · next cons a hd hcur =>
    split at hs
    · next q hfind =>
      cases hs
      exact h.copy hd hcur hfind (hok (cons, q) (by simp [nextCopy, hd, hcur, hfind]))
    · cases hs
  · cases hs

theorem Transmitting.step {a : Act} (h : Transmitting start s) (hok : TxOk s a)
    (hs : step s a = some s') : Transmitting start s' := by
  cases a with
  | submit addr hdr segs =>
    simp only [Xenbus.step] at hs
    split at hs
    · next hc => cases hs; exact h.submit hc.1 hc.2.1 hc.2.2 hok
    · cases hs
  | dpc => exact h.dpcStep hok hs
  | consume n =>
    simp only [Xenbus.step] at hs
    split at hs
    · next hn => cases hs; exact h.consume hn
    · cases hs
  | reply addr =>
    simp only [Xenbus.step] at hs
    split at hs
    · next q hfind =>
      split at hs
      · next hc => cases hs; exact h.reply hc.1 (List.mem_of_find?_eq_some hfind) hc.2
      · cases hs
    · cases hs
  | complete addr =>
    simp only [Xenbus.step] at hs
    split at hs
    · next q hfind =>
      split at hs
      · next hc =>
        obtain rfl : q.addr = addr := by simpa using List.find?_some hfind
        cases hs; exact h.complete hc.1 (List.mem_of_find?_eq_some hfind) hc.2
      · cases hs
    · cases hs

theorem transmitting_of_reach (h : (machine start).Reach TxOk s) : Transmitting start s :=
  h.inv transmitting_init fun _ _ _ hi hok hs => hi.step hok hs

/-- What reaches xenstored: the bytes placed on the ring, followed by the bytes the pending requests
still have to send, are the submitted headers and segments in order; `current_tx_req` is the first
request with bytes left; no assertion fails. -/
theorem request_stream (h : (machine start).Reach TxOk s) :
    s.placed ++ s.pending.flatMap (·.rem) = s.submitted.flatten.flatten ∧
    s.consumed <+: s.placed ∧
    s.currentTxReq = (s.pending.find? (·.rem ≠ [])).map (·.addr) ∧
    s.assertFailed = false := by
  have h := transmitting_of_reach h
  refine ⟨h.stream, ?_, h.current_eq, h.noAssert⟩
  rw [h.ring.read]
  exact List.take_prefix _ _

end Invariant

/-- The header and 1008 bytes of payload fill the ring, and an empty segment follows. -/
def fillThenEmpty : List Act :=
  [.submit 1 (.replicate 16 0) [.replicate 1008 7, []], .dpc, .dpc, .dpc, .dpc, .dpc]

/-- The DPC is idle, all bytes are on the ring, and `current_tx_req` is still the sent request; once
that is answered, its completion trips over the assertion. -/
theorem request_stream_stuck :
    (∃ s, (machine 0).Reach Machine.Any s ∧ s.dpc = .idle ∧
      s.currentTxReq = some 1 ∧ s.pending.find? (·.rem ≠ []) = none) ∧
    ∃ s, (machine 0).Reach Machine.Any s ∧ s.assertFailed = true := by
  constructor
  · obtain ⟨s, hr, hp⟩ := Machine.exists_reach (machine 0) Machine.Any
      (fun s => s.dpc = .idle ∧ s.currentTxReq = some 1 ∧
        (s.pending.find? (·.rem ≠ [])).isNone) fillThenEmpty (by decide +kernel)
    simp only [decide_eq_true_eq, Option.isNone_iff_eq_none] at hp
    exact ⟨s, hr, hp⟩
  · exact Machine.exists_reach _ _ _
      (List.flatten [fillThenEmpty, [.consume 1024, .reply 1, .complete 1]])
      (by decide +kernel)

/-- Two requests, the first with an empty last segment, through a ring that fills once. -/
theorem request_stream_run : ∃ s, (machine 4294967290).Reach TxOk s ∧
    (s.placed.length = 1060 ∧ s.pending.length = 1) ∧
    s.placed ++ s.pending.flatMap (·.rem) = s.submitted.flatten.flatten ∧
    s.consumed <+: s.placed ∧
    s.currentTxReq = (s.pending.find? (·.rem ≠ [])).map (·.addr) ∧
    s.assertFailed = false := by
  obtain ⟨s, hr, hp⟩ := Machine.exists_reach (machine 4294967290) TxOk
    (fun s => s.placed.length = 1060 ∧ s.pending.length = 1)
    [.submit 1 (.replicate 16 0) [.replicate 12 7, []],
      .submit 2 (.replicate 16 0) [.replicate 1100 7], .dpc, .dpc, .dpc, .dpc, .dpc, .dpc, .dpc,
      .consume 36, .reply 1, .complete 1, .dpc, .dpc, .dpc] (by decide +kernel)
  exact ⟨s, hr, by simpa using hp, request_stream hr⟩

end XcWindows.Xenbus
