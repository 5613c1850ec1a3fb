import Mathlib.Algebra.GroupWithZero.Nat
import XcWindows.V2v.Ring

/-!
# Messages through a ring

`Rec` is what the producer lays down behind its private index: a message, or the padding that
takes it to the end of the ring. `Fifo` reads a ring as three runs of these: the messages the
consumer is done with, the records it was shown and the records still private to the producer,
with the 32-bit indices as residues of unbounded counters. Every step keeps this reading as long
as the producer's sizes survive its `unsigned short`s and it stores to unpublished payloads only,
so that what the consumer is given is what was sent, in order.
-/

namespace XcWindows.V2v

open Lib XcWindows.V2v.Ring

/-! ## Records -/

inductive Rec where
  | pad (n : Nat)
  | msg (q : Prepared)

namespace Rec

/-- The ring space a record takes. -/
def span : Rec → Nat
  | .pad n => n
  | .msg q => roundup8 (q.msg.payload.length + hdrSize)

/-- The bytes a record stores. -/
def bytes : Rec → List UInt8
  | .pad n => hdr msgPad 0 n
  | .msg q => hdr q.msg.type q.msg.flags (q.msg.payload.length + hdrSize) ++ q.msg.payload

/-- The record can stand at position `p` of a ring of `R` bytes. -/
def Fits (R p : Nat) : Rec → Prop
  | .pad n => p % R + n = R ∧ 8 ∣ n ∧ n < 65536
  | .msg q => p % R + roundup8 (q.msg.payload.length + hdrSize) ≤ R ∧ q.msg.type ≠ msgPad ∧
      q.msg.payload.length + hdrSize ≤ 65528 ∧ q.addr = p % R + hdrSize

/-- The record stands at position `p`. -/
structure At (mem : Nat → UInt8) (R p : Nat) (x : Rec) : Prop where
  fits : x.Fits R p
  bytes : window mem R p x.bytes.length = x.bytes

end Rec

def spans (xs : List Rec) : Nat := (xs.map Rec.span).sum

/-- The messages among the records. -/
def msgs (xs : List Rec) : List Prepared :=
  xs.filterMap fun | .pad _ => none | .msg q => some q

/-- The records stand one behind the other from position `p` on. -/
def Laid (mem : Nat → UInt8) (R : Nat) : Nat → List Rec → Prop
  | _, [] => True
  | p, x :: xs => x.At mem R p ∧ Laid mem R (p + x.span) xs

/-- The sizes `v2v_listen` and `v2v_connect` admit. -/
def RingSize (R : Nat) : Prop := ∃ order ≤ 4, R = ringBytes order

theorem RingSize.cases {R : Nat} (h : RingSize R) :
    R = 4096 ∨ R = 8192 ∨ R = 16384 ∨ R = 32768 ∨ R = 65536 := by
  obtain ⟨order, ho, rfl⟩ := h
  have : order = 0 ∨ order = 1 ∨ order = 2 ∨ order = 3 ∨ order = 4 := by omega
  rcases this with rfl | rfl | rfl | rfl | rfl <;> decide

theorem RingSize.bounds {R : Nat} (h : RingSize R) : 4096 ≤ R ∧ R ≤ 65536 ∧ 8 ∣ R := by
  rcases h.cases with rfl | rfl | rfl | rfl | rfl <;> decide

theorem RingSize.dvd {R : Nat} (h : RingSize R) : R ∣ 4294967296 := by
  rcases h.cases with rfl | rfl | rfl | rfl | rfl <;> decide

theorem le_roundup8 (n : Nat) : n ≤ roundup8 n := by unfold roundup8; omega

theorem dvd_roundup8 (n : Nat) : 8 ∣ roundup8 n := ⟨(n + 7) / 8, Nat.mul_comm _ _⟩

section Layout

variable {mem mem' : Nat → UInt8} {R p n : Nat} {x : Rec} {xs ys : List Rec} {q : Prepared}

@[simp] theorem spans_nil : spans [] = 0 := rfl

@[simp] theorem spans_cons : spans (x :: xs) = x.span + spans xs := by simp [spans]

@[simp] theorem spans_append : spans (xs ++ ys) = spans xs + spans ys := by simp [spans]

@[simp] theorem msgs_nil : msgs [] = [] := rfl

@[simp] theorem msgs_pad : msgs (.pad n :: xs) = msgs xs := rfl

@[simp] theorem msgs_msg : msgs (.msg q :: xs) = q :: msgs xs := rfl

@[simp] theorem msgs_append : msgs (xs ++ ys) = msgs xs ++ msgs ys := by simp [msgs]

theorem Rec.Fits.dvd_span (h : x.Fits R p) : 8 ∣ x.span := by
  cases x with
  | pad n => exact h.2.1
  | msg q => exact dvd_roundup8 _

theorem Rec.Fits.inside (h : x.Fits R p) : p % R + x.span ≤ R := by
  cases x with
  | pad n => exact Nat.le_of_eq h.1
  | msg q => exact h.1

theorem Rec.Fits.span_pos (hR : 0 < R) (h : x.Fits R p) : 0 < x.span := by
  cases x with
  | pad n =>
    have := Nat.mod_lt p hR
    have := h.1
    simp only [span]; omega
  | msg q => exact Nat.lt_of_lt_of_le (by simp [hdrSize]) (le_roundup8 _)

theorem Rec.Fits.bytes_le (hR : 0 < R) (h : x.Fits R p) : x.bytes.length ≤ x.span := by
  cases x with
  | pad n =>
    have := h.span_pos hR
    have := h.dvd_span
    simp only [Rec.bytes, hdr, List.length_cons, List.length_nil, span] at *; omega
  | msg q =>
    have := le_roundup8 (q.msg.payload.length + hdrSize)
    simp only [Rec.bytes, hdr, List.length_append, List.length_cons, List.length_nil, span, hdrSize] at *
    omega

/-- A record stays while its cells do. -/
theorem Rec.At.congr (hR : 0 < R) (h : x.At mem R p)
    (hm : ∀ i, i < x.span → mem' ((p + i) % R) = mem ((p + i) % R)) : x.At mem' R p := by
  refine ⟨h.fits, ?_⟩
  have e : window mem' R p x.bytes.length = window mem R p x.bytes.length :=
    window_congr fun i hi => hm i (Nat.lt_of_lt_of_le hi (h.fits.bytes_le hR))
  rw [e, h.bytes]

theorem laid_append : Laid mem R p (xs ++ ys) ↔ Laid mem R p xs ∧ Laid mem R (p + spans xs) ys := by
  induction xs generalizing p with
  | nil => simp [Laid]
  | cons x xs ih => simp [Laid, ih, and_assoc, Nat.add_assoc]

theorem Laid.congr (hR : 0 < R) (h : Laid mem R p xs)
    (hm : ∀ i, i < spans xs → mem' ((p + i) % R) = mem ((p + i) % R)) : Laid mem' R p xs := by
  induction xs generalizing p with
  | nil => trivial
  | cons x xs ih =>
    refine ⟨h.1.congr hR fun i hi => hm i (by simp; omega), ih h.2 fun i hi => ?_⟩
    rw [Nat.add_assoc]
    exact hm _ (by simp; omega)

theorem Laid.dvd_spans (h : Laid mem R p xs) : 8 ∣ spans xs := by
  induction xs generalizing p with
  | nil => simp
  | cons x xs ih => rw [spans_cons]; exact Nat.dvd_add h.1.fits.dvd_span (ih h.2)

/-- A store from position `p` on is not seen at another. -/
theorem blit_frame {bs : List UInt8} {a : Nat} (C : Nat) {t : Nat}
    (ha : ∀ k, k < bs.length → (p + k) % R = a + k) (h1 : C ≤ p ∧ p + bs.length ≤ C + R)
    (h2 : C ≤ t ∧ t < C + R) (h : t < p ∨ p + bs.length ≤ t) :
    blit mem a bs (t % R) = mem (t % R) := by
  apply blit_miss
  by_contra hc
  -- the cell of `t` would be that of `p + k`
  obtain ⟨k, hk, hcell⟩ : ∃ k, k < bs.length ∧ (p + k) % R = t % R :=
    ⟨t % R - a, by omega, by rw [ha _ (by omega)]; omega⟩
  rcases h with h | h
  · have := mod_inj (R := R) (a := t) (b := p + k) (by omega) (by omega) hcell.symm
    omega
  · have := mod_inj (R := R) (a := p + k) (b := t) (by omega) (by omega) hcell
    omega

theorem header_read {type flags : UInt8} {size : Nat} (rest : List UInt8)
    (h : window mem R p (hdr type flags size ++ rest).length = hdr type flags size ++ rest)
    (hin : p % R + hdrSize ≤ R) (hs : size < 65536) :
    mem (p % R) = type ∧ mem (p % R + 1) = flags ∧ hdrSizeAt mem (p % R) = size := by
  have h4 : window mem R (p + 0) 4 = hdr type flags size := by
    rw [Nat.add_zero, ← take_window (n := (hdr type flags size ++ rest).length) (by simp [hdr]), h]
    rfl
  rw [window_eq_bytes 0 (by simpa [hdrSize] using hin)] at h4
  simp only [Lib.bytes, List.range, List.range.loop, List.map_cons, List.map_nil, hdr, List.cons.injEq,
    Nat.add_zero, and_true] at h4
  obtain ⟨h0, h1, h2, h3⟩ := h4
  refine ⟨h0, h1, ?_⟩
  simp only [hdrSizeAt, h2, h3, UInt8.toNat_ofNat']
  omega

/-- A message, as the consumer reads it. -/
theorem Rec.At.read (h : (Rec.msg q).At mem R p) :
    mem (p % R) = q.msg.type ∧ mem (p % R + 1) = q.msg.flags ∧
      hdrSizeAt mem (p % R) = q.msg.payload.length + hdrSize ∧
      Lib.bytes mem (p % R + hdrSize) q.msg.payload.length = q.msg.payload := by
  obtain ⟨hin, -, hlen, -⟩ := h.fits
  have hle := le_roundup8 (q.msg.payload.length + hdrSize)
  obtain ⟨h1, h2, h3⟩ := header_read _ h.bytes (by omega) (by omega)
  refine ⟨h1, h2, h3, ?_⟩
  have hd := congrArg (List.drop 4) h.bytes
  have hl : (Rec.msg q).bytes.length = 4 + q.msg.payload.length := by simp [Rec.bytes, hdr]; omega
  rw [hl, drop_window (by omega), Nat.add_sub_cancel_left,
    window_eq_bytes 4 (by simp only [hdrSize] at *; omega)] at hd
  exact hd.trans (List.drop_left' rfl)

end Layout

/-! ## The reading of a ring -/

/-- The consumer is done with `done`, was shown `pub` and has not been shown `new`; `A` and `C` are
the counters behind the published and the private consumer index. -/
structure Fifo (r : Ring) (done : List Prepared) (pub new : List Rec) (A C : Nat) : Prop where
  size : RingSize r.payloadBytes
  cons : r.cons = u32 A
  localCons : r.localCons = u32 A
  consPvt : r.localConsPvt = u32 C
  prod : r.prod = u32 (C + spans pub)
  localProd : r.localProd = u32 (C + spans pub)
  prodPvt : r.localProdPvt = u32 (C + spans pub + spans new)
  le : A ≤ C
  room : C + spans pub + spans new + r.localProdBytesAvailable ≤ A + r.payloadBytes
  dvd : 8 ∣ C
  laid : Laid r.payload r.payloadBytes C (pub ++ new)
  sent : r.sent = done ++ msgs pub ++ msgs new
  published : r.published = (done ++ msgs pub).length

/-- What `Fifo` reads of a ring. -/
def Ring.view (r : Ring) :=
  (r.payloadBytes, r.prod, r.payload, r.cons, r.localProd, r.localProdPvt,
    r.localProdBytesAvailable, r.localCons, r.localConsPvt, r.sent, r.published)

/-- The ring space a message of `rounded` bytes needs, with the padding in front of it. -/
def Ring.need (r : Ring) (rounded : Nat) : Nat :=
  if r.localProdPvt % r.payloadBytes + rounded < r.payloadBytes then rounded
  else rounded + (r.payloadBytes - r.localProdPvt % r.payloadBytes)

/-- The sizes of a call survived their conversions. -/
structure Survives (c : Call) : Prop where
  size : c.size = c.msgSize + hdrSize
  rounded : c.roundedSize = roundup8 c.size
  small : c.size ≤ 65528
  type : c.type ≠ msgPad

/-- The call asks for what it needs, and `F` holds of it. -/
structure CallFits (F : Call → Prop) (r : Ring) (c : Call) : Prop where
  le : c.roundedSize ≤ r.payloadBytes
  need : r.need c.roundedSize < 65536
  known : F c

/-- What the producer knows at its place. -/
def ProdAt (F : Call → Prop) (r : Ring) : ProdPc → Prop
  | .readActive c | .canSend c _ | .resetSend c => CallFits F r c
  | .flushProd k | .flushEvent _ k | .flushSpinning k | .flushClear k => ∀ c ∈ k, CallFits F r c
  | .readCons c _ nr | .setConsEvent c _ nr _ | .recheckCons c _ nr _ =>
    CallFits F r c ∧ nr = r.need c.roundedSize
  | .fill c => CallFits F r c ∧ r.need c.roundedSize ≤ r.localProdBytesAvailable
  | .idle | .postActive | .postEvent | .postNotify => True

/-- What the consumer knows at its place. -/
def ConsAt (r : Ring) (done : List Prepared) (pub : List Rec) : ConsPc → Prop
  | .readHdr _ => pub ≠ [] ∧ r.got = done.map (·.msg)
  | .held => ∃ q rest, pub = .msg q :: rest ∧ r.got = done.map (·.msg) ++ [q.msg] ∧
      r.currentMessageSize = q.msg.payload.length
  | _ => r.got = done.map (·.msg)

section Producer

variable {F : Call → Prop} {r r' : Ring} {done : List Prepared} {pub new : List Rec} {A C : Nat}
  {c : Call}

theorem Fifo.keep (h : Fifo r done pub new A C) (e : r'.view = r.view) :
    Fifo r' done pub new A C := by
  simp only [Ring.view, Prod.mk.injEq] at e
  obtain ⟨e1, e2, e3, e4, e5, e6, e7, e8, e9, e10, e11⟩ := e
  constructor
  · rw [e1]; exact h.size
  · rw [e4]; exact h.cons
  · rw [e8]; exact h.localCons
  · rw [e9]; exact h.consPvt
  · rw [e2]; exact h.prod
  · rw [e5]; exact h.localProd
  · rw [e6]; exact h.prodPvt
  · exact h.le
  · rw [e7, e1]; exact h.room
  · exact h.dvd
  · rw [e3, e1]; exact h.laid
  · rw [e10]; exact h.sent
  · rw [e11]; exact h.published

/-- The producer's index, seen from the ring's size. -/
theorem Fifo.ptr (h : Fifo r done pub new A C) :
    r.localProdPvt % r.payloadBytes = (C + spans pub + spans new) % r.payloadBytes := by
  rw [h.prodPvt]; exact u32_mod h.size.dvd _

theorem ringWouldWrap_iff (hR : RingSize r.payloadBytes) {n : Nat} (hn : n ≤ r.payloadBytes)
    (hlt : r.localProdPvt < 4294967296) :
    r.ringWouldWrap n = true ↔ r.payloadBytes ≤ r.localProdPvt % r.payloadBytes + n := by
  simp only [ringWouldWrap, decide_eq_true_eq, u32]
  rcases hR.cases with e | e | e | e | e <;> rw [e] at hn ⊢ <;> omega

theorem Fifo.prodPvt_lt (h : Fifo r done pub new A C) : r.localProdPvt < 4294967296 := by
  rw [h.prodPvt]; exact Nat.mod_lt _ (by decide)

/-- The header and whatever was in memory behind it are a record. -/
theorem Rec.at_put {mem : Nat → UInt8} {R P : Nat} {x : Rec} {type flags : UInt8} {size : Nat}
    {rest : List UInt8} (hR : 0 < R) (hf : x.Fits R P) (hb : x.bytes = hdr type flags size ++ rest)
    (hrest : Lib.bytes (blit mem (P % R) (hdr type flags size)) (P % R + hdrSize) rest.length = rest) :
    x.At (blit mem (P % R) (hdr type flags size)) R P := by
  have hlen : (hdr type flags size).length = 4 := rfl
  have hle := hf.bytes_le hR
  have hin := hf.inside
  rw [hb, List.length_append, hlen] at hle
  refine ⟨hf, ?_⟩
  rw [hb, List.length_append, hlen, window_add]
  congr 1
  · rw [← circBlit_of_le (R := R) (by rw [hlen]; omega)]
    exact window_circBlit_self mem P hR (by rw [hlen]; omega)
  · rw [window_eq_bytes 4 (by omega)]
    exact hrest

/-- The producer lays a record. -/
theorem Fifo.put (h : Fifo r done pub new A C) (x : Rec) (type flags : UInt8) (size : Nat)
    (rest : List UInt8) (hf : x.Fits r.payloadBytes (C + spans pub + spans new))
    (hb : x.bytes = hdr type flags size ++ rest)
    (hrest : Lib.bytes (r.putHdr type flags size x.span).payload (r.getMessagePtr + hdrSize)
      rest.length = rest) (hroom : x.span ≤ r.localProdBytesAvailable) :
    Fifo { r.putHdr type flags size x.span with sent := r.sent ++ msgs [x] }
      done pub (new ++ [x]) A C := by
  have hR : 0 < r.payloadBytes := Nat.lt_of_lt_of_le (by decide) h.size.bounds.1
  have hR' := h.size.bounds.2.1
  have hr := h.room
  have hle := h.le
  have hpos := hf.bytes_le hR
  have hin := hf.inside
  rw [hb, List.length_append, show (hdr type flags size).length = 4 from rfl] at hpos
  have hptr : r.getMessagePtr = (C + spans pub + spans new) % r.payloadBytes := h.ptr
  have hpvt : (r.putHdr type flags size x.span).localProdPvt =
      u32 (C + spans pub + spans (new ++ [x])) := by
    simp only [putHdr, h.prodPvt, spans_append, spans_cons, spans_nil, u32]; omega
  have havail : (r.putHdr type flags size x.span).localProdBytesAvailable =
      r.localProdBytesAvailable - x.span := by
    simp only [putHdr, sub32]; omega
  constructor
  · exact h.size
  · exact h.cons
  · exact h.localCons
  · exact h.consPvt
  · exact h.prod
  · exact h.localProd
  · exact hpvt
  · exact hle
  · simp only [havail, spans_append, spans_cons, spans_nil]
    show _ ≤ A + r.payloadBytes
    omega
  · exact h.dvd
  · rw [← List.append_assoc, laid_append]
    simp only [putHdr, hptr] at hrest ⊢
    refine ⟨?_, ?_, trivial⟩
    · have hcell : ∀ k, k < (hdr type flags size).length →
          (C + spans pub + spans new + k) % r.payloadBytes =
            (C + spans pub + spans new) % r.payloadBytes + k := fun k hk =>
        add_mod_of_lt (by simp only [hdr, List.length_cons, List.length_nil] at hk; omega)
      refine h.laid.congr hR fun i hi => blit_frame C hcell ⟨?_, ?_⟩ ⟨?_, ?_⟩ (.inl ?_) <;>
        simp only [spans_append, hdr, List.length_cons, List.length_nil] at hi ⊢ <;> omega
    · rw [spans_append, ← Nat.add_assoc]
      exact Rec.at_put hR hf hb hrest
  · show r.sent ++ msgs [x] = _
    rw [h.sent, msgs_append]; simp
  · exact h.published

/-- The message `v2v_nc2_prep_message` gives out at the producer's index. -/
def Ring.prepared (r : Ring) (c : Call) : Prepared :=
  ⟨⟨c.type, c.flags, Lib.bytes (r.putHdr c.type c.flags c.size c.roundedSize).payload
    (r.getMessagePtr + hdrSize) c.msgSize⟩, r.getMessagePtr + hdrSize⟩

theorem Fifo.putCall (h : Fifo r done pub new A C) (hsize : c.size = c.msgSize + hdrSize)
    (hrounded : c.roundedSize = roundup8 c.size) (hsmall : c.size ≤ 65528) (htype : c.type ≠ msgPad)
    (hin : r.localProdPvt % r.payloadBytes + c.roundedSize ≤ r.payloadBytes)
    (hroom : c.roundedSize ≤ r.localProdBytesAvailable) :
    Fifo { r.putHdr c.type c.flags c.size c.roundedSize with sent := r.sent ++ [r.prepared c] }
      done pub (new ++ [.msg (r.prepared c)]) A C := by
  have hlen : (r.prepared c).msg.payload.length = c.msgSize := length_bytes _ _ _
  have hspan : (Rec.msg (r.prepared c)).span = c.roundedSize := by
    rw [Rec.span, hlen, ← hsize, hrounded]
  rw [← hspan] at hroom
  have hput := h.put (.msg (r.prepared c)) c.type c.flags c.size (r.prepared c).msg.payload
    ?_ ?_ ?_ hroom
  · rw [hspan] at hput
    exact hput
  · refine ⟨?_, htype, ?_, ?_⟩
    · rw [hlen, ← hsize, ← hrounded, ← h.ptr]; exact hin
    · rw [hlen, ← hsize]; exact hsmall
    · rw [← h.ptr]; rfl
  · rw [Rec.bytes, hlen, ← hsize]; rfl
  · rw [hlen]; rfl

theorem Fifo.putMessage (h : Fifo r done pub new A C) (hc : CallFits Survives r c)
    (hn : r.need c.roundedSize ≤ r.localProdBytesAvailable) :
    ∃ new' q, Fifo (r.putMessage c) done pub (new ++ new') A C ∧ msgs new' = [q] ∧
      q.msg.payload.length = c.msgSize ∧ q.msg.type = c.type := by
  have hR := h.size.bounds
  have hwrap := ringWouldWrap_iff h.size hc.le h.prodPvt_lt
  have hneed := hc.need
  have hmod := Nat.mod_lt r.localProdPvt (show 0 < r.payloadBytes by omega)
  simp only [Ring.need] at hn hneed
  unfold Ring.putMessage avoidRingWrap
  by_cases hw : r.localProdPvt % r.payloadBytes + c.roundedSize < r.payloadBytes
  · rw [if_pos hw] at hn
    rw [if_neg (by rw [hwrap]; omega)]
    exact ⟨[.msg (r.prepared c)], _,
      h.putCall hc.known.size hc.known.rounded hc.known.small hc.known.type (Nat.le_of_lt hw) hn, rfl, length_bytes _ _ _, rfl⟩
  · rw [if_neg hw] at hn hneed
    rw [if_pos (hwrap.mpr (by omega))]
    -- the padding takes the index to the end of the ring, so the message starts at offset 0
    have hpad : r.padNeeded = r.payloadBytes - r.localProdPvt % r.payloadBytes :=
      Nat.mod_eq_of_lt (by omega)
    have hdvd : 8 ∣ r.padNeeded := by
      rw [hpad, h.ptr]
      have h1 := h.laid.dvd_spans
      have h2 := h.dvd
      rw [spans_append] at h1
      exact Nat.dvd_sub hR.2.2 ((Nat.dvd_mod_iff hR.2.2).mpr (by rw [Nat.add_assoc]; exact Nat.dvd_add h2 h1))
    have hput := h.put (.pad r.padNeeded) msgPad 0 r.padNeeded []
      ⟨by rw [hpad, h.ptr] at *; omega, hdvd, by omega⟩ (by simp [Rec.bytes]) rfl
      (show r.padNeeded ≤ _ by omega)
    have h1 : Fifo (r.sendPad r.padNeeded) done pub (new ++ [.pad r.padNeeded]) A C :=
      hput.keep (by simp [Ring.view, sendPad, Rec.span, putHdr])
    have hzero : (r.sendPad r.padNeeded).localProdPvt % (r.sendPad r.padNeeded).payloadBytes = 0 := by
      show u32 (r.localProdPvt + r.padNeeded) % r.payloadBytes = 0
      have hdm := Nat.div_add_mod r.localProdPvt r.payloadBytes
      rw [u32_mod h.size.dvd, show r.localProdPvt + r.padNeeded =
        r.payloadBytes * (r.localProdPvt / r.payloadBytes + 1) by rw [Nat.mul_add_one]; omega]
      exact Nat.mul_mod_right _ _
    have havail : (r.sendPad r.padNeeded).localProdBytesAvailable =
        r.localProdBytesAvailable - r.padNeeded := by
      have := h.room
      have := h.le
      simp only [sendPad, putHdr, sub32]
      omega
    refine ⟨[.pad r.padNeeded, .msg ((r.sendPad r.padNeeded).prepared c)], _, ?_, rfl,
      length_bytes _ _ _, rfl⟩
    have h2 := h1.putCall hc.known.size hc.known.rounded hc.known.small hc.known.type
      (by rw [hzero, Nat.zero_add]; exact hc.le) (by rw [havail]; omega)
    rw [List.append_assoc] at h2
    exact h2

/-! ### What a step of the producer does -/

theorem need_congr (e1 : r'.payloadBytes = r.payloadBytes) (e2 : r'.localProdPvt = r.localProdPvt)
    (n : Nat) : r'.need n = r.need n := by
  unfold Ring.need; rw [e1, e2]

theorem CallFits.keep (h : CallFits F r c) (e1 : r'.payloadBytes = r.payloadBytes)
    (e2 : r'.localProdPvt = r.localProdPvt) : CallFits F r' c :=
  ⟨e1 ▸ h.le, by rw [need_congr e1 e2]; exact h.need, h.known⟩

theorem ProdAt.afterFlush {k : Option Call} (h : ∀ c ∈ k, CallFits F r c) :
    ProdAt F r (afterFlush k) := by
  cases k with
  | none => trivial
  | some c => exact h c rfl

/-- What the producer knows rests on its own fields only. -/
theorem ProdAt.keep {pc : ProdPc} (h : ProdAt F r pc) (e1 : r'.payloadBytes = r.payloadBytes)
    (e2 : r'.localProdPvt = r.localProdPvt)
    (e3 : r'.localProdBytesAvailable = r.localProdBytesAvailable) : ProdAt F r' pc := by
  cases pc with
  | idle | postActive | postEvent | postNotify => trivial
  | readActive c | canSend c | resetSend c => exact CallFits.keep h e1 e2
  | flushProd k | flushEvent _ k | flushSpinning k | flushClear k =>
    exact fun c hc => (h c hc).keep e1 e2
  | readCons c a nr | setConsEvent c a nr _ | recheckCons c a nr _ =>
    exact ⟨h.1.keep e1 e2, by rw [need_congr e1 e2]; exact h.2⟩
  | fill c => exact ⟨h.1.keep e1 e2, by rw [need_congr e1 e2, e3]; exact h.2⟩

/-- What `nc2_can_send_payload_bytes` asks for. -/
def Ring.asked (r : Ring) (rounded : Nat) : Nat :=
  if r.ringWouldWrap rounded then u16 (rounded + r.padNeeded) else rounded

theorem asked_eq_need (hR : RingSize r.payloadBytes) (hlt : r.localProdPvt < 4294967296)
    (hc : CallFits F r c) : r.asked c.roundedSize = r.need c.roundedSize := by
  have hwrap := ringWouldWrap_iff hR hc.le hlt
  have hneed := hc.need
  unfold Ring.asked Ring.need at *
  by_cases hw : r.localProdPvt % r.payloadBytes + c.roundedSize < r.payloadBytes
  · rw [if_pos hw, if_neg (by rw [hwrap]; omega)]
  · rw [if_neg hw] at hneed ⊢
    rw [if_pos (hwrap.mpr (by omega))]
    simp only [padNeeded, u16]; omega

theorem need_le_twice (hR : 0 < r.payloadBytes) (n : Nat) : r.need n ≤ n * 2 := by
  have := Nat.mod_lt r.localProdPvt hR
  unfold Ring.need
  split <;> omega

/-- A step of the producer publishes what there is, learns the space, puts its message, or does
nothing that can be seen in the ring. -/
inductive Produced (F : Call → Prop) (r : Ring) : Ring → Prop
  | quiet {r' : Ring} (h : r'.view = r.view) : Produced F r r'
  | publish {pc : ProdPc} : Produced F r { r with
      prod := r.localProdPvt, localProd := r.localProdPvt, published := r.sent.length, ppc := pc }
  | learn {b : Bool} {pc : ProdPc} : Produced F r
      { r with localProdBytesAvailable := r.space r.cons, sendEvent := b, ppc := pc }
  | put {c : Call} {pc : ProdPc} (hc : CallFits F r c)
      (hn : r.need c.roundedSize ≤ r.localProdBytesAvailable) :
      Produced F r { r.putMessage c with ppc := pc }

theorem prodStep_cases (hR : RingSize r.payloadBytes) (hlt : r.localProdPvt < 4294967296)
    (hp : ProdAt F r r.ppc) (hs : r.prodStep = some r') : Produced F r r' ∧ ProdAt F r' r'.ppc := by
  unfold Ring.prodStep at hs
  cases hpc : r.ppc with
  | idle => simp [hpc] at hs
  | readActive c =>
    simp only [hpc, Option.some.injEq] at hs hp
    subst hs
    refine ⟨.quiet rfl, ?_⟩
    split
    · rintro c' ⟨⟩; exact CallFits.keep hp rfl rfl
    · exact CallFits.keep hp rfl rfl
  | flushProd k =>
    simp only [hpc, Option.some.injEq] at hs hp
    subst hs
    exact ⟨.publish, fun c hc => (hp c hc).keep rfl rfl⟩
  | flushEvent old k =>
    simp only [hpc, Option.some.injEq] at hs hp
    subst hs
    refine ⟨.quiet rfl, ?_⟩
    split
    · exact fun c hc => (hp c hc).keep rfl rfl
    · exact (ProdAt.afterFlush hp).keep rfl rfl rfl
  | flushSpinning k =>
    simp only [hpc, Option.some.injEq] at hs hp
    subst hs
    refine ⟨.quiet rfl, ?_⟩
    split
    · exact fun c hc => (hp c hc).keep rfl rfl
    · exact (ProdAt.afterFlush hp).keep rfl rfl rfl
  | flushClear k =>
    simp only [hpc, Option.some.injEq] at hs hp
    subst hs
    exact ⟨.quiet rfl, (ProdAt.afterFlush hp).keep rfl rfl rfl⟩
  | canSend c again =>
    simp only [hpc, Option.some.injEq] at hs hp
    have hask := asked_eq_need hR hlt hp
    unfold Ring.asked at hask
    split at hs
    · next hfast =>
      subst hs
      have := need_le_twice (Nat.lt_of_lt_of_le (by decide) hR.bounds.1) c.roundedSize
      exact ⟨.quiet rfl, CallFits.keep hp rfl rfl,
        show r.need _ ≤ r.localProdBytesAvailable by omega⟩
    · split at hs
      · next hw =>
        rw [if_pos hw] at hask
        subst hs
        exact ⟨.quiet rfl, CallFits.keep hp rfl rfl, hask⟩
      · next hw =>
        rw [if_neg hw] at hask
        subst hs
        exact ⟨.quiet rfl, CallFits.keep hp rfl rfl, hask⟩
  | readCons c again nr =>
    simp only [hpc, Option.some.injEq] at hs hp
    obtain ⟨hc, rfl⟩ := hp
    split at hs
    · next hspace =>
      subst hs
      exact ⟨.learn, hc.keep rfl rfl, hspace⟩
    · subst hs
      exact ⟨.quiet rfl, hc.keep rfl rfl, rfl⟩
  | setConsEvent c again nr cons =>
    simp only [hpc, Option.some.injEq] at hs hp
    subst hs
    exact ⟨.quiet rfl, hp.1.keep rfl rfl, hp.2⟩
  | recheckCons c again nr cons =>
    simp only [hpc, Option.some.injEq] at hs hp
    split at hs
    · subst hs; exact ⟨.quiet rfl, hp.1.keep rfl rfl, hp.2⟩
    · split at hs
      · subst hs; exact ⟨.quiet rfl, trivial⟩
      · subst hs; exact ⟨.quiet rfl, hp.1.keep rfl rfl⟩
  | resetSend c =>
    simp only [hpc, Option.some.injEq] at hs hp
    subst hs
    exact ⟨.quiet rfl, CallFits.keep hp rfl rfl⟩
  | fill c =>
    simp only [hpc, Option.some.injEq] at hs hp
    subst hs
    exact ⟨.put hp.1 hp.2, trivial⟩
  | postActive =>
    simp only [hpc, Option.some.injEq] at hs
    split at hs <;> subst hs <;> exact ⟨.quiet rfl, trivial⟩
  | postEvent =>
    simp only [hpc, Option.some.injEq] at hs
    split at hs <;> subst hs <;> exact ⟨.quiet rfl, trivial⟩
  | postNotify =>
    simp only [hpc, Option.some.injEq] at hs
    subst hs
    exact ⟨.quiet rfl, trivial⟩

theorem Fifo.space (h : Fifo r done pub new A C) :
    r.space r.cons = A + r.payloadBytes - (C + spans pub + spans new) := by
  have hroom := h.room
  have hle := h.le
  have hR := h.size.bounds
  unfold Ring.space
  rw [h.prodPvt, h.cons, sub32_u32 (by omega) (by omega)]
  simp only [sub32]; omega

/-- A step of the producer publishes, lays records behind the ones there, or does neither. -/
theorem Fifo.prodStep (h : Fifo r done pub new A C) (hp : ProdAt Survives r r.ppc)
    (hs : r.prodStep = some r') :
    ∃ pub' new', Fifo r' done (pub ++ pub') new' A C ∧ ProdAt Survives r' r'.ppc := by
  obtain ⟨hr, hp'⟩ := prodStep_cases h.size h.prodPvt_lt hp hs
  cases hr with
  | quiet e => exact ⟨[], new, by rw [List.append_nil]; exact h.keep e, hp'⟩
  | publish =>
    refine ⟨new, [], ?_, hp'⟩
    refine ⟨h.size, h.cons, h.localCons, h.consPvt, ?_, ?_, ?_, h.le, ?_, h.dvd, ?_, ?_, ?_⟩
    · simpa [Nat.add_assoc] using h.prodPvt
    · simpa [Nat.add_assoc] using h.prodPvt
    · simpa [Nat.add_assoc] using h.prodPvt
    · simpa [Nat.add_assoc] using h.room
    · simpa using h.laid
    · simpa using h.sent
    · simp [h.sent]
  | learn =>
    refine ⟨[], new, ?_, hp'⟩
    rw [List.append_nil]
    refine ⟨h.size, h.cons, h.localCons, h.consPvt, h.prod, h.localProd, h.prodPvt, h.le, ?_,
      h.dvd, h.laid, h.sent, h.published⟩
    have hroom := h.room
    simp only [h.space]; omega
  | put hc hn =>
    obtain ⟨new', q, hf, -⟩ := h.putMessage hc hn
    exact ⟨[], new ++ new', by rw [List.append_nil]; exact hf.keep rfl, hp'⟩

/-- The place of a consumer that was shown more. -/
theorem ConsAt.grow {pc : ConsPc} (h : ConsAt r done pub pc) (pub' : List Rec)
    (e : SameCons r r') : ConsAt r' done (pub ++ pub') pc := by
  cases pc with
  | readHdr n => exact ⟨by simp [h.1], e.got.trans h.2⟩
  | held =>
    obtain ⟨q, rest, rfl, h1, h2⟩ := h
    exact ⟨q, rest ++ pub', rfl, e.got.trans h1, e.currentMessageSize.trans h2⟩
  | _ => exact e.got.trans h

theorem ConsAt.keep (h : ConsAt r done pub r.cpc) (e : SameCons r r') :
    ConsAt r' done pub r'.cpc := by
  have := h.grow [] e
  rw [e.cpc]
  rwa [List.append_nil] at this

end Producer

/-! ## Stores to a payload -/

section Write

variable {r r' : Ring} {done : List Prepared} {pub new : List Rec} {A C : Nat}

theorem msgs_split {xs : List Rec} {j : Nat} {q : Prepared} (h : (msgs xs)[j]? = some q) :
    ∃ ys zs, xs = ys ++ .msg q :: zs ∧ (msgs ys).length = j := by
  induction xs generalizing j with
  | nil => simp at h
  | cons x xs ih =>
    cases x with
    | pad n =>
      obtain ⟨ys, zs, rfl, hj⟩ := ih h
      exact ⟨.pad n :: ys, zs, rfl, hj⟩
    | msg q' =>
      cases j with
      | zero =>
        simp only [msgs_msg, List.getElem?_cons_zero, Option.some.injEq] at h
        exact ⟨[], xs, by rw [h]; rfl, rfl⟩
      | succ j =>
        obtain ⟨ys, zs, rfl, hj⟩ := ih (by simpa using h)
        exact ⟨.msg q' :: ys, zs, rfl, by simp [hj]⟩

/-- The payload after a store to part of it. -/
def patch (xs : List UInt8) (off : Nat) (ys : List UInt8) : List UInt8 :=
  xs.take off ++ ys ++ xs.drop (off + ys.length)

theorem length_patch {xs ys : List UInt8} {off : Nat} (h : off + ys.length ≤ xs.length) :
    (patch xs off ys).length = xs.length := by
  simp [patch]; omega

theorem patch_append (xs : List UInt8) {ys zs : List UInt8} {off : Nat} :
    patch (xs ++ zs) (xs.length + off) ys = xs ++ patch zs off ys := by
  unfold patch
  rw [List.take_length_add_append, Nat.add_assoc, List.drop_length_add_append]
  simp only [List.append_assoc]

theorem window_patch {mem : Nat → UInt8} {R p n off : Nat} {ys : List UInt8} (hin : p % R + n ≤ R)
    (h : off + ys.length ≤ n) :
    window (blit mem (p % R + off) ys) R p n = patch (window mem R p n) off ys := by
  obtain ⟨k, rfl⟩ := Nat.exists_eq_add_of_le h
  have h1 : window (blit mem (p % R + off) ys) R p off = window mem R p off :=
    window_congr fun i hi => by
      rw [add_mod_of_lt (by omega)]; exact blit_miss (.inl (by omega))
  have h2 : window (blit mem (p % R + off) ys) R (p + off) ys.length = ys := by
    rw [window_eq_bytes off (by omega), bytes_blit]
  have h3 : window (blit mem (p % R + off) ys) R (p + (off + ys.length)) k =
      window mem R (p + (off + ys.length)) k :=
    window_congr fun i hi => by
      rw [Nat.add_assoc p, add_mod_of_lt (by omega)]; exact blit_miss (.inr (by omega))
  rw [window_add, window_add _ _ _ off, h1, h2, h3, patch, take_window (by omega),
    drop_window (by omega), Nat.add_sub_cancel_left]

theorem Rec.At.write {mem : Nat → UInt8} {R p off : Nat} {q : Prepared} {ys : List UInt8}
    (h : (Rec.msg q).At mem R p) (hoff : off + ys.length ≤ q.msg.payload.length) :
    (Rec.msg { q with msg.payload := patch q.msg.payload off ys }).At
      (blit mem (q.addr + off) ys) R p := by
  have hl := length_patch hoff
  obtain ⟨hin, htype, hlen, haddr⟩ := h.fits
  have hle := le_roundup8 (q.msg.payload.length + hdrSize)
  refine ⟨⟨by simpa only [hl] using hin, htype, by simpa only [hl] using hlen, haddr⟩, ?_⟩
  have hb := h.bytes
  have h4 : ∀ m : Msg, (hdr m.type m.flags (m.payload.length + hdrSize)).length = 4 := fun _ => rfl
  simp only [Rec.bytes, List.length_append, hl, h4] at hb ⊢
  rw [haddr, Nat.add_assoc, window_patch (by simp only [hdrSize] at *; omega)
    (by simp only [hdrSize]; omega), hb]
  exact patch_append (hdr q.msg.type q.msg.flags _)

theorem writePayload_ppc {i off : Nat} {ys : List UInt8} (h : r.writePayload i off ys = some r') :
    r'.ppc = r.ppc := by
  obtain ⟨q, -, h⟩ := Option.bind_eq_some_iff.mp h
  split at h
  · cases h; rfl
  · cases h

theorem Fifo.writePayload {i off : Nat} {ys : List UInt8} (h : Fifo r done pub new A C)
    (hi : r.published ≤ i) (hs : r.writePayload i off ys = some r') :
    ∃ new', Fifo r' done pub new' A C := by
  obtain ⟨q, hq, hs⟩ := Option.bind_eq_some_iff.mp hs
  split at hs
  · next hoff =>
    simp only [Option.some.injEq] at hs
    rw [h.published] at hi
    rw [h.sent, List.getElem?_append_right hi] at hq
    obtain ⟨xs, zs, rfl, hlen⟩ := msgs_split hq
    have hl := length_patch hoff
    have hR : 0 < r.payloadBytes := Nat.lt_of_lt_of_le (by decide) h.size.bounds.1
    have hroom := h.room
    have hle := h.le
    have hlaid := h.laid
    rw [← List.append_assoc, laid_append, Laid] at hlaid
    obtain ⟨h1, h2, h3⟩ := hlaid
    have hin := h2.fits.inside
    obtain ⟨-, -, -, haddr⟩ := h2.fits
    have hr8 := le_roundup8 (q.msg.payload.length + hdrSize)
    -- the store stays within the cells of its record
    have hcell : ∀ k, k < ys.length →
        (C + spans (pub ++ xs) + (hdrSize + off) + k) % r.payloadBytes = q.addr + off + k := by
      intro k hk
      simp only [Rec.span] at hin
      rw [Nat.add_assoc (C + _), add_mod_of_lt (by omega), haddr]; omega
    have hspan : (Rec.msg { q with msg.payload := patch q.msg.payload off ys }).span =
        (Rec.msg q).span := by
      simp only [Rec.span, hl]
    have hspans : spans (xs ++ .msg { q with msg.payload := patch q.msg.payload off ys } :: zs) =
        spans (xs ++ .msg q :: zs) := by
      simp only [spans_append, spans_cons, hspan]
    refine ⟨xs ++ .msg { q with msg.payload := patch q.msg.payload off ys } :: zs, ?_⟩
    subst hs
    refine ⟨h.size, h.cons, h.localCons, h.consPvt, h.prod, h.localProd, ?_, h.le, ?_, h.dvd, ?_, ?_,
      h.published⟩
    · rw [hspans]; exact h.prodPvt
    · rw [hspans]; exact h.room
    · simp only [spans_append, spans_cons, Rec.span] at hroom hcell hin
      rw [← List.append_assoc, laid_append, Laid]
      refine ⟨h1.congr hR fun j hj => blit_frame C hcell ?_ ?_ ?_, h2.write hoff, ?_⟩
      · simp only [spans_append] at *; omega
      · simp only [spans_append] at *; omega
      · simp only [spans_append] at *; omega
      · rw [hspan]
        refine h3.congr hR fun j hj => blit_frame C hcell ?_ ?_ ?_ <;>
          simp only [spans_append, Rec.span] at * <;> omega
    · simp only [msgs_append, msgs_msg] at hlen ⊢
      rw [h.sent, List.set_append_right _ _ hi, ← hlen, msgs_append, msgs_msg,
        List.set_append_right _ _ (Nat.le_refl _), Nat.sub_self]
      rfl
  · cases hs

end Write

/-! ## The consumer -/

section Consumer

variable {r r' : Ring} {done : List Prepared} {pub new : List Rec} {A C : Nat}

/-- The consumer has caught up exactly when the indices agree. -/
theorem Fifo.prod_eq_iff (h : Fifo r done pub new A C) : r.prod = r.localConsPvt ↔ pub = [] := by
  have hroom := h.room
  have hle := h.le
  have hR := h.size.bounds
  rw [h.prod, h.consPvt]
  constructor
  · intro e
    have := u32_inj (by omega) (by omega) e
    cases pub with
    | nil => rfl
    | cons x pub =>
      have hx := h.laid.1.fits.span_pos (by omega)
      rw [spans_cons] at this
      omega
  · rintro rfl; rfl

/-- The consumer's index, seen from the ring's size. -/
theorem Fifo.incoming (h : Fifo r done pub new A C) : r.incomingMessage = C % r.payloadBytes := by
  unfold Ring.incomingMessage
  rw [h.consPvt]; exact u32_mod h.size.dvd _

/-- Past a record, padding or message. -/
theorem Fifo.pass {x : Rec} (h : Fifo r done (x :: pub) new A C)
    (ev : r'.view = { r with localConsPvt := u32 (r.localConsPvt + x.span) }.view) :
    Fifo r' (done ++ msgs [x]) pub new A (C + x.span) := by
  simp only [Ring.view, Prod.mk.injEq] at ev
  obtain ⟨e1, e2, e3, e4, e5, e6, e7, e8, e9, e10, e11⟩ := ev
  have hprod := h.prod
  have hlocal := h.localProd
  have hpvt := h.prodPvt
  have hroom := h.room
  have hle := h.le
  have hpub := h.published
  have hsent := h.sent
  rw [spans_cons, ← Nat.add_assoc] at hprod hlocal hpvt hroom
  have hm : msgs (x :: pub) = msgs [x] ++ msgs pub := @msgs_append [x] pub
  rw [hm, ← List.append_assoc] at hpub hsent
  refine ⟨e1 ▸ h.size, e4.trans h.cons, e8.trans h.localCons, ?_, e2.trans hprod, e5.trans hlocal,
    e6.trans hpvt, by omega, by rw [e7, e1]; exact hroom, ?_, ?_, e10.trans hsent, e11.trans hpub⟩
  · rw [e9, h.consPvt]; simp only [u32]; omega
  · exact Nat.dvd_add h.dvd h.laid.1.fits.dvd_span
  · rw [e3, e1]; exact h.laid.2

theorem contained_of_le {a n : Nat} (h : a + n ≤ r.payloadBytes) :
    r.containedInConsRing a n = true := by
  simp only [containedInConsRing, Bool.and_eq_true, decide_eq_true_eq]; omega

/-- Reading the next header skips padding or gives out the next message. -/
theorem Fifo.readHdr {x : Rec} {n : Nat} (h : Fifo r done (x :: pub) new A C) :
    (∃ k, x = .pad k ∧ (r.readHdr n).cpc = .readProd n ∧ (r.readHdr n).got = r.got ∧
      Fifo (r.readHdr n) done pub new A (C + x.span) ∧ (r.readHdr n).getStatus = r.getStatus) ∨
    (∃ q, x = .msg q ∧ (r.readHdr n).cpc = .held ∧ (r.readHdr n).got = r.got ++ [q.msg] ∧
      (r.readHdr n).currentMessageSize = q.msg.payload.length ∧
      Fifo (r.readHdr n) done (x :: pub) new A C ∧ (r.readHdr n).getStatus = .success) := by
  have hR := h.size.bounds
  have hx := h.laid.1
  have hin := hx.fits.inside
  have hinc := h.incoming
  have hmod := Nat.mod_lt C (show 0 < r.payloadBytes by omega)
  unfold Ring.readHdr
  simp only [hinc]
  cases x with
  | pad k =>
    obtain ⟨h1, h2, h3⟩ := hx.fits
    obtain ⟨j, rfl⟩ := h2
    obtain ⟨e1, -, e3⟩ := header_read [] (by simpa [Rec.bytes] using hx.bytes)
      (by simp only [hdrSize]; omega) h3
    have hk : ¬ 8 * j < hdrSize := by simp only [hdrSize]; omega
    rw [e1, e3, contained_of_le (by simp only [hdrSize]; omega), contained_of_le (by omega)]
    simp only [hk, Bool.not_true, decide_false, Bool.or_self, Bool.false_eq_true, if_false, if_true]
    refine .inl ⟨_, rfl, trivial, trivial, ?_, trivial⟩
    have : Fifo { r with localConsPvt := u32 (r.localConsPvt + 8 * j), cpc := .readProd n }
        (done ++ msgs [.pad (8 * j)]) pub new A (C + 8 * j) := h.pass rfl
    rwa [msgs_pad, msgs_nil, List.append_nil] at this
  | msg q =>
    obtain ⟨e1, e2, e3, e4⟩ := hx.read
    obtain ⟨hin, htype, hlen, -⟩ := hx.fits
    have hle := le_roundup8 (q.msg.payload.length + hdrSize)
    have hk : ¬ q.msg.payload.length + hdrSize < hdrSize := by omega
    rw [e1, e2, e3, contained_of_le (by omega), contained_of_le (by omega)]
    simp only [hk, htype, Bool.not_true, decide_false, Bool.or_self, Bool.false_eq_true, if_false,
      Nat.add_sub_cancel, e4]
    exact .inr ⟨q, rfl, trivial, rfl, rfl, h.keep rfl, trivial⟩

theorem Fifo.consStep (h : Fifo r done pub new A C) (hc : ConsAt r done pub r.cpc)
    (hst : r.getStatus ≠ .dataError) (hs : r.consStep = some r') :
    ∃ done' pub' A' C', Fifo r' done' pub' new A' C' ∧ ConsAt r' done' pub' r'.cpc ∧
      r'.getStatus ≠ .dataError := by
  have keep : ∀ {r'}, r'.view = r.view → ConsAt r' done pub r'.cpc → r'.getStatus ≠ .dataError →
      ∃ done' pub' A' C', Fifo r' done' pub' new A' C' ∧ ConsAt r' done' pub' r'.cpc ∧
        r'.getStatus ≠ .dataError := fun e hc' hst' => ⟨done, pub, A, C, h.keep e, hc', hst'⟩
  unfold Ring.consStep at hs
  cases hpc : r.cpc with
  | idle | held => simp [hpc] at hs
  | readProd n =>
    simp only [hpc, Option.some.injEq] at hs hc
    subst hs
    refine keep rfl ?_ hst
    split
    · exact hc
    · next hne => exact ⟨fun e => hne (h.prod_eq_iff.mpr e), hc⟩
  | readActive n prod | spin n =>
    simp only [hpc, Option.some.injEq] at hs hc
    subst hs
    refine keep rfl ?_ hst
    split
    · exact hc
    · first | exact hc | (split <;> exact hc)
  | setSpinning n | clearSpinning n | resetReceive n prod | setProdEvent n prod | setReceive n =>
    simp only [hpc, Option.some.injEq] at hs hc
    subst hs
    exact keep rfl hc hst
  | finalCheck n prod =>
    simp only [hpc, Option.some.injEq] at hs hc
    subst hs
    refine keep rfl ?_ hst
    split <;> exact hc
  | recheckProd n prod =>
    simp only [hpc, Option.some.injEq] at hs hc
    split at hs
    · subst hs; exact keep rfl hc hst
    · subst hs; exact keep rfl hc (by simp)
  | readHdr n =>
    simp only [hpc, Option.some.injEq] at hs hc
    subst hs
    obtain ⟨hne, hg⟩ := hc
    obtain ⟨x, pub', rfl⟩ := List.exists_cons_of_ne_nil hne
    rcases h.readHdr (n := n) with ⟨k, rfl, h1, h2, h3, h4⟩ | ⟨q, rfl, h1, h2, h3, h4, h5⟩
    · exact ⟨done, pub', A, _, h3, by rw [h1]; exact h2.trans hg, by rw [h4]; exact hst⟩
    · exact ⟨done, _, A, C, h4, by rw [h1]; exact ⟨q, pub', rfl, by rw [h2, hg], h3⟩, by rw [h5]; simp⟩
  | finishCons =>
    simp only [hpc, Option.some.injEq] at hs hc
    subst hs
    refine ⟨done, pub, C, C, ⟨h.size, h.consPvt, h.consPvt, h.consPvt, h.prod, h.localProd, h.prodPvt,
      Nat.le_refl _, ?_, h.dvd, h.laid, h.sent, h.published⟩, hc, hst⟩
    have := h.room
    have := h.le
    show C + spans pub + spans new + r.localProdBytesAvailable ≤ C + r.payloadBytes
    omega
  | finishEvent old =>
    simp only [hpc, Option.some.injEq] at hs hc
    subst hs
    exact keep rfl hc hst

theorem Fifo.finishMessage (h : Fifo r done pub new A C) (hc : ConsAt r done pub .held) :
    ∃ q pub', pub = .msg q :: pub' ∧ Fifo r.finishMessage (done ++ [q]) pub' new A
      (C + (Rec.msg q).span) ∧ r.got = (done ++ [q]).map (·.msg) := by
  obtain ⟨q, pub', rfl, hg, hsize⟩ := hc
  refine ⟨q, pub', rfl, h.pass ?_, by simpa using hg⟩
  simp only [Ring.finishMessage, Ring.view, hsize, Rec.span]

/-- The consumer by itself takes `n` steps. -/
def consSteps : Nat → Ring → Option Ring
  | 0, r => some r
  | n + 1, r => r.consStep.bind (consSteps n)

/-- A consumer that asks while messages are on the ring is given the first of them. -/
theorem Fifo.next {k : Nat} {q : Prepared} {qs : List Prepared} (h : Fifo r done pub new A C)
    (hc : r.cpc = .readProd k) (hm : msgs pub = q :: qs) :
    ∃ n t, consSteps n r = some t ∧ t.cpc = .held ∧ t.got = r.got ++ [q.msg] := by
  induction pub generalizing r C with
  | nil => simp at hm
  | cons x pub ih =>
    have h1 : r.consStep = some { r with cpc := .readHdr k } := by
      simp only [Ring.consStep, hc]
      rw [if_neg fun e => by cases h.prod_eq_iff.mp e]
    have hf : Fifo { r with cpc := .readHdr k } done (x :: pub) new A C := h.keep rfl
    have h2 : ({ r with cpc := .readHdr k } : Ring).consStep =
        some (({ r with cpc := .readHdr k } : Ring).readHdr k) := rfl
    rcases hf.readHdr (n := k) with ⟨j, rfl, h3, h4, h5, -⟩ | ⟨q', rfl, h3, h4, -⟩
    · obtain ⟨n, t, hn, ht1, ht2⟩ := ih h5 h3 hm
      exact ⟨n + 2, t, by simp only [consSteps, h1, h2, Option.bind_some, hn], ht1, by rw [ht2, h4]⟩
    · simp only [msgs_msg, List.cons.injEq] at hm
      exact ⟨2, _, by simp only [consSteps, h1, h2, Option.bind_some], h3, by rw [h4, hm.1]⟩

end Consumer

/-! ## Runs -/

section Run

variable {r r' : Ring}

/-- The sizes of a message survive their conversions: `msg_size` that of the addition of the
header, and the rounded size and the space for it and its padding that to `unsigned short`. -/
def SizeOk (r : Ring) (msgSize : Nat) : Prop :=
  msgSize + 11 < 18446744073709551616 ∧ (roundup8 (msgSize + hdrSize) ≤ r.payloadBytes →
    msgSize ≤ 65524 ∧ r.need (roundup8 (msgSize + hdrSize)) < 65536)

instance (r : Ring) (n : Nat) : Decidable (SizeOk r n) := inferInstanceAs (Decidable (_ ∧ _))

/-- The sizes of messages survive, and stores go to messages that were not flushed yet. -/
def RingOk (r : Ring) : RingAct → Prop
  | .prep msgSize _ _ => SizeOk r msgSize
  | .write i _ _ => r.published ≤ i
  | _ => True

instance (r : Ring) (a : RingAct) : Decidable (RingOk r a) :=
  match a with
  | .prep n _ _ => inferInstanceAs (Decidable (SizeOk r n))
  | .write i _ _ => inferInstanceAs (Decidable (r.published ≤ i))
  | .send | .producer | .get | .finish | .fastReceive _ | .consumer => isTrue trivial

def InFifo (r : Ring) : Prop :=
  ∃ done pub new A C, Fifo r done pub new A C ∧ ProdAt Survives r r.ppc ∧ ConsAt r done pub r.cpc ∧
    r.getStatus ≠ .dataError

theorem inFifo_attach {order : Nat} (ho : order ≤ 4) : InFifo (attachRings order) := by
  refine ⟨[], [], [], 0, 0, ⟨⟨order, ho, rfl⟩, rfl, rfl, rfl, rfl, rfl, rfl, Nat.le_refl _, ?_, ?_,
    trivial, rfl, rfl⟩, trivial, rfl, by simp [attachRings]⟩
  · simp [attachRings]
  · exact Nat.dvd_zero 8

/-- The locals of a call with sizes that survive. -/
theorem prepMessage_prodAt {msgSize : Nat} (type flags : UInt8) (hok : SizeOk r msgSize)
    (hi : r.ppc = .idle) :
    ProdAt Survives (r.prepMessage msgSize type flags) (r.prepMessage msgSize type flags).ppc := by
  obtain ⟨hlt, hok⟩ := hok
  have e1 : sizeT (msgSize + hdrSize) = msgSize + hdrSize :=
    Nat.mod_eq_of_lt (by simp only [hdrSize]; omega)
  have e2 : sizeT (msgSize + hdrSize + 7) / 8 * 8 = roundup8 (msgSize + hdrSize) := by
    simp only [sizeT, hdrSize, roundup8]; omega
  unfold Ring.prepMessage
  simp only [e1, e2]
  split
  · simp only [hi]; trivial
  · next hle =>
    obtain ⟨hsmall, hneed⟩ := hok (by omega)
    have e3 : u16 (msgSize + hdrSize) = msgSize + hdrSize :=
      Nat.mod_eq_of_lt (by simp only [hdrSize]; omega)
    have e4 : u16 (roundup8 (msgSize + hdrSize)) = roundup8 (msgSize + hdrSize) :=
      Nat.mod_eq_of_lt (by unfold roundup8 hdrSize; omega)
    simp only [e3, e4]
    split
    · simp only [hi]; trivial
    · next htype =>
      refine ⟨by simp only; omega, hneed, rfl, rfl, by simp only [hdrSize]; omega, fun e => htype ?_⟩
      simp only at e
      rw [e]
      exact UInt8.le_refl _

theorem InFifo.step {a : RingAct} (h : InFifo r) (hok : RingOk r a) (hs : ringStep r a = some r') :
    InFifo r' := by
  obtain ⟨done, pub, new, A, C, hf, hp, hc, hst⟩ := h
  cases a with
  | prep msgSize type flags =>
    obtain ⟨hi, hs⟩ := Option.ite_none_right_eq_some.mp hs
    simp only [Option.some.injEq] at hs
    subst hs
    have hp' := prepMessage_prodAt type flags hok hi
    have hv : (r.prepMessage msgSize type flags).view = r.view := by
      unfold Ring.prepMessage; simp only; split <;> (try split) <;> rfl
    have hcv : SameCons r (r.prepMessage msgSize type flags) := prepMessage_sameCons _ _ _
    exact ⟨done, pub, new, A, C, hf.keep hv, hp', hc.keep hcv, by rw [hcv.getStatus]; exact hst⟩
  | write i off xs =>
    obtain ⟨hi, hs⟩ := Option.ite_none_right_eq_some.mp hs
    obtain ⟨new', hf'⟩ := hf.writePayload hok hs
    have hcv := writePayload_sameCons hs
    refine ⟨done, pub, new', A, C, hf', ?_, hc.keep hcv, by rw [hcv.getStatus]; exact hst⟩
    rw [writePayload_ppc hs, hi]
    trivial
  | send =>
    obtain ⟨-, hs⟩ := Option.ite_none_right_eq_some.mp hs
    simp only [Option.some.injEq] at hs
    subst hs
    exact ⟨done, pub, new, A, C, hf.keep rfl, by simp [ProdAt], hc, hst⟩
  | producer =>
    obtain ⟨pub', new', hf', hp'⟩ := hf.prodStep hp hs
    have hcv := prodStep_sameCons hs
    exact ⟨done, pub ++ pub', new', A, C, hf', hp', by rw [hcv.cpc]; exact hc.grow pub' hcv,
      by rw [hcv.getStatus]; exact hst⟩
  | get =>
    obtain ⟨hi, hs⟩ := Option.ite_none_right_eq_some.mp hs
    simp only [Option.some.injEq] at hs
    rw [hi] at hc
    subst hs
    exact ⟨done, pub, new, A, C, hf.keep rfl, hp.keep rfl rfl rfl, hc, by simp⟩
  | finish =>
    obtain ⟨hi, hs⟩ := Option.ite_none_right_eq_some.mp hs
    simp only [Option.some.injEq] at hs
    rw [hi] at hc
    obtain ⟨q, pub', rfl, hf', hg⟩ := hf.finishMessage hc
    subst hs
    exact ⟨_, pub', new, A, _, hf', hp.keep rfl rfl rfl, hg, hst⟩
  | fastReceive on =>
    obtain ⟨-, hs⟩ := Option.ite_none_right_eq_some.mp hs
    simp only [Option.some.injEq] at hs
    subst hs
    exact ⟨done, pub, new, A, C, hf.keep rfl, hp.keep rfl rfl rfl, hc, hst⟩
  | consumer =>
    obtain ⟨done', pub', A', C', hf', hc', hst'⟩ := hf.consStep hc hst hs
    have hpv := consStep_sameProd hs
    have hp' := hp.keep hpv.payloadBytes hpv.localProdPvt hpv.localProdBytesAvailable
    exact ⟨done', pub', new, A', C', hf', by rw [hpv.ppc]; exact hp', hc', hst'⟩

theorem inFifo_of_reach {order : Nat} (ho : order ≤ 4) (h : (ringMachine order).Reach RingOk r) :
    InFifo r :=
  h.inv (inFifo_attach ho) fun _ _ _ hi hok hs => hi.step hok hs

/-- The producer by itself takes `n` steps. -/
def prodSteps : Nat → Ring → Option Ring
  | 0, r => some r
  | n + 1, r => r.prodStep.bind (prodSteps n)

theorem prodSteps_cons {P : Ring → Prop} (h : r.prodStep = some r')
    (ht : ∃ n t, prodSteps n r' = some t ∧ P t) : ∃ n t, prodSteps n r = some t ∧ P t := by
  obtain ⟨n, t, hn, ht⟩ := ht
  exact ⟨n + 1, t, by rw [prodSteps, h, Option.bind_some, hn], ht⟩

theorem send_flushes (h : r.ppc = .idle) : ∃ n t, (ringStep r .send).bind (prodSteps n) = some t ∧
    t.ppc = .idle ∧ t.sent = r.sent ∧ t.published = r.sent.length := by
  simp only [ringStep, h, if_true, Option.bind_some]
  refine prodSteps_cons rfl (prodSteps_cons rfl ?_)
  dsimp only
  split
  · apply prodSteps_cons rfl
    dsimp only
    split
    · exact prodSteps_cons rfl ⟨0, _, rfl, rfl, rfl, rfl⟩
    · exact ⟨0, _, rfl, rfl, rfl, rfl⟩
  · exact ⟨0, _, rfl, rfl, rfl, rfl⟩

/-- What the consumer was given are the first of the messages sent, each once and unchanged, and it
can always go on to the next. -/
structure Delivered (r : Ring) : Prop where
  inOrder : r.got <+: r.sent.map (·.msg)
  flushed : r.got.length ≤ r.published
  shown : r.cpc = .held → ∃ m, r.got.getLast? = some m ∧ r.currentMessageSize = m.payload.length ∧
    bytes r.payload (r.incomingMessage + hdrSize) m.payload.length = m.payload
  noError : r.getStatus ≠ .dataError
  send : r.ppc = .idle → ∃ n t, (ringStep r .send).bind (prodSteps n) = some t ∧ t.ppc = .idle ∧
    t.sent = r.sent ∧ t.published = r.sent.length
  next : r.cpc = .idle → r.got.length < r.published → ∃ n t m,
    (ringStep r .get).bind (consSteps n) = some t ∧ t.cpc = .held ∧
    (r.sent.map (·.msg))[r.got.length]? = some m ∧ t.got = r.got ++ [m]

theorem ConsAt.got_eq {done : List Prepared} {pub : List Rec} {pc : ConsPc}
    (h : ConsAt r done pub pc) (hne : pc ≠ .held) : r.got = done.map (·.msg) := by
  cases pc with
  | held => exact absurd rfl hne
  | readHdr n => exact h.2
  | _ => exact h

theorem InFifo.delivered (h : InFifo r) : Delivered r := by
  obtain ⟨done, pub, new, A, C, hf, -, hc, hst⟩ := h
  refine ⟨?_, ?_, fun hheld => ?_, hst, send_flushes, fun hidle hlt => ?_⟩
  · by_cases hheld : r.cpc = .held
    · rw [hheld] at hc
      obtain ⟨q, rest, rfl, hg, -⟩ := hc
      exact ⟨(msgs rest ++ msgs new).map (·.msg), by simp [hf.sent, hg]⟩
    · exact ⟨(msgs pub ++ msgs new).map (·.msg), by simp [hf.sent, hc.got_eq hheld]⟩
  · rw [hf.published]
    by_cases hheld : r.cpc = .held
    · rw [hheld] at hc
      obtain ⟨q, rest, rfl, hg, -⟩ := hc
      simp [hg]
    · simp [hc.got_eq hheld]
  · rw [hheld] at hc
    obtain ⟨q, rest, rfl, hg, hsize⟩ := hc
    refine ⟨q.msg, by rw [hg]; simp, hsize, ?_⟩
    rw [hf.incoming]
    exact hf.laid.1.read.2.2.2
  · rw [hidle] at hc
    have hg : r.got = done.map (·.msg) := hc
    rw [hf.published, hg] at hlt
    cases hm : msgs pub with
    | nil => simp [hm] at hlt
    | cons q qs =>
      have hf' : Fifo { r with getStatus := .none, cpc := .readProd 0 } done pub new A C := hf.keep rfl
      obtain ⟨n, t, h1, h2, h3⟩ := hf'.next rfl hm
      refine ⟨n, t, q.msg, ?_, h2, ?_, h3⟩
      · simp only [ringStep, hidle, if_true, Option.bind_some]; exact h1
      · simp [hf.sent, hg, hm]

end Run

/-- Every message prepared arrives once, in order and unchanged, while the sizes survive their
conversions and payloads are stored before they are flushed. -/
theorem messages_delivered {order : Side → Nat} (ho : ∀ x, order x ≤ 4) {s : Side → Ring}
    (h : (channelMachine order).Reach (fun s a => RingOk (s a.1) a.2) s) (x : Side) :
    Delivered (s x) :=
  (inFifo_of_reach (ho x) (h.proj x)).delivered

/-- The largest message a ring of order 3 admits, sent once. -/
def wholeRing : List RingAct :=
  List.flatten [[.prep 32764 1 0], .replicate 5 .producer, [.send], .replicate 3 .producer,
    [.get], .replicate 2 .consumer, [.finish], .replicate 2 .consumer, [.get],
    .replicate 2 .consumer]

/-- Two bytes stored, sent and received. -/
def twoBytes : List RingAct :=
  List.flatten [[.prep 2 7 3], .replicate 5 .producer, [.write 0 0 [65, 66], .send],
    .replicate 3 .producer, [.get], .replicate 2 .consumer]

/-- The message and its padding need `2^16` bytes, which an `unsigned short` takes for none: the
message overwrites its own padding and is found a second time. -/
theorem message_delivered_twice : ∃ s, (channelMachine fun _ => 3).Reach Machine.Any s ∧
    (s .temple).sent.length = 1 ∧ (s .temple).got.length = 2 ∧
    ¬ (s .temple).got <+: (s .temple).sent.map (·.msg) := by
  obtain ⟨s, hr, hs⟩ := Machine.exists_reach (channelMachine fun _ => 3) Machine.Any
    (fun s => (s .temple).sent.length = 1 ∧ (s .temple).got.length = 2)
    (wholeRing.map (Prod.mk .temple)) (by decide +kernel)
  simp only [decide_eq_true_eq] at hs
  refine ⟨s, hr, hs.1, hs.2, fun hp => ?_⟩
  have := hp.length_le
  rw [List.length_map] at this
  omega

theorem messages_delivered_run : ∃ s, (channelMachine fun _ => 0).Reach
    (fun s a => RingOk (s a.1) a.2) s ∧ (s .supplicant).got = [⟨7, 3, [65, 66]⟩] ∧
    Delivered (s .supplicant) := by
  obtain ⟨s, hr, hs⟩ := Machine.exists_reach (channelMachine fun _ => 0)
    (fun s a => RingOk (s a.1) a.2) (fun s => (s .supplicant).got = [⟨7, 3, [65, 66]⟩])
    (twoBytes.map (Prod.mk .supplicant)) (by decide +kernel)
  exact ⟨s, hr, by simpa using hs, messages_delivered (by simp) hr .supplicant⟩

end XcWindows.V2v
