import Mathlib.Algebra.GroupWithZero.Nat
import XcWindows.Lib.Circ

/-!
# The v4v message ring

`inc/v4v.h`: a ring is `len` bytes of memory shared with Xen, read from `rx_ptr` up to `tx_ptr`.
Every message is a 16-byte header followed by its data, padded to 16 bytes; the data wraps at the
end of the ring, the header never does. `v4vCopyOut` and `v4vCopyOutOffset` are the two readers,
for any content of the memory. `Holds r ms` says that the unread part of a ring is the messages
`ms` in the layout Xen writes (`xenPut`); on such a ring the readers return the first message
(`copyOut_holds`, `copyOutOffset_holds`) and step over it (`Holds.advance`).
-/

namespace XcWindows.V4v

open Lib

/-- `struct v4v_addr` -/
structure Addr where
  port : Nat
  domain : Nat
deriving DecidableEq, Repr

/-- `struct v4v_ring`; an address outside the ring holds whatever memory is there. -/
structure Ring where
  len : Nat
  rxPtr : Nat
  txPtr : Nat
  ring : Nat → UInt8

/-- `V4V_ROUNDUP` on 32 bits. -/
def v4vRoundup (a : Nat) : Nat := u32 (a + 15) / 16 * 16

/-- `sizeof (struct v4v_ring_message_header)` -/
abbrev headerSize : Nat := 16

/-- A little-endian `uint16_t`. -/
def u16At (m : Nat → UInt8) (a : Nat) : Nat := (m a).toNat + 256 * (m (a + 1)).toNat

/-- A little-endian `uint32_t`. -/
def u32At (m : Nat → UInt8) (a : Nat) : Nat := u16At m a + 65536 * u16At m (a + 2)

def addrAt (m : Nat → UInt8) (a : Nat) : Addr := ⟨u32At m a, u16At m (a + 4)⟩

/-- Conversion to `int`. -/
def int32 (n : Nat) : Int := if n < 2147483648 then n else (n : Int) - 4294967296

def v4vRingBytesToRead (r : Ring) : Nat :=
  let ret := sub32 r.txPtr r.rxPtr
  if ret < 2147483648 then ret else u32 (r.len + ret)

/-- The header at `rx_ptr`: the data length and the address after the header; `none` is `-1`. -/
def v4vHeader (r : Ring) : Option (Nat × Nat) :=
  let btr := v4vRingBytesToRead r
  if btr < headerSize then none
  else
    let len := u32At r.ring r.rxPtr
    if btr < len then none
    else
      let rxp := u32 (r.rxPtr + headerSize)
      some (sub32 len headerSize, if rxp = r.len then 0 else rxp)

/-- The (at most) two pieces of the ring that `t` bytes of the data are copied from, and the index
behind the message. -/
def v4vPieces (r : Ring) (len rxp t : Nat) : (Nat × Nat) × (Nat × Nat) × Nat :=
  let bte := sub32 r.len rxp
  let wrap rxp := if rxp = r.len then 0 else rxp
  if bte < len then
    if t < bte then ((rxp, t), (0, 0), wrap (u32 (v4vRoundup (len - bte))))
    else ((rxp, bte), (0, min (t - bte) (len - bte)), wrap (u32 (v4vRoundup (len - bte))))
  else ((rxp, 0), (rxp, min t len), wrap (u32 (rxp + v4vRoundup len)))

/-- What a reader returns: its result, the out parameters, the bytes stored at `_buf` and the
ring. -/
structure Copied where
  ret : Int
  source : Addr
  protocol : Nat
  data : List UInt8
  ring : Ring

/-- `v4v_copy_out`; `buf` is whether the buffer is not `NULL`. -/
def v4vCopyOut (r : Ring) (buf : Bool) (t : Nat) (consume : Bool) : Option Copied :=
  (v4vHeader r).map fun (len, rxp) =>
    let (fst, snd, rxp) := v4vPieces r len rxp t
    { ret := int32 len
      source := addrAt r.ring (r.rxPtr + 4)
      protocol := u32At r.ring (r.rxPtr + 12)
      data := if buf then bytes r.ring fst.1 fst.2 ++ bytes r.ring snd.1 snd.2 else []
      ring := if consume then { r with rxPtr := rxp } else r }

/-- `v4v_memcpy_skip`: the bytes that are stored, and the rest of the skip. -/
def v4vMemcpySkip (src : List UInt8) (skip : Nat) : List UInt8 × Nat :=
  if skip = 0 then (src, 0)
  else if src.length ≤ skip then ([], skip - src.length)
  else (src.drop skip, 0)

/-- `v4v_copy_out_offset`; the buffer starts `skip` bytes before `_buf`, so that the first byte
that is not skipped is stored at `_buf`. -/
def v4vCopyOutOffset (r : Ring) (buf : Bool) (t : Nat) (consume : Bool) (skip : Nat) :
    Option Copied :=
  (v4vHeader r).map fun (len, rxp) =>
    let (fst, snd, rxp) := v4vPieces r len rxp t
    let (d1, skip) := v4vMemcpySkip (bytes r.ring fst.1 fst.2) skip
    let (d2, _) := v4vMemcpySkip (bytes r.ring snd.1 snd.2) skip
    { ret := int32 len
      source := addrAt r.ring (r.rxPtr + 4)
      protocol := u32At r.ring (r.rxPtr + 12)
      data := if buf then d1 ++ d2 else []
      ring := if consume then { r with rxPtr := rxp } else r }

/-! ### The layout Xen writes -/

/-- A message: its source, its protocol and its data. -/
structure Msg where
  source : Addr
  protocol : Nat
  data : List UInt8
deriving DecidableEq, Repr

/-- The fields fit their types. -/
structure Msg.Fits (m : Msg) : Prop where
  port : m.source.port < 4294967296
  domain : m.source.domain < 65536
  protocol : m.protocol < 4294967296

/-- The bytes a message takes on the ring. -/
def Msg.span (m : Msg) : Nat := headerSize + (m.data.length + 15) / 16 * 16

def span (ms : List Msg) : Nat := (ms.map Msg.span).sum

@[simp] theorem span_nil : span [] = 0 := rfl

@[simp] theorem span_cons (m : Msg) (ms : List Msg) : span (m :: ms) = m.span + span ms := by
  simp [span]

theorem span_append (as bs : List Msg) : span (as ++ bs) = span as + span bs := by
  simp [span]

theorem Msg.dvd_span (m : Msg) : 16 ∣ m.span := by
  simp only [Msg.span, headerSize]; omega

theorem dvd_span (ms : List Msg) : 16 ∣ span ms := by
  induction ms with
  | nil => simp
  | cons m ms ih => rw [span_cons]; exact Nat.dvd_add m.dvd_span ih

/-- The messages lie behind each other from position `p` on. -/
def Laid (mem : Nat → UInt8) (R : Nat) : Nat → List Msg → Prop
  | _, [] => True
  | p, m :: ms =>
    u32At mem (p % R) = headerSize + m.data.length ∧ addrAt mem (p % R + 4) = m.source ∧
    u32At mem (p % R + 12) = m.protocol ∧ window mem R (p + headerSize) m.data.length = m.data ∧
    Laid mem R (p + m.span) ms

/-- The unread part of the ring is `ms`. -/
structure Holds (r : Ring) (ms : List Msg) : Prop where
  pos : 0 < r.len
  len16 : 16 ∣ r.len
  small : r.len ≤ 2147483648
  rx16 : 16 ∣ r.rxPtr
  rx_lt : r.rxPtr < r.len
  room : span ms < r.len
  tx : r.txPtr = (r.rxPtr + span ms) % r.len
  laid : Laid r.ring r.len r.rxPtr ms

def le16 (n : Nat) : List UInt8 := [UInt8.ofNat n, UInt8.ofNat (n / 256)]

def le32 (n : Nat) : List UInt8 := le16 n ++ le16 (n / 65536)

/-- `struct v4v_ring_message_header` -/
def Msg.header (m : Msg) : List UInt8 :=
  le32 (headerSize + m.data.length) ++ le32 m.source.port ++ le16 m.source.domain ++ le16 0 ++
    le32 m.protocol

/-- Xen puts a message on the ring. -/
def xenPut (r : Ring) (m : Msg) : Ring :=
  { r with
    ring := circBlit r.ring r.len r.txPtr (m.header ++ m.data)
    txPtr := (r.txPtr + m.span) % r.len }

/-- The ring after the message `m` has been consumed. -/
def Ring.advance (r : Ring) (m : Msg) : Ring := { r with rxPtr := (r.rxPtr + m.span) % r.len }

theorem Msg.le_span (m : Msg) : headerSize + m.data.length ≤ m.span := by
  simp only [Msg.span, headerSize]; omega

theorem Msg.span_pos (m : Msg) : 0 < m.span := by
  simp only [Msg.span, headerSize]; omega

theorem laid_congr {mem : Nat → UInt8} {R p q : Nat} {ms : List Msg} (h : p % R = q % R) :
    Laid mem R p ms → Laid mem R q ms := by
  induction ms generalizing p q with
  | nil => exact id
  | cons m ms ih =>
    rintro ⟨hlen, hsrc, hpro, hdat, htl⟩
    have hd : (p + headerSize) % R = (q + headerSize) % R := by rw [Nat.add_mod, h, ← Nat.add_mod]
    have hn : (p + m.span) % R = (q + m.span) % R := by rw [Nat.add_mod, h, ← Nat.add_mod]
    exact ⟨h ▸ hlen, h ▸ hsrc, h ▸ hpro, window_congr_pos hd ▸ hdat, ih hn htl⟩

theorem Holds.advance {r : Ring} {m : Msg} {ms : List Msg} (h : Holds r (m :: ms)) :
    Holds (r.advance m) ms := by
  have hroom := h.room
  simp only [span_cons] at hroom
  refine ⟨h.pos, h.len16, h.small, ?_, Nat.mod_lt _ h.pos, by simp only [Ring.advance]; omega, ?_, ?_⟩
  · exact (Nat.dvd_mod_iff h.len16).mpr (Nat.dvd_add h.rx16 m.dvd_span)
  · simp only [Ring.advance, h.tx, span_cons, Nat.mod_add_mod, Nat.add_assoc]
  · obtain ⟨-, -, -, -, htl⟩ := h.laid
    exact laid_congr (by simp only [Ring.advance, Nat.mod_mod]) htl

theorem Holds.bytesToRead {r : Ring} {ms : List Msg} (h : Holds r ms) :
    v4vRingBytesToRead r = span ms := by
  have := h.rx_lt
  have := h.small
  have := h.room
  have hmod : r.txPtr = if r.rxPtr + span ms < r.len then r.rxPtr + span ms
      else r.rxPtr + span ms - r.len := by
    rw [h.tx]
    split
    · next hlt => exact Nat.mod_eq_of_lt hlt
    · next hge => rw [Nat.mod_eq_sub_mod (by omega), Nat.mod_eq_of_lt (by omega)]
  unfold v4vRingBytesToRead
  simp only [sub32, u32]
  split at hmod <;> split <;> omega

theorem Holds.rx_eq_tx {r : Ring} {ms : List Msg} (h : Holds r ms) :
    r.rxPtr = r.txPtr ↔ ms = [] := by
  constructor
  · intro e
    have hb := h.bytesToRead
    simp only [v4vRingBytesToRead, e, sub32, u32] at hb
    cases ms with
    | nil => rfl
    | cons m ms =>
      have := m.span_pos
      simp only [span_cons] at hb
      split at hb <;> omega
  · rintro rfl
    rw [h.tx]
    simp [Nat.mod_eq_of_lt h.rx_lt]

theorem Holds.empty {r : Ring} (h : Holds r []) : v4vHeader r = none := by
  simp [v4vHeader, h.bytesToRead, headerSize]

theorem v4vRoundup_eq {n : Nat} (h : n + 15 < 4294967296) : v4vRoundup n = (n + 15) / 16 * 16 := by
  simp only [v4vRoundup, u32, Nat.mod_eq_of_lt h]

section Read
variable {r : Ring} {m : Msg} {ms : List Msg}

theorem Holds.header (h : Holds r (m :: ms)) :
    v4vHeader r = some (m.data.length, (r.rxPtr + headerSize) % r.len) := by
  have hroom := h.room
  have hsmall := h.small
  have hrx := h.rx_lt
  have hle := m.le_span
  have hb := h.bytesToRead
  simp only [span_cons, headerSize] at hroom hle hb
  obtain ⟨hlen, -⟩ := h.laid
  rw [Nat.mod_eq_of_lt hrx] at hlen
  obtain ⟨a, ha⟩ := h.len16
  obtain ⟨b, hb'⟩ := h.rx16
  have hwrap : (r.rxPtr + 16) % r.len = if r.rxPtr + 16 = r.len then 0 else r.rxPtr + 16 := by
    split
    · next e => rw [e, Nat.mod_self]
    · exact Nat.mod_eq_of_lt (by omega)
  simp only [headerSize] at hlen
  have hsub : sub32 (16 + m.data.length) 16 = m.data.length := by simp only [sub32]; omega
  have hrxp : u32 (r.rxPtr + 16) = r.rxPtr + 16 := Nat.mod_eq_of_lt (by omega)
  simp only [v4vHeader, hb, hlen, headerSize, hwrap, hsub, hrxp]
  rw [if_neg (by omega), if_neg (by omega)]

theorem Holds.pieces (h : Holds r (m :: ms)) (t : Nat) :
    ∃ a n b k, v4vPieces r m.data.length ((r.rxPtr + headerSize) % r.len) t =
        ((a, n), (b, k), (r.rxPtr + m.span) % r.len) ∧
      bytes r.ring a n ++ bytes r.ring b k = m.data.take t := by
  have hroom := h.room
  have hsmall := h.small
  have hrx := h.rx_lt
  obtain ⟨-, -, -, hdat, -⟩ := h.laid
  obtain ⟨a, ha⟩ := h.len16
  obtain ⟨b, hb⟩ := h.rx16
  have hdat' : window r.ring r.len ((r.rxPtr + headerSize) % r.len) m.data.length = m.data :=
    (window_congr_pos (by rw [Nat.mod_mod])).trans hdat
  -- the address `x` of the data, 16-aligned, and the index behind the message
  obtain ⟨x, c, hx, hc, hxlt, hend⟩ : ∃ x c, (r.rxPtr + headerSize) % r.len = x ∧ x = 16 * c ∧
      x < r.len ∧ (r.rxPtr + m.span) % r.len = (x + (m.data.length + 15) / 16 * 16) % r.len := by
    refine ⟨_, (r.rxPtr + headerSize) % r.len / 16, rfl, ?_, Nat.mod_lt _ h.pos, ?_⟩
    · have : 16 ∣ (r.rxPtr + headerSize) % r.len :=
        (Nat.dvd_mod_iff h.len16).mpr (Nat.dvd_add h.rx16 (by simp [headerSize]))
      omega
    · simp only [Msg.span, Nat.mod_add_mod, Nat.add_assoc]
  rw [hx] at hdat' ⊢
  simp only [span_cons, Msg.span, headerSize] at hroom
  have hbte : sub32 r.len x = r.len - x := by simp only [sub32]; omega
  unfold v4vPieces
  simp only [hbte, hend]
  split
  · next hlt =>
    have hsplit := window_add r.ring r.len x (r.len - x) (m.data.length - (r.len - x))
    rw [show r.len - x + (m.data.length - (r.len - x)) = m.data.length by omega,
      show x + (r.len - x) = r.len by omega, hdat'] at hsplit
    have hrnd : v4vRoundup (m.data.length - (r.len - x)) =
        (m.data.length + 15) / 16 * 16 - (r.len - x) := by
      rw [v4vRoundup_eq (by omega)]; omega
    have hrxp : (x + (m.data.length + 15) / 16 * 16) % r.len =
        (m.data.length + 15) / 16 * 16 - (r.len - x) := by
      rw [Nat.mod_eq_sub_mod (by omega), Nat.mod_eq_of_lt (by omega)]; omega
    have hw : (if u32 (v4vRoundup (m.data.length - (r.len - x))) = r.len then 0
        else u32 (v4vRoundup (m.data.length - (r.len - x)))) =
        (x + (m.data.length + 15) / 16 * 16) % r.len := by
      rw [hrnd, hrxp]; simp only [u32]; rw [Nat.mod_eq_of_lt (by omega), if_neg (by omega)]
    rw [hw]
    split
    · next ht =>
      refine ⟨x, t, 0, 0, rfl, ?_⟩
      rw [bytes_zero, List.append_nil, bytes_eq_window (R := r.len) (by omega), ← hdat',
        take_window (by omega)]
    · next ht =>
      refine ⟨x, r.len - x, 0, _, rfl, ?_⟩
      have htake : m.data.take t = window r.ring r.len x (r.len - x) ++
          (window r.ring r.len 0 (m.data.length - (r.len - x))).take (t - (r.len - x)) := by
        conv_lhs => rw [hsplit]
        rw [List.take_append, length_window, List.take_of_length_le (by simp; omega),
          window_congr_pos (p := r.len) (q := 0) (by simp)]
      rw [bytes_eq_window (R := r.len) (by omega), bytes_eq_window (R := r.len) (by omega), htake]
      rcases Nat.le_total (t - (r.len - x)) (m.data.length - (r.len - x)) with hm | hm
      · rw [Nat.min_eq_left hm, take_window hm]
      · rw [Nat.min_eq_right hm, List.take_of_length_le (by simp; omega)]
  · next hge =>
    refine ⟨x, 0, x, min t m.data.length, ?_, ?_⟩
    · congr 2
      rw [v4vRoundup_eq (by omega)]
      simp only [u32]
      rw [Nat.mod_eq_of_lt (a := x + _) (b := 4294967296) (by omega)]
      split
      · next e => rw [e, Nat.mod_self]
      · exact (Nat.mod_eq_of_lt (by omega)).symm
    · rw [bytes_zero, List.nil_append, bytes_eq_window (R := r.len) (by omega)]
      rcases Nat.le_total t m.data.length with hm | hm
      · rw [Nat.min_eq_left hm, ← take_window hm, hdat']
      · rw [Nat.min_eq_right hm, hdat', List.take_of_length_le hm]

theorem Holds.int32_length (h : Holds r (m :: ms)) : int32 m.data.length = m.data.length := by
  have h1 := h.room
  have h2 := h.small
  have h3 := m.le_span
  simp only [span_cons, headerSize] at h1 h3
  exact if_pos (by omega)

theorem copyOut_holds (h : Holds r (m :: ms)) (buf : Bool) (t : Nat) (consume : Bool) :
    v4vCopyOut r buf t consume = some
      { ret := m.data.length, source := m.source, protocol := m.protocol
        data := if buf then m.data.take t else []
        ring := if consume then r.advance m else r } := by
  obtain ⟨a, n, b, k, hp, hd⟩ := h.pieces t
  obtain ⟨-, hsrc, hpro, -, -⟩ := h.laid
  rw [Nat.mod_eq_of_lt h.rx_lt] at hsrc hpro
  simp only [v4vCopyOut, h.header, Option.map_some, hp, hd, hsrc, hpro, h.int32_length, Ring.advance]

theorem memcpySkip_two (as bs : List UInt8) (skip : Nat) :
    (v4vMemcpySkip as skip).1 ++ (v4vMemcpySkip bs (v4vMemcpySkip as skip).2).1 =
      (as ++ bs).drop skip := by
  unfold v4vMemcpySkip
  by_cases h0 : skip = 0
  · simp [h0]
  by_cases h1 : as.length ≤ skip
  · rw [if_neg h0, if_pos h1, List.drop_append, List.drop_of_length_le h1]
    simp only [List.nil_append]
    split
    · next e => simp [e]
    · split
      · next e => rw [List.drop_of_length_le e]
      · rfl
  · rw [if_neg h0, if_neg h1, List.drop_append_of_le_length (by omega)]
    simp

theorem copyOutOffset_holds (h : Holds r (m :: ms)) (t : Nat) (consume : Bool) (skip : Nat) :
    v4vCopyOutOffset r true t consume skip = some
      { ret := m.data.length, source := m.source, protocol := m.protocol
        data := (m.data.take t).drop skip
        ring := if consume then r.advance m else r } := by
  obtain ⟨a, n, b, k, hp, hd⟩ := h.pieces t
  obtain ⟨-, hsrc, hpro, -, -⟩ := h.laid
  rw [Nat.mod_eq_of_lt h.rx_lt] at hsrc hpro
  simp only [v4vCopyOutOffset, h.header, Option.map_some, hp, hsrc, hpro, h.int32_length,
    Ring.advance, if_true, memcpySkip_two, hd]

theorem copyOut_empty (h : Holds r []) (buf : Bool) (t : Nat) (consume : Bool) :
    v4vCopyOut r buf t consume = none := by
  simp [v4vCopyOut, h.empty]

end Read

/-! ### Putting a message -/

theorem u16At_congr {mem mem' : Nat → UInt8} {a : Nat} (h : ∀ i, i < 2 → mem (a + i) = mem' (a + i)) :
    u16At mem a = u16At mem' a := by
  have h0 := h 0 (by omega)
  have h1 := h 1 (by omega)
  simp only [Nat.add_zero] at h0
  simp only [u16At, h0, h1]

theorem u32At_congr {mem mem' : Nat → UInt8} {a : Nat} (h : ∀ i, i < 4 → mem (a + i) = mem' (a + i)) :
    u32At mem a = u32At mem' a := by
  have h0 : u16At mem a = u16At mem' a := u16At_congr fun i hi => h i (by omega)
  have h2 : u16At mem (a + 2) = u16At mem' (a + 2) :=
    u16At_congr fun i hi => by simpa [Nat.add_assoc] using h (2 + i) (by omega)
  simp only [u32At, h0, h2]

theorem addrAt_congr {mem mem' : Nat → UInt8} {a : Nat} (h : ∀ i, i < 6 → mem (a + i) = mem' (a + i)) :
    addrAt mem a = addrAt mem' a := by
  have h0 : u32At mem a = u32At mem' a := u32At_congr fun i hi => h i (by omega)
  have h4 : u16At mem (a + 4) = u16At mem' (a + 4) :=
    u16At_congr fun i hi => by simpa [Nat.add_assoc] using h (4 + i) (by omega)
  simp only [addrAt, h0, h4]

theorem header_cell {R p i : Nat} (hR : 0 < R) (h16 : 16 ∣ R) (hp : 16 ∣ p) (hi : i < 16) :
    (p + i) % R = p % R + i := by
  have hlt := Nat.mod_lt p hR
  have : 16 ∣ p % R := (Nat.dvd_mod_iff h16).mpr hp
  rw [Nat.add_mod, Nat.mod_eq_of_lt (show i < R by omega), Nat.mod_eq_of_lt (by omega)]

theorem laid_frame {mem mem' : Nat → UInt8} {R p : Nat} {ms : List Msg} (hR : 0 < R) (h16 : 16 ∣ R)
    (hp : 16 ∣ p) (h : ∀ i, i < span ms → mem' ((p + i) % R) = mem ((p + i) % R)) :
    Laid mem R p ms → Laid mem' R p ms := by
  induction ms generalizing p with
  | nil => exact id
  | cons m ms ih =>
    rintro ⟨hlen, hsrc, hpro, hdat, htl⟩
    have hle := m.le_span
    simp only [span_cons, headerSize] at h hle
    have hc : ∀ i, i < 16 → mem' (p % R + i) = mem (p % R + i) := by
      intro i hi
      rw [← header_cell hR h16 hp hi]
      exact h i (by omega)
    refine ⟨?_, ?_, ?_, ?_, ih (Nat.dvd_add hp m.dvd_span) (fun i hi => ?_) htl⟩
    · rw [← hlen]; exact u32At_congr fun i hi => hc i (by omega)
    · rw [← hsrc]
      exact addrAt_congr fun i hi => by simpa [Nat.add_assoc] using hc (4 + i) (by omega)
    · rw [← hpro]
      exact u32At_congr fun i hi => by simpa [Nat.add_assoc] using hc (12 + i) (by omega)
    · conv_rhs => rw [← hdat]
      exact window_congr fun i hi => by
        simpa [Nat.add_assoc] using h (headerSize + i) (by simp only [headerSize]; omega)
    · simpa [Nat.add_assoc] using h (m.span + i) (by omega)

theorem laid_append {mem : Nat → UInt8} {R p : Nat} {as bs : List Msg} :
    Laid mem R p (as ++ bs) ↔ Laid mem R p as ∧ Laid mem R (p + span as) bs := by
  induction as generalizing p with
  | nil => simp [Laid]
  | cons m as ih => simp only [List.cons_append, Laid, ih, span_cons, Nat.add_assoc, and_assoc]

@[simp] theorem Msg.length_header (m : Msg) : m.header.length = headerSize := rfl

theorem header_laid (mem : Nat → UInt8) {a : Nat} {m : Msg} (hf : m.Fits)
    (hlen : headerSize + m.data.length < 4294967296)
    (h : ∀ i (hi : i < m.header.length), mem (a + i) = m.header[i]) :
    u32At mem a = headerSize + m.data.length ∧ addrAt mem (a + 4) = m.source ∧
      u32At mem (a + 12) = m.protocol := by
  have hport := hf.port
  have hdom := hf.domain
  have hprot := hf.protocol
  have u16 : ∀ i n, m.header[i]? = some (UInt8.ofNat n) →
      m.header[i + 1]? = some (UInt8.ofNat (n / 256)) → u16At mem (a + i) = n % 65536 := by
    intro i n h0 h1
    obtain ⟨l0, h0⟩ := List.getElem?_eq_some_iff.mp h0
    obtain ⟨l1, h1⟩ := List.getElem?_eq_some_iff.mp h1
    rw [u16At, Nat.add_assoc, h i l0, h (i + 1) l1, h0, h1]
    simp only [UInt8.toNat_ofNat', Nat.reducePow]
    omega
  have l0 := u16 0 (headerSize + m.data.length) rfl rfl
  have l2 := u16 2 ((headerSize + m.data.length) / 65536) rfl rfl
  have p4 := u16 4 m.source.port rfl rfl
  have p6 := u16 6 (m.source.port / 65536) rfl rfl
  have d8 := u16 8 m.source.domain rfl rfl
  have q12 := u16 12 m.protocol rfl rfl
  have q14 := u16 14 (m.protocol / 65536) rfl rfl
  have hs : m.source = ⟨m.source.port, m.source.domain⟩ := rfl
  rw [Nat.add_zero] at l0
  rw [hs]
  simp only [addrAt, u32At, Nat.add_assoc, Nat.reduceAdd, l0, l2, p4, p6, d8, q12, q14,
    Addr.mk.injEq]
  refine ⟨?_, ⟨?_, ?_⟩, ?_⟩ <;> omega

theorem Holds.put {r : Ring} {ms : List Msg} {m : Msg} (h : Holds r ms) (hf : m.Fits)
    (hroom : span (ms ++ [m]) < r.len) : Holds (xenPut r m) (ms ++ [m]) := by
  have hsmall := h.small
  have hspan : span (ms ++ [m]) = span ms + m.span := by simp [span_append]
  have hle := m.le_span
  simp only [headerSize] at hle
  have hms : 16 ∣ span ms := dvd_span ms
  have hp : 16 ∣ r.rxPtr + span ms := Nat.dvd_add h.rx16 hms
  have hlen : (m.header ++ m.data).length ≤ r.len := by simp [headerSize]; omega
  refine ⟨h.pos, h.len16, h.small, h.rx16, h.rx_lt, hroom, ?_, ?_⟩
  · simp only [xenPut, h.tx, hspan, Nat.mod_add_mod, Nat.add_assoc]
  rw [laid_append]
  constructor
  · refine laid_frame h.pos h.len16 h.rx16 (fun i hi => ?_) h.laid
    simp only [xenPut, h.tx]
    refine circBlit_miss h.pos hlen (Nat.mod_lt _ h.pos) fun k hk e => ?_
    simp only [List.length_append, Msg.length_header, headerSize] at hk
    have := mod_inj (R := r.len) (a := r.rxPtr + i) (b := r.rxPtr + span ms + k) (by omega)
      (by omega) e.symm
    omega
  · have hcell : ∀ i (hi : i < (m.header ++ m.data).length),
        (xenPut r m).ring ((r.rxPtr + span ms + i) % r.len) = (m.header ++ m.data)[i] := by
      intro i hi
      simp only [xenPut, h.tx]
      exact circBlit_hit h.pos hlen hi
    obtain ⟨e1, e2, e3⟩ := header_laid (xenPut r m).ring
      (a := (r.rxPtr + span ms) % r.len) hf (by simp only [headerSize]; omega) (fun i hi => by
        rw [← header_cell h.pos h.len16 hp hi, hcell i (by simp at hi ⊢; omega),
          List.getElem_append_left hi])
    refine ⟨e1, e2, e3, ?_, trivial⟩
    apply List.ext_getElem (by simp)
    intro i h1 h2
    have hi : headerSize + i < (m.header ++ m.data).length := by simp at h2 ⊢; omega
    have := hcell (headerSize + i) hi
    rw [List.getElem_append_right (by simp)] at this
    rw [getElem_window, Nat.add_assoc _ headerSize]
    exact this.trans (by simp)

end XcWindows.V4v
