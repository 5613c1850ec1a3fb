import Mathlib.Algebra.GroupWithZero.Nat
import XcWindows.V4v.Ring

/-!
# The readers' copies

`Ring.lean` has the readers of `inc/v4v.h` by the bytes they hand over. Here they are the `memcpy`
calls they make, with the addresses on both sides: the ring index a call reads from and the pointer
it stores to, with pointers modulo the size `W` of the address space. `v4v_copy_out_offset` starts
from `_buf - skip` and tests that pointer against `NULL`, so that its calls depend on the address
of the buffer. `stored_offsetCalls` says what the calls leave in memory, `copyOutCalls_inside` when
they stay inside the ring, and `bytes_copyOutCalls` that they hand over the bytes of `v4vCopyOut`.
-/

namespace XcWindows.V4v

open Lib

/-- `memcpy (dst, &r->ring[src], n)` -/
structure Memcpy where
  dst : Nat
  src : Nat
  n : Nat
deriving DecidableEq, Repr

section Pointers
variable (W : Nat)

/-- Pointer addition with `W` addresses. -/
def ptrAdd (p n : Nat) : Nat := (p + n) % W

def ptrSub (p n : Nat) : Nat := (p + (W - n % W)) % W

/-- The calls `v4v_copy_out` makes for the `len` bytes of data at `rxp`. -/
def v4vCopyOutCalls (r : Ring) (len rxp buf t : Nat) : List Memcpy :=
  let last buf rxp len t := if buf ≠ 0 ∧ t ≠ 0 then [⟨buf, rxp, min t len⟩] else []
  let bte := sub32 r.len rxp
  if bte < len then
    let n := if t < bte then t else bte
    let first := if buf ≠ 0 then [⟨buf, rxp, n⟩] else []
    let buf := if buf ≠ 0 then ptrAdd W buf n else buf
    first ++ last buf 0 (len - bte) (if t < bte then 0 else t - bte)
  else last buf rxp len t

/-- The call of `v4v_memcpy_skip`, if it makes one, and the rest of the skip. -/
def v4vMemcpySkipCall (dst src n skip : Nat) : List Memcpy × Nat :=
  if skip = 0 then ([⟨dst, src, n⟩], 0)
  else if n ≤ skip then ([], skip - n)
  else ([⟨ptrAdd W dst skip, src + skip, n - skip⟩], 0)

/-- The calls `v4v_copy_out_offset` makes for the `len` bytes of data at `rxp`. -/
def v4vCopyOutOffsetCalls (r : Ring) (len rxp buf t skip : Nat) : List Memcpy :=
  let last buf rxp len t skip :=
    if buf ≠ 0 ∧ t ≠ 0 then (v4vMemcpySkipCall W buf rxp (min t len) skip).1 else []
  let buf := ptrSub W buf skip
  let bte := sub32 r.len rxp
  if bte < len then
    let n := if t < bte then t else bte
    let first := if buf ≠ 0 then v4vMemcpySkipCall W buf rxp n skip else ([], skip)
    let buf := if buf ≠ 0 then ptrAdd W buf n else buf
    first.1 ++ last buf 0 (len - bte) (if t < bte then 0 else t - bte) first.2
  else last buf rxp len t skip

/-- What a reader returns, with the calls it made. -/
structure CopiedTo where
  ret : Int
  source : Addr
  protocol : Nat
  calls : List Memcpy
  ring : Ring

/-- `v4v_copy_out` into the buffer at `buf`, where `0` is `NULL`. -/
def v4vCopyOutTo (r : Ring) (buf t : Nat) (consume : Bool) : Option CopiedTo :=
  (v4vHeader r).map fun (len, rxp) =>
    { ret := int32 len
      source := addrAt r.ring (r.rxPtr + 4)
      protocol := u32At r.ring (r.rxPtr + 12)
      calls := v4vCopyOutCalls W r len rxp buf t
      ring := if consume then { r with rxPtr := (v4vPieces r len rxp t).2.2 } else r }

/-- `v4v_copy_out_offset` into the buffer at `buf`. -/
def v4vCopyOutOffsetTo (r : Ring) (buf t : Nat) (consume : Bool) (skip : Nat) : Option CopiedTo :=
  (v4vHeader r).map fun (len, rxp) =>
    { ret := int32 len
      source := addrAt r.ring (r.rxPtr + 4)
      protocol := u32At r.ring (r.rxPtr + 12)
      calls := v4vCopyOutOffsetCalls W r len rxp buf t skip
      ring := if consume then { r with rxPtr := (v4vPieces r len rxp t).2.2 } else r }

end Pointers

/-- The memory after the calls. -/
def stored (ring mem : Nat → UInt8) (cs : List Memcpy) : Nat → UInt8 :=
  cs.foldl (fun mem c => blit mem c.dst (bytes ring c.src c.n)) mem

/-- Any content behind indices that Xen and the driver keep aligned and below the length. -/
structure Formed (r : Ring) : Prop where
  len16 : 16 ∣ r.len
  len_lt : r.len < 4294967296
  rx16 : 16 ∣ r.rxPtr
  tx16 : 16 ∣ r.txPtr
  rx_lt : r.rxPtr < r.len
  tx_lt : r.txPtr < r.len

theorem Formed.bytesToRead_lt {r : Ring} (h : Formed r) : v4vRingBytesToRead r < r.len := by
  have h1 := h.len_lt
  have h2 := h.rx_lt
  have h3 := h.tx_lt
  unfold v4vRingBytesToRead
  simp only [sub32, u32]
  split <;> omega

theorem Formed.header {r : Ring} (h : Formed r) {len d : Nat} (hh : v4vHeader r = some (len, d)) :
    headerSize ≤ v4vRingBytesToRead r ∧ u32At r.ring r.rxPtr ≤ v4vRingBytesToRead r ∧
      len = sub32 (u32At r.ring r.rxPtr) headerSize ∧ d = (r.rxPtr + headerSize) % r.len ∧
      d < r.len ∧ 16 ∣ d := by
  have hlt := h.len_lt
  have hrx := h.rx_lt
  obtain ⟨a, ha⟩ := h.len16
  obtain ⟨b, hb⟩ := h.rx16
  simp only [headerSize]
  have hwrap : (r.rxPtr + 16) % r.len = if r.rxPtr + 16 = r.len then 0 else r.rxPtr + 16 := by
    split
    · next e => rw [e, Nat.mod_self]
    · exact Nat.mod_eq_of_lt (by omega)
  unfold v4vHeader at hh
  simp only [headerSize] at hh
  split at hh
  · cases hh
  next h1 =>
  split at hh
  · cases hh
  next h2 =>
  obtain ⟨rfl, rfl⟩ := Prod.mk.inj (Option.some.inj hh)
  rw [hwrap]
  simp only [u32]
  refine ⟨by omega, by omega, trivial, ?_, ?_, ?_⟩
  · split <;> split <;> omega
  · split <;> omega
  · split <;> omega

theorem Formed.header_none {r : Ring} : v4vHeader r = none ↔
    v4vRingBytesToRead r < headerSize ∨ v4vRingBytesToRead r < u32At r.ring r.rxPtr := by
  unfold v4vHeader
  simp only
  split
  · next h => simp [h]
  · next h =>
    split
    · next h' => simp [h']
    · next h' => simp [h, h']

/-! ### Staying inside the ring -/

/-- Everything a reader reads lies inside the ring. -/
def CopiedTo.Inside (c : CopiedTo) (r : Ring) : Prop :=
  r.rxPtr + headerSize ≤ r.len ∧ ∀ m ∈ c.calls, ∀ i, i < m.n → m.src + i < r.len

/-- The number of bytes a reader stores. -/
def CopiedTo.written (c : CopiedTo) : Nat := (c.calls.map Memcpy.n).sum

section Inside
variable {W : Nat} {r : Ring} {len d buf t : Nat}

theorem copyOutCalls_written_le : ((v4vCopyOutCalls W r len d buf t).map Memcpy.n).sum ≤ t := by
  unfold v4vCopyOutCalls
  simp only
  repeat' split
  all_goals simp
  all_goals omega

theorem copyOutCalls_inside (hd : d < r.len) (hlen : r.len < 4294967296) (hbuf : buf + t ≤ W) :
    (∀ m ∈ v4vCopyOutCalls W r len d buf t, ∀ i, i < m.n → m.src + i < r.len) ↔
      buf = 0 ∨ min t len ≤ (r.len - d) + r.len := by
  have hbte : sub32 r.len d = r.len - d := by simp only [sub32]; omega
  have hsrc : ∀ a n, (∀ i, i < n → a + i < r.len) ↔ n = 0 ∨ a + n ≤ r.len := by
    intro a n
    constructor
    · intro h
      by_contra hc
      have := h (n - 1) (by omega)
      omega
    · intro h i hi
      omega
  unfold v4vCopyOutCalls
  simp only [hbte]
  by_cases hb : buf = 0
  · simp [hb]
  split
  · next hlt =>
    by_cases ht : t < r.len - d
    · simp [hb, ht, hsrc]
      omega
    · by_cases ht0 : t - (r.len - d) = 0
      · simp [hb, ht, ht0, hsrc]
        omega
      · have hnn : ptrAdd W buf (r.len - d) ≠ 0 := by
          unfold ptrAdd
          rw [Nat.mod_eq_of_lt (by omega)]
          omega
        simp [hb, ht, ht0, hsrc, hnn]
        omega
  · next hge =>
    by_cases ht0 : t = 0
    · simp [ht0]
    · simp [hb, ht0, hsrc]
      omega

end Inside

/-- `v4v_copy_out` returns `-1`, or reads inside the ring and stores at most `t` bytes. -/
def CopyOutRobust (W : Nat) (r : Ring) (buf t : Nat) (consume : Bool) : Prop :=
  ∀ c, v4vCopyOutTo W r buf t consume = some c → c.Inside r ∧ c.written ≤ t

/-- The length field is not checked against the size of the header it counts: for a shorter length
the data length wraps to almost `2^32`, and the second copy runs from the start of the ring over its
end as soon as the buffer has room for it. -/
theorem copyOut_robust_iff (W : Nat) (r : Ring) (buf t : Nat) (consume : Bool) (h : Formed r)
    (hbuf : buf + t ≤ W) :
    CopyOutRobust W r buf t consume ↔
      v4vRingBytesToRead r < headerSize ∨ v4vRingBytesToRead r < u32At r.ring r.rxPtr ∨ buf = 0 ∨
      headerSize ≤ u32At r.ring r.rxPtr ∨
      min t (4294967296 - headerSize + u32At r.ring r.rxPtr) ≤
        (r.len - (r.rxPtr + headerSize) % r.len) + r.len := by
  have hlen := h.len_lt
  have hbtr := h.bytesToRead_lt
  unfold CopyOutRobust v4vCopyOutTo
  cases hh : v4vHeader r with
  | none =>
    rcases Formed.header_none.mp hh with h1 | h1 <;> simp [h1]
  | some p =>
    obtain ⟨len, d⟩ := p
    obtain ⟨h1, h2, hl, hd, hdlt, -⟩ := h.header hh
    have hrx : r.rxPtr + headerSize ≤ r.len := by
      have := h.rx_lt
      obtain ⟨a, ha⟩ := h.len16
      obtain ⟨b, hb⟩ := h.rx16
      simp only [headerSize]; omega
    simp only [Option.map_some, Option.some.injEq, forall_eq', CopiedTo.Inside, CopiedTo.written,
      hrx, true_and, copyOutCalls_written_le, and_true, copyOutCalls_inside hdlt hlen hbuf, ← hd]
    simp only [headerSize, sub32] at h1 hl ⊢
    omega

theorem copyOut_robust_iff_short :
    CopyOutRobust 4294967296
      ⟨32, 0, 16, fun a => if a = 0 then 16 else 0⟩ 2147483648 64 true ∧
    CopyOutRobust 4294967296 ⟨32, 0, 16, fun _ => 0⟩ 2147483648 48 true := by
  constructor
  · refine (copyOut_robust_iff 4294967296 ⟨32, 0, 16, fun a => if a = 0 then 16 else 0⟩ 2147483648
      64 true ⟨by decide, by decide, by decide, by decide, by decide, by decide⟩ (by decide)).mpr ?_
    decide
  · refine (copyOut_robust_iff 4294967296 ⟨32, 0, 16, fun _ => 0⟩ 2147483648 48 true
      ⟨by decide, by decide, by decide, by decide, by decide, by decide⟩ (by decide)).mpr ?_
    decide

/-- A message of length `0` on a ring of two slots, read into 64 bytes: 48 bytes from `ring[0]`. -/
theorem copyOut_overreads : ¬ CopyOutRobust 4294967296 ⟨32, 0, 16, fun _ => 0⟩ 2147483648 64 true := by
  intro h
  obtain ⟨⟨-, hin⟩, -⟩ := h _ rfl
  have := hin ⟨2147483664, 0, 48⟩ (by decide +kernel) 40 (by decide)
  exact absurd this (by decide)

/-! ### The bytes that are handed over -/

theorem bytes_copyOutCalls {W : Nat} {r : Ring} {len d buf t : Nat} (hb : buf ≠ 0)
    (hbuf : buf + t ≤ W) :
    (v4vCopyOutCalls W r len d buf t).flatMap (fun c => bytes r.ring c.src c.n) =
      bytes r.ring (v4vPieces r len d t).1.1 (v4vPieces r len d t).1.2 ++
        bytes r.ring (v4vPieces r len d t).2.1.1 (v4vPieces r len d t).2.1.2 := by
  unfold v4vCopyOutCalls v4vPieces
  simp only [ne_eq, hb, not_false_eq_true, if_true]
  split
  · by_cases ht : t < sub32 r.len d
    · simp [ht]
    · by_cases ht0 : t - sub32 r.len d = 0
      · simp [ht, ht0]
      · have hnn : ptrAdd W buf (sub32 r.len d) ≠ 0 := by
          unfold ptrAdd
          rw [Nat.mod_eq_of_lt (by omega)]
          omega
        simp [ht, ht0, hnn]
  · by_cases ht0 : t = 0 <;> simp [ht0]

theorem copyOut_eq_copyOutTo {W : Nat} (r : Ring) {buf t : Nat} (hb : buf ≠ 0)
    (hbuf : buf + t ≤ W) (consume : Bool) :
    v4vCopyOut r true t consume = (v4vCopyOutTo W r buf t consume).map fun c =>
      { ret := c.ret, source := c.source, protocol := c.protocol
        data := c.calls.flatMap fun m => bytes r.ring m.src m.n, ring := c.ring } := by
  unfold v4vCopyOut v4vCopyOutTo
  cases v4vHeader r with
  | none => rfl
  | some p => simp only [Option.map_some, bytes_copyOutCalls hb hbuf, if_true]

/-! ### The memory after a read that skips -/

section Pointers
variable {W p n : Nat}

theorem ptrAdd_eq (hp : p < W) (hn : n ≤ W) :
    ptrAdd W p n = if p + n < W then p + n else p + n - W := by
  unfold ptrAdd
  split
  · next h => exact Nat.mod_eq_of_lt h
  · next h => rw [Nat.mod_eq_sub_mod (by omega), Nat.mod_eq_of_lt (by omega)]

theorem ptrSub_eq (hp : p < W) (hn : n < W) :
    ptrSub W p n = if n ≤ p then p - n else p + W - n := by
  unfold ptrSub
  rw [Nat.mod_eq_of_lt hn]
  split
  · next h =>
    rw [show p + (W - n) = p - n + W by omega, Nat.add_mod_right, Nat.mod_eq_of_lt (by omega)]
  · next h => rw [Nat.mod_eq_of_lt (by omega)]; omega

end Pointers

section Stored
variable {ring mem : Nat → UInt8}

@[simp] theorem stored_nil : stored ring mem [] = mem := rfl

theorem stored_append (as bs : List Memcpy) :
    stored ring mem (as ++ bs) = stored ring (stored ring mem as) bs := List.foldl_append

theorem stored_one (c : Memcpy) (x : Nat) :
    stored ring mem [c] x =
      if c.dst ≤ x ∧ x < c.dst + c.n then ring (c.src + (x - c.dst)) else mem x := by
  simp only [stored, List.foldl_cons, List.foldl_nil]
  split
  · next h =>
    have hlt : x - c.dst < (bytes ring c.src c.n).length := by simp; omega
    have := blit_hit (m := mem) (a := c.dst) hlt
    rw [show c.dst + (x - c.dst) = x by omega] at this
    rw [this]
    simp [bytes]
  · next h => exact blit_miss (by simp; omega)

theorem stored_of_empty {cs : List Memcpy} (h : ∀ c ∈ cs, c.n = 0) : stored ring mem cs = mem := by
  induction cs generalizing mem with
  | nil => rfl
  | cons c cs ih =>
    rw [← List.singleton_append, stored_append, ih fun c hc => h c (List.mem_cons_of_mem _ hc)]
    funext x
    have := h c List.mem_cons_self
    rw [stored_one, if_neg (by omega)]

end Stored

theorem memcpySkipCall_all {W dst src n skip : Nat} (h : n ≤ skip) :
    (∀ c ∈ (v4vMemcpySkipCall W dst src n skip).1, c.n = 0) ∧
      (v4vMemcpySkipCall W dst src n skip).2 = skip - n := by
  unfold v4vMemcpySkipCall
  by_cases h0 : skip = 0
  · simp only [h0, if_true, List.mem_singleton]
    exact ⟨by rintro c rfl; simp only; omega, by omega⟩
  · rw [if_neg h0, if_pos h]
    exact ⟨by simp, rfl⟩

theorem memcpySkipCall_part {W dst src n skip : Nat} (h : skip < n) (hW : dst + skip < W) :
    v4vMemcpySkipCall W dst src n skip = ([⟨dst + skip, src + skip, n - skip⟩], 0) := by
  unfold v4vMemcpySkipCall
  by_cases h0 : skip = 0
  · simp [h0]
  · rw [if_neg h0, if_neg (by omega), ptrAdd, Nat.mod_eq_of_lt hW]

section Offset
variable {W : Nat} {r : Ring} {len d buf t skip : Nat}

theorem offsetCalls_all (h : min t len ≤ skip) :
    ∀ c ∈ v4vCopyOutOffsetCalls W r len d buf t skip, c.n = 0 := by
  unfold v4vCopyOutOffsetCalls
  simp only
  split
  · next hlt =>
    generalize hn : (if t < sub32 r.len d then t else sub32 r.len d) = n
    generalize ht : (if t < sub32 r.len d then 0 else t - sub32 r.len d) = t'
    have hle : n ≤ skip := by split at hn <;> omega
    have hrest : min t' (len - sub32 r.len d) ≤ skip - n := by
      split at hn <;> split at ht <;> omega
    intro c hc
    rcases List.mem_append.mp hc with hc | hc
    · split at hc
      · exact (memcpySkipCall_all hle).1 c hc
      · cases hc
    · by_cases hb : ptrSub W buf skip = 0
      · simp [hb] at hc
      · simp only [ne_eq, hb, not_false_eq_true, if_true, (memcpySkipCall_all hle).2] at hc
        split at hc
        · exact (memcpySkipCall_all hrest).1 c hc
        · cases hc
  · intro c hc
    split at hc
    · exact (memcpySkipCall_all h).1 c hc
    · cases hc

/-- A kernel buffer with room for the bytes from `skip` on. -/
structure IsBuffer (W buf n : Nat) : Prop where
  kernel : 2147483648 ≤ buf
  fits : buf + n ≤ W
  addr : buf < W

theorem stored_offsetCalls (mem : Nat → UInt8) (hd : d < r.len) (hr : r.len ≤ 2147483648)
    (hlen : len < r.len) (hskip : skip < W) (hbuf : IsBuffer W buf (min t len - skip)) (x : Nat) :
    stored r.ring mem (v4vCopyOutOffsetCalls W r len d buf t skip) x =
      if buf ≤ x ∧ x < buf + (min t len - skip) then r.ring ((d + skip + (x - buf)) % r.len)
      else mem x := by
  obtain ⟨hk, hfit, haddr⟩ := hbuf
  rcases Nat.lt_or_ge skip (min t len) with hlt | hge
  swap
  · rw [stored_of_empty (offsetCalls_all hge), if_neg (by omega)]
  have hbte : sub32 r.len d = r.len - d := by simp only [sub32]; omega
  have hp0 : ptrSub W buf skip = buf - skip := by rw [ptrSub_eq haddr hskip, if_pos (by omega)]
  have hnn : buf - skip ≠ 0 := by omega
  unfold v4vCopyOutOffsetCalls
  simp only [hbte, hp0, ne_eq, hnn, not_false_eq_true, if_true]
  split
  · next hw =>
    by_cases ht : t < r.len - d
    · -- the buffer is full before the end of the ring
      rw [if_pos ht, if_pos ht, memcpySkipCall_part (by omega) (by omega)]
      simp only [not_true_eq_false, and_false, if_false, List.append_nil, stored_one]
      rw [show buf - skip + skip = buf by omega, show min t len = t by omega]
      split
      · next hx => rw [Nat.mod_eq_of_lt (by omega)]
      · rfl
    rw [if_neg ht, if_neg ht]
    by_cases ht0 : t - (r.len - d) = 0
    · rw [memcpySkipCall_part (by omega) (by omega)]
      simp only [ht0, not_true_eq_false, and_false, if_false, List.append_nil, stored_one]
      rw [show buf - skip + skip = buf by omega, show min t len = r.len - d by omega,
        show r.len - d - skip = t - skip by omega]
      split
      · next hx => rw [Nat.mod_eq_of_lt (by omega)]
      · rfl
    -- both pieces; the second starts at position `r.len - d` of the data
    have hp1 : ptrAdd W (buf - skip) (r.len - d) = buf - skip + (r.len - d) := by
      rw [ptrAdd_eq (by omega) (by omega), if_pos (by omega)]
    have hnn1 : buf - skip + (r.len - d) ≠ 0 := by omega
    have hturn : ∀ i, i < len - (r.len - d) → (r.len + i) % r.len = i := by
      intro i hi
      rw [Nat.add_mod_left, Nat.mod_eq_of_lt (by omega)]
    rw [hp1, if_pos ⟨hnn1, ht0⟩, stored_append]
    rcases Nat.lt_or_ge skip (r.len - d) with hs | hs
    · rw [memcpySkipCall_part hs (by omega), memcpySkipCall_part (by omega) (by omega), stored_one,
        stored_one]
      simp only [Nat.add_zero, Nat.zero_add, Nat.sub_zero]
      rw [show buf - skip + skip = buf by omega]
      split
      · next hx =>
        rw [if_pos (by omega), ← hturn (x - (buf - skip + (r.len - d))) (by omega)]
        congr 2
        omega
      · next hx =>
        split
        · next hy => rw [if_pos (by omega), Nat.mod_eq_of_lt (by omega)]
        · next hy => rw [if_neg (by omega)]
    · obtain ⟨hz, hrest⟩ := @memcpySkipCall_all W (buf - skip) d _ _ hs
      rw [hrest, stored_of_empty hz, memcpySkipCall_part (by omega) (by omega), stored_one]
      simp only [Nat.zero_add]
      rw [show buf - skip + (r.len - d) + (skip - (r.len - d)) = buf by omega]
      split
      · next hx =>
        rw [if_pos (by omega), ← hturn (skip - (r.len - d) + (x - buf)) (by omega)]
        congr 2
        omega
      · next hx => rw [if_neg (by omega)]
  · next hw =>
    rw [if_pos ⟨trivial, by omega⟩, memcpySkipCall_part hlt (by omega), stored_one]
    simp only
    rw [show buf - skip + skip = buf by omega]
    split
    · next hx => rw [Nat.mod_eq_of_lt (by omega)]
    · rfl

theorem copyOutCalls_eq (haddr : buf < W) :
    v4vCopyOutCalls W r len d buf t = v4vCopyOutOffsetCalls W r len d buf t 0 := by
  have hp : ptrSub W buf 0 = buf := by
    rw [ptrSub_eq haddr (by omega), if_pos (by omega), Nat.sub_zero]
  have hskip : ∀ dst src n, v4vMemcpySkipCall W dst src n 0 = ([⟨dst, src, n⟩], 0) :=
    fun _ _ _ => rfl
  unfold v4vCopyOutCalls v4vCopyOutOffsetCalls
  simp only [hp, hskip]
  by_cases hb : buf = 0
  · simp [hb]
  · simp only [ne_eq, hb, not_false_eq_true, if_true, hskip]

end Offset

/-! ### The two readers agree -/

/-- A well-formed ring: if there is a message, its length counts its header. -/
structure WellFormed (r : Ring) : Prop extends Formed r where
  small : r.len ≤ 2147483648
  counted : headerSize ≤ v4vRingBytesToRead r → headerSize ≤ u32At r.ring r.rxPtr

theorem WellFormed.header {r : Ring} (h : WellFormed r) {len d : Nat}
    (hh : v4vHeader r = some (len, d)) : len < r.len ∧ int32 len = len ∧ d < r.len := by
  obtain ⟨h1, h2, hl, -, hd, -⟩ := h.toFormed.header hh
  have h3 := h.counted h1
  have h4 := h.toFormed.bytesToRead_lt
  have h5 := h.small
  simp only [headerSize, sub32] at h1 h3 hl
  refine ⟨by omega, ?_, hd⟩
  unfold int32
  rw [if_pos (by omega)]

/-- The data length that a reader reports. -/
def dataLength (r : Ring) : Nat := sub32 (u32At r.ring r.rxPtr) headerSize

/-- `v4v_copy_out_offset` into a buffer at `buf` against `v4v_copy_out` into a buffer at `buf0`. -/
theorem copyOutOffset_agrees (W : Nat) (r : Ring) (h : WellFormed r) (t skip : Nat) (consume : Bool)
    (hskip : skip < W) (mem mem0 : Nat → UInt8) (buf buf0 : Nat)
    (hbuf : IsBuffer W buf (min t (dataLength r) - skip))
    (hbuf0 : IsBuffer W buf0 (min t (dataLength r))) :
    (v4vCopyOutOffsetTo W r buf t consume skip = none ∧ v4vCopyOutTo W r buf0 t consume = none) ∨
    ∃ a b, v4vCopyOutOffsetTo W r buf t consume skip = some a ∧
      v4vCopyOutTo W r buf0 t consume = some b ∧ a.ret = b.ret ∧ b.ret = dataLength r ∧
      a.source = b.source ∧ a.protocol = b.protocol ∧ a.ring = b.ring ∧
      ∀ x, stored r.ring mem a.calls x =
        if buf ≤ x ∧ x < buf + (min t (dataLength r) - skip) then
          stored r.ring mem0 b.calls (buf0 + skip + (x - buf))
        else mem x := by
  unfold v4vCopyOutOffsetTo v4vCopyOutTo
  cases hh : v4vHeader r with
  | none => exact .inl ⟨rfl, rfl⟩
  | some p =>
    obtain ⟨len, d⟩ := p
    obtain ⟨hlen, hret, hd⟩ := h.header hh
    obtain ⟨-, -, hl, -⟩ := h.toFormed.header hh
    have hdl : dataLength r = len := hl.symm
    rw [hdl] at hbuf hbuf0 ⊢
    refine .inr ⟨_, _, rfl, rfl, rfl, hret, rfl, rfl, rfl, fun x => ?_⟩
    simp only
    rw [stored_offsetCalls mem hd h.small hlen hskip hbuf, copyOutCalls_eq hbuf0.addr,
      stored_offsetCalls mem0 hd h.small hlen (by have := hbuf0.addr; omega)
        (by rw [Nat.sub_zero]; exact hbuf0)]
    split
    · next hx =>
      rw [if_pos (by omega),
        show d + 0 + (buf0 + skip + (x - buf) - buf0) = d + skip + (x - buf) by omega]
    · rfl

/-- A message of 32 bytes that wraps after 16, of which 20 bytes are asked for and 12 skipped. -/
theorem copyOutOffset_agrees_wrap :
    ∃ a b, v4vCopyOutOffsetTo 4294967296 ⟨64, 32, 16, fun i => if i = 32 then 48 else 0⟩
        2147487744 20 true 12 = some a ∧
      v4vCopyOutTo 4294967296 ⟨64, 32, 16, fun i => if i = 32 then 48 else 0⟩
        2147491840 20 true = some b ∧ a.ret = b.ret ∧ a.ring = b.ring := by
  rcases copyOutOffset_agrees 4294967296 ⟨64, 32, 16, fun i => if i = 32 then 48 else 0⟩
    ⟨⟨by decide, by decide, by decide, by decide, by decide, by decide⟩, by decide, by decide⟩
    20 12 true (by decide) (fun _ => 0) (fun _ => 0) 2147487744 2147491840
    ⟨by decide, by decide, by decide⟩ ⟨by decide, by decide, by decide⟩ with ⟨h, -⟩ | h
  · cases h
  · obtain ⟨a, b, ha, hb, hret, -, -, -, hring, -⟩ := h
    exact ⟨a, b, ha, hb, hret, hring⟩

end XcWindows.V4v
