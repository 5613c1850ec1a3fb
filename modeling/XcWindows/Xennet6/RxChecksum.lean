import Mathlib.Data.List.Basic
import XcWindows.Lib.OnesComplement
import XcWindows.Lib.Word

/-!
# Checksums of received frames

`FixupTcpUdpChecksum` and `ForceCsumCalculation` of `net/xennet6/receiver.c`, with `acc_ip_csum` and
`fold_ip_csum` of `net/xennet_common.h`. A frame is its bytes and the lengths of the MDLs that it is cut
into; `ptr` in an MDL is the offset of the same byte in the frame.

`acc_ip_csum` starts with a low byte in every MDL, so the sum is that of the segment when each of its parts
starts at an even offset (`Aligned`). What one of the two routines writes the other accepts whatever the
parts are, as both add up the same ones.
-/

namespace XcWindows.Xennet6.RxChecksum

open XcWindows.Lib
open Function (update update_of_ne)

abbrev tpidIpv4 : Nat := 8
abbrev ipprotoTcp : Nat := 6
abbrev ipprotoUdp : Nat := 17

/-- A frame with the byte counts of its first MDL and of the others. -/
structure Frame where
  bytes : Bytes
  first : Nat
  rest : List Nat

def htons (host : Nat) : Nat := host / 256 % 256 + host % 256 * 256

def accIpCsum (m : Bytes) (p len s : Nat) : Nat :=
  let s := if len % 2 = 1 then u32 (s + (m (p + (len - 1))).toNat) else s
  (List.range (len / 2)).foldl (fun s x => u32 (s + word m (p + 2 * x))) s

def foldIpCsum (acc : Nat) : Nat :=
  let acc := acc % 65536 + acc / 65536
  u16 (acc + acc / 65536)

/-- The loop over the MDLs behind the first. -/
def accMdls (m : Bytes) : List Nat → Nat → Nat → Nat → Nat
  | [], _, _, s => s
  | n :: ns, p, len, s =>
    if len = 0 then s else accMdls m ns (p + n) (len - min n len) (accIpCsum m p (min n len) s)

/-- `(ih->len_version & 0x0f) * 4` -/
def ipHeaderLength (m : Bytes) : Nat := (m 14).toNat % 16 * 4

/-- `ih->proto` -/
def ipProto (m : Bytes) : Nat := (m 23).toNat

/-- `htons(ih->tot_len)` -/
def totLen (m : Bytes) : Nat := htons (word m 16)

/-- `ih->off_flags & ~0x40` -/
def offFlags (m : Bytes) : Nat := word m 20 &&& 0xffbf

/-- `ptr`, `len` and `bufLength` of the segment, where the first MDL has the headers down to the IP one. -/
def findSegment (f : Frame) : Option (Nat × Nat × Nat) :=
  if f.first < 14 then none
  else if word f.bytes 12 ≠ tpidIpv4 then none
  else if f.first - 14 < 20 ∨ f.first - 14 < ipHeaderLength f.bytes then none
  else
    let len := sub32 (totLen f.bytes) (ipHeaderLength f.bytes)
    some (14 + ipHeaderLength f.bytes, len, min (f.first - 14 - ipHeaderLength f.bytes) len)

/-- The words of a `tcp_pseudo_header` added up. -/
def pseudoSum (m : Bytes) (proto len : Nat) : Nat :=
  word m 26 + word m 28 + word m 30 + word m 32 + 256 * proto + htons (u16 len)

/-- `acc_ip_csum` over the rest of the segment from `s` on. -/
def accSegment (f : Frame) (m : Bytes) (ptr len bufLength s : Nat) : Nat :=
  accMdls m f.rest f.first (len - bufLength) (accIpCsum m ptr bufLength s)

/-- The end of `FixupTcpUdpChecksum`, where `csum_field` is at `field`. -/
def writeChecksum (f : Frame) (m : Bytes) (ptr len bufLength field : Nat) : Frame :=
  { f with bytes := put16 m field (65535 - foldIpCsum (accSegment f m ptr len bufLength 0)) }

def fixupTcpUdpChecksum (f : Frame) : Frame :=
  match findSegment f with
  | none => f
  | some (ptr, len, bufLength) =>
    if ipProto f.bytes = ipprotoUdp then
      if bufLength < 8 then f else writeChecksum f f.bytes ptr len bufLength (ptr + 6)
    else if ipProto f.bytes = ipprotoTcp then
      if bufLength < 20 then f
      else
        let csum := foldIpCsum (u32 (pseudoSum f.bytes ipprotoTcp len))
        writeChecksum f (put16 f.bytes (ptr + 16) csum) ptr len bufLength (ptr + 16)
    else f

/-- `ForceCsumCalculation`: whether `TcpChecksumSucceeded` or `TcpChecksumFailed` is set, if one is. -/
def forceCsumCalculation (f : Frame) : Option Bool :=
  match findSegment f with
  | none => none
  | some (ptr, len, bufLength) =>
    if ipProto f.bytes ≠ ipprotoTcp then none
    else if offFlags f.bytes ≠ 0 then none
    else if bufLength < 20 then none
    else
      let csum := 65535 - foldIpCsum (accSegment f f.bytes ptr len bufLength
        (u32 (pseudoSum f.bytes ipprotoTcp len)))
      some (decide (csum = 0))

/-! ## What a checksum is -/

/-- The length of the segment's header. -/
def segmentHeader (m : Bytes) : Nat := if ipProto m = ipprotoTcp then 20 else 8

/-- Where the checksum is in the segment. -/
def checksumOffset (m : Bytes) : Nat := if ipProto m = ipprotoTcp then 16 else 6

def segmentStart (m : Bytes) : Nat := 14 + ipHeaderLength m

def segmentLength (m : Bytes) : Nat := totLen m - ipHeaderLength m

/-- The checksum field. -/
def fieldAt (m : Bytes) : Nat := segmentStart m + checksumOffset m

/-- A TCP or UDP frame over IPv4 with its headers in the first MDL. -/
structure WellFormed (f : Frame) : Prop where
  ipv4 : word f.bytes 12 = tpidIpv4
  proto : ipProto f.bytes = ipprotoTcp ∨ ipProto f.bytes = ipprotoUdp
  header : 20 ≤ ipHeaderLength f.bytes
  first : segmentStart f.bytes + segmentHeader f.bytes ≤ f.first
  total : ipHeaderLength f.bytes + segmentHeader f.bytes ≤ totLen f.bytes
  covers : 14 + totLen f.bytes ≤ f.first + f.rest.sum
  /-- What `csum_blank` promises of UDP: the field has the sum of the pseudo header. -/
  blank : ipProto f.bytes = ipprotoUdp →
    word f.bytes (fieldAt f.bytes) = onesRep (pseudoSum f.bytes ipprotoUdp (segmentLength f.bytes))

/-- The one's complement sum of the pseudo header and the contiguous segment, in the machine's order of
bytes, which it does not depend on. -/
def rfcSum (m : Bytes) : Nat :=
  onesRep (pseudoSum m (ipProto m) (segmentLength m) + bytesSum m (segmentStart m) (segmentLength m))

/-- The checksum of the contiguous segment. -/
def rfcChecksum (m : Bytes) : Nat := 65535 - rfcSum (put16 m (fieldAt m) 0)

/-- The fix-up writes the checksum of the segment, and for TCP the check gives its result, if the datagram
is not one that the code leaves alone. -/
structure Correct (f : Frame) : Prop where
  fixup : fixupTcpUdpChecksum f = { f with bytes := put16 f.bytes (fieldAt f.bytes) (rfcChecksum f.bytes) }
  force : ipProto f.bytes = ipprotoTcp → offFlags f.bytes = 0 →
    forceCsumCalculation f = some (decide (rfcSum f.bytes = 65535))

/-- The parts of the segment behind the first MDL. -/
def restParts : List Nat → Nat → Nat → List (Nat × Nat)
  | [], _, _ => []
  | n :: ns, p, len => if len = 0 then [] else (p, min n len) :: restParts ns (p + n) (len - min n len)

/-- How much of the segment the first MDL has. -/
def firstLength (f : Frame) : Nat := min (f.first - segmentStart f.bytes) (segmentLength f.bytes)

/-- The parts of the segment that other MDLs have. -/
def Frame.parts (f : Frame) : List (Nat × Nat) :=
  restParts f.rest f.first (segmentLength f.bytes - firstLength f)

/-- Every MDL that has bytes of the segment starts at an even offset. -/
def Aligned (f : Frame) : Prop := ∀ q ∈ f.parts, 0 < q.2 → q.1 % 2 = 0

/-! ## The sums of the code -/

section Sums

theorem foldl_u32 (g : Nat → Nat) (l : List Nat) (s : Nat) :
    u32 (l.foldl (fun s x => u32 (s + g x)) s) = u32 (s + (l.map g).sum) := by
  induction l generalizing s with
  | nil => rfl
  | cons x l ih =>
    rw [List.foldl_cons, ih, List.map_cons, List.sum_cons, u32_add, Nat.add_assoc]

theorem foldl_lt (g : Nat → Nat) (l : List Nat) {s : Nat} (h : s < 4294967296) :
    l.foldl (fun s x => u32 (s + g x)) s < 4294967296 := by
  induction l generalizing s with
  | nil => exact h
  | cons x l ih => exact ih (Nat.mod_lt _ (by decide))

theorem sum_words (m : Bytes) (p k : Nat) :
    ((List.range k).map fun x => word m (p + 2 * x)).sum = bytesSum m p (2 * k) := by
  induction k with
  | zero => rfl
  | succ k ih =>
    have hword : bytesSum m p (2 * (k + 1)) = bytesSum m p (2 * k) + word m (p + 2 * k) := by
      rw [Nat.mul_succ, bytesSum_add m p 2 (by omega), bytesSum_two]
    rw [List.range_succ, List.map_append, List.sum_append, ih, hword]
    rfl

theorem accIpCsum_eq (m : Bytes) (p len : Nat) {s : Nat} (h : s < 4294967296) :
    accIpCsum m p len s = u32 (s + bytesSum m p len) := by
  have hlast : (if len % 2 = 1 then u32 (s + (m (p + (len - 1))).toNat) else s) < 4294967296 := by
    split
    · exact Nat.mod_lt _ (by decide)
    · exact h
  have hrange := foldl_lt (fun x => word m (p + 2 * x)) (List.range (len / 2)) hlast
  have hsum := foldl_u32 (fun x => word m (p + 2 * x)) (List.range (len / 2))
    (if len % 2 = 1 then u32 (s + (m (p + (len - 1))).toNat) else s)
  rw [u32, Nat.mod_eq_of_lt hrange, sum_words] at hsum
  rw [accIpCsum, hsum]
  split
  · next hodd =>
    have hlen : len = 2 * (len / 2) + 1 := by omega
    have hbytes := bytesSum_succ m p (n := 2 * (len / 2)) (by omega)
    rw [← hlen] at hbytes
    rw [u32_add, hbytes, show len - 1 = 2 * (len / 2) by omega]
    congr 1
    omega
  · next heven => rw [show 2 * (len / 2) = len by omega]

/-- What the parts of a segment add up to. -/
def partsSum (m : Bytes) (l : List (Nat × Nat)) : Nat := (l.map fun q => bytesSum m q.1 q.2).sum

theorem partsSum_cons (m : Bytes) (q : Nat × Nat) (l : List (Nat × Nat)) :
    partsSum m (q :: l) = bytesSum m q.1 q.2 + partsSum m l := rfl

theorem restParts_cons (n : Nat) (ns : List Nat) (p : Nat) {len : Nat} (h : len ≠ 0) :
    restParts (n :: ns) p len = (p, min n len) :: restParts ns (p + n) (len - min n len) := if_neg h

theorem restParts_zero (ns : List Nat) (p : Nat) : restParts ns p 0 = [] := by
  cases ns with
  | nil => rfl
  | cons n ns => exact if_pos rfl

theorem accMdls_eq (m : Bytes) {ns : List Nat} {p len s : Nat} (h : s < 4294967296) :
    accMdls m ns p len s = u32 (s + partsSum m (restParts ns p len)) := by
  induction ns generalizing p len s with
  | nil => exact (Nat.mod_eq_of_lt h).symm
  | cons n ns ih =>
    rcases Nat.eq_zero_or_pos len with rfl | hpos
    · rw [restParts_zero]
      exact (Nat.mod_eq_of_lt h).symm
    · have hne : len ≠ 0 := by omega
      rw [accMdls, if_neg hne, restParts_cons n ns p hne, ih (accIpCsum_eq m p _ h ▸ Nat.mod_lt _ (by decide)),
        accIpCsum_eq m p _ h, u32_add, partsSum_cons, Nat.add_assoc]

theorem restParts_mem {ns : List Nat} {p len : Nat} :
    ∀ q ∈ restParts ns p len, p ≤ q.1 ∧ q.1 + q.2 ≤ p + len := by
  induction ns generalizing p len with
  | nil => exact fun q hq => by cases hq
  | cons n ns ih =>
    rcases Nat.eq_zero_or_pos len with rfl | hpos
    · rw [restParts_zero]
      exact fun q hq => by cases hq
    · rw [restParts_cons n ns p (by omega)]
      intro q hq
      rcases List.mem_cons.mp hq with rfl | hq
      · simp only
        omega
      · have := ih q hq
        by_cases hle : n ≤ len
        · omega
        · rw [show len - min n len = 0 by omega, restParts_zero] at hq
          cases hq

theorem partsSum_le (m : Bytes) {ns : List Nat} {p len : Nat} :
    partsSum m (restParts ns p len) ≤ 65280 * len := by
  induction ns generalizing p len with
  | nil => exact Nat.zero_le _
  | cons n ns ih =>
    rcases Nat.eq_zero_or_pos len with rfl | hpos
    · rw [restParts_zero]
      exact Nat.le_refl _
    · have hone := bytesSum_le m p (min n len)
      have hrest := @ih (p + n) (len - min n len)
      rw [restParts_cons n ns p (by omega), partsSum_cons]
      simp only
      omega

theorem even_of_aligned {ns : List Nat} {p len : Nat} (hpos : 0 < len) (hlen : len ≤ ns.sum)
    (h : ∀ q ∈ restParts ns p len, 0 < q.2 → q.1 % 2 = 0) : p % 2 = 0 := by
  induction ns generalizing p with
  | nil =>
    rw [List.sum_nil] at hlen
    omega
  | cons n ns ih =>
    rw [restParts_cons n ns p (by omega)] at h
    rcases Nat.eq_zero_or_pos n with rfl | hn
    · rw [Nat.zero_min, Nat.add_zero, Nat.sub_zero] at h
      rw [List.sum_cons, Nat.zero_add] at hlen
      exact ih hlen fun q hq => h q (List.mem_cons_of_mem _ hq)
    · exact h _ List.mem_cons_self (by simp only; omega)

theorem partsSum_aligned (m : Bytes) {ns : List Nat} {p len : Nat} (hlen : len ≤ ns.sum)
    (h : ∀ q ∈ restParts ns p len, 0 < q.2 → q.1 % 2 = 0) :
    partsSum m (restParts ns p len) = bytesSum m p len := by
  induction ns generalizing p len with
  | nil =>
    rw [List.sum_nil, Nat.le_zero] at hlen
    rw [hlen]
    rfl
  | cons n ns ih =>
    rcases Nat.eq_zero_or_pos len with rfl | hpos
    · rw [restParts_zero]
      rfl
    · rw [List.sum_cons] at hlen
      rw [restParts_cons n ns p (by omega)] at h ⊢
      have htail := @ih (p + n) (len - min n len) (by omega)
        fun q hq => h q (List.mem_cons_of_mem _ hq)
      rw [partsSum_cons, htail]
      rcases Nat.lt_or_ge n len with hlt | hge
      · rw [Nat.min_eq_left (Nat.le_of_lt hlt)] at htail ⊢
        rcases Nat.eq_zero_or_pos n with rfl | hn
        · rw [bytesSum_zero, Nat.zero_add]
          rfl
        · -- bytes are left, so that the next part starts at an even offset too
          have hp := h _ List.mem_cons_self (by simp only; omega)
          have hnext := even_of_aligned (show 0 < len - min n len by omega) (by omega)
            fun q hq => h q (List.mem_cons_of_mem _ hq)
          simp only at hp
          rw [← bytesSum_add m p (len - n) (by omega), Nat.add_sub_cancel' (Nat.le_of_lt hlt)]
      · rw [Nat.min_eq_right hge, Nat.sub_self, bytesSum_zero, Nat.add_zero]

theorem fold_twice {t : Nat} (hpos : 0 < t) (h : t ≤ 131070) : u16 (t + t / 65536) = (t - 1) % 65535 + 1 := by
  rcases Nat.lt_or_ge t 65536 with hlt | hge
  · rw [Nat.div_eq_of_lt hlt, Nat.add_zero, u16, Nat.mod_eq_of_lt hlt, Nat.mod_eq_of_lt (by omega)]
    omega
  · have hcarry : t / 65536 = 1 := by omega
    rw [hcarry, u16, Nat.mod_eq_sub_mod (by omega), Nat.mod_eq_of_lt (by omega),
      Nat.mod_eq_sub_mod (by omega), Nat.mod_eq_of_lt (by omega)]
    omega

theorem foldIpCsum_eq {s : Nat} (h : s < 4294967296) : foldIpCsum s = onesRep s := by
  rcases Nat.eq_zero_or_pos s with rfl | hpos
  · rfl
  · have hmod : (s - 1) % 65535 = (s % 65536 + s / 65536 - 1) % 65535 := by
      rw [show s - 1 = s % 65536 + s / 65536 - 1 + 65535 * (s / 65536) by omega, Nat.add_mul_mod_self_left]
    rw [onesRep, if_neg (by omega), hmod]
    exact fold_twice (by omega) (by omega)

theorem htons_lt {n : Nat} : htons n < 65536 := by
  simp only [htons]
  omega

theorem pseudoSum_le (m : Bytes) {proto len : Nat} (h : proto ≤ 17) : pseudoSum m proto len ≤ 393215 := by
  have := word_lt m 26
  have := word_lt m 28
  have := word_lt m 30
  have := word_lt m 32
  have := htons_lt (n := u16 len)
  simp only [pseudoSum]
  omega

theorem pseudoSum_pos (m : Bytes) {proto : Nat} (len : Nat) (h : 0 < proto) : 0 < pseudoSum m proto len := by
  simp only [pseudoSum]
  omega

end Sums

/-! ## The routines -/

section Routines

variable {f : Frame}

/-- What the code adds up over the segment. -/
def segmentSum (f : Frame) (m : Bytes) : Nat :=
  bytesSum m (segmentStart f.bytes) (firstLength f) + partsSum m f.parts

theorem segmentHeader_le (m : Bytes) : checksumOffset m + 2 ≤ segmentHeader m := by
  simp only [checksumOffset, segmentHeader]
  split
  all_goals decide

theorem checksumOffset_even (m : Bytes) : checksumOffset m % 2 = 0 := by
  simp only [checksumOffset]
  split
  all_goals rfl

theorem totLen_lt (m : Bytes) : totLen m < 65536 := htons_lt

theorem WellFormed.header_le (hw : WellFormed f) : segmentHeader f.bytes ≤ firstLength f := by
  have := hw.first
  have := hw.total
  simp only [firstLength, segmentLength]
  omega

theorem WellFormed.findSegment_eq (hw : WellFormed f) :
    findSegment f = some (segmentStart f.bytes, segmentLength f.bytes, firstLength f) := by
  have hfirst := hw.first
  have hheader := hw.header
  have htotal := hw.total
  have hlt := totLen_lt f.bytes
  simp only [segmentStart] at hfirst
  have hlen : sub32 (totLen f.bytes) (ipHeaderLength f.bytes) = segmentLength f.bytes := by
    simp only [sub32, segmentLength]
    omega
  rw [findSegment, if_neg (by omega), if_neg (not_not.mpr hw.ipv4), if_neg (by omega), hlen, firstLength,
    segmentStart, Nat.sub_sub]

theorem segmentSum_le (f : Frame) (m : Bytes) : segmentSum f m ≤ 65280 * 65535 := by
  have hone := bytesSum_le m (segmentStart f.bytes) (firstLength f)
  have hrest := @partsSum_le m f.rest f.first (segmentLength f.bytes - firstLength f)
  have hlt := totLen_lt f.bytes
  have hle : firstLength f ≤ segmentLength f.bytes := Nat.min_le_right _ _
  have hlen : segmentLength f.bytes ≤ 65535 := by
    simp only [segmentLength]
    omega
  have htotal : 65280 * firstLength f + 65280 * (segmentLength f.bytes - firstLength f) =
      65280 * segmentLength f.bytes := by
    rw [← Nat.mul_add, Nat.add_sub_cancel' hle]
  have hmul := Nat.mul_le_mul_left 65280 hlen
  simp only [segmentSum, Frame.parts]
  omega

theorem accSegment_fold (f : Frame) (m : Bytes) {s : Nat} (hs : s ≤ 393215) :
    foldIpCsum (accSegment f m (segmentStart f.bytes) (segmentLength f.bytes) (firstLength f) s) =
      onesRep (s + segmentSum f m) := by
  have hle := segmentSum_le f m
  have hfirst := accIpCsum_eq m (segmentStart f.bytes) (firstLength f) (show s < 4294967296 by omega)
  have hlt : accIpCsum m (segmentStart f.bytes) (firstLength f) s < 4294967296 :=
    hfirst ▸ Nat.mod_lt _ (by decide)
  rw [accSegment, accMdls_eq m hlt, hfirst, u32_add, Nat.add_assoc]
  change foldIpCsum (u32 (s + segmentSum f m)) = _
  rw [u32, Nat.mod_eq_of_lt (by omega), foldIpCsum_eq (by omega)]

theorem WellFormed.segmentSum_put16 (hw : WellFormed f) (m : Bytes) {v : Nat} (hv : v < 65536) :
    segmentSum f (put16 m (fieldAt f.bytes) v) + word m (fieldAt f.bytes) = segmentSum f m + v := by
  have hfirst := hw.first
  have hhead := segmentHeader_le f.bytes
  have hfield := bytesSum_put16 m (segmentStart f.bytes) (n := firstLength f) (checksumOffset_even f.bytes)
    (Nat.le_trans hhead hw.header_le) hv
  have hrest : partsSum (put16 m (fieldAt f.bytes) v) f.parts = partsSum m f.parts := by
    rw [partsSum, partsSum]
    congr 1
    refine List.map_congr_left fun q hq => bytesSum_congr fun i _ => ?_
    have := restParts_mem q hq
    simp only [fieldAt]
    exact put16_other (by omega) (by omega)
  simp only [segmentSum, hrest]
  simp only [fieldAt]
  omega

theorem header_congr {m m' : Bytes} (h : ∀ q < 34, m' q = m q) : ipProto m' = ipProto m ∧
    ipHeaderLength m' = ipHeaderLength m ∧ totLen m' = totLen m ∧ word m' 12 = word m 12 ∧
    offFlags m' = offFlags m ∧ ∀ proto len, pseudoSum m' proto len = pseudoSum m proto len := by
  have hword : ∀ q < 33, word m' q = word m q := fun q hq =>
    word_congr (h q (by omega)) (h (q + 1) (by omega))
  refine ⟨?_, ?_, ?_, hword 12 (by decide), ?_, fun proto len => ?_⟩
  · rw [ipProto, ipProto, h 23 (by decide)]
  · rw [ipHeaderLength, ipHeaderLength, h 14 (by decide)]
  · rw [totLen, totLen, hword 16 (by decide)]
  · rw [offFlags, offFlags, hword 20 (by decide)]
  · rw [pseudoSum, pseudoSum, hword 26 (by decide), hword 28 (by decide), hword 30 (by decide),
      hword 32 (by decide)]

theorem WellFormed.put16_header (hw : WellFormed f) (v : Nat) :
    ∀ q < 34, put16 f.bytes (fieldAt f.bytes) v q = f.bytes q := by
  intro q hq
  have := hw.header
  refine put16_other ?_ ?_
  all_goals simp only [fieldAt, segmentStart]
  all_goals omega

/-- The sum of the pseudo header and the segment without its checksum, as the code adds them up. -/
def blankSum (f : Frame) : Nat :=
  pseudoSum f.bytes (ipProto f.bytes) (segmentLength f.bytes) +
    segmentSum f (put16 f.bytes (fieldAt f.bytes) 0)

theorem WellFormed.proto_le (hw : WellFormed f) : 0 < ipProto f.bytes ∧ ipProto f.bytes ≤ 17 := by
  rcases hw.proto with h | h
  all_goals rw [h]
  all_goals decide

theorem onesRep_onesRep {a : Nat} (ha : 0 < a) (b : Nat) : onesRep (onesRep a + b) = onesRep (a + b) := by
  have hpos := onesRep_pos ha
  have hmod := onesRep_mod a
  rw [onesRep_eq_iff (by omega) (by omega)]
  omega

/-- **What the fix-up writes.** -/
theorem WellFormed.fixup_eq (hw : WellFormed f) : fixupTcpUdpChecksum f =
    { f with bytes := put16 f.bytes (fieldAt f.bytes) (65535 - onesRep (blankSum f)) } := by
  have hpos := pseudoSum_pos f.bytes (segmentLength f.bytes) hw.proto_le.1
  have hle := hw.header_le
  have hsum := hw.segmentSum_put16 f.bytes (show 0 < 65536 by decide)
  rcases hw.proto with hp | hp
  · -- the code puts the sum of the pseudo header into the field first
    have hoffset : fieldAt f.bytes = segmentStart f.bytes + 16 := by simp [fieldAt, checksumOffset, hp]
    have hheader : segmentHeader f.bytes = 20 := by simp [segmentHeader, hp]
    have hpseudo := @pseudoSum_le f.bytes ipprotoTcp (segmentLength f.bytes) (by decide)
    have hfold : foldIpCsum (u32 (pseudoSum f.bytes ipprotoTcp (segmentLength f.bytes))) =
        onesRep (pseudoSum f.bytes ipprotoTcp (segmentLength f.bytes)) := by
      rw [u32, Nat.mod_eq_of_lt (by omega), foldIpCsum_eq (by omega)]
    have hrep := onesRep_le (pseudoSum f.bytes ipprotoTcp (segmentLength f.bytes))
    have hput := hw.segmentSum_put16 (put16 f.bytes (fieldAt f.bytes) 0)
      (show onesRep (pseudoSum f.bytes ipprotoTcp (segmentLength f.bytes)) < 65536 by omega)
    rw [put16_put16, word_put16 (by decide), Nat.add_zero] at hput
    rw [fixupTcpUdpChecksum, hw.findSegment_eq]
    simp only [hp, if_neg (show ¬ipprotoTcp = ipprotoUdp by decide), if_true,
      if_neg (show ¬firstLength f < 20 by omega), writeChecksum, hfold, ← hoffset]
    rw [accSegment_fold f _ (Nat.zero_le _), put16_put16, Nat.zero_add, hput, Nat.add_comm,
      onesRep_onesRep (hp ▸ hpos), blankSum, hp]
  · have hoffset : fieldAt f.bytes = segmentStart f.bytes + 6 := by simp [fieldAt, checksumOffset, hp]
    have hheader : segmentHeader f.bytes = 8 := by simp [segmentHeader, hp]
    have hblank := hw.blank hp
    rw [hblank, Nat.add_zero] at hsum
    rw [fixupTcpUdpChecksum, hw.findSegment_eq]
    simp only [hp, if_true, if_neg (show ¬firstLength f < 8 by omega), writeChecksum, ← hoffset]
    rw [accSegment_fold f _ (Nat.zero_le _), Nat.zero_add, ← hsum, Nat.add_comm, onesRep_onesRep (hp ▸ hpos),
      blankSum, hp]

theorem WellFormed.force_eq (hw : WellFormed f) (hp : ipProto f.bytes = ipprotoTcp)
    (ho : offFlags f.bytes = 0) : forceCsumCalculation f = some (decide (onesRep
      (pseudoSum f.bytes ipprotoTcp (segmentLength f.bytes) + segmentSum f f.bytes) = 65535)) := by
  have hheader : segmentHeader f.bytes = 20 := by simp [segmentHeader, hp]
  have hle := hw.header_le
  have hpseudo := @pseudoSum_le f.bytes ipprotoTcp (segmentLength f.bytes) (by decide)
  have hrep := onesRep_le (pseudoSum f.bytes ipprotoTcp (segmentLength f.bytes) + segmentSum f f.bytes)
  rw [forceCsumCalculation, hw.findSegment_eq]
  simp only [hp, ne_eq, not_true_eq_false, if_false, ho, if_neg (show ¬firstLength f < 20 by omega)]
  rw [u32, Nat.mod_eq_of_lt (by omega), accSegment_fold f _ hpseudo]
  congr 1
  rw [decide_eq_decide]
  omega

/-! ## Divisions -/

/-- The frame with other contents. -/
def Frame.with (f : Frame) (m : Bytes) : Frame := { f with bytes := m }

theorem start_congr {m m' : Bytes} (h : ∀ q < 34, m' q = m q) : segmentStart m' = segmentStart m ∧
    segmentLength m' = segmentLength m ∧ segmentHeader m' = segmentHeader m ∧ fieldAt m' = fieldAt m := by
  obtain ⟨hproto, hlen, htot, -⟩ := header_congr h
  refine ⟨?_, ?_, ?_, ?_⟩
  all_goals simp only [segmentStart, segmentLength, segmentHeader, fieldAt, checksumOffset, hproto, hlen, htot]

theorem parts_congr {m : Bytes} (h : ∀ q < 34, m q = f.bytes q) :
    (f.with m).parts = f.parts ∧ firstLength (f.with m) = firstLength f := by
  obtain ⟨hstart, hlen, -⟩ := start_congr h
  have hfirst : firstLength (f.with m) = firstLength f := by
    simp only [firstLength, Frame.with, hstart, hlen]
  refine ⟨?_, hfirst⟩
  simp only [Frame.parts, hfirst]
  simp only [Frame.with, hlen]

theorem WellFormed.with (hw : WellFormed f) {m : Bytes} (h : ∀ q < 34, m q = f.bytes q)
    (hb : ipProto f.bytes = ipprotoUdp → word m (fieldAt f.bytes) = word f.bytes (fieldAt f.bytes)) :
    WellFormed (f.with m) := by
  obtain ⟨hproto, hihl, htot, heth, -, hpseudo⟩ := header_congr h
  obtain ⟨hstart, hlen, hheader, hfield⟩ := start_congr h
  refine ⟨heth.trans hw.ipv4, ?_, ?_, ?_, ?_, ?_, ?_⟩
  · simp only [Frame.with, hproto]
    exact hw.proto
  · simp only [Frame.with, hihl]
    exact hw.header
  · simp only [Frame.with, hstart, hheader]
    exact hw.first
  · simp only [Frame.with, hihl, hheader, htot]
    exact hw.total
  · simp only [Frame.with, htot]
    exact hw.covers
  · intro hp
    simp only [Frame.with, hproto] at hp
    simp only [Frame.with, hfield, hpseudo, hlen]
    rw [hb hp]
    exact hw.blank hp

theorem segmentSum_with {m : Bytes} (h : ∀ q < 34, m q = f.bytes q) (m' : Bytes) :
    segmentSum (f.with m) m' = segmentSum f m' := by
  obtain ⟨hparts, hfirst⟩ := parts_congr h
  have hstart : segmentStart (f.with m).bytes = segmentStart f.bytes := (start_congr h).1
  rw [segmentSum, segmentSum, hparts, hfirst, hstart]

theorem Aligned.segmentSum (hw : WellFormed f) (h : Aligned f) (m : Bytes) :
    segmentSum f m = bytesSum m (segmentStart f.bytes) (segmentLength f.bytes) := by
  have hfirst := hw.first
  have htotal := hw.total
  have hcovers := hw.covers
  have hsl : segmentStart f.bytes + segmentLength f.bytes = 14 + totLen f.bytes := by
    simp only [segmentStart, segmentLength]
    omega
  have hle : firstLength f ≤ segmentLength f.bytes := Nat.min_le_right _ _
  rw [RxChecksum.segmentSum]
  rcases Nat.eq_or_lt_of_le hle with heq | hlt
  · rw [Frame.parts, heq, Nat.sub_self, restParts_zero]
    rfl
  · have hfl : firstLength f = f.first - segmentStart f.bytes := by
      simp only [firstLength] at hlt ⊢
      omega
    have heven := even_of_aligned (show 0 < segmentLength f.bytes - firstLength f by omega) (by omega) h
    have hstart : segmentStart f.bytes % 2 = 0 := by
      simp only [segmentStart, ipHeaderLength]
      omega
    rw [Frame.parts, partsSum_aligned m (by omega) h]
    have hsplit := bytesSum_add m (segmentStart f.bytes) (a := firstLength f)
      (segmentLength f.bytes - firstLength f) (by omega)
    rw [Nat.add_sub_cancel' hle] at hsplit
    rw [hsplit]
    congr 2
    omega

theorem WellFormed.rfcChecksum_eq (hw : WellFormed f) : rfcChecksum f.bytes = 65535 - onesRep
    (pseudoSum f.bytes (ipProto f.bytes) (segmentLength f.bytes) +
      bytesSum (put16 f.bytes (fieldAt f.bytes) 0) (segmentStart f.bytes) (segmentLength f.bytes)) := by
  obtain ⟨hproto, -, -, -, -, hpseudo⟩ := header_congr (hw.put16_header 0)
  obtain ⟨hstart, hlen, -⟩ := start_congr (hw.put16_header 0)
  rw [rfcChecksum, rfcSum, hproto, hpseudo, hstart, hlen]

theorem Aligned.correct (hw : WellFormed f) (h : Aligned f) : Correct f := by
  constructor
  · rw [hw.fixup_eq, hw.rfcChecksum_eq, blankSum, h.segmentSum hw]
  · intro hp ho
    rw [hw.force_eq hp ho, h.segmentSum hw, rfcSum, hp]

theorem WellFormed.sum_of_correct (hw : WellFormed f) (h : Correct f) : blankSum f % 65535 =
    (pseudoSum f.bytes (ipProto f.bytes) (segmentLength f.bytes) +
      bytesSum (put16 f.bytes (fieldAt f.bytes) 0) (segmentStart f.bytes) (segmentLength f.bytes)) % 65535 := by
  have hfix := h.fixup
  rw [hw.fixup_eq, hw.rfcChecksum_eq] at hfix
  have hpos := pseudoSum_pos f.bytes (segmentLength f.bytes) hw.proto_le.1
  have hword := congrArg (fun g : Frame => word g.bytes (fieldAt f.bytes)) hfix
  have hcode := onesRep_le (blankSum f)
  have hspec := onesRep_le (pseudoSum f.bytes (ipProto f.bytes) (segmentLength f.bytes) +
    bytesSum (put16 f.bytes (fieldAt f.bytes) 0) (segmentStart f.bytes) (segmentLength f.bytes))
  simp only at hword
  rw [word_put16 (by omega), word_put16 (by omega)] at hword
  have hblank : 0 < blankSum f := Nat.add_pos_left hpos _
  refine (onesRep_eq_iff hblank (Nat.add_pos_left hpos _)).mp ?_
  omega

theorem partsSum_update (m : Bytes) {ns : List Nat} {p len : Nat} {q : Nat × Nat}
    (hq : q ∈ restParts ns p len) (hpos : 0 < q.2) :
    partsSum (update m q.1 1) (restParts ns p len) =
      partsSum (update m q.1 0) (restParts ns p len) + 1 := by
  induction ns generalizing p len with
  | nil => cases hq
  | cons n ns ih =>
    rcases Nat.eq_zero_or_pos len with rfl | hlen
    · rw [restParts_zero] at hq
      cases hq
    · rw [restParts_cons n ns p (by omega)] at hq ⊢
      rw [partsSum_cons, partsSum_cons]
      rcases List.mem_cons.mp hq with rfl | hq
      · -- the other parts are further on
        have hrest : ∀ b : UInt8, partsSum (update m p b) (restParts ns (p + n) (len - min n len)) =
            partsSum m (restParts ns (p + n) (len - min n len)) := by
          intro b
          rw [partsSum, partsSum]
          congr 1
          refine List.map_congr_left fun q hq => bytesSum_congr fun i _ => ?_
          have := restParts_mem q hq
          simp only at hpos
          exact update_of_ne (by omega) _ _
        have hone := bytesSum_update m p (i := 0) (n := min n len) hpos
        rw [Nat.add_zero] at hone
        simp only [hrest, hone]
        simp only [if_true]
        omega
      · have hbehind := (restParts_mem q hq).1
        have hhead : ∀ b : UInt8, bytesSum (update m q.1 b) p (min n len) =
            bytesSum m p (min n len) := by
          intro b
          exact bytesSum_congr fun i hi => update_of_ne (by omega) _ _
        rw [ih hq]
        simp only [hhead]
        omega

/-- **Whatever the later MDLs hold, the checksums are those of the contiguous segment, exactly when every
MDL that has bytes of the segment starts at an even offset.** -/
theorem correct_iff_aligned (hw : WellFormed f) :
    (∀ m : Bytes, (∀ q < f.first, m q = f.bytes q) → Correct (f.with m)) ↔ Aligned f := by
  have hfirst := hw.first
  have hheader := hw.header
  have hfield := segmentHeader_le f.bytes
  have hwith : ∀ m : Bytes, (∀ q < f.first, m q = f.bytes q) →
      (∀ q < 34, m q = f.bytes q) ∧ WellFormed (f.with m) := by
    intro m hm
    have h34 : ∀ q < 34, m q = f.bytes q := fun q hq => hm q (by
      simp only [segmentStart] at hfirst
      omega)
    refine ⟨h34, hw.with h34 fun _ => word_congr (hm _ ?_) (hm _ ?_)⟩
    all_goals simp only [fieldAt]
    all_goals omega
  constructor
  · intro h q hq hpos
    by_contra hodd
    have hmem := restParts_mem q hq
    have hbytes : ∀ b : UInt8, ∀ x < f.first, update f.bytes q.1 b x = f.bytes x :=
      fun b x hx => update_of_ne (by omega) _ _
    -- a byte at the start of that part counts once for the code and 256 times in the segment
    have hsums : ∀ b : UInt8, (pseudoSum f.bytes (ipProto f.bytes) (segmentLength f.bytes) +
          segmentSum f (put16 (update f.bytes q.1 b) (fieldAt f.bytes) 0)) % 65535 =
        (pseudoSum f.bytes (ipProto f.bytes) (segmentLength f.bytes) +
          bytesSum (put16 (update f.bytes q.1 b) (fieldAt f.bytes) 0) (segmentStart f.bytes)
            (segmentLength f.bytes)) % 65535 := by
      intro b
      obtain ⟨h34, hwb⟩ := hwith _ (hbytes b)
      obtain ⟨hproto, -, -, -, -, hpseudo⟩ := header_congr h34
      obtain ⟨hstart, hlen, -, hfieldAt⟩ := start_congr h34
      have hsum := hwb.sum_of_correct (h _ (hbytes b))
      rw [blankSum, segmentSum_with h34] at hsum
      simp only [Frame.with, hproto, hpseudo, hlen, hstart, hfieldAt] at hsum
      exact hsum
    have hcomm : ∀ b : UInt8, put16 (update f.bytes q.1 b) (fieldAt f.bytes) 0 =
        update (put16 f.bytes (fieldAt f.bytes) 0) q.1 b := by
      intro b
      simp only [put16, fieldAt]
      rw [Function.update_comm (show q.1 ≠ segmentStart f.bytes + checksumOffset f.bytes by omega),
        Function.update_comm (show q.1 ≠ segmentStart f.bytes + checksumOffset f.bytes + 1 by omega)]
    have hstart : segmentStart f.bytes % 2 = 0 := by
      simp only [segmentStart, ipHeaderLength]
      omega
    have hfl : firstLength f ≤ f.first - segmentStart f.bytes := Nat.min_le_left _ _
    have hle : firstLength f ≤ segmentLength f.bytes := Nat.min_le_right _ _
    have hcode := partsSum_update (put16 f.bytes (fieldAt f.bytes) 0) hq hpos
    have hhead : ∀ b : UInt8, bytesSum (update (put16 f.bytes (fieldAt f.bytes) 0) q.1 b)
        (segmentStart f.bytes) (firstLength f) =
        bytesSum (put16 f.bytes (fieldAt f.bytes) 0) (segmentStart f.bytes) (firstLength f) := by
      intro b
      exact bytesSum_congr fun i hi => update_of_ne (by omega) _ _
    have hwhole := bytesSum_update (put16 f.bytes (fieldAt f.bytes) 0) (segmentStart f.bytes)
      (i := q.1 - segmentStart f.bytes) (n := segmentLength f.bytes) (by
        have hlen : f.first - segmentStart f.bytes ≤ segmentLength f.bytes := by
          simp only [firstLength] at hmem
          omega
        simp only [firstLength, Nat.min_eq_left hlen] at hmem
        omega)
    rw [Nat.add_sub_cancel' (by omega), if_neg (by omega)] at hwhole
    have hzero := hsums 0
    have hone := hsums 1
    simp only [hcomm, RxChecksum.segmentSum, hhead] at hzero hone
    simp only [Frame.parts] at hzero hone hcode
    omega
  · intro h m hm
    obtain ⟨h34, hwm⟩ := hwith m hm
    refine Aligned.correct hwm ?_
    rw [Aligned, (parts_congr h34).1]
    exact h

/-- A TCP segment of two bytes of data, the second one is 1; `flags` is the first byte of `off_flags`. -/
def sampleBytes (flags : UInt8) : Bytes := fun q =>
  if q = 12 then 8 else if q = 14 then 0x45 else if q = 17 then 42 else if q = 20 then flags
  else if q = 23 then 6 else if q = 55 then 1 else 0

def sample (flags : UInt8) (first : Nat) (rest : List Nat) : Frame := ⟨sampleBytes flags, first, rest⟩

theorem sample_header (flags : UInt8) : ipHeaderLength (sampleBytes flags) = 20 ∧
    totLen (sampleBytes flags) = 42 ∧ ipProto (sampleBytes flags) = ipprotoTcp := by
  simp [ipHeaderLength, totLen, ipProto, htons, word, sampleBytes]

theorem wellFormed_sample (flags : UInt8) {first : Nat} {rest : List Nat} (hfirst : 54 ≤ first)
    (h : 56 ≤ first + rest.sum) : WellFormed (sample flags first rest) := by
  obtain ⟨hihl, htot, hproto⟩ := sample_header flags
  constructor
  · rfl
  · exact Or.inl hproto
  all_goals simp only [sample, segmentStart, segmentHeader, hihl, htot, hproto, if_true]
  · decide
  · exact hfirst
  · decide
  · exact h
  · exact fun hp => absurd hp (by decide)

theorem correct_iff_aligned_sample : WellFormed (sample 0x40 54 [2]) ∧
    ∀ m : Bytes, (∀ q < 54, m q = sampleBytes 0x40 q) → Correct ((sample 0x40 54 [2]).with m) := by
  have hw : WellFormed (sample 0x40 54 [2]) := wellFormed_sample 0x40 (by decide) (by decide)
  refine ⟨hw, (correct_iff_aligned hw).mpr ?_⟩
  unfold Aligned
  decide

/-- The data in one MDL with the headers, and cut in the middle. -/
theorem fixup_odd : WellFormed (sample 0x40 56 []) ∧ WellFormed (sample 0x40 55 [1]) ∧
    word (fixupTcpUdpChecksum (sample 0x40 56 [])).bytes 50 ≠
      word (fixupTcpUdpChecksum (sample 0x40 55 [1])).bytes 50 :=
  ⟨wellFormed_sample _ (by decide) (by decide), wellFormed_sample _ (by decide) (by decide), by decide⟩

/-! ## The check of what was written -/

theorem sum_written {a b : Nat} (h : 0 < a) : 0 < a + (b + (65535 - onesRep (a + b))) ∧
    (a + (b + (65535 - onesRep (a + b)))) % 65535 = 0 := by
  have hle := onesRep_le (a + b)
  have hmod := onesRep_mod (a + b)
  omega

/-- **What the fix-up writes, the check accepts, however the frame is divided; and where every part starts
at an even offset, it accepts no other word in place of one of the segment.** -/
theorem fixup_then_force (hw : WellFormed f) (hp : ipProto f.bytes = ipprotoTcp)
    (ho : offFlags f.bytes = 0) :
    forceCsumCalculation (fixupTcpUdpChecksum f) = some true ∧
      (Aligned f → ∀ k, k % 2 = 0 → k + 2 ≤ segmentLength f.bytes → ∀ v < 65536,
        v % 65535 ≠ word (fixupTcpUdpChecksum f).bytes (segmentStart f.bytes + k) % 65535 →
        forceCsumCalculation ((fixupTcpUdpChecksum f).with
          (put16 (fixupTcpUdpChecksum f).bytes (segmentStart f.bytes + k) v)) = some false) := by
  have hheader := hw.header
  have hpos := pseudoSum_pos f.bytes (segmentLength f.bytes) (show 0 < ipprotoTcp by decide)
  have hrep := onesRep_le (blankSum f)
  rw [hw.fixup_eq]
  -- the frame as the fix-up leaves it
  have hm := hw.put16_header (65535 - onesRep (blankSum f))
  have hsum := hw.segmentSum_put16 (put16 f.bytes (fieldAt f.bytes) 0)
    (show 65535 - onesRep (blankSum f) < 65536 by omega)
  rw [put16_put16, word_put16 (by decide), Nat.add_zero] at hsum
  have hblank : blankSum f = pseudoSum f.bytes ipprotoTcp (segmentLength f.bytes) +
      segmentSum f (put16 f.bytes (fieldAt f.bytes) 0) := by rw [blankSum, hp]
  have hforce : ∀ m : Bytes, (∀ q < 34, m q = f.bytes q) → forceCsumCalculation (f.with m) =
      some (decide (onesRep (pseudoSum f.bytes ipprotoTcp (segmentLength f.bytes) + segmentSum f m) =
        65535)) := by
    intro m hm
    obtain ⟨hproto, -, -, -, hflags, hpseudo⟩ := header_congr hm
    have hwm := hw.with hm fun hu => absurd (hp.symm.trans hu) (by decide)
    have hlen : segmentLength (f.with m).bytes = segmentLength f.bytes := (start_congr hm).2.1
    rw [hwm.force_eq (hproto.trans hp) (hflags.trans ho), segmentSum_with hm, hlen]
    simp only [Frame.with, hpseudo]
  have hwritten := sum_written (b := segmentSum f (put16 f.bytes (fieldAt f.bytes) 0)) hpos
  rw [← hblank] at hwritten
  constructor
  · refine (hforce _ hm).trans ?_
    rw [hsum, decide_eq_true (onesRep_eq_top_iff.mpr hwritten)]
  · intro ha k hk hkl v hv hne
    have hm' : ∀ q < 34, put16 (put16 f.bytes (fieldAt f.bytes) (65535 - onesRep (blankSum f)))
        (segmentStart f.bytes + k) v q = f.bytes q := by
      intro q hq
      rw [put16_other, hm q hq]
      all_goals simp only [segmentStart]
      all_goals omega
    refine (hforce _ hm').trans ?_
    have hchanged := bytesSum_put16 (put16 f.bytes (fieldAt f.bytes) (65535 - onesRep (blankSum f)))
      (segmentStart f.bytes) hk hkl hv
    rw [← ha.segmentSum hw, ← ha.segmentSum hw, hsum] at hchanged
    have hno : ¬onesRep (pseudoSum f.bytes ipprotoTcp (segmentLength f.bytes) + segmentSum f
        (put16 (put16 f.bytes (fieldAt f.bytes) (65535 - onesRep (blankSum f)))
          (segmentStart f.bytes + k) v)) = 65535 := by
      rw [onesRep_eq_top_iff]
      rintro ⟨-, hmod⟩
      simp only at hne
      omega
    rw [decide_eq_false hno]

theorem fixup_then_force_sample :
    forceCsumCalculation (fixupTcpUdpChecksum (sample 0x40 54 [2])) = some true ∧
      forceCsumCalculation ((fixupTcpUdpChecksum (sample 0x40 54 [2])).with
        (put16 (fixupTcpUdpChecksum (sample 0x40 54 [2])).bytes 54 7)) = some false := by
  have h := fixup_then_force (@wellFormed_sample 0x40 54 [2] (by decide) (by decide)) rfl rfl
  refine ⟨h.1, h.2 ?_ 20 rfl (by decide) 7 (by decide) (by decide)⟩
  unfold Aligned
  decide

/-- With the reserved flag set a datagram that is no fragment is left alone. -/
theorem force_reserved : WellFormed (sample 0x80 56 []) ∧ ipProto (sample 0x80 56 []).bytes = ipprotoTcp ∧
    word (sample 0x80 56 []).bytes 20 &&& 0xff3f = 0 ∧
    forceCsumCalculation (fixupTcpUdpChecksum (sample 0x80 56 [])) = none :=
  ⟨wellFormed_sample _ (by decide) (by decide), rfl, by decide, by decide⟩

end Routines

end XcWindows.Xennet6.RxChecksum
