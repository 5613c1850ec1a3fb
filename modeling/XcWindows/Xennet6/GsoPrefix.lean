import Mathlib.Data.List.GetD
import XcWindows.Lib.OnesComplement
import XcWindows.Xennet6.Shadows

/-!
# Splitting off a prefix

`ExtractMdl` and `ReceiverCreatePrefix` of `net/xennet6/receiver.c`, with what `ReceiverReceiveBufferList` does
around it. An MDL is the page of its RFD with the start and the length of its data; pages are never shared.

The data is taken from the first MDL behind its headers, which move forward over the gap, and from the starts of
the others. `content` is what an MDL has, `frame` what a chain has; `extractMdl_eq` says what is left of it.
-/

namespace XcWindows.Xennet6.GsoPrefix

open XcWindows.Lib
open Function (update update_of_ne update_self)

abbrev tpid8021Q : Nat := 0x81

abbrev tpidIpv4 : Nat := 8

abbrev ipprotoTcp : Nat := 6


/-- `TCP_FIN | TCP_PSH` -/
abbrev tcpFinPsh : Nat := 0x0900

abbrev tcpUrg : Nat := 0x2000

structure Mdl where
  page : Bytes
  mappedSystemVa : Nat
  byteOffset : Nat
  byteCount : Nat

/-- The byte at a distance from `MappedSystemVa`. -/
def Mdl.at (m : Mdl) : Bytes := fun k => m.page (m.mappedSystemVa + k)

/-- `RtlCopyMemory` and `RtlMoveMemory` of `n` bytes. -/
def rtlMoveMemory (dst : Bytes) (p : Nat) (src : Bytes) (q n : Nat) : Bytes :=
  fun x => if p ≤ x ∧ x < p + n then src (q + (x - p)) else dst x

/-- The loop of `ExtractMdl`: what is at `ptr`, and the MDLs. -/
def extractMdl (dst : Bytes) (ptr : Nat) : List Mdl → Nat → Nat → Except Crash (Bytes × List Mdl)
  | mdls, _, 0 => .ok (dst, mdls)
  | [], _, _ + 1 => .error .bugCheck
  | m :: ms, offset, size + 1 => do
    xmAssert (offset ≤ m.byteCount) .bugCheck
    let byteCount := min (m.byteCount - offset) (size + 1)
    let dst := rtlMoveMemory dst ptr m.page (m.mappedSystemVa + offset) byteCount
    let m :=
      if byteCount = 0 then m
      else
        { page := if offset = 0 then m.page
            else rtlMoveMemory m.page (m.mappedSystemVa + byteCount) m.page m.mappedSystemVa offset
          mappedSystemVa := m.mappedSystemVa + byteCount
          byteOffset := m.byteOffset + byteCount
          byteCount := m.byteCount - byteCount }
    let (dst, ms) ← extractMdl dst (ptr + byteCount) ms 0 (size + 1 - byteCount)
    .ok (dst, m :: ms)

/-! ## Headers -/

/-- `ntohs` of a field. -/
def be16 (b : Bytes) (p : Nat) : Nat := 256 * (b p).toNat + (b (p + 1)).toNat

/-- `ntohl` of a field. -/
def be32 (b : Bytes) (p : Nat) : Nat := 65536 * be16 b p + be16 b (p + 2)

/-- Store the `htons` of a value. -/
def putBe16 (b : Bytes) (p v : Nat) : Bytes :=
  update (update b p (UInt8.ofNat (v / 256))) (p + 1) (UInt8.ofNat v)

/-- Store the `htonl` of a value. -/
def putBe32 (b : Bytes) (p v : Nat) : Bytes := putBe16 (putBe16 b p (v / 65536)) (p + 2) (v % 65536)

def ethernetHeaderLength (b : Bytes) : Nat := if word b 12 = tpid8021Q then 14 + 4 else 14

/-- `(ipHeader->len_version & 0x0f) * 4` -/
def ipHeaderLength (b : Bytes) : Nat := (b (ethernetHeaderLength b)).toNat % 16 * 4

/-- Where the TCP header is. -/
def tcpHeader (b : Bytes) : Nat := ethernetHeaderLength b + ipHeaderLength b

def offAndFlags (b : Bytes) : Nat := word b (tcpHeader b + 12)

/-- `(tcpHeader->off_and_flags & 0xf0) / 4` -/
def tcpHeaderLength (b : Bytes) : Nat := (offAndFlags b &&& 0xf0) / 4

/-- The length of the headers. -/
def headers (b : Bytes) : Nat := tcpHeader b + tcpHeaderLength b

def totLen (b : Bytes) : Nat := be16 b (ethernetHeaderLength b + 2)

def ipId (b : Bytes) : Nat := be16 b (ethernetHeaderLength b + 4)

def seq (b : Bytes) : Nat := be32 b (tcpHeader b + 4)

/-- The header of the source is for what is behind `Size` bytes. -/
def advance (b : Bytes) (size : Nat) : Bytes :=
  let ip := ethernetHeaderLength b
  let tcp := tcpHeader b
  let b := putBe16 b (ip + 2) (u16 (sub32 (be16 b (ip + 2)) size))
  let b := putBe16 b (ip + 4) (u16 (be16 b (ip + 4) + 1))
  putBe32 b (tcp + 4) (u32 (be32 b (tcp + 4) + size))

/-- The header of the destination, a copy of `h`, is for `Size` bytes. -/
def shorten (h b : Bytes) (size : Nat) : Bytes :=
  let b := putBe16 b (ethernetHeaderLength h + 2) (u16 (ipHeaderLength h + tcpHeaderLength h + size))
  put16 b (tcpHeader h + 12) (word b (tcpHeader h + 12) &&& (0xffff - tcpFinPsh))

/-- A change of the bytes from `MappedSystemVa` on. -/
def Mdl.edit (m : Mdl) (f : Bytes → Bytes) : Mdl :=
  { m with page := fun x => if m.mappedSystemVa ≤ x then f m.at (x - m.mappedSystemVa) else m.page x }

/-- `ReceiverCreatePrefix`; `none` where it returns `FALSE`. -/
def receiverCreatePrefix (dest : Mdl) (source : List Mdl) (size : Nat) :
    Except Crash (Option (Mdl × List Mdl)) :=
  match source with
  | [] => .error .bugCheck
  | m :: ms =>
    if offAndFlags m.at &&& tcpUrg ≠ 0 then .ok none
    else do
      let length := headers m.at
      let dest := { dest with
        page := rtlMoveMemory dest.page dest.mappedSystemVa m.page m.mappedSystemVa length }
      let source := m.edit fun b => advance b size
      let dest := dest.edit fun b => shorten m.at b size
      let (page, mdls) ← extractMdl dest.page (dest.mappedSystemVa + length) (source :: ms) length size
      .ok (some ({ dest with page, byteCount := length + size }, mdls))

/-- The split in `ReceiverReceiveBufferList`: the prefix, the packet and `totOctets`. -/
def splitPrefix (prefixMdl : Mdl) (buffer : List Mdl) (gsoSize totOctets : Nat) :
    Except Crash (Option Mdl × List Mdl × Nat) := do
  match ← receiverCreatePrefix prefixMdl buffer gsoSize with
  | some (prefixMdl, buffer) => .ok (some prefixMdl, buffer, sub32 totOctets gsoSize)
  | none => .ok (none, buffer, totOctets)

/-! ## Frames -/

def Mdl.content (m : Mdl) : List UInt8 := (List.range m.byteCount).map m.at

def frame (mdls : List Mdl) : List UInt8 := mdls.flatMap Mdl.content

/-- The bytes of a frame by their position. -/
def bytesOf (f : List UInt8) : Bytes := fun k => f.getD k 0

/-- The data of a frame, which may be padded. -/
def payload (f : List UInt8) : List UInt8 :=
  (f.drop (headers (bytesOf f))).take (totLen (bytesOf f) - ipHeaderLength (bytesOf f) - tcpHeaderLength (bytesOf f))

/-- A TCP frame over IPv4 without urgent data, with its headers in the first MDL, and a size to split off. -/
structure Received (m : Mdl) (ms : List Mdl) (size : Nat) : Prop where
  ipv4 : word m.at (ethernetHeaderLength m.at - 2) = tpidIpv4
  proto : (m.at (ethernetHeaderLength m.at + 9)).toNat = ipprotoTcp
  ip : 20 ≤ ipHeaderLength m.at
  tcp : 20 ≤ tcpHeaderLength m.at
  urg : offAndFlags m.at &&& tcpUrg = 0
  first : headers m.at ≤ m.byteCount
  total : ipHeaderLength m.at + tcpHeaderLength m.at + size ≤ totLen m.at
  covers : ethernetHeaderLength m.at + totLen m.at ≤ (frame (m :: ms)).length
  page : headers m.at + size ≤ pageSize

/-- Two headers of the same form. -/
structure SameForm (b b' : Bytes) : Prop where
  ethernet : ethernetHeaderLength b' = ethernetHeaderLength b
  ip : ipHeaderLength b' = ipHeaderLength b
  tcp : tcpHeaderLength b' = tcpHeaderLength b

/-- A header with the same bytes but those of the IP length and the TCP flags. -/
structure PrefixHeader (b b' : Bytes) (size : Nat) : Prop where
  form : SameForm b b'
  kept : ∀ k < headers b, k ≠ ethernetHeaderLength b + 2 → k ≠ ethernetHeaderLength b + 3 →
    k ≠ tcpHeader b + 13 → b' k = b k
  totLen : totLen b' = ipHeaderLength b + tcpHeaderLength b + size
  ipId : ipId b' = ipId b
  seq : seq b' = seq b
  flags : offAndFlags b' = offAndFlags b &&& (0xffff - tcpFinPsh)

/-- A header with the same bytes but those of the IP length and id and the TCP sequence number. -/
structure RestHeader (b b' : Bytes) (size : Nat) : Prop where
  form : SameForm b b'
  kept : ∀ k < headers b, ¬(ethernetHeaderLength b + 2 ≤ k ∧ k < ethernetHeaderLength b + 6) →
    ¬(tcpHeader b + 4 ≤ k ∧ k < tcpHeader b + 8) → b' k = b k
  totLen : totLen b' + size = totLen b
  ipId : ipId b' = (ipId b + 1) % 65536
  seq : seq b' = (seq b + size) % 4294967296
  flags : offAndFlags b' = offAndFlags b

/-- The frame `f` is split into the prefix `p` and the rest `r`. The addresses and the ports are among the bytes
of the headers that are kept. -/
structure Split (f : List UInt8) (size : Nat) (p r : List UInt8) : Prop where
  prefixHeader : PrefixHeader (bytesOf f) (bytesOf p) size
  restHeader : RestHeader (bytesOf f) (bytesOf r) size
  data : payload p ++ payload r = payload f
  prefixLength : (payload p).length = size ∧ p.length = headers (bytesOf f) + size
  restLength : totLen (bytesOf r) = ipHeaderLength (bytesOf f) + tcpHeaderLength (bytesOf f) + (payload r).length ∧
    r.length + size = f.length

/-! ## What the edits do to a header -/

section Headers

variable {b b' : Bytes} {size : Nat}

theorem putBe16_other {p q v : Nat} (h : q ≠ p) (h' : q ≠ p + 1) : putBe16 b p v q = b q := by
  rw [putBe16, update_of_ne h', update_of_ne h]

theorem be16_putBe16 {p v : Nat} (h : v < 65536) : be16 (putBe16 b p v) p = v := by
  have hne : p ≠ p + 1 := Nat.ne_of_lt (Nat.lt_succ_self p)
  rw [be16, putBe16, update_self, update_of_ne hne, update_self,
    UInt8.toNat_ofNat', UInt8.toNat_ofNat']
  omega

theorem be16_congr {p : Nat} (h : b' p = b p) (h' : b' (p + 1) = b (p + 1)) : be16 b' p = be16 b p := by
  rw [be16, be16, h, h']

theorem be16_lt (b : Bytes) (p : Nat) : be16 b p < 65536 := by
  have := (b p).toNat_lt
  have := (b (p + 1)).toNat_lt
  simp only [be16]
  omega

theorem be32_congr {p : Nat} (h : ∀ k, p ≤ k → k < p + 4 → b' k = b k) : be32 b' p = be32 b p := by
  rw [be32, be32, be16_congr (h p (by omega) (by omega)) (h (p + 1) (by omega) (by omega)),
    be16_congr (h (p + 2) (by omega) (by omega)) (h (p + 2 + 1) (by omega) (by omega))]

theorem putBe32_other {p q v : Nat} (h : ¬(p ≤ q ∧ q < p + 4)) : putBe32 b p v q = b q := by
  rw [putBe32, putBe16_other (by omega) (by omega), putBe16_other (by omega) (by omega)]

theorem be32_putBe32 {p v : Nat} (h : v < 4294967296) : be32 (putBe32 b p v) p = v := by
  have hhigh : be16 (putBe32 b p v) p = be16 (putBe16 b p (v / 65536)) p :=
    be16_congr (putBe16_other (by omega) (by omega)) (putBe16_other (by omega) (by omega))
  rw [be32, hhigh, be16_putBe16 (by omega), putBe32, be16_putBe16 (by omega)]
  omega

theorem sameForm_of (htype : word b' 12 = word b 12)
    (hip : b' (ethernetHeaderLength b) = b (ethernetHeaderLength b))
    (hoff : word b' (tcpHeader b + 12) &&& 0xf0 = offAndFlags b &&& 0xf0) : SameForm b b' := by
  have heth : ethernetHeaderLength b' = ethernetHeaderLength b := by
    rw [ethernetHeaderLength, ethernetHeaderLength, htype]
  have hihl : ipHeaderLength b' = ipHeaderLength b := by
    rw [ipHeaderLength, ipHeaderLength, heth, hip]
  refine ⟨heth, hihl, ?_⟩
  rw [tcpHeaderLength, tcpHeaderLength, offAndFlags, tcpHeader, heth, hihl]
  exact congrArg (· / 4) hoff

theorem SameForm.tcpHeader (h : SameForm b b') : tcpHeader b' = tcpHeader b := by
  rw [GsoPrefix.tcpHeader, GsoPrefix.tcpHeader, h.ethernet, h.ip]

theorem SameForm.headers (h : SameForm b b') : headers b' = headers b := by
  rw [GsoPrefix.headers, GsoPrefix.headers, h.tcpHeader, h.tcp]

theorem ethernetHeaderLength_ge (b : Bytes) : 14 ≤ ethernetHeaderLength b := by
  unfold ethernetHeaderLength
  split
  · decide
  · exact Nat.le_refl 14

theorem advance_other {k : Nat}
    (h : ¬(ethernetHeaderLength b + 2 ≤ k ∧ k < ethernetHeaderLength b + 6))
    (h' : ¬(tcpHeader b + 4 ≤ k ∧ k < tcpHeader b + 8)) : advance b size k = b k := by
  rw [advance, putBe32_other (by omega), putBe16_other (by omega) (by omega), putBe16_other (by omega) (by omega)]

theorem advance_fields (hip : 20 ≤ ipHeaderLength b) :
    be16 (advance b size) (ethernetHeaderLength b + 2) = u16 (sub32 (totLen b) size) ∧
      be16 (advance b size) (ethernetHeaderLength b + 4) = u16 (ipId b + 1) ∧
      be32 (advance b size) (tcpHeader b + 4) = u32 (seq b + size) := by
  have htcp : tcpHeader b = ethernetHeaderLength b + ipHeaderLength b := rfl
  simp only [advance]
  refine ⟨?_, ?_, ?_⟩
  · rw [be16_congr (putBe32_other (by omega)) (putBe32_other (by omega)),
      be16_congr (putBe16_other (by omega) (by omega)) (putBe16_other (by omega) (by omega)),
      be16_putBe16 (Nat.mod_lt _ (by decide))]
    rfl
  · rw [be16_congr (putBe32_other (by omega)) (putBe32_other (by omega)), be16_putBe16 (Nat.mod_lt _ (by decide)),
      be16_congr (putBe16_other (by omega) (by omega)) (putBe16_other (by omega) (by omega))]
    rfl
  · rw [be32_putBe32 (Nat.mod_lt _ (by decide)), be32_congr fun k _ _ => by
      rw [putBe16_other (by omega) (by omega), putBe16_other (by omega) (by omega)]]
    rfl

theorem restHeader_advance (hip : 20 ≤ ipHeaderLength b) (htcp : 20 ≤ tcpHeaderLength b)
    (hsize : size ≤ totLen b) (h : ∀ k < headers b, b' k = advance b size k) : RestHeader b b' size := by
  have heth := ethernetHeaderLength_ge b
  have htcpAt : tcpHeader b = ethernetHeaderLength b + ipHeaderLength b := rfl
  have hheaders : headers b = tcpHeader b + tcpHeaderLength b := rfl
  have htot := be16_lt b (ethernetHeaderLength b + 2)
  have hkept : ∀ k < headers b, ¬(ethernetHeaderLength b + 2 ≤ k ∧ k < ethernetHeaderLength b + 6) →
      ¬(tcpHeader b + 4 ≤ k ∧ k < tcpHeader b + 8) → b' k = b k :=
    fun k hk h1 h2 => (h k hk).trans (advance_other h1 h2)
  obtain ⟨hlen, hid, hseq⟩ := @advance_fields b size hip
  have htype : word b' 12 = word b 12 :=
    word_congr (hkept 12 (by omega) (by omega) (by omega)) (hkept 13 (by omega) (by omega) (by omega))
  have hoff : word b' (tcpHeader b + 12) = offAndFlags b :=
    word_congr (hkept _ (by omega) (by omega) (by omega)) (hkept _ (by omega) (by omega) (by omega))
  have hform : SameForm b b' :=
    sameForm_of htype (hkept _ (by omega) (by omega) (by omega)) (congrArg (· &&& 0xf0) hoff)
  refine ⟨hform, hkept, ?_, ?_, ?_, ?_⟩
  · rw [totLen, hform.ethernet, be16_congr (h _ (by omega)) (h _ (by omega)), hlen]
    change totLen b < 65536 at htot
    simp only [u16, sub32]
    omega
  · rw [ipId, hform.ethernet, be16_congr (h _ (by omega)) (h _ (by omega)), hid]
  · rw [seq, hform.tcpHeader, be32_congr fun k _ _ => h k (by omega), hseq]
  · rw [offAndFlags, hform.tcpHeader]
    exact hoff

theorem word_and (b : Bytes) (p : Nat) : ((word b p &&& (0xffff - tcpFinPsh)) % 256 = (b p).toNat) ∧
    (word b p &&& (0xffff - tcpFinPsh)) &&& 0xf0 = word b p &&& 0xf0 := by
  have hbyte := (b p).toNat_lt
  constructor
  · have hmod := Nat.and_mod_two_pow (a := word b p) (b := 0xffff - tcpFinPsh) (n := 8)
    have hlow : word b p % 2 ^ 8 = (b p).toNat := by
      simp only [word]
      omega
    have hmask : (0xffff - tcpFinPsh) % 2 ^ 8 = 2 ^ 8 - 1 := by decide
    rw [hlow, hmask, Nat.and_two_pow_sub_one_eq_mod, Nat.mod_eq_of_lt hbyte] at hmod
    exact hmod
  · rw [Nat.and_assoc]
    rfl

variable {c : Bytes}

theorem word_shortened (hip : 20 ≤ ipHeaderLength b) (v : Nat) :
    word (putBe16 c (ethernetHeaderLength b + 2) v) (tcpHeader b + 12) = word c (tcpHeader b + 12) := by
  have htcpAt : tcpHeader b = ethernetHeaderLength b + ipHeaderLength b := rfl
  exact word_congr (putBe16_other (by omega) (by omega)) (putBe16_other (by omega) (by omega))

theorem shorten_other (hip : 20 ≤ ipHeaderLength b) {k : Nat} (h1 : k ≠ ethernetHeaderLength b + 2)
    (h2 : k ≠ ethernetHeaderLength b + 3) (h3 : k ≠ tcpHeader b + 13) : shorten b c size k = c k := by
  rw [shorten]
  by_cases h4 : k = tcpHeader b + 12
  · have hne : tcpHeader b + 12 ≠ tcpHeader b + 12 + 1 := by omega
    rw [h4, put16, update_of_ne hne, update_self, word_shortened hip]
    refine UInt8.toNat_inj.mp ?_
    rw [UInt8.toNat_ofNat']
    exact (word_and c (tcpHeader b + 12)).1
  · rw [put16_other h4 h3, putBe16_other h1 h2]

theorem shorten_fields (hip : 20 ≤ ipHeaderLength b) :
    be16 (shorten b c size) (ethernetHeaderLength b + 2) = u16 (ipHeaderLength b + tcpHeaderLength b + size) ∧
      word (shorten b c size) (tcpHeader b + 12) = word c (tcpHeader b + 12) &&& (0xffff - tcpFinPsh) := by
  have htcpAt : tcpHeader b = ethernetHeaderLength b + ipHeaderLength b := rfl
  have hand : word c (tcpHeader b + 12) &&& (0xffff - tcpFinPsh) < 65536 :=
    Nat.lt_of_le_of_lt Nat.and_le_left (word_lt c _)
  simp only [shorten]
  constructor
  · rw [be16_congr (put16_other (by omega) (by omega)) (put16_other (by omega) (by omega)),
      be16_putBe16 (Nat.mod_lt _ (by decide))]
  · rw [word_shortened hip, word_put16 hand]

theorem prefixHeader_shorten (hip : 20 ≤ ipHeaderLength b) (htcp : 20 ≤ tcpHeaderLength b)
    (hsize : ipHeaderLength b + tcpHeaderLength b + size ≤ totLen b) (hc : ∀ k < headers b, c k = b k)
    (h : ∀ k < headers b, b' k = shorten b c size k) : PrefixHeader b b' size := by
  have heth := ethernetHeaderLength_ge b
  have htcpAt : tcpHeader b = ethernetHeaderLength b + ipHeaderLength b := rfl
  have hheaders : headers b = tcpHeader b + tcpHeaderLength b := rfl
  have htot : totLen b < 65536 := be16_lt b (ethernetHeaderLength b + 2)
  have hkept : ∀ k < headers b, k ≠ ethernetHeaderLength b + 2 → k ≠ ethernetHeaderLength b + 3 →
      k ≠ tcpHeader b + 13 → b' k = b k :=
    fun k hk h1 h2 h3 => (h k hk).trans ((shorten_other hip h1 h2 h3).trans (hc k hk))
  obtain ⟨hlen, hflags⟩ := @shorten_fields b size c hip
  have hoff : word b' (tcpHeader b + 12) = offAndFlags b &&& (0xffff - tcpFinPsh) := by
    rw [word_congr (h _ (by omega)) (h _ (by omega)), hflags, word_congr (hc _ (by omega)) (hc _ (by omega))]
    rfl
  have htype : word b' 12 = word b 12 :=
    word_congr (hkept 12 (by omega) (by omega) (by omega) (by omega))
      (hkept 13 (by omega) (by omega) (by omega) (by omega))
  have hform : SameForm b b' := by
    refine sameForm_of htype (hkept _ (by omega) (by omega) (by omega) (by omega)) ?_
    rw [hoff]
    exact (word_and b _).2
  refine ⟨hform, hkept, ?_, ?_, ?_, ?_⟩
  · rw [totLen, hform.ethernet, be16_congr (h _ (by omega)) (h _ (by omega)), hlen]
    exact Nat.mod_eq_of_lt (by omega)
  · rw [ipId, hform.ethernet]
    exact be16_congr (hkept _ (by omega) (by omega) (by omega) (by omega))
      (hkept _ (by omega) (by omega) (by omega) (by omega))
  · rw [seq, hform.tcpHeader]
    exact be32_congr fun k _ _ => hkept k (by omega) (by omega) (by omega) (by omega)
  · rw [offAndFlags, hform.tcpHeader]
    exact hoff

end Headers

/-! ## What is extracted -/

section Extract

variable {m : Mdl} {n offset size : Nat}

theorem Mdl.length_content (m : Mdl) : m.content.length = m.byteCount := by
  rw [Mdl.content, List.length_map, List.length_range]

theorem Mdl.getElem?_content {i : Nat} (h : i < m.byteCount) : m.content[i]? = some (m.at i) := by
  rw [Mdl.content, List.getElem?_map, List.getElem?_range h, Option.map_some]

theorem frame_cons (m : Mdl) (ms : List Mdl) : frame (m :: ms) = m.content ++ frame ms := List.flatMap_cons

/-- The bytes of a list, stored from an address on. -/
def place (dst : Bytes) (p : Nat) (l : List UInt8) : Bytes :=
  fun x => if p ≤ x ∧ x < p + l.length then l.getD (x - p) 0 else dst x

theorem place_nil (dst : Bytes) (p : Nat) : place dst p [] = dst := by
  funext x
  exact if_neg fun h => Nat.lt_irrefl p (Nat.lt_of_le_of_lt h.1 h.2)

theorem place_place (dst : Bytes) (p : Nat) (l l' : List UInt8) :
    place (place dst p l) (p + l.length) l' = place dst p (l ++ l') := by
  funext x
  simp only [place, List.length_append]
  by_cases hl : p ≤ x ∧ x < p + l.length
  · rw [if_neg (by omega), if_pos hl, if_pos (by omega), List.getD_append _ _ _ _ (by omega)]
  · by_cases hl' : p + l.length ≤ x ∧ x < p + l.length + l'.length
    · rw [if_pos hl', if_pos (by omega), List.getD_append_right _ _ _ _ (by omega)]
      congr 1
      omega
    · rw [if_neg hl', if_neg hl, if_neg (by omega)]

theorem rtlMoveMemory_eq (dst : Bytes) (p : Nat) (h : offset + n ≤ m.byteCount) :
    rtlMoveMemory dst p m.page (m.mappedSystemVa + offset) n = place dst p ((m.content.drop offset).take n) := by
  have hlen : ((m.content.drop offset).take n).length = n := by
    rw [List.length_take, List.length_drop, Mdl.length_content]
    omega
  funext x
  simp only [rtlMoveMemory, place, hlen]
  by_cases hx : p ≤ x ∧ x < p + n
  · rw [if_pos hx, if_pos hx, List.getD_eq_getElem?_getD, List.getElem?_take_of_lt (by omega), List.getElem?_drop,
      Mdl.getElem?_content (by omega), Option.getD_some, Mdl.at, Nat.add_assoc]
  · rw [if_neg hx, if_neg hx]

/-- The MDL without `n` bytes behind the first ones. -/
def Mdl.without (m : Mdl) (offset n : Nat) : Mdl :=
  if n = 0 then m
  else
    { page := if offset = 0 then m.page
        else rtlMoveMemory m.page (m.mappedSystemVa + n) m.page m.mappedSystemVa offset
      mappedSystemVa := m.mappedSystemVa + n
      byteOffset := m.byteOffset + n
      byteCount := m.byteCount - n }

theorem Mdl.without_byteCount (m : Mdl) (offset n : Nat) : (m.without offset n).byteCount = m.byteCount - n := by
  unfold Mdl.without
  split
  · next h => rw [h, Nat.sub_zero]
  · rfl

theorem Mdl.without_at (m : Mdl) (offset n k : Nat) :
    (m.without offset n).at k = if k < offset then m.at k else m.at (k + n) := by
  unfold Mdl.without
  split
  · next h => rw [h, Nat.add_zero, ite_self]
  · have hva : m.mappedSystemVa + n + k = m.mappedSystemVa + (k + n) := by omega
    simp only [Mdl.at]
    by_cases h0 : offset = 0
    · rw [if_pos h0, if_neg (by omega), hva]
    · rw [if_neg h0, rtlMoveMemory]
      by_cases hk : k < offset
      · rw [if_pos (by omega), if_pos hk]
        congr 1
        omega
      · rw [if_neg (by omega), if_neg hk, hva]

theorem Mdl.content_without (h : offset + n ≤ m.byteCount) :
    (m.without offset n).content = m.content.take offset ++ m.content.drop (offset + n) := by
  have hleft : (m.without offset n).content.length = m.byteCount - n := by
    rw [Mdl.length_content, Mdl.without_byteCount]
  have htake : (m.content.take offset).length = offset := by
    rw [List.length_take, Mdl.length_content]
    omega
  have hright : (m.content.take offset ++ m.content.drop (offset + n)).length = m.byteCount - n := by
    rw [List.length_append, htake, List.length_drop, Mdl.length_content]
    omega
  refine List.ext_getElem? fun i => ?_
  by_cases hi : i < m.byteCount - n
  · rw [Mdl.getElem?_content (by rw [Mdl.without_byteCount]; exact hi), Mdl.without_at]
    by_cases hio : i < offset
    · rw [if_pos hio, List.getElem?_append_left (by omega), List.getElem?_take_of_lt hio,
        Mdl.getElem?_content (by omega)]
    · rw [if_neg hio, List.getElem?_append_right (by omega), htake, List.getElem?_drop,
        show offset + n + (i - offset) = i + n by omega, Mdl.getElem?_content (by omega)]
  · rw [List.getElem?_eq_none (by omega), List.getElem?_eq_none (by omega)]

theorem extractMdl_cons (dst : Bytes) (p : Nat) (m : Mdl) (ms : List Mdl) (h : offset ≤ m.byteCount) :
    extractMdl dst p (m :: ms) offset (size + 1) = (do
      let byteCount := min (m.byteCount - offset) (size + 1)
      let (dst, ms) ← extractMdl (rtlMoveMemory dst p m.page (m.mappedSystemVa + offset) byteCount) (p + byteCount)
        ms 0 (size + 1 - byteCount)
      .ok (dst, m.without offset byteCount :: ms)) := by
  rw [extractMdl, xmAssert_pos h, ok_bind]
  rfl

theorem take_drop_append {l l' : List UInt8} (ho : offset ≤ l.length) :
    ((l ++ l').drop offset).take size =
      (l.drop offset).take (min (l.length - offset) size) ++ l'.take (size - min (l.length - offset) size) := by
  have htake : (l.drop offset).take size = (l.drop offset).take (min (l.length - offset) size) := by
    rw [List.take_eq_take_iff, List.length_drop]
    omega
  rw [List.drop_append_of_le_length ho, List.take_append, htake, List.length_drop]
  congr 2
  omega

theorem take_append_drop_append {l l' : List UInt8} (ho : offset ≤ l.length) :
    (l ++ l').take offset ++ (l ++ l').drop (offset + size) = l.take offset ++
      l.drop (offset + min (l.length - offset) size) ++ l'.drop (size - min (l.length - offset) size) := by
  have hdrop : l.drop (offset + size) = l.drop (offset + min (l.length - offset) size) := by
    rcases Nat.le_total size (l.length - offset) with h | h
    · rw [Nat.min_eq_right h]
    · rw [Nat.min_eq_left h, List.drop_eq_nil_of_le (by omega), List.drop_eq_nil_of_le (by omega)]
  rw [List.take_append_of_le_length ho, List.drop_append, hdrop, List.append_assoc]
  congr 3
  omega

/-- **The bytes behind the offset go out, all others stay in their order, those in front of it in the first
MDL.** -/
theorem extractMdl_eq {mdls : List Mdl} (dst : Bytes) (p : Nat) (hoff : ∀ m ∈ mdls.head?, offset ≤ m.byteCount)
    (hsize : offset + size ≤ (frame mdls).length) :
    ∃ mdls', extractMdl dst p mdls offset size = .ok (place dst p (((frame mdls).drop offset).take size), mdls') ∧
      frame mdls' = (frame mdls).take offset ++ (frame mdls).drop (offset + size) ∧
      ∀ m ∈ mdls'.head?, offset ≤ m.byteCount := by
  induction mdls generalizing dst p offset size with
  | nil =>
    have h0 : size = 0 := Nat.eq_zero_of_le_zero (Nat.le_trans (Nat.le_add_left _ _) hsize)
    subst h0
    refine ⟨[], ?_, by simp [frame], hoff⟩
    rw [List.take_zero, place_nil]
    rfl
  | cons m ms ih =>
    cases size with
    | zero =>
      refine ⟨m :: ms, ?_, (List.take_append_drop _ _).symm, hoff⟩
      rw [List.take_zero, place_nil]
      rfl
    | succ size =>
      have ho : offset ≤ m.byteCount := hoff m rfl
      have hlen := m.length_content
      rw [frame_cons, List.length_append, hlen] at hsize
      -- the first MDL gives as much as it has, the others the rest
      generalize hn : min (m.byteCount - offset) (size + 1) = n
      obtain ⟨ms', hrun, hframe, -⟩ := @ih 0 (size + 1 - n)
        (rtlMoveMemory dst p m.page (m.mappedSystemVa + offset) n) (p + n) (fun _ _ => Nat.zero_le _) (by omega)
      have hbound : offset + n ≤ m.byteCount := by omega
      have hcopy := rtlMoveMemory_eq dst p hbound
      rw [List.drop_zero, hcopy] at hrun
      rw [List.take_zero, List.nil_append, Nat.zero_add] at hframe
      refine ⟨m.without offset n :: ms', ?_, ?_, ?_⟩
      · have htaken : ((m.content.drop offset).take n).length = n := by
          rw [List.length_take, List.length_drop, hlen]
          omega
        have hplace := place_place dst p ((m.content.drop offset).take n) ((frame ms).take (size + 1 - n))
        rw [htaken] at hplace
        rw [extractMdl_cons dst p m ms ho, hn]
        simp only
        rw [hcopy, hrun, ok_bind, hplace, frame_cons, take_drop_append (by omega), hlen, hn]
      · rw [frame_cons, frame_cons, hframe, Mdl.content_without hbound, take_append_drop_append (by omega), hlen,
          hn]
      · intro m' hm'
        rw [← Option.some.inj hm', Mdl.without_byteCount]
        omega

end Extract

/-! ## The split -/

section Create

variable {b c b' : Bytes} {m dest : Mdl} {ms : List Mdl} {size : Nat}

theorem header_congr (hip : 20 ≤ ipHeaderLength b) (htcp : 20 ≤ tcpHeaderLength b)
    (h : ∀ k < headers b, c k = b k) : SameForm b c ∧ totLen c = totLen b ∧ ipId c = ipId b ∧ seq c = seq b ∧
      offAndFlags c = offAndFlags b := by
  have heth := ethernetHeaderLength_ge b
  have htcpAt : tcpHeader b = ethernetHeaderLength b + ipHeaderLength b := rfl
  have hheaders : headers b = tcpHeader b + tcpHeaderLength b := rfl
  have hoff : word c (tcpHeader b + 12) = offAndFlags b := word_congr (h _ (by omega)) (h _ (by omega))
  have hform : SameForm b c := sameForm_of (word_congr (h 12 (by omega)) (h 13 (by omega))) (h _ (by omega))
    (congrArg (· &&& 0xf0) hoff)
  refine ⟨hform, ?_, ?_, ?_, ?_⟩
  · rw [totLen, hform.ethernet]
    exact be16_congr (h _ (by omega)) (h _ (by omega))
  · rw [ipId, hform.ethernet]
    exact be16_congr (h _ (by omega)) (h _ (by omega))
  · rw [seq, hform.tcpHeader]
    exact be32_congr fun k _ _ => h k (by omega)
  · rw [offAndFlags, hform.tcpHeader]
    exact hoff

theorem SameForm.congr (h : SameForm b b') (hc : SameForm b c) : SameForm c b' :=
  ⟨h.ethernet.trans hc.ethernet.symm, h.ip.trans hc.ip.symm, h.tcp.trans hc.tcp.symm⟩

theorem RestHeader.congr (h : RestHeader b b' size) (hip : 20 ≤ ipHeaderLength b) (htcp : 20 ≤ tcpHeaderLength b)
    (hc : ∀ k < headers b, c k = b k) : RestHeader c b' size := by
  obtain ⟨hform, htot, hid, hseq, hflags⟩ := header_congr hip htcp hc
  refine ⟨h.form.congr hform, ?_, htot ▸ h.totLen, hid ▸ h.ipId, hseq ▸ h.seq, hflags ▸ h.flags⟩
  intro k hk h1 h2
  rw [hform.headers] at hk
  rw [hform.ethernet] at h1
  rw [hform.tcpHeader] at h2
  rw [h.kept k hk h1 h2, hc k hk]

theorem PrefixHeader.congr (h : PrefixHeader b b' size) (hip : 20 ≤ ipHeaderLength b)
    (htcp : 20 ≤ tcpHeaderLength b) (hc : ∀ k < headers b, c k = b k) : PrefixHeader c b' size := by
  obtain ⟨hform, htot, hid, hseq, hflags⟩ := header_congr hip htcp hc
  refine ⟨h.form.congr hform, fun k hk h1 h2 h3 => ?_, ?_, hid ▸ h.ipId, hseq ▸ h.seq, hflags ▸ h.flags⟩
  · rw [hform.headers] at hk
    rw [hform.ethernet] at h1 h2
    rw [hform.tcpHeader] at h3
    rw [h.kept k hk h1 h2 h3, hc k hk]
  · rw [hform.ip, hform.tcp]
    exact h.totLen

theorem Mdl.edit_at (m : Mdl) (f : Bytes → Bytes) : (m.edit f).at = f m.at := by
  funext k
  rw [Mdl.at, Mdl.edit]
  simp only
  rw [if_pos (Nat.le_add_right _ _), Nat.add_sub_cancel_left]

theorem frame_edit (f : Bytes → Bytes) (ms : List Mdl) {n : Nat} (hn : n ≤ m.byteCount)
    (hf : ∀ k, n ≤ k → f m.at k = m.at k) :
    (frame (m.edit f :: ms)).length = (frame (m :: ms)).length ∧
      (frame (m.edit f :: ms)).drop n = (frame (m :: ms)).drop n ∧
      ∀ k < n, (frame (m.edit f :: ms))[k]? = some (f m.at k) := by
  have hcount : (m.edit f).byteCount = m.byteCount := rfl
  have hlen : (m.edit f).content.length = m.content.length := by
    rw [Mdl.length_content, Mdl.length_content, hcount]
  refine ⟨?_, ?_, ?_⟩
  · rw [frame_cons, frame_cons, List.length_append, List.length_append, hlen]
  · rw [frame_cons, frame_cons, List.drop_append_of_le_length (by rw [Mdl.length_content]; exact hn),
      List.drop_append_of_le_length (by rw [Mdl.length_content]; exact hn)]
    congr 1
    refine List.ext_getElem? fun i => ?_
    rw [List.getElem?_drop, List.getElem?_drop]
    by_cases hi : n + i < m.byteCount
    · rw [Mdl.getElem?_content (by rw [hcount]; exact hi), Mdl.getElem?_content hi, Mdl.edit_at,
        hf _ (Nat.le_add_right _ _)]
    · rw [List.getElem?_eq_none (by rw [Mdl.length_content, hcount]; omega),
        List.getElem?_eq_none (by rw [Mdl.length_content]; omega)]
  · intro k hk
    rw [frame_cons, List.getElem?_append_left (by rw [Mdl.length_content, hcount]; omega),
      Mdl.getElem?_content (by rw [hcount]; omega), Mdl.edit_at]

theorem content_place (m : Mdl) (l : List UInt8) (n : Nat) :
    (({ m with page := place m.page (m.mappedSystemVa + n) l, byteCount := n + l.length } : Mdl).content.length =
      n + l.length) ∧
    (({ m with page := place m.page (m.mappedSystemVa + n) l, byteCount := n + l.length } : Mdl).content.drop n = l) ∧
      ∀ k < n, ({ m with page := place m.page (m.mappedSystemVa + n) l, byteCount := n + l.length } :
        Mdl).content[k]? = some (m.at k) := by
  generalize hd : ({ m with page := place m.page (m.mappedSystemVa + n) l, byteCount := n + l.length } : Mdl) = d
  have hcount : d.byteCount = n + l.length := by rw [← hd]
  have hat : ∀ k, d.at k = if n ≤ k ∧ k < n + l.length then l.getD (k - n) 0 else m.at k := by
    intro k
    rw [← hd, Mdl.at]
    simp only [place]
    by_cases hk : n ≤ k ∧ k < n + l.length
    · rw [if_pos (by omega), if_pos hk]
      congr 1
      omega
    · rw [if_neg (by omega), if_neg hk]
      rfl
  refine ⟨by rw [Mdl.length_content, hcount], List.ext_getElem? fun i => ?_, fun k hk => ?_⟩
  · rw [List.getElem?_drop]
    by_cases hi : i < l.length
    · rw [Mdl.getElem?_content (by omega), hat, if_pos (by omega), Nat.add_sub_cancel_left,
        List.getD_eq_getElem _ _ hi, List.getElem?_eq_getElem hi]
    · rw [List.getElem?_eq_none (by rw [Mdl.length_content]; omega), List.getElem?_eq_none (by omega)]
  · rw [Mdl.getElem?_content (by omega), hat, if_neg (by omega)]

/-- The two frames, each with its header and its part of the data. -/
structure Parts (h : Bytes) (f : List UInt8) (size : Nat) (p r : List UInt8) : Prop where
  prefixHeader : ∃ c : Bytes, (∀ k < headers h, c k = h k) ∧
    ∀ k < headers h, p[k]? = some (shorten h c size k)
  prefixData : p.drop (headers h) = (f.drop (headers h)).take size
  prefixLength : p.length = headers h + size
  restHeader : ∀ k < headers h, r[k]? = some (advance h size k)
  restData : r.drop (headers h) = f.drop (headers h + size)
  restLength : r.length + size = f.length

theorem Received.headers_size (h : Received m ms size) : headers m.at + size ≤ (frame (m :: ms)).length := by
  have hcovers := h.covers
  have htotal := h.total
  have htcpAt : tcpHeader m.at = ethernetHeaderLength m.at + ipHeaderLength m.at := rfl
  have hheaders : headers m.at = tcpHeader m.at + tcpHeaderLength m.at := rfl
  omega

theorem Received.advance_data (h : Received m ms size) {k : Nat} (hk : headers m.at ≤ k) :
    advance m.at size k = m.at k := by
  have hip := h.ip
  have htcp := h.tcp
  have htcpAt : tcpHeader m.at = ethernetHeaderLength m.at + ipHeaderLength m.at := rfl
  have hheaders : headers m.at = tcpHeader m.at + tcpHeaderLength m.at := rfl
  exact advance_other (by omega) (by omega)

theorem receiverCreatePrefix_parts (h : Received m ms size) (dest : Mdl) :
    ∃ p r, receiverCreatePrefix dest (m :: ms) size = .ok (some (p, r)) ∧
      Parts m.at (frame (m :: ms)) size p.content (frame r) ∧ ∀ m' ∈ r.head?, headers m.at ≤ m'.byteCount := by
  obtain ⟨hlen, hdrop, hget⟩ := frame_edit (fun b => advance b size) ms h.first fun k hk => h.advance_data hk
  have hsize := h.headers_size
  -- the destination with its header
  generalize hd : (({ dest with
    page := rtlMoveMemory dest.page dest.mappedSystemVa m.page m.mappedSystemVa (headers m.at) } : Mdl).edit
      fun b => shorten m.at b size) = d
  have hdest : ∃ c : Bytes, (∀ k < headers m.at, c k = m.at k) ∧ d.at = shorten m.at c size := by
    refine ⟨_, fun k hk => ?_, by rw [← hd, Mdl.edit_at]⟩
    simp only [Mdl.at, rtlMoveMemory]
    rw [if_pos (by omega), Nat.add_sub_cancel_left]
  obtain ⟨r, hrun, hframe, hhead⟩ := @extractMdl_eq (headers m.at) size ((m.edit fun b => advance b size) :: ms) d.page
    (d.mappedSystemVa + headers m.at) (fun m' hm' => by rw [← Option.some.inj hm']; exact h.first)
    (hlen.symm ▸ hsize)
  rw [hdrop] at hrun
  have hdata : (((frame (m :: ms)).drop (headers m.at)).take size).length = size := by
    rw [List.length_take, List.length_drop]
    omega
  obtain ⟨hplen, hpdrop, hpget⟩ := content_place d (((frame (m :: ms)).drop (headers m.at)).take size)
    (headers m.at)
  rw [hdata] at hplen hpdrop hpget
  refine ⟨_, r, ?_, ⟨?_, hpdrop, hplen, ?_, ?_, ?_⟩, hhead⟩
  · rw [receiverCreatePrefix]
    simp only
    rw [if_neg (not_not.mpr h.urg), hd, hrun]
    rfl
  · obtain ⟨c, hc, hat⟩ := hdest
    refine ⟨c, hc, fun k hk => ?_⟩
    rw [hpget k hk, hat]
  · intro k hk
    rw [hframe, List.getElem?_append_left (by rw [List.length_take]; omega), List.getElem?_take_of_lt hk,
      hget k hk]
  · have htake : ((frame ((m.edit fun b => advance b size) :: ms)).take (headers m.at)).length = headers m.at := by
      rw [List.length_take]
      omega
    rw [hframe, List.drop_append_of_le_length (Nat.le_of_eq htake.symm), List.drop_eq_nil_of_le (Nat.le_of_eq htake),
      List.nil_append, ← List.drop_drop, hdrop, List.drop_drop]
  · rw [hframe, List.length_append, List.length_take, List.length_drop, hlen]
    omega

theorem bytesOf_frame {k : Nat} (hk : k < m.byteCount) : bytesOf (frame (m :: ms)) k = m.at k := by
  rw [bytesOf, List.getD_eq_getElem?_getD, frame_cons,
    List.getElem?_append_left (by rw [Mdl.length_content]; exact hk), Mdl.getElem?_content hk, Option.getD_some]

theorem Parts.split {p r : List UInt8} (h : Received m ms size)
    (hp : Parts m.at (frame (m :: ms)) size p r) : Split (frame (m :: ms)) size p r := by
  have hcovers := h.covers
  have htotal := h.total
  have hheaders : headers m.at = ethernetHeaderLength m.at + ipHeaderLength m.at + tcpHeaderLength m.at := rfl
  have hf : ∀ k < headers m.at, bytesOf (frame (m :: ms)) k = m.at k :=
    fun k hk => bytesOf_frame (Nat.lt_of_lt_of_le hk h.first)
  obtain ⟨hform, htot, -, -, -⟩ := header_congr h.ip h.tcp hf
  obtain ⟨c, hc, hpc⟩ := hp.prefixHeader
  have hpre : PrefixHeader m.at (bytesOf p) size := by
    refine prefixHeader_shorten h.ip h.tcp htotal hc fun k hk => ?_
    rw [bytesOf, List.getD_eq_getElem?_getD, hpc k hk, Option.getD_some]
  have hrest : RestHeader m.at (bytesOf r) size := by
    refine restHeader_advance h.ip h.tcp (by omega) fun k hk => ?_
    rw [bytesOf, List.getD_eq_getElem?_getD, hp.restHeader k hk, Option.getD_some]
  have hrtot := hrest.totLen
  -- the data of the three frames
  have hpayload : payload (frame (m :: ms)) = ((frame (m :: ms)).drop (headers m.at)).take
      (totLen m.at - ipHeaderLength m.at - tcpHeaderLength m.at) := by
    rw [payload, hform.headers, htot, hform.ip, hform.tcp]
  have hpp : payload p = ((frame (m :: ms)).drop (headers m.at)).take size := by
    have hlen : totLen (bytesOf p) - ipHeaderLength (bytesOf p) - tcpHeaderLength (bytesOf p) = size := by
      rw [hpre.totLen, hpre.form.ip, hpre.form.tcp]
      omega
    rw [payload, hpre.form.headers, hlen, hp.prefixData, List.take_take, Nat.min_self]
  have hpr : payload r = (((frame (m :: ms)).drop (headers m.at)).drop size).take
      (totLen m.at - ipHeaderLength m.at - tcpHeaderLength m.at - size) := by
    have hlen : totLen (bytesOf r) - ipHeaderLength (bytesOf r) - tcpHeaderLength (bytesOf r) =
        totLen m.at - ipHeaderLength m.at - tcpHeaderLength m.at - size := by
      rw [hrest.form.ip, hrest.form.tcp]
      omega
    rw [payload, hrest.form.headers, hlen, hp.restData, List.drop_drop]
  refine ⟨hpre.congr h.ip h.tcp hf, hrest.congr h.ip h.tcp hf, ?_, ⟨?_, ?_⟩, ⟨?_, hp.restLength⟩⟩
  · have hsum : size + (totLen m.at - ipHeaderLength m.at - tcpHeaderLength m.at - size) =
        totLen m.at - ipHeaderLength m.at - tcpHeaderLength m.at := by omega
    rw [hpp, hpr, hpayload, ← List.take_add, hsum]
  · rw [hpp, List.length_take, List.length_drop]
    omega
  · rw [hform.headers]
    exact hp.prefixLength
  · rw [hpr, List.length_take, List.length_drop, List.length_drop, hform.ip, hform.tcp]
    omega

/-- `totOctets` of a chain. -/
def octets (mdls : List Mdl) : Nat := u32 (mdls.map (·.byteCount)).sum

theorem length_frame (mdls : List Mdl) : (frame mdls).length = (mdls.map (·.byteCount)).sum := by
  induction mdls with
  | nil => rfl
  | cons m ms ih => rw [frame_cons, List.length_append, Mdl.length_content, ih, List.map_cons, List.sum_cons]

/-- **A frame is split into its first bytes of data and the others, each part with its own header and with MDLs
of its length, the headers in the first one.** -/
theorem splitPrefix_split (h : Received m ms size) (dest : Mdl) :
    ∃ p m' ms', splitPrefix dest (m :: ms) size (octets (m :: ms)) = .ok (some p, m' :: ms', octets (m' :: ms')) ∧
      Split (frame (m :: ms)) size p.content (frame (m' :: ms')) ∧ headers m.at ≤ m'.byteCount := by
  obtain ⟨p, r, hrun, hparts, hhead⟩ := receiverCreatePrefix_parts h dest
  have hlen := hparts.restLength
  have hfirst := h.headers_size
  cases r with
  | nil =>
    have hheaders : headers m.at = ethernetHeaderLength m.at + ipHeaderLength m.at + tcpHeaderLength m.at := rfl
    have hip := h.ip
    have hnil : (frame []).length = 0 := rfl
    omega
  | cons m' ms' =>
    refine ⟨p, m', ms', ?_, hparts.split h, hhead m' rfl⟩
    have hoctets : sub32 (octets (m :: ms)) size = octets (m' :: ms') := by
      rw [length_frame, length_frame] at hlen
      simp only [octets, sub32, u32]
      omega
    rw [splitPrefix, hrun, ← hoctets]
    rfl

/-- A TCP frame with its headers alone in the first MDL, six bytes of data and two of padding. -/
def sampleMdls : Mdl × List Mdl :=
  (⟨fun x => if x = 112 then 8 else if x = 114 then 0x45 else if x = 117 then 46 else if x = 123 then 6
    else if x = 146 then 0x50 else if x = 147 then 0x19 else 0, 100, 100, 54⟩,
    [⟨fun x => UInt8.ofNat x, 0, 0, 8⟩])

theorem received_sample : Received sampleMdls.1 sampleMdls.2 4 := by
  constructor
  case covers =>
    rw [length_frame]
    decide
  all_goals decide

theorem splitPrefix_sample : ∃ p m' ms', splitPrefix ⟨fun _ => 0xff, 0, 0, 0⟩ (sampleMdls.1 :: sampleMdls.2) 4
    (octets (sampleMdls.1 :: sampleMdls.2)) = .ok (some p, m' :: ms', octets (m' :: ms')) ∧
      Split (frame (sampleMdls.1 :: sampleMdls.2)) 4 p.content (frame (m' :: ms')) ∧
      headers sampleMdls.1.at ≤ m'.byteCount :=
  splitPrefix_split received_sample ⟨fun _ => 0xff, 0, 0, 0⟩

end Create

end XcWindows.Xennet6.GsoPrefix
