import XcWindows.Lib.Word
import XcWindows.Xennet6.Transmitter

/-!
# What a net buffer is cut into

`TransmitterPrepareNetBuffer` of `net/xennet6/transmitter.c`, where it does not bounce, with all it puts into
the requests and the pages it grants. The pieces of an MDL are `mdlFragments`. Where the first MDL with data
is entered at its third page or later, one page is taken off the offset and the assertion fails; a net
buffer without data has no request; and a request is made with the null reference where no page was granted.

The shadows are those that are allocated in turn; their ids are the subject of `Xennet6.Shadows`.
-/

namespace XcWindows.Xennet6.Fragmentation

open XcWindows.Lib

/-- An MDL with its pages. -/
structure PagedMdl extends Mdl where
  /-- `MmGetMdlPfnArray` -/
  pfns : Nat → Nat
  fits : byteOffset + byteCount < 4294967296

/-- A byte of memory: its page and the offset there. -/
abbrev Address := Nat × Nat

/-- The bytes that an MDL describes. -/
def PagedMdl.bytes (mdl : PagedMdl) : List Address :=
  (List.range mdl.byteCount).map fun j =>
    (mdl.pfns ((mdl.byteOffset + j) / pageSize), (mdl.byteOffset + j) % pageSize)

def spanPages (offset size : Nat) : Nat := (offset % pageSize + size + (pageSize - 1)) / pageSize

/-- How many pages the data spans, MDL by MDL. -/
def physicalPages : List PagedMdl → Nat → Nat → Nat
  | [], _, _ => 0
  | mdl :: mdls, offset, dataSize =>
    if dataSize = 0 then 0
    else if mdl.byteCount ≤ offset then physicalPages mdls (offset - mdl.byteCount) dataSize
    else
      let size := min (mdl.byteCount - offset) dataSize
      spanPages (mdl.byteOffset + offset) size + physicalPages mdls 0 (dataSize - size)

/-- A net buffer with what its list says and the state of the transmitter. -/
structure NetBuffer where
  mdls : List PagedMdl
  currentMdlOffset : Nat
  dataLength : Nat
  physicalBufferCount : Nat
  /-- The data is sent with a priority tag. -/
  tagged : Bool
  /-- The MSS of `TcpLargeSendNetBufferListInfo`, which both versions have in the same bits. -/
  mss : Nat
  tcpChecksumOffload : Bool
  udpChecksumOffload : Bool
  /-- `TcpIpChecksumNetBufferListInfo` -/
  isIPv4 : Bool
  tcpChecksum : Bool
  udpChecksum : Bool
  availableShadows : Nat
  /-- whether `GnttabGrantForeignAccessCache` has a reference, call by call -/
  grants : Nat → Bool
  length_le : dataLength ≤ 65535
  covers : currentMdlOffset + dataLength ≤ (mdls.map (·.byteCount)).sum
  breaks : physicalPages mdls currentMdlOffset dataLength ≤ physicalBufferCount
  mss_le : mss ≤ bounceBufferSize

/-- `netif_tx_request_t`, with the page that its grant is for; a null reference is for none. -/
structure TxRequest where
  gref : Option Nat
  offset : Nat
  size : Nat
  moreData : Bool
  extraInfo : Bool
  csumBlank : Bool

/-- `netif_extra_info` as `XennetInitializeExtraInfo` makes it. -/
structure ExtraInfo where
  type : Nat
  flags : Nat
  gsoSize : Nat
  gsoType : Nat
  gsoPad : Nat
  gsoFeatures : Nat

/-- What a shadow holds. -/
inductive Slot where
  | request (r : TxRequest)
  | extra (info : ExtraInfo)

def xennetInitializeExtraInfo (mss : Nat) : ExtraInfo := ⟨1, 0, u16 mss, 1, 0, 0⟩

variable (nb : NetBuffer)

def extra : Nat := if nb.mss ≠ 0 then 1 else 0

def csumBlank : Bool :=
  (nb.tcpChecksumOffload || nb.udpChecksumOffload) && nb.isIPv4 &&
    (nb.tcpChecksumOffload && nb.tcpChecksum || nb.udpChecksumOffload && nb.udpChecksum)

/-- `TransmitterAllocateTxShadowId`, with what goes into the shadow. -/
def allocate (out : List Slot) (slot : Slot) : Except Crash (List Slot) := do
  xmAssert (out.length < nb.availableShadows) .bugCheck
  .ok (out ++ [slot])

/-- The `n`-th call of `GnttabGrantForeignAccessCache`. -/
def grantForeignAccess (n pfn : Nat) : Option Nat := if nb.grants n then some pfn else none

def firstRequest (gref : Option Nat) (f : Fragment) : TxRequest where
  gref := gref
  offset := u16 f.offset
  size := u16 nb.dataLength
  moreData := true
  extraInfo := decide (nb.mss ≠ 0)
  csumBlank := csumBlank nb || decide (nb.mss ≠ 0)

def laterRequest (gref : Option Nat) (f : Fragment) : TxRequest where
  gref := gref
  offset := u16 f.offset
  size := u16 f.size
  moreData := true
  extraInfo := false
  csumBlank := false

def Slot.isRequest : Slot → Bool
  | .request _ => true
  | .extra _ => false

/-- One turn of the inner loop; the first fragment is the one with nothing before it. -/
def fillRequest (out : List Slot) (piece : Nat × Fragment) : Except Crash (List Slot) := do
  -- "Handle error on send completion path": the null reference is put in like any other
  let gref := grantForeignAccess nb (out.countP Slot.isRequest) piece.1
  if out.isEmpty then
    let out ← allocate nb out (.request (firstRequest nb gref piece.2))
    if nb.mss ≠ 0 then allocate nb out (.extra (xennetInitializeExtraInfo nb.mss)) else .ok out
  else allocate nb out (.request (laterRequest gref piece.2))

/-- The pieces of an MDL with their pages. -/
def mdlPieces (mdl : PagedMdl) (size mdlByteOffset pfnIndex : Nat) : List (Nat × Fragment) :=
  (mdlFragments size size mdlByteOffset pfnIndex).map fun f => (mdl.pfns f.pfnIndex, f)

/-- The loops over the MDLs. -/
def prepareMdls : List PagedMdl → Nat → Nat → List Slot → Except Crash (List Slot)
  | [], _, _, out => .ok out
  | mdl :: mdls, offset, dataSize, out =>
    if dataSize = 0 then .ok out
    else if mdl.byteCount ≤ offset then prepareMdls mdls (offset - mdl.byteCount) dataSize out
    else do
      let mdlByteCount := mdl.byteCount - offset
      let mdlByteOffset := u32 (mdl.byteOffset + offset)
      let pfnIndex := if mdlByteOffset ≥ pageSize then 1 else 0
      let mdlByteOffset := if mdlByteOffset ≥ pageSize then mdlByteOffset - pageSize else mdlByteOffset
      xmAssert (mdlByteOffset < pageSize) .bugCheck
      xmAssert (mdlByteCount ≠ 0) .bugCheck
      let mdlByteCount := min mdlByteCount dataSize
      let out ← (mdlPieces mdl mdlByteCount mdlByteOffset pfnIndex).foldlM (fillRequest nb) out
      prepareMdls mdls 0 (dataSize - mdlByteCount) out

/-- `request->flags &= ~NETTXF_more_data`, where `request` is the last one. -/
def clearMoreData : List Slot → List Slot
  | [] => []
  | .extra info :: l => .extra info :: clearMoreData l
  | .request r :: l =>
    if l.any Slot.isRequest then .request r :: clearMoreData l
    else .request { r with moreData := false } :: l

/-- What is left of a net buffer that was prepared. -/
structure Prepared where
  slots : List Slot
  physicalBufferCount : Nat
  totalSize : Nat

inductive Outcome where
  | bounce
  /-- There is nothing to send. -/
  | completed
  | tooBusy
  | prepared (p : Prepared)

def transmitterPrepareNetBuffer : Except Crash Outcome := do
  if nb.physicalBufferCount ≥ maxFragsPerPacket ∨ nb.tagged then .ok .bounce
  else if nb.physicalBufferCount ≠ 0 then do
    xmAssert (nb.mss ≤ bounceBufferSize) .bugCheck
    if nb.physicalBufferCount + extra nb ≥ nb.availableShadows then .ok .tooBusy
    else do
      let slots ← prepareMdls nb nb.mdls nb.currentMdlOffset nb.dataLength []
      xmAssert (slots.any Slot.isRequest) .bugCheck
      xmAssert (slots.length ≤ extra nb + nb.physicalBufferCount) .bugCheck
      .ok (.prepared {
        slots := clearMoreData slots
        physicalBufferCount := u16 (slots.length - extra nb)
        totalSize := if nb.mss ≠ 0 then nb.dataLength else 0 })
  else .ok .completed

/-! ## What the slots mean -/

/-- The data of the net buffer. -/
def NetBuffer.data : List Address :=
  ((nb.mdls.flatMap (·.bytes)).drop nb.currentMdlOffset).take nb.dataLength

def requests (slots : List Slot) : List TxRequest :=
  slots.filterMap fun
    | .request r => some r
    | .extra _ => none

/-- A byte that the back end can get at, in a page that it has a reference for. -/
def granted (a : Address) : Option Nat × Nat := (some a.1, a.2)

def TxRequest.bytes (r : TxRequest) (size : Nat) : List (Option Nat × Nat) :=
  (List.range size).map fun i => (r.gref, r.offset + i)

/-- The bytes that the back end takes from each request: the first one's size is that of them all. -/
def pieces : List TxRequest → List (TxRequest × Nat)
  | [] => []
  | r :: rs => (r, r.size - (rs.map (·.size)).sum) :: rs.map fun r => (r, r.size)

/-- The slots describe the data, each piece inside a page; only the last request has no more data, and an
extra slot follows the first one of a large send. -/
structure Describes (p : Prepared) : Prop where
  data : (pieces (requests p.slots)).flatMap (fun q => q.1.bytes q.2) = nb.data.map granted
  inPage : ∀ q ∈ pieces (requests p.slots), 0 < q.2 ∧ q.1.offset + q.2 ≤ pageSize
  total : ∀ r ∈ (requests p.slots).head?, r.size = nb.dataLength
  moreData : ∃ init last, requests p.slots = init ++ [last] ∧ (∀ r ∈ init, r.moreData = true) ∧
    last.moreData = false
  extra : ∃ (first : TxRequest) (rest : List TxRequest), p.slots = .request first ::
      ((if nb.mss = 0 then [] else [.extra (xennetInitializeExtraInfo nb.mss)]) ++ rest.map .request) ∧
    (first.extraInfo = true ↔ nb.mss ≠ 0) ∧ ∀ r ∈ rest, r.extraInfo = false
  count : p.slots.length ≤ nb.physicalBufferCount + Fragmentation.extra nb

/-- Where in its first page the first MDL with data has it. -/
def firstOffset : List PagedMdl → Nat → Option Nat
  | [], _ => none
  | mdl :: mdls, offset =>
    if mdl.byteCount ≤ offset then firstOffset mdls (offset - mdl.byteCount)
    else some (mdl.byteOffset + offset)

/-! ## The pieces -/

section Pieces

theorem mdlFragments_succ (fuel count offset pfnIndex : Nat) :
    mdlFragments (fuel + 1) count offset pfnIndex =
      if count = 0 then []
      else ⟨pfnIndex, offset, if count + offset > pageSize then pageSize - offset else count⟩ ::
        mdlFragments fuel (count - if count + offset > pageSize then pageSize - offset else count) 0
          (pfnIndex + 1) := rfl

theorem mdlFragments_cons {fuel count offset : Nat} (pfnIndex : Nat) (hc : 0 < count) :
    mdlFragments (fuel + 1) count offset pfnIndex =
      ⟨pfnIndex, offset, min count (pageSize - offset)⟩ ::
        mdlFragments fuel (count - min count (pageSize - offset)) 0 (pfnIndex + 1) := by
  have hmin : (if count + offset > pageSize then pageSize - offset else count) =
      min count (pageSize - offset) := by
    split
    all_goals omega
  rw [mdlFragments_succ, if_neg (by omega), hmin]

theorem mdlFragments_zero (fuel offset pfnIndex : Nat) : mdlFragments fuel 0 offset pfnIndex = [] := by
  cases fuel with
  | zero => rfl
  | succ fuel => exact if_pos rfl

theorem mdlFragments_inPage {fuel count offset pfnIndex : Nat} (ho : offset < pageSize) :
    ∀ f ∈ mdlFragments fuel count offset pfnIndex, 0 < f.size ∧ f.offset + f.size ≤ pageSize := by
  induction fuel generalizing count offset pfnIndex with
  | zero => exact fun f hf => by cases hf
  | succ fuel ih =>
    rcases Nat.eq_zero_or_pos count with rfl | hc
    · rw [mdlFragments_zero]
      exact fun f hf => by cases hf
    · rw [mdlFragments_cons pfnIndex hc]
      intro f hf
      rcases List.mem_cons.mp hf with rfl | hf
      · simp only
        omega
      · exact ih (by decide) f hf

theorem mdlFragments_length {fuel count offset pfnIndex : Nat} (ho : offset < pageSize) (hf : count ≤ fuel)
    (hc : 0 < count) :
    (mdlFragments fuel count offset pfnIndex).length = (offset + count + (pageSize - 1)) / pageSize := by
  induction fuel generalizing count offset pfnIndex with
  | zero => omega
  | succ fuel ih =>
    rw [mdlFragments_cons pfnIndex hc, List.length_cons]
    rcases Nat.eq_zero_or_pos (count - min count (pageSize - offset)) with hz | hpos
    · rw [hz, mdlFragments_zero, List.length_nil]
      simp only [pageSize] at *
      omega
    · rw [ih (by decide) (by omega) hpos]
      simp only [pageSize] at *
      omega

/-- The bytes of a piece. -/
def pieceBytes (q : Nat × Fragment) : List Address := (List.range q.2.size).map fun i => (q.1, q.2.offset + i)

theorem range_add_map {α : Type} (f : Nat → α) (a b : Nat) :
    (List.range (a + b)).map f = (List.range a).map f ++ (List.range b).map fun j => f (a + j) := by
  rw [List.range_add, List.map_append, List.map_map]
  rfl

theorem mdlFragments_bytes (pfns : Nat → Nat) {fuel count offset pfnIndex : Nat} (ho : offset < pageSize)
    (hf : count ≤ fuel) :
    ((mdlFragments fuel count offset pfnIndex).map fun f => (pfns f.pfnIndex, f)).flatMap pieceBytes =
      (List.range count).map fun j =>
        (pfns (pfnIndex + (offset + j) / pageSize), (offset + j) % pageSize) := by
  induction fuel generalizing count offset pfnIndex with
  | zero =>
    obtain rfl : count = 0 := by omega
    rfl
  | succ fuel ih =>
    rcases Nat.eq_zero_or_pos count with rfl | hc
    · rw [mdlFragments_zero]
      rfl
    · have hsplit : count = min count (pageSize - offset) + (count - min count (pageSize - offset)) := by
        omega
      rw [mdlFragments_cons pfnIndex hc, List.map_cons, List.flatMap_cons, ih (by decide) (by omega)]
      conv_rhs => rw [hsplit, range_add_map]
      congr 1
      · refine List.map_congr_left fun j hj => ?_
        have hlt := List.mem_range.mp hj
        simp only at hlt ⊢
        rw [Nat.div_eq_of_lt (by omega), Nat.mod_eq_of_lt (by omega), Nat.add_zero]
      · refine List.map_congr_left fun j hj => ?_
        have hlt := List.mem_range.mp hj
        have hend : offset + (min count (pageSize - offset) + j) = j + pageSize := by omega
        rw [hend, Nat.add_div_right _ (by decide), Nat.add_mod_right, Nat.zero_add]
        refine Prod.ext ?_ rfl
        simp only
        congr 1
        omega

/-- The pieces of the data, where each MDL is entered at the page that has its first byte. -/
def dataPieces : List PagedMdl → Nat → Nat → List (Nat × Fragment)
  | [], _, _ => []
  | mdl :: mdls, offset, dataSize =>
    if dataSize = 0 then []
    else if mdl.byteCount ≤ offset then dataPieces mdls (offset - mdl.byteCount) dataSize
    else
      mdlPieces mdl (min (mdl.byteCount - offset) dataSize) ((mdl.byteOffset + offset) % pageSize)
          ((mdl.byteOffset + offset) / pageSize) ++
        dataPieces mdls 0 (dataSize - min (mdl.byteCount - offset) dataSize)

theorem dataPieces_cons (mdl : PagedMdl) (mdls : List PagedMdl) (offset dataSize : Nat) :
    dataPieces (mdl :: mdls) offset dataSize =
      if dataSize = 0 then []
      else if mdl.byteCount ≤ offset then dataPieces mdls (offset - mdl.byteCount) dataSize
      else
        mdlPieces mdl (min (mdl.byteCount - offset) dataSize) ((mdl.byteOffset + offset) % pageSize)
            ((mdl.byteOffset + offset) / pageSize) ++
          dataPieces mdls 0 (dataSize - min (mdl.byteCount - offset) dataSize) := rfl

theorem dataPieces_inPage {mdls : List PagedMdl} {offset dataSize : Nat} :
    ∀ q ∈ dataPieces mdls offset dataSize, 0 < q.2.size ∧ q.2.offset + q.2.size ≤ pageSize := by
  induction mdls generalizing offset dataSize with
  | nil => exact fun q hq => by cases hq
  | cons mdl mdls ih =>
    rw [dataPieces_cons]
    split
    · exact fun q hq => by cases hq
    · split
      · exact ih
      · intro q hq
        rcases List.mem_append.mp hq with hq | hq
        · obtain ⟨f, hf, rfl⟩ := List.mem_map.mp hq
          exact mdlFragments_inPage (Nat.mod_lt _ (by decide)) f hf
        · exact ih q hq

theorem dataPieces_length {mdls : List PagedMdl} {offset dataSize : Nat} :
    (dataPieces mdls offset dataSize).length = physicalPages mdls offset dataSize := by
  induction mdls generalizing offset dataSize with
  | nil => rfl
  | cons mdl mdls ih =>
    rw [dataPieces_cons, physicalPages]
    split
    · rfl
    · split
      · exact ih
      · next hd hlt =>
        rw [List.length_append, ih, mdlPieces, List.length_map,
          mdlFragments_length (Nat.mod_lt _ (by decide)) (Nat.le_refl _) (by omega)]
        rfl

theorem PagedMdl.bytes_length (mdl : PagedMdl) : mdl.bytes.length = mdl.byteCount := by
  rw [PagedMdl.bytes, List.length_map, List.length_range]

theorem PagedMdl.bytes_part (mdl : PagedMdl) {offset size : Nat} (h : offset + size ≤ mdl.byteCount) :
    (mdl.bytes.drop offset).take size = (mdlPieces mdl size ((mdl.byteOffset + offset) % pageSize)
      ((mdl.byteOffset + offset) / pageSize)).flatMap pieceBytes := by
  rw [mdlPieces, mdlFragments_bytes mdl.pfns (Nat.mod_lt _ (by decide)) (Nat.le_refl _)]
  apply List.ext_getElem
  · rw [List.length_take, List.length_drop, PagedMdl.bytes_length, List.length_map, List.length_range]
    omega
  · intro j hj hj'
    rw [List.length_map, List.length_range] at hj'
    simp only [PagedMdl.bytes, List.getElem_take, List.getElem_drop, List.getElem_map, List.getElem_range]
    refine Prod.ext ?_ ?_
    · simp only [pageSize]
      congr 1
      omega
    · simp only [pageSize]
      omega

theorem dataPieces_bytes {mdls : List PagedMdl} {offset dataSize : Nat} :
    ((mdls.flatMap (·.bytes)).drop offset).take dataSize =
      (dataPieces mdls offset dataSize).flatMap pieceBytes := by
  induction mdls generalizing offset dataSize with
  | nil => simp [dataPieces]
  | cons mdl mdls ih =>
    rw [dataPieces_cons, List.flatMap_cons]
    split
    · next hd => rw [hd, List.take_zero, List.flatMap_nil]
    · split
      · next hle =>
        have hnone : mdl.bytes.drop offset = [] :=
          List.drop_eq_nil_of_le (by rw [PagedMdl.bytes_length]; exact hle)
        rw [List.drop_append, hnone, PagedMdl.bytes_length, List.nil_append]
        exact ih
      · next hlt =>
        have hlen : (mdl.bytes.drop offset).length = mdl.byteCount - offset := by
          rw [List.length_drop, PagedMdl.bytes_length]
        have htake : (mdl.bytes.drop offset).take dataSize =
            (mdl.bytes.drop offset).take (min (mdl.byteCount - offset) dataSize) := by
          rw [Nat.min_comm, ← hlen, ← List.take_eq_take_min]
        have hrest : dataSize - (mdl.byteCount - offset) =
            dataSize - min (mdl.byteCount - offset) dataSize := by omega
        have hzero : offset - mdl.byteCount = 0 := by omega
        rw [List.drop_append, List.take_append, hlen, htake, mdl.bytes_part (by omega), hrest,
          List.flatMap_append, ← ih, PagedMdl.bytes_length, hzero, List.drop_zero]

end Pieces

/-! ## The loops -/

section Loops

variable {nb : NetBuffer}

theorem firstOffset_zero (mdls : List PagedMdl) : ∀ o ∈ firstOffset mdls 0, o < pageSize := by
  induction mdls with
  | nil => exact fun o ho => by cases ho
  | cons mdl mdls ih =>
    rw [firstOffset]
    split
    · rw [Nat.zero_sub]
      exact ih
    · intro o ho
      obtain rfl := Option.some.inj ho
      exact mdl.offset_lt

theorem prepareMdls_cons (mdl : PagedMdl) (mdls : List PagedMdl) (offset dataSize : Nat)
    (out : List Slot) : prepareMdls nb (mdl :: mdls) offset dataSize out =
      if dataSize = 0 then .ok out
      else if mdl.byteCount ≤ offset then prepareMdls nb mdls (offset - mdl.byteCount) dataSize out
      else
        let mdlByteCount := mdl.byteCount - offset
        let mdlByteOffset := u32 (mdl.byteOffset + offset)
        let pfnIndex := if mdlByteOffset ≥ pageSize then 1 else 0
        let mdlByteOffset := if mdlByteOffset ≥ pageSize then mdlByteOffset - pageSize else mdlByteOffset
        xmAssert (mdlByteOffset < pageSize) .bugCheck >>= fun _ =>
        xmAssert (mdlByteCount ≠ 0) .bugCheck >>= fun _ =>
        let mdlByteCount := min mdlByteCount dataSize
        (mdlPieces mdl mdlByteCount mdlByteOffset pfnIndex).foldlM (fillRequest nb) out >>= fun out =>
        prepareMdls nb mdls 0 (dataSize - mdlByteCount) out := rfl

/-- The page index and the offset that the code computes. -/
theorem firstPage {o : Nat} (h : o < 2 * pageSize) :
    (if o ≥ pageSize then 1 else 0) = o / pageSize ∧
      (if o ≥ pageSize then o - pageSize else o) = o % pageSize := by
  simp only [pageSize] at *
  split <;> constructor <;> omega

theorem prepareMdls_eq {mdls : List PagedMdl} {offset dataSize : Nat} (out : List Slot)
    (h : ∀ o ∈ firstOffset mdls offset, o < 2 * pageSize) :
    prepareMdls nb mdls offset dataSize out =
      (dataPieces mdls offset dataSize).foldlM (fillRequest nb) out := by
  induction mdls generalizing offset dataSize out with
  | nil => rfl
  | cons mdl mdls ih =>
    rw [firstOffset] at h
    rw [prepareMdls_cons, dataPieces_cons]
    split
    · rfl
    · split
      · next hle =>
        rw [if_pos hle] at h
        exact ih out h
      · next hlt =>
        rw [if_neg hlt] at h
        have hfirst := h _ rfl
        have hfits := mdl.fits
        have hword : u32 (mdl.byteOffset + offset) = mdl.byteOffset + offset := Nat.mod_eq_of_lt (by omega)
        obtain ⟨hindex, hpage⟩ := firstPage hfirst
        simp only [hword, hindex, hpage]
        rw [bind_eq (xmAssert_pos (Nat.mod_lt _ (by decide))), bind_eq (xmAssert_pos (by omega)),
          List.foldlM_append]
        congr 1
        funext out'
        exact ih out' fun o ho => Nat.lt_of_lt_of_le (firstOffset_zero mdls o ho) (by decide)

theorem prepareMdls_error {mdls : List PagedMdl} {offset dataSize o : Nat} (out : List Slot)
    (hd : dataSize ≠ 0) (ho : o ∈ firstOffset mdls offset) (hfar : 2 * pageSize ≤ o) :
    prepareMdls nb mdls offset dataSize out = .error .bugCheck := by
  induction mdls generalizing offset with
  | nil => cases ho
  | cons mdl mdls ih =>
    rw [firstOffset] at ho
    rw [prepareMdls_cons, if_neg hd]
    split
    · next hle =>
      rw [if_pos hle] at ho
      exact ih ho
    · next hlt =>
      rw [if_neg hlt] at ho
      obtain rfl := Option.some.inj ho
      have hfits := mdl.fits
      have hword : u32 (mdl.byteOffset + offset) = mdl.byteOffset + offset := Nat.mod_eq_of_lt (by omega)
      have hpage : mdl.byteOffset + offset ≥ pageSize := by omega
      simp only [hword, if_pos hpage]
      rw [xmAssert_neg (by omega)]
      rfl

/-- The pieces with their references, from the `n`-th grant on. -/
def grantPieces (nb : NetBuffer) : Nat → List (Nat × Fragment) → List (Option Nat × Fragment)
  | _, [] => []
  | n, q :: qs => (grantForeignAccess nb n q.1, q.2) :: grantPieces nb (n + 1) qs

theorem grantPieces_snd (n : Nat) (qs : List (Nat × Fragment)) :
    (grantPieces nb n qs).map (·.2) = qs.map (·.2) := by
  induction qs generalizing n with
  | nil => rfl
  | cons q qs ih => exact congrArg (q.2 :: ·) (ih (n + 1))

theorem grantPieces_eq {n : Nat} {qs : List (Nat × Fragment)} (h : ∀ i < qs.length, nb.grants (n + i) = true) :
    grantPieces nb n qs = qs.map fun q => (some q.1, q.2) := by
  induction qs generalizing n with
  | nil => rfl
  | cons q qs ih =>
    have hq : nb.grants n = true := h 0 (Nat.succ_pos _)
    rw [grantPieces, ih fun i hi => by rw [Nat.add_assoc, Nat.add_comm 1]; exact h _ (Nat.succ_lt_succ hi),
      grantForeignAccess, if_pos hq]
    rfl

theorem grantPieces_some {n : Nat} {qs : List (Nat × Fragment)} (h : ∀ g ∈ grantPieces nb n qs, g.1 ≠ none) :
    ∀ i < qs.length, nb.grants (n + i) = true := by
  induction qs generalizing n with
  | nil => exact fun i hi => absurd hi (Nat.not_lt_zero i)
  | cons q qs ih =>
    intro i hi
    cases i with
    | zero =>
      have hq := h _ List.mem_cons_self
      rw [grantForeignAccess] at hq
      by_contra hno
      exact hq (if_neg hno)
    | succ i =>
      have := ih (fun g hg => h g (List.mem_cons_of_mem _ hg)) i (Nat.lt_of_succ_lt_succ hi)
      rwa [Nat.add_assoc, Nat.add_comm 1] at this

/-- What the shadows hold in the end. -/
def slotsOf (nb : NetBuffer) : List (Option Nat × Fragment) → List Slot
  | [] => []
  | q :: qs => .request (firstRequest nb q.1 q.2) ::
      ((if nb.mss = 0 then [] else [.extra (xennetInitializeExtraInfo nb.mss)]) ++
        qs.map fun q => .request (laterRequest q.1 q.2))

theorem allocate_eq {out : List Slot} (h : out.length < nb.availableShadows) (slot : Slot) :
    allocate nb out slot = .ok (out ++ [slot]) := by
  rw [allocate, bind_eq (xmAssert_pos h)]

theorem foldlM_later {out : List Slot} (ho : out ≠ []) {qs : List (Nat × Fragment)}
    (h : out.length + qs.length ≤ nb.availableShadows) :
    qs.foldlM (fillRequest nb) out = .ok (out ++
      (grantPieces nb (out.countP Slot.isRequest) qs).map fun g => .request (laterRequest g.1 g.2)) := by
  induction qs generalizing out with
  | nil =>
    rw [grantPieces, List.map_nil, List.append_nil]
    rfl
  | cons q qs ih =>
    rw [List.length_cons] at h
    have hfill : fillRequest nb out q = .ok (out ++ [.request (laterRequest
        (grantForeignAccess nb (out.countP Slot.isRequest) q.1) q.2)]) := by
      rw [fillRequest, if_neg (by simpa using ho), allocate_eq (by omega)]
    rw [List.foldlM_cons, bind_eq hfill, ih (by simp) (by simp; omega), List.countP_append, grantPieces,
      List.map_cons, List.append_assoc]
    rfl

theorem foldlM_fillRequest {qs : List (Nat × Fragment)} (h : qs.length + extra nb ≤ nb.availableShadows) :
    qs.foldlM (fillRequest nb) [] = .ok (slotsOf nb (grantPieces nb 0 qs)) := by
  cases qs with
  | nil => rfl
  | cons q qs =>
    rw [List.length_cons] at h
    have hfirst : fillRequest nb [] q = .ok (.request (firstRequest nb (grantForeignAccess nb 0 q.1) q.2) ::
        if nb.mss = 0 then [] else [.extra (xennetInitializeExtraInfo nb.mss)]) := by
      rw [fillRequest, List.isEmpty_nil, if_pos rfl, bind_eq (allocate_eq (by simp; omega) _), List.countP_nil]
      by_cases hm : nb.mss = 0
      · simp only [hm, ne_eq, not_true_eq_false, if_false, if_true, List.nil_append]
      · have hone : extra nb = 1 := if_pos hm
        simp only [hm, ne_eq, not_false_eq_true, if_true, if_false]
        rw [allocate_eq (by simp; omega)]
        rfl
    rw [List.foldlM_cons, bind_eq hfirst, foldlM_later (by simp)]
    · by_cases hm : nb.mss = 0
      · simp only [grantPieces, slotsOf, hm, if_true]
        rfl
      · simp only [grantPieces, slotsOf, hm, if_false]
        rfl
    · by_cases hm : nb.mss = 0
      · simp [hm]
        omega
      · have hone : extra nb = 1 := if_pos hm
        simp [hm]
        omega

theorem slotsOf_length {gs : List (Option Nat × Fragment)} (h : gs ≠ []) :
    (slotsOf nb gs).length = gs.length + extra nb := by
  cases gs with
  | nil => exact absurd rfl h
  | cons g gs =>
    by_cases hm : nb.mss = 0
    · simp [slotsOf, extra, hm]
    · simp [slotsOf, extra, hm]

end Loops

/-! ## The requests -/

section Requests

variable {nb : NetBuffer}

/-- The last of some requests has no more data. -/
def clearLast : List TxRequest → List TxRequest
  | [] => []
  | [r] => [{ r with moreData := false }]
  | r :: r' :: rs => r :: clearLast (r' :: rs)

theorem clearMoreData_map (rs : List TxRequest) :
    clearMoreData (rs.map .request) = (clearLast rs).map .request := by
  induction rs with
  | nil => rfl
  | cons r rs ih =>
    cases rs with
    | nil => rfl
    | cons r' rs =>
      have hany : ((r' :: rs).map Slot.request).any Slot.isRequest = true := by simp [Slot.isRequest]
      rw [List.map_cons, clearMoreData, if_pos hany, ih]
      rfl

theorem clearMoreData_extra (info : ExtraInfo) (l : List Slot) :
    clearMoreData (.extra info :: l) = .extra info :: clearMoreData l := rfl

theorem clearMoreData_slots (first : TxRequest) (infos : List ExtraInfo) (rs : List TxRequest) :
    ∃ first' rs', clearLast (first :: rs) = first' :: rs' ∧
      clearMoreData (.request first :: (infos.map .extra ++ rs.map .request)) =
        .request first' :: (infos.map .extra ++ rs'.map .request) := by
  have hextra : ∀ l : List Slot, clearMoreData (infos.map .extra ++ l) =
      infos.map .extra ++ clearMoreData l := by
    intro l
    induction infos with
    | nil => rfl
    | cons info infos ih => rw [List.map_cons, List.cons_append, clearMoreData_extra, ih]; rfl
  cases rs with
  | nil =>
    refine ⟨_, [], rfl, ?_⟩
    have hnone : ¬(infos.map Slot.extra ++ [].map Slot.request).any Slot.isRequest = true := by
      simp [Slot.isRequest]
    rw [clearMoreData, if_neg hnone]
  | cons r rs =>
    refine ⟨first, clearLast (r :: rs), rfl, ?_⟩
    have hsome : (infos.map Slot.extra ++ (r :: rs).map Slot.request).any Slot.isRequest = true := by
      simp [Slot.isRequest]
    rw [clearMoreData, if_pos hsome, hextra, clearMoreData_map]

theorem requests_slots (first : TxRequest) (infos : List ExtraInfo) (rs : List TxRequest) :
    requests (.request first :: (infos.map .extra ++ rs.map .request)) = first :: rs := by
  have hextra : requests (infos.map .extra) = [] := by
    induction infos with
    | nil => rfl
    | cons info infos ih => exact ih
  have hrequest : requests (rs.map .request) = rs := by
    induction rs with
    | nil => rfl
    | cons r rs ih => exact congrArg (r :: ·) ih
  change first :: requests (infos.map .extra ++ rs.map .request) = first :: rs
  rw [requests, List.filterMap_append]
  exact congrArg (first :: ·) (by rw [← requests, ← requests, hextra, hrequest, List.nil_append])

theorem clearLast_cons_cons (r r' : TxRequest) (rs : List TxRequest) :
    clearLast (r :: r' :: rs) = r :: clearLast (r' :: rs) := rfl

theorem clearLast_map {β : Type} (φ : TxRequest → β) (hφ : ∀ r, φ { r with moreData := false } = φ r)
    (rs : List TxRequest) : (clearLast rs).map φ = rs.map φ := by
  induction rs with
  | nil => rfl
  | cons r rs ih =>
    cases rs with
    | nil => exact congrArg (fun b => [b]) (hφ r)
    | cons r' rs =>
      rw [clearLast_cons_cons, List.map_cons, ih]
      rfl

theorem clearLast_snoc (init : List TxRequest) (r : TxRequest) :
    clearLast (init ++ [r]) = init ++ [{ r with moreData := false }] := by
  induction init with
  | nil => rfl
  | cons r' init ih =>
    cases init with
    | nil => rfl
    | cons r'' init =>
      rw [List.cons_append, List.cons_append, clearLast_cons_cons, ← List.cons_append, ih]
      rfl

theorem pieces_clearLast {β : Type} (ψ : TxRequest × Nat → β)
    (hψ : ∀ r n, ψ ({ r with moreData := false }, n) = ψ (r, n)) (rs : List TxRequest) :
    (pieces (clearLast rs)).map ψ = (pieces rs).map ψ := by
  cases rs with
  | nil => rfl
  | cons r rs =>
    cases rs with
    | nil => exact congrArg (fun b => [b]) (hψ r _)
    | cons r' rs =>
      have hsize := clearLast_map (·.size) (fun _ => rfl) (r' :: rs)
      have hlater := clearLast_map (fun r => ψ (r, r.size)) (fun r => hψ r r.size) (r' :: rs)
      rw [clearLast_cons_cons, pieces, pieces, hsize, List.map_cons (f := ψ), List.map_cons (f := ψ), List.map_map,
        List.map_map]
      exact congrArg (_ :: ·) hlater

theorem pieceBytes_length (q : Nat × Fragment) : (pieceBytes q).length = q.2.size := by
  rw [pieceBytes, List.length_map, List.length_range]

theorem NetBuffer.data_eq (nb : NetBuffer) :
    nb.data = (dataPieces nb.mdls nb.currentMdlOffset nb.dataLength).flatMap pieceBytes := dataPieces_bytes

theorem sum_sizes (nb : NetBuffer) :
    ((dataPieces nb.mdls nb.currentMdlOffset nb.dataLength).map (·.2.size)).sum = nb.dataLength := by
  have hlen := congrArg List.length nb.data_eq
  have htotal : (nb.mdls.flatMap (·.bytes)).length = (nb.mdls.map (·.byteCount)).sum := by
    rw [List.length_flatMap]
    congr 1
    exact List.map_congr_left fun mdl _ => mdl.bytes_length
  have hcovers := nb.covers
  rw [NetBuffer.data, List.length_take, List.length_drop, htotal, List.length_flatMap] at hlen
  have hsizes : (dataPieces nb.mdls nb.currentMdlOffset nb.dataLength).map (fun q => (pieceBytes q).length) =
      (dataPieces nb.mdls nb.currentMdlOffset nb.dataLength).map (·.2.size) :=
    List.map_congr_left fun q _ => pieceBytes_length q
  rw [hsizes] at hlen
  omega

theorem u16_of_le {n : Nat} (h : n ≤ 65535) : u16 n = n := Nat.mod_eq_of_lt (by omega)

/-- Pieces of the data with their references: each is inside a page and together they have the size of it. -/
structure Cut (nb : NetBuffer) (gs : List (Option Nat × Fragment)) : Prop where
  inPage : ∀ g ∈ gs, 0 < g.2.size ∧ g.2.offset + g.2.size ≤ pageSize
  total : (gs.map (·.2.size)).sum = nb.dataLength

theorem cut_grantPieces (nb : NetBuffer) (n : Nat) :
    Cut nb (grantPieces nb n (dataPieces nb.mdls nb.currentMdlOffset nb.dataLength)) := by
  have hsnd := @grantPieces_snd nb n (dataPieces nb.mdls nb.currentMdlOffset nb.dataLength)
  constructor
  · intro g hg
    obtain ⟨q, hq, he⟩ := List.mem_map.mp (hsnd ▸ List.mem_map_of_mem hg)
    rw [← he]
    exact dataPieces_inPage q hq
  · have hsizes := congrArg (List.map Fragment.size) hsnd
    rw [List.map_map, List.map_map] at hsizes
    exact (congrArg List.sum hsizes).trans (sum_sizes nb)

theorem pieces_requests {g : Option Nat × Fragment} {gs : List (Option Nat × Fragment)} (h : Cut nb (g :: gs)) :
    pieces (firstRequest nb g.1 g.2 :: gs.map fun g => laterRequest g.1 g.2) =
      (firstRequest nb g.1 g.2, g.2.size) :: gs.map fun g => (laterRequest g.1 g.2, g.2.size) := by
  have hsum := h.total
  have hlen := nb.length_le
  have hsize : ∀ g' ∈ gs, (laterRequest g'.1 g'.2).size = g'.2.size := by
    intro g' hg'
    have := h.inPage g' (List.mem_cons_of_mem _ hg')
    simp only [pageSize] at this
    exact u16_of_le (by omega)
  have hsizes : (gs.map fun g => laterRequest g.1 g.2).map (·.size) = gs.map (·.2.size) := by
    rw [List.map_map]
    exact List.map_congr_left hsize
  rw [pieces, hsizes, List.map_map]
  rw [List.map_cons, List.sum_cons] at hsum
  have hfirst : (firstRequest nb g.1 g.2).size - (gs.map (·.2.size)).sum = g.2.size := by
    simp only [firstRequest, u16_of_le hlen]
    omega
  rw [hfirst]
  congr 1
  refine List.map_congr_left fun g' hg' => ?_
  rw [Function.comp_apply, hsize g' hg']

theorem requests_clear (nb : NetBuffer) (g : Option Nat × Fragment) (gs : List (Option Nat × Fragment)) :
    requests (clearMoreData (slotsOf nb (g :: gs))) =
      clearLast (firstRequest nb g.1 g.2 :: gs.map fun g => laterRequest g.1 g.2) := by
  have hslots : slotsOf nb (g :: gs) = .request (firstRequest nb g.1 g.2) ::
      ((if nb.mss = 0 then [] else [xennetInitializeExtraInfo nb.mss]).map .extra ++
        (gs.map fun g => laterRequest g.1 g.2).map .request) := by
    rw [slotsOf, List.map_map]
    congr 2
    split
    all_goals rfl
  obtain ⟨first', rs', hlast, hclear⟩ := clearMoreData_slots (firstRequest nb g.1 g.2)
    (if nb.mss = 0 then [] else [xennetInitializeExtraInfo nb.mss]) (gs.map fun g => laterRequest g.1 g.2)
  rw [hslots, hclear, requests_slots, hlast]

/-- The bytes of a piece in the page that was granted for it. -/
def grantBytes (g : Option Nat × Fragment) : List (Option Nat × Nat) :=
  (List.range g.2.size).map fun i => (g.1, g.2.offset + i)

theorem describes_slots {g : Option Nat × Fragment} {gs : List (Option Nat × Fragment)} (c : Nat)
    (hcut : Cut nb (g :: gs)) (hdata : (g :: gs).flatMap grantBytes = nb.data.map granted)
    (hcount : (slotsOf nb (g :: gs)).length ≤ nb.physicalBufferCount + extra nb) (t : Nat) :
    Describes nb ⟨clearMoreData (slotsOf nb (g :: gs)), c, t⟩ := by
  have hpieces := pieces_requests hcut
  let infos := if nb.mss = 0 then [] else [xennetInitializeExtraInfo nb.mss]
  let rs := gs.map fun g => laterRequest g.1 g.2
  have hslots : slotsOf nb (g :: gs) =
      .request (firstRequest nb g.1 g.2) :: (infos.map .extra ++ rs.map .request) := by
    rw [slotsOf, List.map_map]
    congr 2
    simp only [infos]
    split
    all_goals rfl
  obtain ⟨first', rs', hlast, hclear⟩ := clearMoreData_slots (firstRequest nb g.1 g.2) infos rs
  have hreq : requests (clearMoreData (slotsOf nb (g :: gs))) =
      clearLast (firstRequest nb g.1 g.2 :: rs) := requests_clear nb g gs
  have hoffset : ∀ g' ∈ g :: gs, u16 g'.2.offset = g'.2.offset := by
    intro g' hg'
    have := hcut.inPage g' hg'
    simp only [pageSize] at this
    exact u16_of_le (by omega)
  constructor
  · have hbytes := pieces_clearLast (fun p => p.1.bytes p.2) (fun _ _ => rfl)
      (firstRequest nb g.1 g.2 :: rs)
    simp only [hreq]
    rw [List.flatMap_def, hbytes, ← List.flatMap_def, hpieces, ← hdata, List.flatMap_cons,
      List.flatMap_cons, List.flatMap_map]
    congr 1
    · simp only [TxRequest.bytes, firstRequest, grantBytes, hoffset g List.mem_cons_self]
    · refine List.flatMap_congr fun g' hg' => ?_
      simp only [TxRequest.bytes, laterRequest, grantBytes, hoffset g' (List.mem_cons_of_mem _ hg')]
  · have hpage := pieces_clearLast (fun p => 0 < p.2 ∧ p.1.offset + p.2 ≤ pageSize) (fun _ _ => rfl)
      (firstRequest nb g.1 g.2 :: rs)
    have hall : ∀ P ∈ (pieces (firstRequest nb g.1 g.2 :: rs)).map
        fun p => 0 < p.2 ∧ p.1.offset + p.2 ≤ pageSize, P := by
      rw [hpieces]
      simp only [List.map_cons, List.map_map, List.mem_cons, List.mem_map, Function.comp_apply]
      rintro P (rfl | ⟨g', hg', rfl⟩)
      · simp only [firstRequest, hoffset g List.mem_cons_self]
        exact hcut.inPage g List.mem_cons_self
      · simp only [laterRequest, hoffset g' (List.mem_cons_of_mem _ hg')]
        exact hcut.inPage g' (List.mem_cons_of_mem _ hg')
    rw [← hpage, ← hreq] at hall
    exact fun p hp => hall _ (List.mem_map.mpr ⟨p, hp, rfl⟩)
  · have hsize := clearLast_map (·.size) (fun _ => rfl) (firstRequest nb g.1 g.2 :: rs)
    simp only [hreq]
    rw [hlast] at hsize ⊢
    have hfirst : first'.size = (firstRequest nb g.1 g.2).size := List.head_eq_of_cons_eq hsize
    intro r hr
    rw [← Option.some.inj hr, hfirst]
    exact u16_of_le nb.length_le
  · have hne : firstRequest nb g.1 g.2 :: rs ≠ [] := List.cons_ne_nil _ _
    have hsnoc := List.dropLast_append_getLast hne
    refine ⟨(firstRequest nb g.1 g.2 :: rs).dropLast,
      { (firstRequest nb g.1 g.2 :: rs).getLast hne with moreData := false }, ?_, ?_, rfl⟩
    · simp only [hreq]
      rw [← clearLast_snoc, hsnoc]
    · intro r hr
      rcases List.mem_cons.mp (List.dropLast_subset _ hr) with rfl | hr
      · rfl
      · obtain ⟨g', -, rfl⟩ := List.mem_map.mp hr
        rfl
  · have hflag := clearLast_map (·.extraInfo) (fun _ => rfl) (firstRequest nb g.1 g.2 :: rs)
    rw [hlast, List.map_cons, List.map_cons, List.cons.injEq] at hflag
    refine ⟨first', rs', ?_, ?_, ?_⟩
    · simp only [hslots, hclear]
      congr 2
      simp only [infos]
      split
      all_goals rfl
    · rw [hflag.1]
      simp [firstRequest]
    · intro r hr
      have hmem : r.extraInfo ∈ rs.map (·.extraInfo) := hflag.2 ▸ List.mem_map_of_mem hr
      obtain ⟨r', hr', heq⟩ := List.mem_map.mp hmem
      obtain ⟨g', -, rfl⟩ := List.mem_map.mp hr'
      exact heq.symm
  · have hlen : (clearMoreData (slotsOf nb (g :: gs))).length = (slotsOf nb (g :: gs)).length := by
      have hrs := congrArg List.length (clearLast_map (·.size) (fun _ => rfl) (firstRequest nb g.1 g.2 :: rs))
      rw [hlast] at hrs
      simp only [List.map_cons, List.length_cons, List.length_map] at hrs
      rw [hslots, hclear]
      simp only [List.length_cons, List.length_append, List.length_map]
      omega
    simp only [hlen]
    exact hcount

theorem Describes.gref {p : Prepared} (h : Describes nb p) : ∀ r ∈ requests p.slots, r.gref ≠ none := by
  intro r hr hnone
  obtain ⟨n, hn⟩ : ∃ n, (r, n) ∈ pieces (requests p.slots) := by
    cases hl : requests p.slots with
    | nil => rw [hl] at hr; cases hr
    | cons r' rs =>
      rw [hl] at hr
      rcases List.mem_cons.mp hr with rfl | hr
      · exact ⟨_, List.mem_cons_self⟩
      · exact ⟨_, List.mem_cons_of_mem _ (List.mem_map_of_mem hr)⟩
  have hbyte : (r.gref, r.offset) ∈ (pieces (requests p.slots)).flatMap fun q => q.1.bytes q.2 :=
    List.mem_flatMap.mpr ⟨_, hn, List.mem_map.mpr ⟨0, List.mem_range.mpr (h.inPage _ hn).1, rfl⟩⟩
  rw [h.data] at hbyte
  obtain ⟨a, -, ha⟩ := List.mem_map.mp hbyte
  rw [hnone] at ha
  cases congrArg Prod.fst ha

theorem describes_granted {g : Option Nat × Fragment} {gs : List (Option Nat × Fragment)} {c t : Nat}
    (h : Describes nb ⟨clearMoreData (slotsOf nb (g :: gs)), c, t⟩) : ∀ g' ∈ g :: gs, g'.1 ≠ none := by
  have hgref := h.gref
  simp only [requests_clear] at hgref
  have hmap := clearLast_map (·.gref) (fun _ => rfl)
    (firstRequest nb g.1 g.2 :: gs.map fun g => laterRequest g.1 g.2)
  rw [List.map_cons, List.map_map] at hmap
  intro g' hg' hnone
  have hmem : g'.1 ∈ (clearLast (firstRequest nb g.1 g.2 :: gs.map fun g => laterRequest g.1 g.2)).map
      (·.gref) := by
    rw [hmap]
    rcases List.mem_cons.mp hg' with rfl | hg'
    · exact List.mem_cons_self
    · exact List.mem_cons_of_mem _ (List.mem_map.mpr ⟨g', hg', rfl⟩)
  obtain ⟨r, hr, he⟩ := List.mem_map.mp hmem
  exact hgref r hr (he.trans hnone)

theorem dataPieces_ne_nil (nb : NetBuffer) (h : 0 < nb.dataLength) :
    dataPieces nb.mdls nb.currentMdlOffset nb.dataLength ≠ [] := by
  intro hnil
  have := sum_sizes nb
  rw [hnil] at this
  simp only [List.map_nil, List.sum_nil] at this
  omega

theorem not_bounced (hfew : nb.physicalBufferCount < maxFragsPerPacket) (htag : nb.tagged = false) :
    ¬(nb.physicalBufferCount ≥ maxFragsPerPacket ∨ nb.tagged = true) := by
  rw [htag]
  rintro (h | h)
  · exact absurd hfew (Nat.not_lt.mpr h)
  · cases h

theorem prepare_eq (hfew : nb.physicalBufferCount < maxFragsPerPacket) (htag : nb.tagged = false)
    (hroom : nb.physicalBufferCount + extra nb < nb.availableShadows) (hne : nb.physicalBufferCount ≠ 0) :
    transmitterPrepareNetBuffer nb =
      (prepareMdls nb nb.mdls nb.currentMdlOffset nb.dataLength [] >>= fun slots =>
        xmAssert (slots.any Slot.isRequest) .bugCheck >>= fun _ =>
        xmAssert (slots.length ≤ extra nb + nb.physicalBufferCount) .bugCheck >>= fun _ =>
        .ok (.prepared {
          slots := clearMoreData slots
          physicalBufferCount := u16 (slots.length - extra nb)
          totalSize := if nb.mss ≠ 0 then nb.dataLength else 0 })) := by
  rw [transmitterPrepareNetBuffer, if_neg (not_bounced hfew htag), if_pos hne, bind_eq (xmAssert_pos nb.mss_le),
    if_neg (by omega)]

theorem prepare_slots (hfew : nb.physicalBufferCount < maxFragsPerPacket) (htag : nb.tagged = false)
    (hroom : nb.physicalBufferCount + extra nb < nb.availableShadows) (hpos : 0 < nb.dataLength)
    (hfirst : ∀ o ∈ firstOffset nb.mdls nb.currentMdlOffset, o < 2 * pageSize) :
    ∃ g gs, grantPieces nb 0 (dataPieces nb.mdls nb.currentMdlOffset nb.dataLength) = g :: gs ∧
      (slotsOf nb (g :: gs)).length ≤ nb.physicalBufferCount + extra nb ∧
      ∃ c t, transmitterPrepareNetBuffer nb = .ok (.prepared ⟨clearMoreData (slotsOf nb (g :: gs)), c, t⟩) := by
  have hlen := @dataPieces_length nb.mdls nb.currentMdlOffset nb.dataLength
  have hbreaks := nb.breaks
  have hglen := congrArg List.length
    (@grantPieces_snd nb 0 (dataPieces nb.mdls nb.currentMdlOffset nb.dataLength))
  rw [List.length_map, List.length_map] at hglen
  cases hg : grantPieces nb 0 (dataPieces nb.mdls nb.currentMdlOffset nb.dataLength) with
  | nil =>
    rw [hg] at hglen
    exact absurd (List.eq_nil_of_length_eq_zero hglen.symm) (dataPieces_ne_nil nb hpos)
  | cons g gs =>
    rw [hg, List.length_cons] at hglen
    have hslen : (slotsOf nb (g :: gs)).length = (g :: gs).length + extra nb :=
      slotsOf_length (List.cons_ne_nil g gs)
    rw [List.length_cons] at hslen
    have hslots : prepareMdls nb nb.mdls nb.currentMdlOffset nb.dataLength [] = .ok (slotsOf nb (g :: gs)) := by
      rw [prepareMdls_eq [] hfirst, foldlM_fillRequest (by omega), hg]
    have hrun := prepare_eq hfew htag hroom (by omega)
    rw [bind_eq hslots, bind_eq (xmAssert_pos (show (slotsOf nb (g :: gs)).any Slot.isRequest = true from
      rfl)), bind_eq (xmAssert_pos (by omega))] at hrun
    exact ⟨g, gs, rfl, by omega, _, _, hrun⟩

/-! ### The fragments of the transmitter -/

theorem fragments_cons (mdl : Mdl) (mdls : List Mdl) (offset dataSize : Nat) :
    fragments (mdl :: mdls) offset dataSize =
      if dataSize = 0 then .ok []
      else if mdl.byteCount ≤ offset then fragments mdls (offset - mdl.byteCount) dataSize
      else
        let mdlByteOffset := mdl.byteOffset + offset
        let pfnIndex := if mdlByteOffset ≥ pageSize then 1 else 0
        let mdlByteOffset := if mdlByteOffset ≥ pageSize then mdlByteOffset - pageSize else mdlByteOffset
        xmAssert (mdlByteOffset < pageSize) .bugCheck >>= fun _ =>
        let mdlByteCount := min (mdl.byteCount - offset) dataSize
        fragments mdls 0 (dataSize - mdlByteCount) >>= fun rest =>
        .ok (mdlFragments mdlByteCount mdlByteCount mdlByteOffset pfnIndex ++ rest) := rfl

/-- `Transmitter` cuts the MDLs the same way, without the pages. -/
theorem fragments_eq {mdls : List PagedMdl} {offset dataSize : Nat}
    (h : ∀ o ∈ firstOffset mdls offset, o < 2 * pageSize) :
    fragments (mdls.map (·.toMdl)) offset dataSize =
      .ok ((dataPieces mdls offset dataSize).map (·.2)) := by
  induction mdls generalizing offset dataSize with
  | nil => rfl
  | cons mdl mdls ih =>
    rw [firstOffset] at h
    rw [List.map_cons, fragments_cons, dataPieces_cons]
    split
    · rfl
    · split
      · next hle =>
        rw [if_pos hle] at h
        exact ih h
      · next hlt =>
        rw [if_neg hlt] at h
        obtain ⟨hindex, hpage⟩ := firstPage (h _ rfl)
        simp only [hindex, hpage]
        rw [bind_eq (xmAssert_pos (Nat.mod_lt _ (by decide))), bind_eq (ih fun o ho =>
          Nat.lt_of_lt_of_le (firstOffset_zero mdls o ho) (by decide)), List.map_append]
        simp only [mdlPieces, List.map_map, Function.comp_def, List.map_id']

theorem fragments_error {mdls : List PagedMdl} {offset dataSize o : Nat} (hd : dataSize ≠ 0)
    (ho : o ∈ firstOffset mdls offset) (hfar : 2 * pageSize ≤ o) :
    fragments (mdls.map (·.toMdl)) offset dataSize = .error .bugCheck := by
  induction mdls generalizing offset with
  | nil => cases ho
  | cons mdl mdls ih =>
    rw [firstOffset] at ho
    rw [List.map_cons, fragments_cons, if_neg hd]
    split
    · next hle =>
      rw [if_pos hle] at ho
      exact ih ho
    · next hlt =>
      rw [if_neg hlt] at ho
      obtain rfl := Option.some.inj ho
      simp only [pageSize] at hfar ⊢
      rw [if_pos (by omega), xmAssert_neg (by omega)]
      rfl

theorem unpaged_breaks (nb : NetBuffer) (frags : List Fragment)
    (h : fragments (nb.mdls.map (·.toMdl)) nb.currentMdlOffset nb.dataLength = .ok frags) :
    frags.length ≤ nb.physicalBufferCount - 1 + 1 := by
  have hbreaks := nb.breaks
  by_cases hfirst : ∀ o ∈ firstOffset nb.mdls nb.currentMdlOffset, o < 2 * pageSize
  · rw [fragments_eq hfirst] at h
    cases h
    rw [List.length_map, dataPieces_length]
    omega
  · obtain ⟨o, ho, hfar⟩ := not_forall₂.mp hfirst
    by_cases hd : nb.dataLength = 0
    · rw [hd] at h
      cases hm : nb.mdls <;> rw [hm] at h <;> cases h <;> exact Nat.zero_le _
    · rw [fragments_error hd ho (Nat.le_of_not_lt hfar)] at h
      cases h

/-- The net buffer as it is in `Transmitter`. -/
def NetBuffer.unpaged (nb : NetBuffer) : Xennet6.NetBuffer where
  mdls := nb.mdls.map (·.toMdl)
  currentMdlOffset := nb.currentMdlOffset
  dataLength := nb.dataLength
  physicalCount := nb.physicalBufferCount - 1
  length_le := Nat.le_trans nb.length_le (by decide)
  covers := by rw [List.map_map]; exact nb.covers
  breaks := unpaged_breaks nb

/-- The requests are those that `allocateFragments` makes of the fragments. -/
theorem prepare_fragments (hfew : nb.physicalBufferCount < maxFragsPerPacket) (htag : nb.tagged = false)
    (hroom : nb.physicalBufferCount + extra nb < nb.availableShadows) (hpos : 0 < nb.dataLength)
    (hfirst : ∀ o ∈ firstOffset nb.mdls nb.currentMdlOffset, o < 2 * pageSize) :
    ∃ f fs p, fragments nb.unpaged.mdls nb.unpaged.currentMdlOffset nb.unpaged.dataLength =
        .ok (f :: fs) ∧ transmitterPrepareNetBuffer nb = .ok (.prepared p) ∧
      (requests p.slots).map (fun r => (r.size, r.offset, r.extraInfo)) =
        (u16 nb.unpaged.dataLength, u16 f.offset, decide (nb.mss ≠ 0)) ::
          fs.map fun f => (u16 f.size, u16 f.offset, false) := by
  obtain ⟨g, gs, hg, -, c, t, hok⟩ := prepare_slots hfew htag hroom hpos hfirst
  have hsnd := @grantPieces_snd nb 0 (dataPieces nb.mdls nb.currentMdlOffset nb.dataLength)
  rw [hg] at hsnd
  refine ⟨g.2, gs.map (·.2), _, ?_, hok, ?_⟩
  · exact (fragments_eq hfirst).trans (congrArg Except.ok hsnd.symm)
  · rw [requests_clear, clearLast_map _ fun _ => rfl, List.map_cons, List.map_map, List.map_map]
    rfl

/-- **A net buffer that is not bounced and for which there are shadows is prepared, and its requests
describe its data, exactly when it has data that starts in the first two pages of an MDL and there is a
reference for each page of it.** -/
theorem prepare_describes_iff (nb : NetBuffer) (hfew : nb.physicalBufferCount < maxFragsPerPacket)
    (htag : nb.tagged = false) (hroom : nb.physicalBufferCount + extra nb < nb.availableShadows) :
    (∃ p, transmitterPrepareNetBuffer nb = .ok (.prepared p) ∧ Describes nb p) ↔
      0 < nb.dataLength ∧ (∀ o ∈ firstOffset nb.mdls nb.currentMdlOffset, o < 2 * pageSize) ∧
        ∀ i < physicalPages nb.mdls nb.currentMdlOffset nb.dataLength, nb.grants i = true := by
  have hlen := @dataPieces_length nb.mdls nb.currentMdlOffset nb.dataLength
  constructor
  · rintro ⟨p, hp, hdesc⟩
    have hne : nb.physicalBufferCount ≠ 0 := by
      intro hz
      rw [transmitterPrepareNetBuffer, if_neg (not_bounced hfew htag), if_neg (by simpa using hz)] at hp
      cases hp
    have hpos : 0 < nb.dataLength := by
      refine Nat.pos_of_ne_zero fun hz => ?_
      have hnone : prepareMdls nb nb.mdls nb.currentMdlOffset nb.dataLength [] = .ok [] := by
        rw [hz]
        cases nb.mdls with
        | nil => rfl
        | cons mdl mdls => exact if_pos rfl
      rw [prepare_eq hfew htag hroom hne, bind_eq hnone] at hp
      cases hp
    have hfirst : ∀ o ∈ firstOffset nb.mdls nb.currentMdlOffset, o < 2 * pageSize := by
      refine fun o ho => Nat.lt_of_not_le fun hfar => ?_
      rw [prepare_eq hfew htag hroom hne, prepareMdls_error [] (Nat.ne_of_gt hpos) ho hfar] at hp
      cases hp
    obtain ⟨g, gs, hg, -, c, t, hok⟩ := prepare_slots hfew htag hroom hpos hfirst
    rw [hok] at hp
    cases hp
    refine ⟨hpos, hfirst, fun i hi => ?_⟩
    have hsome := grantPieces_some (hg ▸ describes_granted hdesc) i (hlen ▸ hi)
    rwa [Nat.zero_add] at hsome
  · rintro ⟨hpos, hfirst, hgrants⟩
    obtain ⟨g, gs, hg, hcount, c, t, hok⟩ := prepare_slots hfew htag hroom hpos hfirst
    refine ⟨_, hok, describes_slots c (hg ▸ cut_grantPieces nb 0) ?_ hcount t⟩
    have hall : ∀ i < (dataPieces nb.mdls nb.currentMdlOffset nb.dataLength).length,
        nb.grants (0 + i) = true := fun i hi => by rw [Nat.zero_add]; exact hgrants i (hlen ▸ hi)
    rw [← hg, grantPieces_eq hall, nb.data_eq, List.flatMap_map, List.map_flatMap]
    refine List.flatMap_congr fun q _ => ?_
    rw [pieceBytes, List.map_map]
    rfl

/-- Eight bytes, from two bytes before the end of a page on. -/
def crossing : NetBuffer where
  mdls := [{ byteOffset := 4094, byteCount := 8, offset_lt := by decide, pfns := fun i => 7 + i,
             fits := by decide }]
  currentMdlOffset := 0
  dataLength := 8
  physicalBufferCount := 2
  tagged := false
  mss := 4
  tcpChecksumOffload := true
  udpChecksumOffload := false
  isIPv4 := true
  tcpChecksum := true
  udpChecksum := false
  availableShadows := 255
  grants := fun _ => true
  length_le := by decide
  covers := by decide
  breaks := by decide
  mss_le := by decide

theorem prepare_describes_iff_crossing :
    ∃ p, transmitterPrepareNetBuffer crossing = .ok (.prepared p) ∧ Describes crossing p :=
  (prepare_describes_iff crossing (by decide) rfl (by decide)).mpr ⟨by decide, by decide, fun _ _ => rfl⟩

theorem thirdPage_offset : 0 < pageSize := by decide

/-- One byte at the start of the third page of an MDL. -/
def thirdPage : NetBuffer where
  mdls := [{ byteOffset := 0, byteCount := 8193, offset_lt := thirdPage_offset, pfns := fun i => 7 + i,
             fits := by decide }]
  currentMdlOffset := 8192
  dataLength := 1
  physicalBufferCount := 1
  tagged := false
  mss := 0
  tcpChecksumOffload := false
  udpChecksumOffload := false
  isIPv4 := false
  tcpChecksum := false
  udpChecksum := false
  availableShadows := 255
  grants := fun _ => true
  length_le := by decide
  covers := by decide
  breaks := by decide
  mss_le := by decide

theorem prepare_thirdPage : thirdPage.physicalBufferCount < maxFragsPerPacket ∧
    thirdPage.physicalBufferCount + extra thirdPage < thirdPage.availableShadows ∧
    transmitterPrepareNetBuffer thirdPage = .error .bugCheck :=
  ⟨by decide, by decide, rfl⟩

end Requests

end XcWindows.Xennet6.Fragmentation
