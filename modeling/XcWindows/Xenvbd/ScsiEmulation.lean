import XcWindows.Lib.Footprint
import XcWindows.Xenvbd.VpdPages

/-!
# The emulated SCSI commands

The commands that `XenvbdStartIO` of `xenvbd/xenvbd.c` answers from what it knows of the target: INQUIRY
(`inquiry.c`), MODE SENSE (`mode.c`), REPORT LUNS and READ CAPACITY (10) and (16). A handler is a function
on the SRB and on the memory from its data buffer on; what it writes there has a footprint.
-/

namespace XcWindows.Xenvbd.Scsi

open Lib VpdPages

inductive SrbStatus where
  | success
  | invalidRequest
deriving DecidableEq

/-- `SCSI_REQUEST_BLOCK`, what the handlers use of it. -/
structure Srb where
  cdb : Fin 16 → UInt8
  dataTransferLength : UInt32
  srbStatus : SrbStatus

/-- `XHBD_TARGET_INFO` -/
structure Target where
  sectors : UInt64
  sectorSize : UInt32
  /-- `info & VDISK_READONLY` -/
  readOnly : Bool
  defaultPage : Option (List UInt8)
  vpdPages : List VpdPage

/-- What differs between the builds. -/
structure Build where
  /-- `sizeof (PMODE_PARAMETER_HEADER)`, 4 or 8 -/
  pointerSize : Nat
  pointerSize_eq : pointerSize = 4 ∨ pointerSize = 8
  austereMode : Bool

variable {m : Nat → UInt8}

/-- The SRB and its data buffer, which was `m`. -/
structure Answer (m : Nat → UInt8) where
  srb : Srb
  data : Written m

namespace Answer

def setStatus (r : Answer m) (s : SrbStatus) : Answer m := { r with srb := { r.srb with srbStatus := s } }

def setLength (r : Answer m) (n : UInt32) : Answer m :=
  { r with srb := { r.srb with dataTransferLength := n } }

def store (r : Answer m) (a : Nat) (xs : List UInt8) : Answer m := { r with data := r.data.store a xs }

end Answer

/-- `REVERSE_BYTES` of a number that is stored -/
def reverseBytes (n : UInt32) : List UInt8 :=
  [(n >>> 24).toUInt8, (n >>> 16).toUInt8, (n >>> 8).toUInt8, n.toUInt8]

def reverseBytesQuad (n : UInt64) : List UInt8 :=
  reverseBytes (n >>> 32).toUInt32 ++ reverseBytes n.toUInt32

/-! ## INQUIRY -/

def enableVitalProductData (srb : Srb) : Bool := srb.cdb 1 &&& 1 != 0

/-- The page that is asked for. -/
def inquiryPage (t : Target) (srb : Srb) : Option (List UInt8) :=
  if enableVitalProductData srb then (findVpdp t.vpdPages (srb.cdb 2).toNat).map VpdPage.data
  else if srb.cdb 2 = 0 then t.defaultPage
  else none

/-- `XenvbdInquiry`; `none` is the assertion that the page is not longer than 0xff. -/
def xenvbdInquiry (t : Target) (r : Answer m) : Option (Answer m) :=
  let n := r.srb.dataTransferLength
  if n < 6 then some (r.setStatus .invalidRequest)
  else
    let r := r.store 0 (List.replicate n.toNat 0)
    match inquiryPage t r.srb with
    | none => some (r.setStatus .invalidRequest)
    | some page =>
      if n.toNat < page.length then some ((r.store 0 (page.take n.toNat)).setStatus .success)
      else if 0xff < page.length then none
      else some (((r.setLength (UInt32.ofNat page.length)).store 0 page).setStatus .success)

/-! ## REPORT LUNS -/

/-- `Cdb->REPORT_LUNS.AllocationLength` -/
def reportLunsAllocation (srb : Srb) : UInt32 :=
  (srb.cdb 6).toUInt32 <<< 24 ||| (srb.cdb 7).toUInt32 <<< 16 ||| (srb.cdb 8).toUInt32 <<< 8 |||
    (srb.cdb 9).toUInt32

def xenvbdMaxDisks (b : Build) : UInt8 := if b.austereMode then 32 else 128

/-- One of the two LUNs, if there is space for it: `Offset` and `Length` are 8 more. -/
def addLun (alloc : UInt32) (lun : UInt8) (s : Answer m × UInt32 × UInt32) : Answer m × UInt32 × UInt32 :=
  if s.2.1 + 8 ≤ alloc then (s.1.store s.2.1.toNat [lun], s.2.1 + 8, s.2.2 + 8) else s

def xenvbdReportLuns (b : Build) (r : Answer m) : Answer m :=
  let alloc := reportLunsAllocation r.srb
  if r.srb.dataTransferLength < 12 then r.setStatus .invalidRequest
  else if alloc < 16 then r.setStatus .invalidRequest
  else
    let r := r.store 0 (List.replicate alloc.toNat 0)
    let s := addLun alloc (xenvbdMaxDisks b) (addLun alloc 0 (r, 8, 0))
    ((s.1.store 0 (reverseBytes s.2.2)).setLength (min s.2.2 alloc)).setStatus .success

/-! ## MODE SENSE -/

/-- `MODE_SENSE.AllocationLength` -/
def modeSenseAllocation (srb : Srb) : UInt8 := srb.cdb 4

def modeSensePc (srb : Srb) : UInt8 := srb.cdb 2 >>> 6

def modeSensePageCode (srb : Srb) : UInt8 := srb.cdb 2 &&& 0x3f

/-- `pMph->ModeDataLength` and `pMph->BlockDescriptorLength` -/
def modeDataLength (w : Written m) : UInt8 := w.now 0

def blockDescriptorLength (w : Written m) : UInt8 := w.now 3

def initialiseModeParameterHeader (writeProtect : Bool) (w : Written m) : Written m :=
  w.store 0 [3, 0, if writeProtect then 0x80 else 0, 0]

/-- `PushData`: as much of the data as there is allocated, and their whole length in the header. -/
def pushData (alloc : UInt8) (data : List UInt8) (forceToZero : Bool) (w : Written m) : Written m :=
  let length := modeDataLength w
  let start := 1 + length.toNat + (blockDescriptorLength w).toNat
  let xs := if forceToZero then List.replicate data.length 0 else data
  let w := if length.toNat + 1 ≤ alloc.toNat then w.store start (xs.take (alloc.toNat - length.toNat - 1)) else w
  w.store 0 [modeDataLength w + UInt8.ofNat data.length]

def initialiseModePage (alloc page : UInt8) (w : Written m) : Written m := pushData alloc [page &&& 0x3f, 0] false w

/-- `AddModePayload`; the offset of the page header is taken from the size of a pointer. -/
def addModePayload (b : Build) (alloc : UInt8) (data : List UInt8) (zeroes : Bool) (w : Written m) : Written m :=
  let offset := b.pointerSize + (blockDescriptorLength w).toNat
  let w :=
    if offset + 2 ≤ alloc.toNat then w.store (offset + 1) [w.now (offset + 1) + UInt8.ofNat data.length] else w
  pushData alloc data zeroes w

/-- `sizeof (struct cache_mode_page)` zeroes -/
def cacheModePage : List UInt8 := List.replicate 17 0

def generatePage8 (b : Build) (alloc pct : UInt8) (w : Written m) : Written m :=
  addModePayload b alloc cacheModePage (pct == 1) (initialiseModePage alloc 8 w)

def finishModeSense (alloc : UInt8) (w : Written m) : UInt32 :=
  min alloc.toUInt32 ((modeDataLength w).toUInt32 + 1 + (blockDescriptorLength w).toUInt32)

def xenvbdModeSense (b : Build) (t : Target) (r : Answer m) : Answer m :=
  let r := r.setStatus .invalidRequest
  let alloc := modeSenseAllocation r.srb
  if r.srb.dataTransferLength < 6 then r
  else if modeSensePc r.srb = 3 then r
  else
    let r := { r with data := initialiseModeParameterHeader t.readOnly r.data }
    if modeSensePageCode r.srb = 0x08 ∨ modeSensePageCode r.srb = 0x3f then
      let w := generatePage8 b alloc (modeSensePc r.srb) r.data
      (({ r with data := w }).setStatus .success).setLength (finishModeSense alloc w)
    else r

/-! ## READ CAPACITY -/

def xenvbdCapacity (t : Target) (r : Answer m) : Answer m :=
  let fixBlockEnd := if t.sectors > 0x100000000 then 0xffffffff else (t.sectors - 1).toUInt32
  ((r.store 0 (reverseBytes fixBlockEnd)).store 4 (reverseBytes t.sectorSize)).setStatus .success

def xenvbdCapacity16 (t : Target) (r : Answer m) : Answer m :=
  ((r.store 0 (reverseBytesQuad (t.sectors - 1))).store 8 (reverseBytes t.sectorSize)).setStatus .success

/-! ## The dispatch -/

inductive Scsiop where
  | inquiry
  | reportLuns
  | modeSense
  | readCapacity
  | readCapacity16
deriving DecidableEq

/-- The emulated command of an operation code. -/
def Scsiop.ofCode (c : UInt8) : Option Scsiop :=
  if c = 0x12 then some .inquiry
  else if c = 0xA0 then some .reportLuns
  else if c = 0x1A then some .modeSense
  else if c = 0x25 then some .readCapacity
  else if c = 0x9E then some .readCapacity16
  else none

def Scsiop.handle (b : Build) (t : Target) (r : Answer m) : Scsiop → Option (Answer m)
  | .inquiry => xenvbdInquiry t r
  | .reportLuns => some (xenvbdReportLuns b r)
  | .modeSense => some (xenvbdModeSense b t r)
  | .readCapacity => some (xenvbdCapacity t r)
  | .readCapacity16 => some (xenvbdCapacity16 t r)

/-- `XenvbdStartIO` with one of the emulated commands; `none` for another, or if an assertion fires. -/
def startEmulated (b : Build) (t : Target) (m : Nat → UInt8) (srb : Srb) : Option (Answer m) :=
  Scsiop.ofCode (srb.cdb 0) >>= fun op =>
  op.handle b t ⟨{ srb with srbStatus := .invalidRequest }, .start m⟩

/-- Only the caller's bytes are written, and no more are reported. -/
def Stays (b : Build) (t : Target) (m : Nat → UInt8) (srb : Srb) : Prop :=
  ∀ r, startEmulated b t m srb = some r →
    r.data.Within srb.dataTransferLength.toNat ∧ r.srb.dataTransferLength ≤ srb.dataTransferLength

/-- The allocation length of the CDB, or the size of the answer, is not more than the buffer has. -/
def Roomy (srb : Srb) : Scsiop → Prop
  | .inquiry => True
  | .reportLuns =>
    srb.dataTransferLength < 12 ∨ reportLunsAllocation srb < 16 ∨
      reportLunsAllocation srb ≤ srb.dataTransferLength
  | .modeSense =>
    srb.dataTransferLength < 6 ∨ modeSensePc srb = 3 ∨
      ¬(modeSensePageCode srb = 0x08 ∨ modeSensePageCode srb = 0x3f) ∨
      min (modeSenseAllocation srb).toNat 23 ≤ srb.dataTransferLength.toNat
  | .readCapacity => 8 ≤ srb.dataTransferLength
  | .readCapacity16 => 12 ≤ srb.dataTransferLength

/-! ## What the handlers write -/

@[simp] theorem Answer.data_setStatus (r : Answer m) (s : SrbStatus) : (r.setStatus s).data = r.data := rfl

@[simp] theorem Answer.data_setLength (r : Answer m) (n : UInt32) : (r.setLength n).data = r.data := rfl

@[simp] theorem Answer.data_store (r : Answer m) (a : Nat) (xs : List UInt8) :
    (r.store a xs).data = r.data.store a xs := rfl

@[simp] theorem Answer.length_setStatus (r : Answer m) (s : SrbStatus) :
    (r.setStatus s).srb.dataTransferLength = r.srb.dataTransferLength := rfl

@[simp] theorem Answer.length_setLength (r : Answer m) (n : UInt32) :
    (r.setLength n).srb.dataTransferLength = n := rfl

@[simp] theorem Answer.length_store (r : Answer m) (a : Nat) (xs : List UInt8) :
    (r.store a xs).srb.dataTransferLength = r.srb.dataTransferLength := rfl

theorem inquiry_within (t : Target) (srb : Srb) {r : Answer m}
    (h : xenvbdInquiry t ⟨srb, .start m⟩ = some r) :
    r.data.Within srb.dataTransferLength.toNat ∧ r.srb.dataTransferLength ≤ srb.dataTransferLength := by
  have hzero : ((Written.start m).store 0 (List.replicate srb.dataTransferLength.toNat 0)).Within
      srb.dataTransferLength.toNat := by
    apply (Written.within_start _).store
    simp
  have hpage : ∀ xs : List UInt8, xs.length ≤ srb.dataTransferLength.toNat →
      (((Written.start m).store 0 (List.replicate srb.dataTransferLength.toNat 0)).store 0 xs).Within
        srb.dataTransferLength.toNat := by
    intro xs hxs
    apply hzero.store
    omega
  unfold xenvbdInquiry at h
  simp only at h
  split at h
  case isTrue =>
    obtain rfl := Option.some.inj h
    exact ⟨Written.within_start _, UInt32.le_refl _⟩
  case isFalse =>
    split at h
    case h_1 =>
      obtain rfl := Option.some.inj h
      exact ⟨hzero, UInt32.le_refl _⟩
    case h_2 page _ =>
      split at h
      case isTrue =>
        obtain rfl := Option.some.inj h
        exact ⟨hpage _ (List.length_take_le _ _), UInt32.le_refl _⟩
      case isFalse hlong =>
        split at h
        case isTrue => cases h
        case isFalse hff =>
          obtain rfl := Option.some.inj h
          refine ⟨hpage page (by omega), ?_⟩
          rw [Answer.length_setStatus, Answer.length_store, Answer.length_setLength, UInt32.le_iff_toNat_le,
            UInt32.toNat_ofNat_of_lt' (by simp only [UInt32.size]; omega)]
          omega

theorem addLun_target {alloc : UInt32} (h : 16 ≤ alloc) (lun : UInt8) (r : Answer m) :
    addLun alloc lun (r, 8, 0) = (r.store 8 [lun], 16, 8) := if_pos h

theorem addLun_initiator (alloc : UInt32) (lun : UInt8) (r : Answer m) :
    addLun alloc lun (r, 16, 8) = if 24 ≤ alloc then (r.store 16 [lun], 24, 16) else (r, 16, 8) := rfl

theorem toNat_min (a b : UInt32) : (min a b).toNat = min a.toNat b.toNat := by
  change (if a ≤ b then a else b).toNat = _
  split
  case isTrue hle => exact (min_eq_left (UInt32.le_iff_toNat_le.1 hle)).symm
  case isFalse hle =>
    rw [UInt32.le_iff_toNat_le] at hle
    exact (min_eq_right (by omega)).symm

theorem reportLuns_spec (b : Build) (srb : Srb) (hlen : ¬srb.dataTransferLength < 12)
    (halloc : ¬reportLunsAllocation srb < 16) :
    let r := xenvbdReportLuns b ⟨srb, .start m⟩
    (∀ k, r.data.Touched k ↔ k < (reportLunsAllocation srb).toNat) ∧
      r.srb.dataTransferLength ≤ reportLunsAllocation srb := by
  have hmin : 16 ≤ reportLunsAllocation srb := UInt32.not_lt.1 halloc
  have hmin' : 16 ≤ (reportLunsAllocation srb).toNat := UInt32.le_iff_toNat_le.1 hmin
  unfold xenvbdReportLuns
  simp only
  rw [if_neg hlen, if_neg halloc, addLun_target hmin, addLun_initiator]
  split
  case isTrue hmore =>
    have hmore' : 24 ≤ (reportLunsAllocation srb).toNat := UInt32.le_iff_toNat_le.1 hmore
    refine ⟨fun k => ?_, ?_⟩
    · simp [Written.touched_store, Written.touched_start, reverseBytes]
      omega
    · simp only [Answer.length_setStatus, Answer.length_setLength]
      rw [UInt32.le_iff_toNat_le, toNat_min]
      exact min_le_right _ _
  case isFalse =>
    refine ⟨fun k => ?_, ?_⟩
    · simp [Written.touched_store, Written.touched_start, reverseBytes]
      omega
    · simp only [Answer.length_setStatus, Answer.length_setLength]
      rw [UInt32.le_iff_toNat_le, toNat_min]
      exact min_le_right _ _

/-! ## MODE SENSE -/

/-- The header tells of `n` bytes behind its first, and of no block descriptors. -/
def Header (w : Written m) (n : Nat) : Prop := (modeDataLength w).toNat = n ∧ blockDescriptorLength w = 0

theorem initialise_spec (wp : Bool) :
    Header (initialiseModeParameterHeader wp (.start m)) 3 ∧
    ∀ k, (initialiseModeParameterHeader wp (.start m)).Touched k ↔ k < 4 := by
  refine ⟨⟨rfl, rfl⟩, fun k => ?_⟩
  simp [initialiseModeParameterHeader, Written.touched_store, Written.touched_start]

theorem Header.store {w : Written m} {n a : Nat} (h : Header w n) (xs : List UInt8) (ha : 4 ≤ a) :
    Header (w.store a xs) n := by
  unfold Header modeDataLength blockDescriptorLength
  rw [Written.now_store_miss (.inl (by omega)), Written.now_store_miss (.inl (by omega))]
  exact h

theorem Header.setLength {w : Written m} {n k : Nat} (h : Header w n) (hk : n + k < 256) :
    Header (w.store 0 [modeDataLength w + UInt8.ofNat k]) (n + k) := by
  constructor
  · have hnow : modeDataLength (w.store 0 [modeDataLength w + UInt8.ofNat k]) =
        modeDataLength w + UInt8.ofNat k := Written.now_store_hit (i := 0) (by simp)
    rw [hnow, UInt8.toNat_add, h.1, UInt8.toNat_ofNat_of_lt' (by simp only [UInt8.size]; omega)]
    exact Nat.mod_eq_of_lt hk
  · unfold blockDescriptorLength
    rw [Written.now_store_miss (.inr (by simp))]
    exact h.2

theorem pushData_spec {w : Written m} {n : Nat} (h : Header w n) (hn : 3 ≤ n) (alloc : UInt8)
    (data : List UInt8) (z : Bool) (hfit : n + data.length < 256) :
    Header (pushData alloc data z w) (n + data.length) ∧
    ∀ k, (pushData alloc data z w).Touched k ↔
      k = 0 ∨ (n < k ∧ k < min alloc.toNat (n + 1 + data.length)) ∨ w.Touched k := by
  unfold pushData
  simp only [h.1, h.2]
  have hxs : (if z then List.replicate data.length 0 else data).length = data.length := by
    split <;> simp
  by_cases hle : n + 1 ≤ alloc.toNat
  · rw [if_pos hle]
    have hheader := h.store ((if z then List.replicate data.length 0 else data).take (alloc.toNat - n - 1))
      (a := 1 + n + (0 : UInt8).toNat) (by simp; omega)
    refine ⟨hheader.setLength hfit, fun k => ?_⟩
    rw [Written.touched_store, Written.touched_store, List.length_take, hxs]
    simp only [List.length_singleton, UInt8.toNat_zero]
    simp only [← or_assoc]
    apply or_congr_left
    omega
  · rw [if_neg hle]
    refine ⟨h.setLength hfit, fun k => ?_⟩
    rw [Written.touched_store]
    simp only [List.length_singleton]
    simp only [← or_assoc]
    apply or_congr_left
    omega

theorem addModePayload_spec (b : Build) {w : Written m} {n : Nat} (h : Header w n) (hn : 3 ≤ n)
    (alloc : UInt8) (data : List UInt8) (z : Bool) (hfit : n + data.length < 256) :
    Header (addModePayload b alloc data z w) (n + data.length) ∧
    ∀ k, (addModePayload b alloc data z w).Touched k ↔
      k = 0 ∨ (n < k ∧ k < min alloc.toNat (n + 1 + data.length)) ∨
        (k = b.pointerSize + 1 ∧ k + 1 ≤ alloc.toNat) ∨ w.Touched k := by
  have hptr := b.pointerSize_eq
  unfold addModePayload
  simp only [h.2]
  by_cases hle : b.pointerSize + 2 ≤ alloc.toNat
  · rw [if_pos (by simpa using hle)]
    obtain ⟨hheader, htouched⟩ := pushData_spec
      (h.store (a := b.pointerSize + (0 : UInt8).toNat + 1)
        [w.now (b.pointerSize + (0 : UInt8).toNat + 1) + UInt8.ofNat data.length] (by omega))
      hn alloc data z hfit
    refine ⟨hheader, fun k => ?_⟩
    rw [htouched, Written.touched_store]
    simp only [List.length_singleton, UInt8.toNat_zero]
    simp only [← or_assoc]
    apply or_congr_left
    omega
  · rw [if_neg (by simpa using hle)]
    obtain ⟨hheader, htouched⟩ := pushData_spec h hn alloc data z hfit
    refine ⟨hheader, fun k => ?_⟩
    rw [htouched]
    simp only [← or_assoc]
    apply or_congr_left
    omega

theorem generatePage8_spec (b : Build) {w : Written m} (h : Header w 3) (alloc pct : UInt8) :
    Header (generatePage8 b alloc pct w) 22 ∧
    ∀ k, (generatePage8 b alloc pct w).Touched k ↔
      k = 0 ∨ (4 ≤ k ∧ k < min alloc.toNat 23) ∨ w.Touched k := by
  have hptr := b.pointerSize_eq
  obtain ⟨hpage, htouched⟩ := pushData_spec h (by omega) alloc [8 &&& 0x3f, 0] false (by decide)
  obtain ⟨hpayload, htouched'⟩ := addModePayload_spec b hpage (by omega) alloc cacheModePage (pct == 1)
    (by decide)
  refine ⟨hpayload, fun k => ?_⟩
  refine (htouched' k).trans ?_
  rw [htouched]
  simp only [cacheModePage, List.length_replicate, List.length_cons, List.length_nil]
  simp only [← or_assoc]
  apply or_congr_left
  omega

theorem finishModeSense_spec (alloc : UInt8) {w : Written m} (h : Header w 22) :
    (finishModeSense alloc w).toNat = min alloc.toNat 23 := by
  have hlen : modeDataLength w = 22 := UInt8.toNat_inj.1 h.1
  unfold finishModeSense
  rw [hlen, h.2, toNat_min, UInt8.toNat_toUInt32]
  rfl

/-! ## The caller's buffer -/

/-- What a handler leaves stays within the caller's buffer. -/
def Answer.Stays (r : Answer m) (n : UInt32) : Prop :=
  r.data.Within n.toNat ∧ r.srb.dataTransferLength ≤ n

theorem Answer.stays_iff {r : Answer m} {e : Nat} {n : UInt32} (h : ∀ k, r.data.Touched k ↔ k < e)
    (hlen : r.srb.dataTransferLength ≤ n) : r.Stays n ↔ e ≤ n.toNat := by
  rw [Answer.Stays, Written.within_iff h]
  exact and_iff_left hlen

theorem reportLuns_stays (b : Build) (srb : Srb) :
    (xenvbdReportLuns b ⟨srb, .start m⟩).Stays srb.dataTransferLength ↔ Roomy srb .reportLuns := by
  unfold Roomy
  by_cases hlen : srb.dataTransferLength < 12
  · refine iff_of_true ?_ (.inl hlen)
    unfold xenvbdReportLuns
    simp only
    rw [if_pos hlen]
    exact ⟨Written.within_start _, UInt32.le_refl _⟩
  by_cases halloc : reportLunsAllocation srb < 16
  · refine iff_of_true ?_ (.inr (.inl halloc))
    unfold xenvbdReportLuns
    simp only
    rw [if_neg hlen, if_pos halloc]
    exact ⟨Written.within_start _, UInt32.le_refl _⟩
  obtain ⟨htouched, hle⟩ := reportLuns_spec (m := m) b srb hlen halloc
  rw [or_iff_right hlen, or_iff_right halloc, Answer.Stays, Written.within_iff htouched,
    ← UInt32.le_iff_toNat_le]
  exact ⟨And.left, fun h => ⟨h, UInt32.le_trans hle h⟩⟩

theorem xenvbdModeSense_eq (b : Build) (t : Target) (srb : Srb) (w : Written m) :
    xenvbdModeSense b t ⟨srb, w⟩ =
      let r : Answer m := ⟨{ srb with srbStatus := .invalidRequest }, w⟩
      if srb.dataTransferLength < 6 then r
      else if modeSensePc srb = 3 then r
      else if modeSensePageCode srb = 0x08 ∨ modeSensePageCode srb = 0x3f then
        let alloc := modeSenseAllocation srb
        let w := generatePage8 b alloc (modeSensePc srb) (initialiseModeParameterHeader t.readOnly w)
        (({ r with data := w }).setStatus .success).setLength (finishModeSense alloc w)
      else { r with data := initialiseModeParameterHeader t.readOnly w } := rfl

theorem modeSense_stays (b : Build) (t : Target) (srb : Srb) :
    (xenvbdModeSense b t ⟨srb, .start m⟩).Stays srb.dataTransferLength ↔ Roomy srb .modeSense := by
  rw [Roomy, xenvbdModeSense_eq]
  simp only
  have hstart : (Answer.mk { srb with srbStatus := .invalidRequest } (.start m)).Stays
      srb.dataTransferLength := ⟨Written.within_start _, UInt32.le_refl _⟩
  by_cases hlen : srb.dataTransferLength < 6
  · rw [if_pos hlen]
    exact iff_of_true hstart (.inl hlen)
  by_cases hpc : modeSensePc srb = 3
  · rw [if_neg hlen, if_pos hpc]
    exact iff_of_true hstart (.inr (.inl hpc))
  have hlen' : 6 ≤ srb.dataTransferLength.toNat :=
    UInt32.le_iff_toNat_le.1 (UInt32.not_lt.1 hlen)
  have hfour : 4 ≤ srb.dataTransferLength.toNat := by omega
  obtain ⟨hheader, htouched⟩ := initialise_spec (m := m) t.readOnly
  rw [if_neg hlen, if_neg hpc, or_iff_right hlen, or_iff_right hpc]
  by_cases hpage : modeSensePageCode srb = 0x08 ∨ modeSensePageCode srb = 0x3f
  · obtain ⟨hheader', htouched'⟩ :=
      generatePage8_spec b hheader (modeSenseAllocation srb) (modeSensePc srb)
    have hall : ∀ k, (generatePage8 b (modeSenseAllocation srb) (modeSensePc srb)
        (initialiseModeParameterHeader t.readOnly (.start m))).Touched k ↔
        k < max 4 (min (modeSenseAllocation srb).toNat 23) := by
      intro k
      rw [htouched', htouched]
      omega
    rw [if_pos hpage, or_iff_right (not_not.2 hpage)]
    refine (and_congr (Written.within_iff hall) UInt32.le_iff_toNat_le).trans ?_
    rw [Answer.length_setLength, finishModeSense_spec _ hheader']
    omega
  · rw [if_neg hpage]
    exact iff_of_true ((Answer.stays_iff (n := srb.dataTransferLength) htouched (UInt32.le_refl _)).2 hfour)
      (.inl hpage)

theorem capacity_stays (t : Target) (srb : Srb) :
    (xenvbdCapacity t ⟨srb, .start m⟩).Stays srb.dataTransferLength ↔ Roomy srb .readCapacity := by
  have htouched : ∀ k, (xenvbdCapacity t ⟨srb, .start m⟩).data.Touched k ↔ k < 8 := by
    intro k
    simp [xenvbdCapacity, Written.touched_store, Written.touched_start, reverseBytes]
    omega
  rw [Answer.stays_iff (n := srb.dataTransferLength) htouched (UInt32.le_refl _)]
  exact (UInt32.le_iff_toNat_le (a := 8)).symm

theorem capacity16_stays (t : Target) (srb : Srb) :
    (xenvbdCapacity16 t ⟨srb, .start m⟩).Stays srb.dataTransferLength ↔ Roomy srb .readCapacity16 := by
  have htouched : ∀ k, (xenvbdCapacity16 t ⟨srb, .start m⟩).data.Touched k ↔ k < 12 := by
    intro k
    simp [xenvbdCapacity16, Written.touched_store, Written.touched_start, reverseBytesQuad, reverseBytes]
    omega
  rw [Answer.stays_iff (n := srb.dataTransferLength) htouched (UInt32.le_refl _)]
  exact (UInt32.le_iff_toNat_le (a := 12)).symm

/-- The emulation stays in the caller's buffer just if the command's own lengths fit in it. -/
theorem emulation_stays_iff (b : Build) (t : Target) (m : Nat → UInt8) (srb : Srb) :
    Stays b t m srb ↔ ∀ op, Scsiop.ofCode (srb.cdb 0) = some op → Roomy srb op := by
  unfold Stays startEmulated
  cases hop : Scsiop.ofCode (srb.cdb 0) with
  | none => exact iff_of_true (fun r h => by cases h) (fun op h => by cases h)
  | some op =>
    simp only [Option.bind_eq_bind, Option.bind_some, Option.some.injEq, forall_eq']
    cases op with
    | inquiry =>
      exact iff_of_true
        (fun r h => inquiry_within t { srb with srbStatus := .invalidRequest } h) trivial
    | reportLuns =>
      simp only [Scsiop.handle, Option.some.injEq, forall_eq']
      exact reportLuns_stays b { srb with srbStatus := .invalidRequest }
    | modeSense =>
      simp only [Scsiop.handle, Option.some.injEq, forall_eq']
      exact modeSense_stays b t { srb with srbStatus := .invalidRequest }
    | readCapacity =>
      simp only [Scsiop.handle, Option.some.injEq, forall_eq']
      exact capacity_stays t { srb with srbStatus := .invalidRequest }
    | readCapacity16 =>
      simp only [Scsiop.handle, Option.some.injEq, forall_eq']
      exact capacity16_stays t { srb with srbStatus := .invalidRequest }

/-- REPORT LUNS with 16 bytes allocated, in an SRB of 12. -/
def shortLuns : Srb where
  cdb i := if i = 0 then 0xA0 else if i = 9 then 16 else 0
  dataTransferLength := 12
  srbStatus := .success

/-- The bytes 12 to 15 are zeroed, which are behind the buffer. -/
theorem report_luns_overrun :
    ¬Stays ⟨8, .inr rfl, false⟩ ⟨1, 512, false, none, []⟩ (fun _ => 0xff) shortLuns := by
  intro h
  have hlt := (h _ rfl).1 15 ⟨(0, 16), by decide, by decide⟩
  exact absurd hlt (by decide)

end XcWindows.Xenvbd.Scsi
