import Mathlib.Data.Nat.Bitwise
import XcWindows.Inc.Xsapi
import XcWindows.Lib.Word

/-!
# The graphics aperture table

`XenGfxGartInitialize`, `XenGfxGartInitializeCursorSegment`, `XenGfxGartMapApertureSegment`,
`XenGfxGartUnmapApertureSegment` and `XenGfxGartReset` of `xengfx/wddm/miniport/gart.c`, with the
checks of `XenGfxBuildPagingBuffer` and the segment that `XenGfxQueryAdapterInfo` reports. The cursor
segment is put in front of the video segment; the requests for the video segment are checked against its
size and then stored from entry `OffsetInPages` on, without its offset. The reset restores the stolen
pages from `StolenPfns`, their number, in place of `StolenBase`.

`StepFits` leaves out what meets these and the sums that wrap; the rest is `Separated`. The registers of
the VCRTCs, which the requests also write, are not part of the table.
-/

namespace XcWindows.Xengfx

open XcWindows.Lib

abbrev xgfxGartValidPfn : Nat := 0x80000000
abbrev xgfxGartClearPfn : Nat := 0
abbrev xgfxGartRegMask : Nat := 0xbfffffff
abbrev xgfxGartUnmapMask : Nat := 0x3fffffff
abbrev xengfxMaxGartPfns : Nat := 0x40000
abbrev xengfxPageAlignMask : Nat := 4095

/-- The register value of a valid entry. -/
def validPfn (pfn : Nat) : Nat := xgfxGartRegMask &&& (xgfxGartValidPfn ||| u32 pfn)

/-- `for (i = 0; i < n; i++) pGartReg[i] = v(i)`, where `pGartReg` is `start` entries behind the first and
addresses have `w` bits. -/
def storeRegs (w start : Nat) (v : Nat → Nat) : Nat → (Nat → Nat) → Nat → Nat
  | 0, regs => regs
  | n + 1, regs => Function.update (storeRegs w start v n regs) ((start + n) % 2 ^ (w - 2)) (v n)

/-- What `XENGFX_VCRTC` says about its cursor. -/
structure VCrtc where
  cursorSupported : Bool
  maxCursorHeight : Nat
  maxCursorWidth : Nat

/-- The device as it is started. -/
structure Device where
  /-- The bits of a `SIZE_T`. -/
  w : Nat
  gartSize : Nat
  stolenSize : Nat
  stolenBase : Nat
  vcrtcs : List VCrtc
  maxStrideAlignment : Nat
  /-- The page frames that back the cursor buffer; `none` if it is not allocated. -/
  cursorsBuffer : Option (Nat → Nat)
  /-- The table before. -/
  regs : Nat → Nat

/-- The fields of `XENGFX_DEVICE_EXTENSION` for the table. -/
structure Gart where
  regs : Nat → Nat
  gartPfns : Nat
  videoPfns : Nat
  videoSegmentOffset : Nat
  stolenPfns : Nat
  stolenBase : Nat
  cursonPfns : Nat

/-- `XenGfxGartInitialize`; `none` is `FALSE`. -/
def xenGfxGartInitialize (d : Device) : Option Gart :=
  let gartPfns := u32 (u32 d.gartSize * pageSize)
  let stolenPfns := u32 d.stolenSize
  let stolenBase := u32 d.stolenBase
  if gartPfns > xengfxMaxGartPfns then none
  else if stolenPfns > gartPfns / 2 then none
  else if stolenBase = 0xffffffff then none
  else some ⟨storeRegs d.w 0 (fun _ => xgfxGartClearPfn) gartPfns d.regs, gartPfns, gartPfns, 0,
    stolenPfns, stolenBase, 0⟩

/-- The loop over the VCRTCs: the adapter's maximal cursor, if all support one. -/
def adapterMaxCursor : List VCrtc → Nat × Nat → Option (Nat × Nat)
  | [], m => some m
  | c :: cs, (height, width) =>
    if c.cursorSupported then
      adapterMaxCursor cs (min c.maxCursorHeight height, min c.maxCursorWidth width)
    else none

def xenGfxGartInitializeCursorSegment (d : Device) (s : Gart) : Gart :=
  match adapterMaxCursor d.vcrtcs (0xffffffff, 0xffffffff), d.cursorsBuffer with
  | some (height, width), some pfn =>
    let size := u32 (4 * height * width)
    let size := u32 (size + xengfxPageAlignMask) / pageSize * pageSize
    let pfns := size / pageSize
    let cursonPfns := u32 (pfns * d.vcrtcs.length)
    { s with
      cursonPfns
      videoSegmentOffset := u32 (cursonPfns * pageSize)
      videoPfns := sub32 s.videoPfns cursonPfns
      regs := storeRegs d.w 0 (fun i => validPfn (pfn i)) cursonPfns s.regs }
  | _, _ => s

/-- A map request carries the frames of its MDL from `MdlOffset` on, an unmap request its dummy page. -/
inductive Paging where
  | map (cacheCoherent : Bool) (pfn : Nat → Nat)
  | unmap (dummyPfn : Nat)

/-- `DXGK_OPERATION_MAP_APERTURE_SEGMENT` and `DXGK_OPERATION_UNMAP_APERTURE_SEGMENT`. -/
structure Request where
  segmentId : Nat
  offsetInPages : Nat
  numberOfPages : Nat
  op : Paging

/-- The value of the `i`th entry of a request. -/
def Paging.value : Paging → Nat → Nat
  | .map _ pfn, i => validPfn (pfn i)
  | .unmap dummyPfn, _ =>
    if u32 dummyPfn ≠ 0 then xgfxGartUnmapMask &&& u32 dummyPfn else xgfxGartClearPfn

/-- `XenGfxBuildPagingBuffer` comes to the routine, and its checks pass: segment, cache, alignment and
size, the last in a `SIZE_T`. -/
def Request.Accepted (d : Device) (s : Gart) (r : Request) : Prop :=
  r.segmentId = 1 ∧
  (match r.op with
    | .map cacheCoherent _ => cacheCoherent = false ∧
        ¬ (d.maxStrideAlignment > xengfxPageAlignMask ∧
          d.maxStrideAlignment &&& (r.offsetInPages * pageSize % 2 ^ d.w) ≠ 0)
    | .unmap _ => True) ∧
  (r.offsetInPages + r.numberOfPages) % 2 ^ d.w ≤ s.videoPfns

instance (d : Device) (s : Gart) (r : Request) : Decidable (r.Accepted d s) := by
  unfold Request.Accepted
  cases r.op <;> infer_instance

/-- `XenGfxGartMapApertureSegment` and `XenGfxGartUnmapApertureSegment`; `none` when the `ULONG` index never
reaches the number of pages. -/
def pageAperture (d : Device) (s : Gart) (r : Request) : Option Gart :=
  if r.Accepted d s then
    if r.numberOfPages < 4294967296 then
      some { s with regs := storeRegs d.w r.offsetInPages r.op.value r.numberOfPages s.regs }
    else none
  else some s

def xenGfxGartReset (d : Device) (s : Gart) : Gart :=
  { s with
    regs := storeRegs d.w 0
      (fun i => if i < s.stolenPfns then validPfn (s.stolenPfns + i) else xgfxGartClearPfn)
      s.gartPfns s.regs
    cursonPfns := 0
    videoSegmentOffset := 0
    videoPfns := 0 }

inductive Act where
  | page (r : Request)
  | reset

/-- The device after `XenGfxStartDevice`. -/
def started (d : Device) (s : Gart) : Machine Gart Act where
  init := xenGfxGartInitializeCursorSegment d s
  step s
    | .page r => pageAperture d s r
    | .reset => some (xenGfxGartReset d s)

/-! ## The entries that an action sets -/

/-- An accepted request sets its entries of the reported video segment, below the end of the table, and a
rejected one nothing; the reset restores the stolen pages and clears the rest. -/
def Exact (d : Device) (s : Gart) (a : Act) (t : Gart) : Prop :=
  match a with
  | .page r =>
    let base := s.videoSegmentOffset / pageSize + r.offsetInPages
    if r.Accepted d s then
      (0 < r.numberOfPages → base + r.numberOfPages ≤ s.gartPfns) ∧
        ∀ j, t.regs j = if base ≤ j ∧ j < base + r.numberOfPages then r.op.value (j - base)
          else s.regs j
    else t.regs = s.regs
  | .reset => ∀ j, t.regs j =
      if j < s.stolenPfns then validPfn (s.stolenBase + j)
      else if j < s.gartPfns then xgfxGartClearPfn else s.regs j

/-- A request that is accepted has no pages, or there is no cursor segment and its end does not wrap. At a
reset the base of the stolen pages is their number, in the bits an entry has. -/
def StepFits (d : Device) (s : Gart) : Act → Prop
  | .page r => ¬ r.Accepted d s ∨ r.numberOfPages = 0 ∨
      s.cursonPfns = 0 ∧ r.offsetInPages + r.numberOfPages < 2 ^ d.w
  | .reset => s.stolenPfns = 0 ∨ s.stolenBase % 2 ^ 30 = s.stolenPfns % 2 ^ 30

/-! ## The table -/

theorem storeRegs_apply {w start n : Nat} (v : Nat → Nat) (regs : Nat → Nat)
    (h : start + n ≤ 2 ^ (w - 2)) (j : Nat) :
    storeRegs w start v n regs j =
      if start ≤ j ∧ j < start + n then v (j - start) else regs j := by
  induction n with
  | zero => rw [if_neg (by omega)]; rfl
  | succ n ih =>
    rw [storeRegs, Nat.mod_eq_of_lt (by omega)]
    by_cases hj : j = start + n
    · subst hj
      rw [Function.update_self, if_pos (by omega), Nat.add_sub_cancel_left]
    · rw [Function.update_of_ne hj, ih (by omega)]
      by_cases hin : start ≤ j ∧ j < start + n
      · rw [if_pos hin, if_pos (by omega)]
      · rw [if_neg hin, if_neg (by omega)]

theorem or_and_self (x y : Nat) : (x ||| y) &&& x = x := by
  apply Nat.eq_of_testBit_eq
  intro i
  rw [Nat.testBit_and, Nat.testBit_or]
  cases x.testBit i <;> simp

theorem validPfn_eq (pfn : Nat) : validPfn pfn = 2 ^ 31 + pfn % 2 ^ 30 := by
  have hmask : xgfxGartRegMask = xgfxGartValidPfn ||| (2 ^ 30 - 1) := by decide
  have hlow : (xgfxGartValidPfn ||| u32 pfn) % 2 ^ 30 = pfn % 2 ^ 30 := by
    rw [Nat.or_mod_two_pow, show xgfxGartValidPfn % 2 ^ 30 = 0 by decide, Nat.zero_or]
    exact Nat.mod_mod_of_dvd pfn (by decide)
  unfold validPfn
  rw [hmask, Nat.and_comm, Nat.and_or_distrib_left, or_and_self, Nat.and_two_pow_sub_one_eq_mod, hlow]
  exact (Nat.two_pow_add_eq_or_of_lt (i := 31) (by omega) 1).symm

/-! ## The invariant -/

/-- The sizes are those of the start, the cursor's entries have not changed, and without a cursor segment
the video segment lies within the table. -/
structure Separated (d : Device) (s0 s : Gart) : Prop where
  gartPfns : s.gartPfns = s0.gartPfns
  stolenPfns : s.stolenPfns = s0.stolenPfns
  video : s.cursonPfns = 0 → s.videoPfns ≤ s.gartPfns ∧ s.videoSegmentOffset = 0
  cursor : ∀ j < s.cursonPfns, s.regs j = (xenGfxGartInitializeCursorSegment d s0).regs j

section Run
variable {d : Device} {s0 s t : Gart} {a : Act}

theorem xenGfxGartInitialize_spec (h : xenGfxGartInitialize d = some s0) :
    s0.gartPfns ≤ xengfxMaxGartPfns ∧ s0.stolenPfns ≤ s0.gartPfns / 2 ∧
      s0.videoPfns = s0.gartPfns ∧ s0.videoSegmentOffset = 0 := by
  unfold xenGfxGartInitialize at h
  simp only at h
  split at h
  · cases h
  · next h1 =>
    split at h
    · cases h
    · next h2 =>
      split at h
      · cases h
      · cases h
        exact ⟨Nat.le_of_not_lt h1, Nat.le_of_not_lt h2, rfl, rfl⟩

theorem xenGfxGartInitialize_eq {p : Nat} (hp : u32 (u32 d.gartSize * pageSize) = p)
    (hmax : p ≤ xengfxMaxGartPfns) (hstolen : u32 d.stolenSize ≤ p / 2)
    (hbase : u32 d.stolenBase ≠ 0xffffffff) : xenGfxGartInitialize d =
      some ⟨storeRegs d.w 0 (fun _ => xgfxGartClearPfn) p d.regs, p, p, 0, u32 d.stolenSize,
        u32 d.stolenBase, 0⟩ := by
  unfold xenGfxGartInitialize
  simp only [hp]
  rw [if_neg (Nat.not_lt.mpr hmax), if_neg (Nat.not_lt.mpr hstolen), if_neg hbase]

theorem separated_init (h : xenGfxGartInitialize d = some s0) : Separated d s0 (started d s0).init := by
  obtain ⟨hmax, -, hvideo, hoff⟩ := xenGfxGartInitialize_spec h
  have hself : (xenGfxGartInitializeCursorSegment d s0).gartPfns = s0.gartPfns ∧
      (xenGfxGartInitializeCursorSegment d s0).stolenPfns = s0.stolenPfns := by
    unfold xenGfxGartInitializeCursorSegment
    split <;> exact ⟨rfl, rfl⟩
  refine ⟨hself.1, hself.2, fun h0 => ?_, fun _ _ => rfl⟩
  simp only [started] at h0 ⊢
  rw [hself.1]
  unfold xenGfxGartInitializeCursorSegment at h0 ⊢
  split
  · next hc hb =>
    simp only [hc, hb] at h0
    simp only [h0, sub32]
    exact ⟨by omega, rfl⟩
  · exact ⟨Nat.le_of_eq hvideo, hoff⟩

theorem reset_exact (hsp : s.stolenPfns ≤ s.gartPfns / 2) (hmax : s.gartPfns ≤ 2 ^ (d.w - 2))
    (hfit : StepFits d s .reset) : Exact d s .reset (xenGfxGartReset d s) := by
  intro j
  simp only [xenGfxGartReset]
  rw [storeRegs_apply _ _ (by omega), Nat.sub_zero]
  by_cases hs : j < s.stolenPfns
  · rw [if_pos (by omega), if_pos hs, if_pos hs, validPfn_eq, validPfn_eq]
    have hbase : s.stolenBase % 2 ^ 30 = s.stolenPfns % 2 ^ 30 :=
      hfit.resolve_left (Nat.ne_of_gt (Nat.zero_lt_of_lt hs))
    rw [Nat.add_mod s.stolenBase, hbase, ← Nat.add_mod]
  · rw [if_neg hs, if_neg hs]
    by_cases hg : j < s.gartPfns
    · rw [if_pos (by omega), if_pos hg]
    · rw [if_neg (by omega), if_neg hg]

theorem page_exact {r : Request} (h : Separated d s0 s) (hmax : s.gartPfns ≤ 2 ^ (d.w - 2))
    (hfit : StepFits d s (.page r)) (hs : pageAperture d s r = some t) : Exact d s (.page r) t := by
  unfold pageAperture at hs
  simp only [Exact]
  split at hs
  · next hacc =>
    rw [if_pos hacc]
    split at hs
    · next hn =>
      cases hs
      rcases hfit with hrej | h0 | ⟨hc, hwrap⟩
      · exact absurd hacc hrej
      · rw [h0]
        exact ⟨fun hpos => absurd hpos (Nat.lt_irrefl 0), fun j => (if_neg (by omega)).symm⟩
      · obtain ⟨hle, hoff⟩ := h.video hc
        have hsum := hacc.2.2
        rw [Nat.mod_eq_of_lt hwrap] at hsum
        rw [hoff, Nat.zero_div, Nat.zero_add]
        exact ⟨fun _ => Nat.le_trans hsum hle, storeRegs_apply _ _ (by omega)⟩
    · cases hs
  · next hacc =>
    cases hs
    rw [if_neg hacc]

theorem Separated.step (h : Separated d s0 s) (hfit : StepFits d s a)
    (hs : (started d s0).step s a = some t) : Separated d s0 t := by
  cases a with
  | reset =>
    cases hs
    exact ⟨h.gartPfns, h.stolenPfns, fun _ => ⟨Nat.zero_le _, rfl⟩, nofun⟩
  | page r =>
    simp only [started, pageAperture] at hs
    split at hs
    · next hacc =>
      split at hs
      · cases hs
        refine ⟨h.gartPfns, h.stolenPfns, h.video, fun j hj => ?_⟩
        rcases hfit with hrej | h0 | ⟨hc, -⟩
        · exact absurd hacc hrej
        · rw [h0]
          exact h.cursor j hj
        · simp only [hc] at hj
          exact absurd hj (Nat.not_lt_zero j)
      · cases hs
    · cases hs
      exact h

end Run

/-- In a run whose steps fit the cursor's entries never change and every step is exact. -/
theorem gart_separation {d : Device} {s0 s : Gart} (hw : d.w = 32 ∨ d.w = 64)
    (hd : xenGfxGartInitialize d = some s0) (h : (started d s0).Reach (StepFits d) s) :
    (∀ j < s.cursonPfns, s.regs j = (started d s0).init.regs j) ∧
      ∀ a t, StepFits d s a → (started d s0).step s a = some t → Exact d s a t := by
  have hsep : Separated d s0 s :=
    h.inv (separated_init hd) fun _ _ _ hi hfit hs => hi.step hfit hs
  obtain ⟨hmax, hstolen, -, -⟩ := xenGfxGartInitialize_spec hd
  have hreg : s.gartPfns ≤ 2 ^ (d.w - 2) := by
    rw [hsep.gartPfns]
    rcases hw with hw | hw <;> rw [hw] <;> exact Nat.le_trans hmax (by decide)
  refine ⟨hsep.cursor, fun a t hfit hs => ?_⟩
  cases a with
  | reset =>
    cases hs
    exact reset_exact (by rw [hsep.stolenPfns, hsep.gartPfns]; exact hstolen) hreg hfit
  | page r => exact page_exact hsep hreg hfit hs

/-- An aperture of 4096 pages and one VCRTC; with a cursor its buffer has four pages. -/
def oneVCrtc (cursor : Bool) (stolenSize : Nat) : Device where
  w := 64
  gartSize := 1
  stolenSize := stolenSize
  stolenBase := 0x1000
  vcrtcs := [⟨cursor, 64, 64⟩]
  maxStrideAlignment := 0
  cursorsBuffer := some (0x2000 + ·)
  regs _ := 0

def initialized (stolenPfns : Nat) : Gart :=
  ⟨storeRegs 64 0 (fun _ => xgfxGartClearPfn) 4096 fun _ => 0, 4096, 4096, 0, stolenPfns, 0x1000, 0⟩

theorem initialize_oneVCrtc (cursor : Bool) {stolenSize : Nat} (h : stolenSize ≤ 2048) :
    xenGfxGartInitialize (oneVCrtc cursor stolenSize) = some (initialized stolenSize) := by
  have hu : u32 stolenSize = stolenSize := Nat.mod_eq_of_lt (by omega)
  have heq := xenGfxGartInitialize_eq (d := oneVCrtc cursor stolenSize) (p := 4096)
    (show u32 (u32 1 * pageSize) = 4096 by decide) (by decide) (Nat.le_trans (Nat.le_of_eq hu) h)
    (show u32 0x1000 ≠ 0xffffffff by decide)
  rw [heq, show u32 (oneVCrtc cursor stolenSize).stolenSize = stolenSize from hu]
  exact rfl

def mapAt (offset n : Nat) : Request := ⟨1, offset, n, .map false (0x9000 + ·)⟩

theorem pageAperture_mapAt {d : Device} {s : Gart} {offset n : Nat} (h : (mapAt offset n).Accepted d s)
    (hn : n < 4294967296) : pageAperture d s (mapAt offset n) =
      some { s with regs := storeRegs d.w offset (mapAt offset n).op.value n s.regs } := by
  rw [pageAperture, if_pos h]
  exact if_pos hn

/-- Four pages are mapped where there is no cursor. -/
theorem gart_separation_map : ∃ s, (started (oneVCrtc false 0) (initialized 0)).Reach
      (StepFits (oneVCrtc false 0)) s ∧ s.regs 16 = validPfn 0x9000 ∧
    (∀ j < s.cursonPfns, s.regs j = (started (oneVCrtc false 0) (initialized 0)).init.regs j) ∧
      ∀ a t, StepFits (oneVCrtc false 0) s a →
        (started (oneVCrtc false 0) (initialized 0)).step s a = some t →
        Exact (oneVCrtc false 0) s a t := by
  have hacc : (mapAt 16 4).Accepted (oneVCrtc false 0) (initialized 0) := by decide
  have hr : (started (oneVCrtc false 0) (initialized 0)).Reach (StepFits (oneVCrtc false 0)) _ :=
    .step (a := .page (mapAt 16 4)) .init (.inr (.inr ⟨rfl, by decide⟩))
      (pageAperture_mapAt hacc (by decide))
  refine ⟨_, hr, ?_, gart_separation (.inr rfl) (initialize_oneVCrtc false (Nat.zero_le _)) hr⟩
  exact storeRegs_apply _ _ (by decide) 16

/-- A request for the first page of the video segment sets the first entry of the cursor, and the reset
takes the number of the stolen pages for their base. -/
theorem gart_hits_cursor : xenGfxGartInitialize (oneVCrtc true 2) = some (initialized 2) ∧
    (∃ t, (started (oneVCrtc true 2) (initialized 2)).step
        (started (oneVCrtc true 2) (initialized 2)).init (.page (mapAt 0 1)) = some t ∧
      0 < t.cursonPfns ∧ t.regs 0 ≠ (started (oneVCrtc true 2) (initialized 2)).init.regs 0) ∧
    ¬ Exact (oneVCrtc true 2) (started (oneVCrtc true 2) (initialized 2)).init .reset
      (xenGfxGartReset (oneVCrtc true 2) (started (oneVCrtc true 2) (initialized 2)).init) := by
  have hacc : (mapAt 0 1).Accepted (oneVCrtc true 2)
      (started (oneVCrtc true 2) (initialized 2)).init := by decide
  refine ⟨initialize_oneVCrtc true (by decide), ⟨_, pageAperture_mapAt hacc (by decide), by decide,
    by decide⟩, fun h => ?_⟩
  have h0 := h 0
  simp only [xenGfxGartReset] at h0
  rw [storeRegs_apply _ _ (by decide)] at h0
  exact absurd h0 (by decide)

end XcWindows.Xengfx
