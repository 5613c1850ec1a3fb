import Mathlib.Data.List.Basic
import Mathlib.Tactic.Ring
import XcWindows.Lib.Copies
import XcWindows.Lib.Word

/-!
# Blits

`XenGfxBlt` and `XenGfxSubRectBlt` of `xengfx/wddm/miniport/ddi.c`, from the two maps on, as the calls of
`RtlCopyMemory` they make; one that fails to map makes none. The code picks the order of the rows once for
the whole blit and never the order of the sub-rectangles, and it copies a row in two pieces only when the
destination is to the right, without asking whether two are enough. On 64 bits the stride, an unsigned
number of 32 bits, does not become negative when the code goes up a row.

`Ordered` and `RowsFit` leave out what meets these.
-/

namespace XcWindows.Xengfx.Blt

open XcWindows.Lib

/-- `XENGFX_SURFACE_DESC` of an allocation that was created: nothing is zero, a row fits in the stride and
all of them in the `XENGFX_MAX_GART_PFNS` pages of the aperture. -/
structure SurfaceDesc where
  xResolution : Nat
  yResolution : Nat
  bytesPerPixel : Nat
  stride : Nat
  bytesPerPixel_pos : 0 < bytesPerPixel
  xResolution_pos : 0 < xResolution
  yResolution_pos : 0 < yResolution
  row_le : xResolution * bytesPerPixel ≤ stride
  size_le : yResolution * stride ≤ 0x40000 * 4096

structure Rect where
  left : Nat
  top : Nat
  right : Nat
  bottom : Nat

structure DmaSubrect where
  left : Nat
  top : Nat
  width : Nat
  height : Nat

/-- `XENGFX_DMA_PRESENT`, with the sub-rectangles that follow it. -/
structure DmaPresent where
  sourceAllocation : Nat
  destinationAllocation : Nat
  sourceRect : Rect
  destinationRect : Rect
  subRects : List DmaSubrect

/-- The allocations and the bits of a pointer. -/
structure Gpu where
  desc : Nat → SurfaceDesc
  w : Nat

/-- A location of an allocation. A pointer into its mapping is one whose offset may be outside. -/
abbrev Loc := Nat × Nat

/-- What the allocations hold. -/
abbrev Memory := Loc → UInt8

/-- `p + n` -/
def advance (g : Gpu) (p : Loc) (n : Nat) : Loc := (p.1, (p.2 + n) % 2 ^ g.w)

/-- The value of a `LONG`. -/
def long (n : Nat) : Int := if n < 2147483648 then n else (n : Int) - 4294967296

/-- A `LONG` as a `SIZE_T`. -/
def sizeT (g : Gpu) (z : Int) : Nat := (z % (2 ^ g.w : Nat)).toNat

/-- `RtlCopyMemory(Destination, Source, Length)` -/
structure RtlCopyMemory where
  destination : Loc
  source : Loc
  length : Nat

/-- `mapSize` of `XenGfxMapFB`. -/
def mapSize (d : SurfaceDesc) : Nat := u32 (d.yResolution * d.stride)

/-- The bytes are mapped and the two regions do not overlap. -/
def RtlCopyMemory.Valid (g : Gpu) (c : RtlCopyMemory) : Prop :=
  c.length = 0 ∨
    c.destination.2 + c.length ≤ mapSize (g.desc c.destination.1) ∧
    c.source.2 + c.length ≤ mapSize (g.desc c.source.1) ∧
    (c.destination.1 = c.source.1 →
      c.destination.2 + c.length ≤ c.source.2 ∨ c.source.2 + c.length ≤ c.destination.2)

instance (g : Gpu) (c : RtlCopyMemory) : Decidable (c.Valid g) := by
  unfold RtlCopyMemory.Valid
  infer_instance

def RtlCopyMemory.copy (c : RtlCopyMemory) : Copy Loc := fun x =>
  if x.1 = c.destination.1 ∧ c.destination.2 ≤ x.2 ∧ x.2 < c.destination.2 + c.length then
    some (c.source.1, c.source.2 + (x.2 - c.destination.2))
  else none

/-- What the calls leave; `none` where one has no defined effect. -/
def runCopies (g : Gpu) (cs : List RtlCopyMemory) (m : Memory) : Option Memory :=
  if ∀ c ∈ cs, c.Valid g then some (copyAll (cs.map RtlCopyMemory.copy) m) else none

def xenGfxStartRectAddress (g : Gpu) (a : Nat) (r : Rect) : Loc :=
  advance g (advance g (a, 0) (u32 (r.top * (g.desc a).stride))) (u32 (r.left * (g.desc a).bytesPerPixel))

/-- One turn of the loop of `XenGfxSubRectBlt`. -/
def copyRow (g : Gpu) (hOverlap : Bool) (width : Nat) (deltaX overlap : Int) (pDst pSrc : Loc) :
    List RtlCopyMemory :=
  if hOverlap then
    [⟨advance g pDst (sizeT g deltaX), pDst, sizeT g overlap⟩, ⟨pDst, pSrc, sizeT g deltaX⟩]
  else [⟨pDst, pSrc, width⟩]

/-- `for (i = 0; i < n; i++)` -/
def copyRows (g : Gpu) (row : Loc → Loc → List RtlCopyMemory) (stepDst stepSrc : Nat) :
    Nat → Loc → Loc → List RtlCopyMemory
  | 0, _, _ => []
  | n + 1, pDst, pSrc =>
    row pDst pSrc ++ copyRows g row stepDst stepSrc n (advance g pDst stepDst) (advance g pSrc stepSrc)

/-- `Stride * (vOverlap? -1 : 1)`, a `ULONG`. -/
def rowStep (vOverlap : Bool) (stride : Nat) : Nat := u32 (stride * if vOverlap then 4294967295 else 1)

def xenGfxSubRectBlt (g : Gpu) (p : DmaPresent) (pDst pSrc : Loc) (vOverlap hOverlap : Bool)
    (s : DmaSubrect) : List RtlCopyMemory :=
  let src := g.desc p.sourceAllocation
  let dst := g.desc p.destinationAllocation
  let width := u32 (s.width * src.bytesPerPixel)
  let top := if vOverlap then sub32 (s.top + s.height) 1 else s.top
  let left := s.left * if vOverlap then src.bytesPerPixel else dst.bytesPerPixel
  let pSrc := advance g pSrc (u32 (top * src.stride + s.left * src.bytesPerPixel))
  let pDst := advance g pDst (u32 (top * dst.stride + left))
  let deltaX := u32 (sub32 p.destinationRect.left p.sourceRect.left * dst.bytesPerPixel)
  let overlap := long (sub32 width deltaX)
  copyRows g (copyRow g (hOverlap && decide (0 ≤ overlap)) width (long deltaX) overlap)
    (rowStep vOverlap dst.stride) (rowStep vOverlap src.stride) s.height pDst pSrc

def vOverlap (p : DmaPresent) : Bool :=
  decide (p.destinationAllocation = p.sourceAllocation ∧ p.sourceRect.top < p.destinationRect.top)

def hOverlap (p : DmaPresent) : Bool :=
  decide (p.destinationAllocation = p.sourceAllocation ∧ p.sourceRect.top = p.destinationRect.top ∧
    p.sourceRect.left < p.destinationRect.left ∧
    long (u32 (p.sourceRect.left + p.sourceRect.right)) > p.destinationRect.left)

def xenGfxBlt (g : Gpu) (p : DmaPresent) : List RtlCopyMemory :=
  p.subRects.flatMap (xenGfxSubRectBlt g p
    (xenGfxStartRectAddress g p.destinationAllocation p.destinationRect)
    (xenGfxStartRectAddress g p.sourceAllocation p.sourceRect) (vOverlap p) (hOverlap p))

/-- Byte `k` of the pixel at `x`, `y`. -/
def pixelByte (d : SurfaceDesc) (x y k : Nat) : Nat := y * d.stride + x * d.bytesPerPixel + k

/-- The sub-rectangle has a pixel with a byte to be copied to the first location from the second. -/
def Moves (g : Gpu) (p : DmaPresent) (s : DmaSubrect) (a b : Loc) : Prop :=
  ∃ x < s.width, ∃ y < s.height, ∃ k < (g.desc p.sourceAllocation).bytesPerPixel,
    a = (p.destinationAllocation, pixelByte (g.desc p.destinationAllocation)
      (p.destinationRect.left + s.left + x) (p.destinationRect.top + s.top + y) k) ∧
    b = (p.sourceAllocation, pixelByte (g.desc p.sourceAllocation)
      (p.sourceRect.left + s.left + x) (p.sourceRect.top + s.top + y) k)

/-- The blit is defined, brings every pixel of the destination sub-rectangles from where it was, and
changes no other. -/
def Exact (g : Gpu) (p : DmaPresent) (m : Memory) : Prop :=
  ∃ m', runCopies g (xenGfxBlt g p) m = some m' ∧
    (∀ s ∈ p.subRects, ∀ a b, Moves g p s a b → m' a = m b) ∧
    ∀ a, (∀ s ∈ p.subRects, ∀ b, ¬Moves g p s a b) → m' a = m a

/-- Some point is in both `[a, a + n)` and `[b, b + m)`. -/
def Meet (a n b m : Nat) : Prop := max a b < min (a + n) (b + m)

/-- Two sub-rectangles share a pixel. -/
def DmaSubrect.Meets (s t : DmaSubrect) : Prop :=
  Meet s.left s.width t.left t.width ∧ Meet s.top s.height t.top t.height

structure Rect.Within (r : Rect) (d : SurfaceDesc) : Prop where
  left_le : r.left ≤ r.right
  top_le : r.top ≤ r.bottom
  right_le : r.right ≤ d.xResolution
  bottom_le : r.bottom ≤ d.yResolution

/-- Two rectangles of one size inside their surfaces, and disjoint sub-rectangles of it. -/
structure WellFormed (g : Gpu) (p : DmaPresent) : Prop where
  bits : g.w = 32 ∨ g.w = 64
  bytesPerPixel : (g.desc p.sourceAllocation).bytesPerPixel = (g.desc p.destinationAllocation).bytesPerPixel
  source : p.sourceRect.Within (g.desc p.sourceAllocation)
  destination : p.destinationRect.Within (g.desc p.destinationAllocation)
  width : p.sourceRect.right - p.sourceRect.left = p.destinationRect.right - p.destinationRect.left
  height : p.sourceRect.bottom - p.sourceRect.top = p.destinationRect.bottom - p.destinationRect.top
  inside : ∀ s ∈ p.subRects, s.left + s.width ≤ p.sourceRect.right - p.sourceRect.left ∧
    s.top + s.height ≤ p.sourceRect.bottom - p.sourceRect.top
  disjoint : p.subRects.Pairwise fun s t => ¬s.Meets t

/-- The destination of the first sub-rectangle meets the source of the second. -/
def Overwrites (p : DmaPresent) (s t : DmaSubrect) : Prop :=
  Meet (p.destinationRect.left + s.left) s.width (p.sourceRect.left + t.left) t.width ∧
    Meet (p.destinationRect.top + s.top) s.height (p.sourceRect.top + t.top) t.height

/-- No sub-rectangle overwrites the source of a later one. -/
def Ordered (p : DmaPresent) : Prop :=
  p.destinationAllocation = p.sourceAllocation → p.subRects.Pairwise fun s t => ¬Overwrites p s t

/-- Where source and destination are one surface: a row that moves to the right is at most twice as long
as the way it goes, one that moves to the left or nowhere at most as long, and on 64 bits no sub-rectangle
of more than one row moves down. -/
def RowsFit (g : Gpu) (p : DmaPresent) (s : DmaSubrect) : Prop :=
  p.destinationAllocation = p.sourceAllocation → 0 < s.width → 0 < s.height →
    (p.sourceRect.top < p.destinationRect.top → g.w = 64 → s.height = 1) ∧
    (p.sourceRect.top = p.destinationRect.top →
      s.width ≤ 2 * (p.destinationRect.left - p.sourceRect.left) + (p.sourceRect.left - p.destinationRect.left))

/-! ## What calls carry -/

section Carries

variable {g : Gpu}

/-- The calls have an effect, bring to each location the contents of the one in relation with it, and none
reads what an earlier one wrote. -/
structure Carries (g : Gpu) (cs : List RtlCopyMemory) (R : Loc → Loc → Prop) : Prop where
  valid : ∀ c ∈ cs, c.Valid g
  moves : ∀ x y, (∃ c ∈ cs, c.copy x = some y) ↔ R x y
  spares : cs.Pairwise fun c d => c.copy.Spares d.copy
  apart : cs.Pairwise fun c d => c.copy.Apart d.copy

theorem copy_eq_some {c : RtlCopyMemory} {x y : Loc} :
    c.copy x = some y ↔ ∃ u < c.length, x = (c.destination.1, c.destination.2 + u) ∧
      y = (c.source.1, c.source.2 + u) := by
  obtain ⟨i, o⟩ := x
  simp only [RtlCopyMemory.copy]
  constructor
  · intro h
    split at h
    · next hx =>
      obtain ⟨rfl, hle, hlt⟩ := hx
      refine ⟨o - c.destination.2, by omega, ?_, (Option.some.inj h).symm⟩
      rw [Nat.add_sub_cancel' hle]
    · cases h
  · rintro ⟨u, hu, hx, rfl⟩
    obtain ⟨rfl, rfl⟩ := Prod.mk.inj hx
    rw [if_pos ⟨rfl, by omega, by omega⟩, Nat.add_sub_cancel_left]

theorem Carries.congr {cs : List RtlCopyMemory} {R R' : Loc → Loc → Prop} (h : Carries g cs R)
    (hR : ∀ x y, R x y ↔ R' x y) : Carries g cs R' :=
  ⟨h.valid, fun x y => (h.moves x y).trans (hR x y), h.spares, h.apart⟩

theorem carries_nil : Carries g [] fun _ _ => False :=
  ⟨by simp, by simp, List.Pairwise.nil, List.Pairwise.nil⟩

theorem carries_of_length_zero {cs : List RtlCopyMemory} (h : ∀ c ∈ cs, c.length = 0) :
    Carries g cs fun _ _ => False := by
  have hnone : ∀ c ∈ cs, ∀ x, c.copy x = none := by
    intro c hc x
    rw [Option.eq_none_iff_forall_ne_some]
    intro y hy
    obtain ⟨u, hu, -⟩ := copy_eq_some.mp hy
    rw [h c hc] at hu
    cases hu
  refine ⟨fun c hc => Or.inl (h c hc), ?_, ?_, ?_⟩
  · intro x y
    refine ⟨?_, False.elim⟩
    rintro ⟨c, hc, hy⟩
    simp [hnone c hc] at hy
  · exact List.pairwise_of_forall_mem_list fun c hc d _ x y _ => hnone c hc y
  · exact List.pairwise_of_forall_mem_list fun c hc d _ x => Or.inl (hnone c hc x)

/-- The bytes from `b` on go to those from `a` on. -/
def Shift (a b : Loc) (n : Nat) (x y : Loc) : Prop := ∃ u < n, x = (a.1, a.2 + u) ∧ y = (b.1, b.2 + u)

theorem carries_one {a b : Loc} {n : Nat} (h : RtlCopyMemory.Valid g ⟨a, b, n⟩) :
    Carries g [⟨a, b, n⟩] (Shift a b n) := by
  refine ⟨by simpa using h, ?_, List.pairwise_singleton .., List.pairwise_singleton ..⟩
  intro x y
  simp [copy_eq_some, Shift]

theorem carries_two {a : Loc} {o d n : Nat} (ha : a.2 = o + d) (hd : d ≤ n) (hn : n ≤ 2 * d)
    (hfit : a.2 + n ≤ mapSize (g.desc a.1)) :
    Carries g [⟨(a.1, a.2 + d), a, n - d⟩, ⟨a, (a.1, o), d⟩] (Shift a (a.1, o) n) := by
  refine ⟨?_, ?_, ?_, ?_⟩
  · simp only [List.mem_cons, List.not_mem_nil, or_false, forall_eq_or_imp, forall_eq]
    refine ⟨Or.inr ⟨?_, ?_, fun _ => Or.inr ?_⟩, Or.inr ⟨?_, ?_, fun _ => Or.inr ?_⟩⟩
    all_goals simp only
    all_goals omega
  · intro x y
    simp only [List.mem_cons, List.not_mem_nil, or_false, exists_eq_or_imp, exists_eq_left, copy_eq_some,
      Shift]
    constructor
    · rintro (⟨u, hu, rfl, rfl⟩ | ⟨u, hu, rfl, rfl⟩)
      · refine ⟨d + u, by omega, by rw [Nat.add_assoc], ?_⟩
        rw [ha, Nat.add_assoc]
      · exact ⟨u, by omega, rfl, rfl⟩
    · rintro ⟨u, hu, rfl, rfl⟩
      by_cases hud : u < d
      · exact Or.inr ⟨u, hud, rfl, rfl⟩
      · refine Or.inl ⟨u - d, by omega, ?_, ?_⟩
        · rw [Nat.add_assoc, Nat.add_sub_cancel' (by omega)]
        · rw [ha, Nat.add_assoc, Nat.add_sub_cancel' (by omega)]
  all_goals refine List.pairwise_pair.mpr ?_
  · intro x y hy
    obtain ⟨u, hu, -, rfl⟩ := copy_eq_some.mp hy
    rw [Option.eq_none_iff_forall_ne_some]
    intro z hz
    obtain ⟨v, hv, he, -⟩ := copy_eq_some.mp hz
    have := congrArg Prod.snd he
    simp only at hu hv this
    omega
  · intro x
    rw [or_iff_not_imp_left]
    intro hx
    obtain ⟨y, hy⟩ := Option.ne_none_iff_exists'.mp hx
    obtain ⟨u, hu, rfl, -⟩ := copy_eq_some.mp hy
    rw [Option.eq_none_iff_forall_ne_some]
    intro z hz
    obtain ⟨v, hv, he, -⟩ := copy_eq_some.mp hz
    have := congrArg Prod.snd he
    simp only at hu hv this
    omega

theorem Carries.spares_iff {cs ds : List RtlCopyMemory} {R S : Loc → Loc → Prop} (hc : Carries g cs R)
    (hd : Carries g ds S) : (∀ c ∈ cs, ∀ d ∈ ds, c.copy.Spares d.copy) ↔ ∀ x y z, S x y → ¬R y z := by
  constructor
  · intro h x y z hxy hyz
    obtain ⟨d, hdm, hdx⟩ := (hd.moves x y).mpr hxy
    obtain ⟨c, hcm, hcy⟩ := (hc.moves y z).mpr hyz
    rw [h c hcm d hdm x y hdx] at hcy
    cases hcy
  · intro h c hcm d hdm x y hdx
    rw [Option.eq_none_iff_forall_ne_some]
    intro z hz
    exact h x y z ((hd.moves x y).mp ⟨d, hdm, hdx⟩) ((hc.moves y z).mp ⟨c, hcm, hz⟩)

theorem Carries.apart_of {cs ds : List RtlCopyMemory} {R S : Loc → Loc → Prop} (hc : Carries g cs R)
    (hd : Carries g ds S) (h : ∀ x y z, R x y → ¬S x z) :
    ∀ c ∈ cs, ∀ d ∈ ds, c.copy.Apart d.copy := by
  intro c hcm d hdm x
  rw [or_iff_not_imp_left]
  intro hx
  obtain ⟨y, hy⟩ := Option.ne_none_iff_exists'.mp hx
  rw [Option.eq_none_iff_forall_ne_some]
  intro z hz
  exact h x y z ((hc.moves x y).mp ⟨c, hcm, hy⟩) ((hd.moves x z).mp ⟨d, hdm, hz⟩)

variable {ι : Type} {l : List ι} {f : ι → List RtlCopyMemory} {R : ι → Loc → Loc → Prop}

theorem apart_flatMap (h : ∀ i ∈ l, Carries g (f i) (R i))
    (ha : l.Pairwise fun i j => ∀ x y z, R i x y → ¬R j x z) :
    (l.flatMap f).Pairwise fun c d => c.copy.Apart d.copy := by
  refine List.pairwise_flatMap.mpr ⟨fun i hi => (h i hi).apart, ?_⟩
  exact ha.imp_of_mem fun hi hj hij => (h _ hi).apart_of (h _ hj) hij

theorem spares_flatMap (h : ∀ i ∈ l, Carries g (f i) (R i)) :
    ((l.flatMap f).Pairwise fun c d => c.copy.Spares d.copy) ↔
      l.Pairwise fun i j => ∀ x y z, R j x y → ¬R i y z := by
  rw [List.pairwise_flatMap]
  constructor
  · rintro ⟨-, hp⟩
    exact hp.imp_of_mem fun hi hj hij => ((h _ hi).spares_iff (h _ hj)).mp hij
  · intro hp
    refine ⟨fun i hi => (h i hi).spares, ?_⟩
    exact hp.imp_of_mem fun hi hj hij => ((h _ hi).spares_iff (h _ hj)).mpr hij

theorem carries_flatMap (h : ∀ i ∈ l, Carries g (f i) (R i))
    (hs : l.Pairwise fun i j => ∀ x y z, R j x y → ¬R i y z)
    (ha : l.Pairwise fun i j => ∀ x y z, R i x y → ¬R j x z) :
    Carries g (l.flatMap f) fun x y => ∃ i ∈ l, R i x y := by
  refine ⟨?_, ?_, (spares_flatMap h).mpr hs, apart_flatMap h ha⟩
  · intro c hc
    obtain ⟨i, hi, hci⟩ := List.mem_flatMap.mp hc
    exact (h i hi).valid c hci
  · intro x y
    simp only [List.mem_flatMap]
    constructor
    · rintro ⟨c, ⟨i, hi, hci⟩, hx⟩
      exact ⟨i, hi, ((h i hi).moves x y).mp ⟨c, hci, hx⟩⟩
    · rintro ⟨i, hi, hR⟩
      obtain ⟨c, hci, hx⟩ := ((h i hi).moves x y).mpr hR
      exact ⟨c, ⟨i, hi, hci⟩, hx⟩

end Carries

/-! ## Where the rows are -/

section Rows

variable {g : Gpu} {d : SurfaceDesc}

/-- Column `x` of row `y`. -/
def SurfaceDesc.at (d : SurfaceDesc) (x y : Nat) : Nat := y * d.stride + x * d.bytesPerPixel

theorem SurfaceDesc.stride_le (d : SurfaceDesc) : d.stride ≤ d.yResolution * d.stride :=
  Nat.le_mul_of_pos_left _ d.yResolution_pos

theorem SurfaceDesc.stride_pos (d : SurfaceDesc) : 0 < d.stride :=
  Nat.lt_of_lt_of_le (Nat.mul_pos d.xResolution_pos d.bytesPerPixel_pos) d.row_le

theorem SurfaceDesc.col_le {x : Nat} (hx : x ≤ d.xResolution) : x * d.bytesPerPixel ≤ d.stride :=
  le_trans (Nat.mul_le_mul_right _ hx) d.row_le

theorem SurfaceDesc.row_add_le {y : Nat} (hy : y < d.yResolution) :
    y * d.stride + d.stride ≤ d.yResolution * d.stride := by
  rw [← Nat.succ_mul]
  exact Nat.mul_le_mul_right _ hy

theorem SurfaceDesc.at_le {x y : Nat} (hx : x ≤ d.xResolution) (hy : y < d.yResolution) :
    d.at x y ≤ d.yResolution * d.stride := by
  have := d.col_le hx
  have := d.row_add_le hy
  simp only [SurfaceDesc.at]
  omega

theorem SurfaceDesc.at_add (d : SurfaceDesc) (x y x' y' : Nat) :
    d.at x y + d.at x' y' = d.at (x + x') (y + y') := by
  simp only [SurfaceDesc.at]
  ring

theorem mapSize_eq (d : SurfaceDesc) : mapSize d = d.yResolution * d.stride := by
  have := d.size_le
  exact Nat.mod_eq_of_lt (by omega)

theorem advance_eq (hw : g.w = 32 ∨ g.w = 64) {p : Loc} {n : Nat} (h : p.2 + n < 4294967296) :
    advance g p n = (p.1, p.2 + n) := by
  have hle : 4294967296 ≤ 2 ^ g.w := by
    rcases hw with hw | hw
    all_goals rw [hw]
    all_goals decide
  rw [advance, Nat.mod_eq_of_lt (by omega)]

theorem xenGfxStartRectAddress_eq (hw : g.w = 32 ∨ g.w = 64) {a : Nat} {r : Rect}
    (hx : r.left ≤ (g.desc a).xResolution) (hy : r.top ≤ (g.desc a).yResolution) :
    xenGfxStartRectAddress g a r = (a, (g.desc a).at r.left r.top) := by
  have hcol := (g.desc a).col_le hx
  have hrow := Nat.mul_le_mul_right (g.desc a).stride hy
  have hsize := (g.desc a).size_le
  have hstride := (g.desc a).stride_le
  have htop : advance g (a, 0) (r.top * (g.desc a).stride) = (a, 0 + r.top * (g.desc a).stride) :=
    advance_eq hw (by simp only; omega)
  rw [xenGfxStartRectAddress, u32, u32, Nat.mod_eq_of_lt (by omega), Nat.mod_eq_of_lt (by omega), htop,
    Nat.zero_add]
  exact advance_eq hw (by simp only; omega)

/-- Row `r` of the loop, from the top or from the bottom. -/
def rowIndex (vOverlap : Bool) (height r : Nat) : Nat := if vOverlap then height - 1 - r else r

theorem rowIndex_lt {v : Bool} {n r : Nat} (h : r < n) : rowIndex v n r < n := by
  unfold rowIndex
  split
  all_goals omega

theorem advance_rowStep (hw : g.w = 32 ∨ g.w = 64) {v : Bool} {a x y n r : Nat}
    (hv : v = true → g.w = 32) (hx : x ≤ (g.desc a).xResolution) (hy : y + n ≤ (g.desc a).yResolution)
    (hr : r + 1 < n) :
    advance g (a, (g.desc a).at x (y + rowIndex v n r)) (rowStep v (g.desc a).stride) =
      (a, (g.desc a).at x (y + rowIndex v n (r + 1))) := by
  have hsize := (g.desc a).size_le
  have hstride := (g.desc a).stride_le
  have hpos := (g.desc a).stride_pos
  have hrow := rowIndex_lt (v := v) (show r < n by omega)
  have hrow' := rowIndex_lt (v := v) hr
  have hat := (g.desc a).at_le hx (show y + rowIndex v n r < _ by omega)
  have hat' := (g.desc a).at_le hx (show y + rowIndex v n (r + 1) < _ by omega)
  cases v with
  | false =>
    have hnext : (g.desc a).at x (y + rowIndex false n (r + 1)) =
        (g.desc a).at x (y + rowIndex false n r) + (g.desc a).stride := by
      simp only [SurfaceDesc.at, rowIndex, Bool.false_eq_true, if_false]
      ring
    rw [rowStep, u32, if_neg Bool.false_ne_true, Nat.mul_one, Nat.mod_eq_of_lt (by omega), advance_eq hw, hnext]
    simp only
    omega
  | true =>
    have hprev : (g.desc a).at x (y + rowIndex true n r) =
        (g.desc a).at x (y + rowIndex true n (r + 1)) + (g.desc a).stride := by
      simp only [SurfaceDesc.at, rowIndex, if_true]
      rw [show y + (n - 1 - r) = y + (n - 1 - (r + 1)) + 1 by omega]
      ring
    rw [rowStep, u32, if_pos rfl, advance, hv rfl]
    refine Prod.ext rfl ?_
    simp only
    omega

variable {row : Loc → Loc → List RtlCopyMemory} {sd ss : Nat}

theorem copyRows_succ (n : Nat) (p q : Loc) : copyRows g row sd ss (n + 1) p q =
    row p q ++ copyRows g row sd ss n (advance g p sd) (advance g q ss) := rfl

theorem copyRows_eq {n : Nat} {P Q : Nat → Loc} (hP : ∀ r, r + 1 < n → advance g (P r) sd = P (r + 1))
    (hQ : ∀ r, r + 1 < n → advance g (Q r) ss = Q (r + 1)) :
    copyRows g row sd ss n (P 0) (Q 0) = (List.range n).flatMap fun r => row (P r) (Q r) := by
  induction n generalizing P Q with
  | zero => rfl
  | succ n ih =>
    rw [copyRows_succ, List.range_succ_eq_map, List.flatMap_cons, List.flatMap_map]
    congr 1
    cases n with
    | zero => rfl
    | succ n =>
      rw [hP 0 (by omega), hQ 0 (by omega)]
      exact ih (P := fun r => P (r + 1)) (Q := fun r => Q (r + 1)) (fun r hr => hP (r + 1) (by omega))
        fun r hr => hQ (r + 1) (by omega)

theorem copyRows_length_zero (h : ∀ p q, ∀ c ∈ row p q, c.length = 0) (n : Nat) (p q : Loc) :
    ∀ c ∈ copyRows g row sd ss n p q, c.length = 0 := by
  induction n generalizing p q with
  | zero => simp [copyRows]
  | succ n ih =>
    intro c hc
    rcases List.mem_append.mp hc with hc | hc
    · exact h p q c hc
    · exact ih _ _ c hc

end Rows

/-! ## One sub-rectangle -/

section SubRect

variable {g : Gpu} {p : DmaPresent} {s : DmaSubrect}

/-- Where row `r` of the loop goes, and where it comes from. -/
def rowDst (g : Gpu) (p : DmaPresent) (s : DmaSubrect) (r : Nat) : Loc :=
  (p.destinationAllocation, (g.desc p.destinationAllocation).at (p.destinationRect.left + s.left)
    (p.destinationRect.top + s.top + rowIndex (vOverlap p) s.height r))

def rowSrc (g : Gpu) (p : DmaPresent) (s : DmaSubrect) (r : Nat) : Loc :=
  (p.sourceAllocation, (g.desc p.sourceAllocation).at (p.sourceRect.left + s.left)
    (p.sourceRect.top + s.top + rowIndex (vOverlap p) s.height r))

/-- `width`, `deltaX` and `overlap`. -/
def widthBytes (g : Gpu) (p : DmaPresent) (s : DmaSubrect) : Nat :=
  s.width * (g.desc p.sourceAllocation).bytesPerPixel

def deltaX (g : Gpu) (p : DmaPresent) : Nat :=
  u32 (sub32 p.destinationRect.left p.sourceRect.left * (g.desc p.destinationAllocation).bytesPerPixel)

def overlap (g : Gpu) (p : DmaPresent) (s : DmaSubrect) : Int :=
  long (sub32 (widthBytes g p s) (deltaX g p))

/-- The sub-rectangle is inside both surfaces. -/
structure Inside (g : Gpu) (p : DmaPresent) (s : DmaSubrect) : Prop where
  srcRight : p.sourceRect.left + s.left + s.width ≤ (g.desc p.sourceAllocation).xResolution
  srcBottom : p.sourceRect.top + s.top + s.height ≤ (g.desc p.sourceAllocation).yResolution
  dstRight : p.destinationRect.left + s.left + s.width ≤ (g.desc p.destinationAllocation).xResolution
  dstBottom : p.destinationRect.top + s.top + s.height ≤ (g.desc p.destinationAllocation).yResolution

theorem WellFormed.insideOf (hw : WellFormed g p) (hs : s ∈ p.subRects) : Inside g p s := by
  obtain ⟨hx, hy⟩ := hw.inside s hs
  have := hw.source
  have := hw.destination
  have := hw.width
  have := hw.height
  have := hw.source.left_le
  have := hw.source.top_le
  have := hw.source.right_le
  have := hw.source.bottom_le
  have := hw.destination.left_le
  have := hw.destination.top_le
  have := hw.destination.right_le
  have := hw.destination.bottom_le
  constructor
  all_goals omega

/-- A pointer to a rectangle's corner is taken to the first row of a sub-rectangle. -/
theorem advance_start (hw : g.w = 32 ∨ g.w = 64) {a x y left top width height t : Nat}
    (hx : x + left + width ≤ (g.desc a).xResolution) (hy : y + top + height ≤ (g.desc a).yResolution)
    (ht : t < height) :
    advance g (a, (g.desc a).at x y)
      (u32 ((top + t) * (g.desc a).stride + left * (g.desc a).bytesPerPixel)) =
      (a, (g.desc a).at (x + left) (y + top + t)) := by
  have hsize := (g.desc a).size_le
  have hle := (g.desc a).at_le (show x + left ≤ _ by omega) (show y + top + t < _ by omega)
  have hadd := (g.desc a).at_add x y left (top + t)
  rw [← Nat.add_assoc] at hadd
  change advance g _ (u32 ((g.desc a).at left (top + t))) = _
  rw [u32, Nat.mod_eq_of_lt (by omega), advance_eq hw (by simp only; omega), hadd]

theorem xenGfxSubRectBlt_eq (hw : WellFormed g p) (hs : s ∈ p.subRects) (hh : 0 < s.height) :
    xenGfxSubRectBlt g p (xenGfxStartRectAddress g p.destinationAllocation p.destinationRect)
        (xenGfxStartRectAddress g p.sourceAllocation p.sourceRect) (vOverlap p) (hOverlap p) s =
      copyRows g (copyRow g (hOverlap p && decide (0 ≤ overlap g p s)) (widthBytes g p s)
          (long (deltaX g p)) (overlap g p s))
        (rowStep (vOverlap p) (g.desc p.destinationAllocation).stride)
        (rowStep (vOverlap p) (g.desc p.sourceAllocation).stride) s.height
        (rowDst g p s 0) (rowSrc g p s 0) := by
  have hin := hw.insideOf hs
  have hsrc := hin.srcRight
  have hdst := hin.dstRight
  have hsb := hin.srcBottom
  have hdb := hin.dstBottom
  have hwidth : u32 (s.width * (g.desc p.sourceAllocation).bytesPerPixel) = widthBytes g p s := by
    have := (g.desc p.sourceAllocation).col_le (show s.width ≤ _ by omega)
    have := (g.desc p.sourceAllocation).stride_le
    have := (g.desc p.sourceAllocation).size_le
    exact Nat.mod_eq_of_lt (by omega)
  have htop : (if vOverlap p = true then sub32 (s.top + s.height) 1 else s.top) =
      s.top + rowIndex (vOverlap p) s.height 0 := by
    have hrows : (g.desc p.sourceAllocation).yResolution ≤
        (g.desc p.sourceAllocation).yResolution * (g.desc p.sourceAllocation).stride :=
      Nat.le_mul_of_pos_right _ (g.desc p.sourceAllocation).stride_pos
    have := (g.desc p.sourceAllocation).size_le
    unfold rowIndex
    split
    · simp only [sub32]
      omega
    · rfl
  have hleft : (s.left * if vOverlap p = true then (g.desc p.sourceAllocation).bytesPerPixel
      else (g.desc p.destinationAllocation).bytesPerPixel) =
      s.left * (g.desc p.destinationAllocation).bytesPerPixel := by
    rw [hw.bytesPerPixel, ite_self]
  have ht : rowIndex (vOverlap p) s.height 0 < s.height := rowIndex_lt hh
  rw [xenGfxSubRectBlt, hwidth, htop, hleft,
    xenGfxStartRectAddress_eq hw.bits (by omega) (by omega),
    xenGfxStartRectAddress_eq hw.bits (by omega) (by omega),
    advance_start hw.bits hin.srcRight hin.srcBottom ht, advance_start hw.bits hin.dstRight hin.dstBottom ht]
  rfl

theorem vOverlap_iff : vOverlap p = true ↔
    p.destinationAllocation = p.sourceAllocation ∧ p.sourceRect.top < p.destinationRect.top := by
  simp [vOverlap]

/-- The sum of the test does not wrap: a coordinate is at most the pages of the aperture in bytes. -/
theorem hOverlap_iff (hw : WellFormed g p) (hlt : p.sourceRect.left < p.sourceRect.right) :
    hOverlap p = true ↔
    p.destinationAllocation = p.sourceAllocation ∧ p.sourceRect.top = p.destinationRect.top ∧
      p.sourceRect.left < p.destinationRect.left ∧
      p.destinationRect.left < p.sourceRect.left + p.sourceRect.right := by
  have hright := hw.source.right_le
  have hcols : (g.desc p.sourceAllocation).xResolution ≤
      (g.desc p.sourceAllocation).xResolution * (g.desc p.sourceAllocation).bytesPerPixel :=
    Nat.le_mul_of_pos_right _ (g.desc p.sourceAllocation).bytesPerPixel_pos
  have hrow := (g.desc p.sourceAllocation).row_le
  have hstride := (g.desc p.sourceAllocation).stride_le
  have hsize := (g.desc p.sourceAllocation).size_le
  have hsum : long (u32 (p.sourceRect.left + p.sourceRect.right)) =
      ((p.sourceRect.left + p.sourceRect.right : Nat) : Int) := by
    rw [u32, Nat.mod_eq_of_lt (by omega), long, if_pos (by omega)]
  simp only [hOverlap, decide_eq_true_eq, hsum]
  omega

theorem WellFormed.left_lt (hw : WellFormed g p) (hs : s ∈ p.subRects) (hwidth : 0 < s.width) :
    p.sourceRect.left < p.sourceRect.right := by
  have := hw.inside s hs
  omega

theorem widthBytes_le (hw : WellFormed g p) (hs : s ∈ p.subRects) : widthBytes g p s ≤ 1073741824 := by
  have := (hw.insideOf hs).srcRight
  have := (g.desc p.sourceAllocation).col_le (show s.width ≤ _ by omega)
  have := (g.desc p.sourceAllocation).stride_le
  have := (g.desc p.sourceAllocation).size_le
  simp only [widthBytes]
  omega

theorem deltaX_eq (hw : WellFormed g p) (hlt : p.sourceRect.left < p.destinationRect.left) :
    deltaX g p = (p.destinationRect.left - p.sourceRect.left) * (g.desc p.sourceAllocation).bytesPerPixel ∧
      deltaX g p ≤ 1073741824 := by
  have hright := hw.destination.right_le
  have hleft := hw.destination.left_le
  have hcol := (g.desc p.destinationAllocation).col_le
    (show p.destinationRect.left - p.sourceRect.left ≤ _ by omega)
  have hcols : (g.desc p.destinationAllocation).xResolution ≤
      (g.desc p.destinationAllocation).xResolution * (g.desc p.destinationAllocation).bytesPerPixel :=
    Nat.le_mul_of_pos_right _ (g.desc p.destinationAllocation).bytesPerPixel_pos
  have hrow := (g.desc p.destinationAllocation).row_le
  have hstride := (g.desc p.destinationAllocation).stride_le
  have hsize := (g.desc p.destinationAllocation).size_le
  have hsub : sub32 p.destinationRect.left p.sourceRect.left =
      p.destinationRect.left - p.sourceRect.left := by
    simp only [sub32]
    omega
  have heq : deltaX g p =
      (p.destinationRect.left - p.sourceRect.left) * (g.desc p.destinationAllocation).bytesPerPixel := by
    rw [deltaX, hsub, u32, Nat.mod_eq_of_lt (by omega)]
  rw [heq, ← hw.bytesPerPixel]
  rw [← hw.bytesPerPixel] at hcol
  exact ⟨rfl, by omega⟩

theorem long_of_le {n : Nat} (h : n ≤ 1073741824) : long n = n := by
  rw [long, if_pos (by omega)]

theorem overlap_eq (hw : WellFormed g p) (hs : s ∈ p.subRects)
    (hlt : p.sourceRect.left < p.destinationRect.left) :
    overlap g p s = (widthBytes g p s : Int) - deltaX g p := by
  have := widthBytes_le hw hs
  have := (deltaX_eq hw hlt).2
  simp only [overlap, long, sub32]
  omega

theorem sizeT_cast (hw : g.w = 32 ∨ g.w = 64) {n : Nat} (h : n ≤ 1073741824) : sizeT g n = n := by
  have hle : 4294967296 ≤ 2 ^ g.w := by
    rcases hw with hw | hw
    all_goals rw [hw]
    all_goals decide
  rw [sizeT, Int.emod_eq_of_lt (by omega) (by omega), Int.toNat_natCast]

/-- What one turn of the loop does. -/
theorem copyRow_eq (hw : WellFormed g p) (hs : s ∈ p.subRects) (a b : Loc) :
    copyRow g (hOverlap p && decide (0 ≤ overlap g p s)) (widthBytes g p s) (long (deltaX g p))
        (overlap g p s) a b =
      if hOverlap p = true ∧ deltaX g p ≤ widthBytes g p s then
        [⟨advance g a (deltaX g p), a, widthBytes g p s - deltaX g p⟩, ⟨a, b, deltaX g p⟩]
      else [⟨a, b, widthBytes g p s⟩] := by
  cases hh : hOverlap p with
  | false => simp [copyRow]
  | true =>
    have hlt : p.sourceRect.left < p.destinationRect.left := by
      simp only [hOverlap, decide_eq_true_eq] at hh
      exact hh.2.2.1
    have hwb := widthBytes_le hw hs
    have hdx := (deltaX_eq hw hlt).2
    have hov := overlap_eq hw hs hlt
    by_cases hle : deltaX g p ≤ widthBytes g p s
    · have hcast : overlap g p s = ((widthBytes g p s - deltaX g p : Nat) : Int) := by omega
      have hnonneg : decide (0 ≤ overlap g p s) = true := decide_eq_true (by omega)
      rw [copyRow, hnonneg, Bool.and_true, if_pos rfl, if_pos ⟨rfl, hle⟩, hcast, long_of_le hdx, sizeT_cast hw.bits hdx,
        sizeT_cast hw.bits (by omega)]
    · have hneg : decide (0 ≤ overlap g p s) = false := decide_eq_false (by omega)
      rw [copyRow, hneg, Bool.and_false, if_neg Bool.false_ne_true, if_neg fun h => hle h.2]

theorem SurfaceDesc.at_width (d : SurfaceDesc) (x y w : Nat) :
    d.at x y + w * d.bytesPerPixel = d.at (x + w) y := by
  simp only [SurfaceDesc.at]
  ring

/-- A row ends before any further one starts. -/
theorem SurfaceDesc.at_le_of_lt {d : SurfaceDesc} {x y y' : Nat} (x' : Nat) (hx : x ≤ d.xResolution)
    (hy : y < y') : d.at x y ≤ d.at x' y' := by
  have hcol := d.col_le hx
  have hrow := Nat.mul_le_mul_right d.stride (Nat.succ_le_of_lt hy)
  rw [Nat.succ_mul] at hrow
  simp only [SurfaceDesc.at]
  omega

theorem SurfaceDesc.at_le_at {d : SurfaceDesc} {x x' : Nat} (y : Nat) (h : x ≤ x') : d.at x y ≤ d.at x' y :=
  Nat.add_le_add_left (Nat.mul_le_mul_right _ h) _

theorem rowDst_fits (hw : WellFormed g p) (hs : s ∈ p.subRects) {r : Nat} (hr : r < s.height) :
    (rowDst g p s r).2 + widthBytes g p s ≤ mapSize (g.desc p.destinationAllocation) := by
  have hin := hw.insideOf hs
  have hdb := hin.dstBottom
  have hrow := rowIndex_lt (v := vOverlap p) hr
  rw [mapSize_eq, widthBytes, hw.bytesPerPixel]
  simp only [rowDst]
  rw [SurfaceDesc.at_width]
  exact SurfaceDesc.at_le hin.dstRight (by omega)

theorem rowSrc_fits (hw : WellFormed g p) (hs : s ∈ p.subRects) {r : Nat} (hr : r < s.height) :
    (rowSrc g p s r).2 + widthBytes g p s ≤ mapSize (g.desc p.sourceAllocation) := by
  have hin := hw.insideOf hs
  have hsb := hin.srcBottom
  have hrow := rowIndex_lt (v := vOverlap p) hr
  rw [mapSize_eq, widthBytes]
  simp only [rowSrc]
  rw [SurfaceDesc.at_width]
  exact SurfaceDesc.at_le hin.srcRight (by omega)

theorem rowDst_eq (hw : WellFormed g p) (hsame : p.destinationAllocation = p.sourceAllocation)
    (htop : p.sourceRect.top = p.destinationRect.top)
    (hlt : p.sourceRect.left < p.destinationRect.left) (r : Nat) :
    (rowDst g p s r).2 = (rowSrc g p s r).2 + deltaX g p := by
  rw [(deltaX_eq hw hlt).1]
  simp only [rowDst, rowSrc, hsame, htop]
  rw [SurfaceDesc.at_width]
  congr 1
  omega

theorem row_valid (hw : WellFormed g p) (hs : s ∈ p.subRects) (hf : RowsFit g p s) (hwidth : 0 < s.width)
    {r : Nat} (hr : r < s.height)
    (hright : p.destinationAllocation = p.sourceAllocation → p.sourceRect.top = p.destinationRect.top →
      p.sourceRect.left < p.destinationRect.left → widthBytes g p s ≤ deltaX g p) :
    RtlCopyMemory.Valid g ⟨rowDst g p s r, rowSrc g p s r, widthBytes g p s⟩ := by
  refine Or.inr ⟨rowDst_fits hw hs hr, rowSrc_fits hw hs hr, fun hsame => ?_⟩
  change p.destinationAllocation = p.sourceAllocation at hsame
  have hin := hw.insideOf hs
  have hdr := hin.dstRight
  rw [hsame] at hdr
  obtain hlt | heq | hgt := Nat.lt_trichotomy p.sourceRect.top p.destinationRect.top
  · refine Or.inr ?_
    simp only [rowDst, rowSrc, hsame, widthBytes]
    rw [SurfaceDesc.at_width]
    exact SurfaceDesc.at_le_of_lt _ hin.srcRight (by omega)
  · by_cases hleft : p.sourceRect.left < p.destinationRect.left
    · have := hright hsame heq hleft
      have := rowDst_eq (s := s) hw hsame heq hleft r
      simp only
      omega
    · refine Or.inl ?_
      have hfit := (hf hsame hwidth (by omega)).2 heq
      simp only [rowDst, rowSrc, hsame, heq, widthBytes]
      rw [SurfaceDesc.at_width]
      exact SurfaceDesc.at_le_at _ (by omega)
  · refine Or.inl ?_
    simp only [rowDst, rowSrc, hsame, widthBytes]
    rw [SurfaceDesc.at_width]
    exact SurfaceDesc.at_le_of_lt _ hdr (by omega)

theorem carries_row (hw : WellFormed g p) (hs : s ∈ p.subRects) (hf : RowsFit g p s) (hwidth : 0 < s.width)
    {r : Nat} (hr : r < s.height) :
    Carries g (copyRow g (hOverlap p && decide (0 ≤ overlap g p s)) (widthBytes g p s) (long (deltaX g p))
      (overlap g p s) (rowDst g p s r) (rowSrc g p s r))
      (Shift (rowDst g p s r) (rowSrc g p s r) (widthBytes g p s)) := by
  have hrect := hw.left_lt hs hwidth
  have hsub := hw.inside s hs
  rw [copyRow_eq hw hs]
  split
  · next h =>
    obtain ⟨hsame, htop, hlt, -⟩ := (hOverlap_iff hw hrect).mp h.1
    have hfit := (hf hsame hwidth (by omega)).2 htop
    have hdx := (deltaX_eq hw hlt).1
    have hn : widthBytes g p s ≤ 2 * deltaX g p := by
      rw [hdx, ← Nat.mul_assoc]
      exact Nat.mul_le_mul_right _ (by omega)
    have hat := rowDst_eq (s := s) hw hsame htop hlt r
    have hend := rowDst_fits hw hs hr
    have hsize := (g.desc p.destinationAllocation).size_le
    rw [mapSize_eq] at hend
    have htwo := carries_two hat h.2 hn (by rw [mapSize_eq]; exact hend)
    rw [advance_eq hw.bits (by omega)]
    have hsrc : rowSrc g p s r = ((rowDst g p s r).1, (rowSrc g p s r).2) := Prod.ext hsame.symm rfl
    rw [hsrc]
    exact htwo
  · next h =>
    refine carries_one (row_valid hw hs hf hwidth hr ?_)
    intro hsame htop hlt
    by_contra hlong
    -- the row is longer than its way, so the code does see the overlap
    refine h ⟨(hOverlap_iff hw hrect).mpr ⟨hsame, htop, hlt, ?_⟩, by omega⟩
    have hdx := (deltaX_eq hw hlt).1
    have hway : p.destinationRect.left - p.sourceRect.left < s.width := by
      refine Nat.lt_of_mul_lt_mul_right (a := (g.desc p.sourceAllocation).bytesPerPixel) ?_
      rw [← hdx]
      exact Nat.lt_of_not_le hlong
    omega

theorem SurfaceDesc.row_inj {d : SurfaceDesc} {x x' y y' w u u' : Nat} (hx : x + w ≤ d.xResolution)
    (hx' : x' + w ≤ d.xResolution) (hu : u < w * d.bytesPerPixel) (hu' : u' < w * d.bytesPerPixel)
    (h : d.at x y + u = d.at x' y' + u') : y = y' := by
  have hwidth := d.at_width x y w
  have hwidth' := d.at_width x' y' w
  obtain hlt | heq | hgt := Nat.lt_trichotomy y y'
  · have := SurfaceDesc.at_le_of_lt x' hx hlt
    omega
  · exact heq
  · have := SurfaceDesc.at_le_of_lt x hx' hgt
    omega

theorem pixelByte_inj {d : SurfaceDesc} {x y k x' y' k' : Nat} (hx : x < d.xResolution)
    (hx' : x' < d.xResolution) (hk : k < d.bytesPerPixel) (hk' : k' < d.bytesPerPixel)
    (h : pixelByte d x y k = pixelByte d x' y' k') : x = x' ∧ y = y' := by
  have hy : y = y' :=
    SurfaceDesc.row_inj (w := 1) (d := d) hx hx' (by omega) (by omega) h
  refine ⟨?_, hy⟩
  subst hy
  simp only [pixelByte] at h
  obtain hlt | heq | hgt := Nat.lt_trichotomy x x'
  · have := Nat.mul_le_mul_right d.bytesPerPixel (Nat.succ_le_of_lt hlt)
    rw [Nat.succ_mul] at this
    omega
  · exact heq
  · have := Nat.mul_le_mul_right d.bytesPerPixel (Nat.succ_le_of_lt hgt)
    rw [Nat.succ_mul] at this
    omega

theorem rowIndex_rowIndex {v : Bool} {n r : Nat} (h : r < n) : rowIndex v n (rowIndex v n r) = r := by
  unfold rowIndex
  split
  all_goals omega

/-- The rows together are the pixels. -/
theorem shift_iff_moves (hw : WellFormed g p) (a b : Loc) :
    (∃ r ∈ List.range s.height, Shift (rowDst g p s r) (rowSrc g p s r) (widthBytes g p s) a b) ↔
      Moves g p s a b := by
  constructor
  · rintro ⟨r, hr, u, hu, rfl, rfl⟩
    have hpos := (g.desc p.sourceAllocation).bytesPerPixel_pos
    have hu' := Nat.div_add_mod' u (g.desc p.sourceAllocation).bytesPerPixel
    refine ⟨u / (g.desc p.sourceAllocation).bytesPerPixel, Nat.div_lt_of_lt_mul (Nat.mul_comm _ _ ▸ hu),
      rowIndex (vOverlap p) s.height r, rowIndex_lt (List.mem_range.mp hr),
      u % (g.desc p.sourceAllocation).bytesPerPixel, Nat.mod_lt _ hpos, Prod.ext rfl ?_, Prod.ext rfl ?_⟩
    all_goals simp only [rowDst, rowSrc, pixelByte, SurfaceDesc.at, ← hw.bytesPerPixel, Nat.add_mul]
    all_goals omega
  · rintro ⟨x, hx, y, hy, k, hk, rfl, rfl⟩
    have hlt : x * (g.desc p.sourceAllocation).bytesPerPixel + k < widthBytes g p s := by
      have := Nat.mul_le_mul_right (g.desc p.sourceAllocation).bytesPerPixel (Nat.succ_le_of_lt hx)
      rw [Nat.succ_mul] at this
      simp only [widthBytes]
      omega
    refine ⟨rowIndex (vOverlap p) s.height y, List.mem_range.mpr (rowIndex_lt hy), _, hlt, Prod.ext rfl ?_,
      Prod.ext rfl ?_⟩
    all_goals simp only [rowDst, rowSrc, pixelByte, SurfaceDesc.at, rowIndex_rowIndex hy,
      ← hw.bytesPerPixel, Nat.add_mul]
    all_goals omega

theorem moves_false (h : s.width = 0 ∨ s.height = 0) (a b : Loc) : ¬Moves g p s a b := by
  rintro ⟨x, hx, y, hy, -⟩
  omega

/-- **A sub-rectangle whose rows fit is moved.** -/
theorem carries_subRect (hw : WellFormed g p) (hs : s ∈ p.subRects) (hf : RowsFit g p s) :
    Carries g (xenGfxSubRectBlt g p (xenGfxStartRectAddress g p.destinationAllocation p.destinationRect)
        (xenGfxStartRectAddress g p.sourceAllocation p.sourceRect) (vOverlap p) (hOverlap p) s)
      (Moves g p s) := by
  rcases Nat.eq_zero_or_pos s.height with hh | hh
  · have hnil : xenGfxSubRectBlt g p (xenGfxStartRectAddress g p.destinationAllocation p.destinationRect)
        (xenGfxStartRectAddress g p.sourceAllocation p.sourceRect) (vOverlap p) (hOverlap p) s = [] := by
      rw [xenGfxSubRectBlt, hh]
      rfl
    rw [hnil]
    exact carries_nil.congr fun a b => ⟨False.elim, moves_false (Or.inr hh) a b⟩
  rw [xenGfxSubRectBlt_eq hw hs hh]
  rcases Nat.eq_zero_or_pos s.width with hz | hwidth
  · have hzero : widthBytes g p s = 0 := by rw [widthBytes, hz, Nat.zero_mul]
    refine (carries_of_length_zero (copyRows_length_zero ?_ _ _ _)).congr fun a b =>
      ⟨False.elim, moves_false (Or.inl hz) a b⟩
    intro a b c hc
    rw [copyRow_eq hw hs, hzero] at hc
    split at hc
    · next h =>
      have hnone := h.2
      simp only [List.mem_cons, List.not_mem_nil, or_false] at hc
      rcases hc with rfl | rfl
      all_goals simp only
      all_goals omega
    · obtain rfl := List.mem_singleton.mp hc
      rfl
  have hin := hw.insideOf hs
  have hsr := hin.srcRight
  have hdr := hin.dstRight
  have hv : 1 < s.height → vOverlap p = true → g.w = 32 := by
    intro hlong hv
    obtain ⟨hsame, htop⟩ := vOverlap_iff.mp hv
    have := (hf hsame hwidth hh).1 htop
    have := hw.bits
    omega
  rw [copyRows_eq (P := rowDst g p s) (Q := rowSrc g p s)
    (fun r hr => advance_rowStep hw.bits (hv (by omega)) (by omega) hin.dstBottom hr)
    fun r hr => advance_rowStep hw.bits (hv (by omega)) (by omega) hin.srcBottom hr]
  refine (carries_flatMap (fun r hr => carries_row hw hs hf hwidth (List.mem_range.mp hr)) ?_ ?_).congr
    (shift_iff_moves hw)
  · -- a later row does not start where an earlier one went
    refine List.pairwise_lt_range.imp_of_mem ?_
    rintro i j hi hj hij x y z ⟨u, hu, -, rfl⟩ ⟨u', hu', hy, -⟩
    rw [List.mem_range] at hi hj
    have hsame : p.sourceAllocation = p.destinationAllocation := congrArg Prod.fst hy
    have hat := congrArg Prod.snd hy
    simp only [rowDst, rowSrc, ← hsame] at hat
    rw [← hsame] at hdr
    have hrow := SurfaceDesc.row_inj hsr hdr hu hu' hat
    cases hvv : vOverlap p with
    | false =>
      have hle : ¬p.sourceRect.top < p.destinationRect.top := fun h => by
        rw [vOverlap_iff.mpr ⟨hsame.symm, h⟩] at hvv
        cases hvv
      simp only [rowIndex, hvv, Bool.false_eq_true, if_false] at hrow
      omega
    | true =>
      have := (vOverlap_iff.mp hvv).2
      simp only [rowIndex, hvv, if_true] at hrow
      omega
  · -- two rows go to different rows
    refine List.pairwise_lt_range.imp_of_mem ?_
    rintro i j hi hj hij x y z ⟨u, hu, rfl, -⟩ ⟨u', hu', hx, -⟩
    rw [List.mem_range] at hi hj
    have hat := congrArg Prod.snd hx
    simp only [rowDst] at hat
    rw [widthBytes, hw.bytesPerPixel] at hu hu'
    have hrow := SurfaceDesc.row_inj hdr hdr hu hu' hat
    have hrow' : rowIndex (vOverlap p) s.height i = rowIndex (vOverlap p) s.height j := by omega
    have := rowIndex_rowIndex (v := vOverlap p) hi
    rw [hrow', rowIndex_rowIndex hj] at this
    omega

theorem exists_not_valid_of_row (hw : WellFormed g p) (hs : s ∈ p.subRects) (hwidth : 0 < s.width)
    (hh : 0 < s.height) (hsame : p.destinationAllocation = p.sourceAllocation)
    (htop : p.sourceRect.top = p.destinationRect.top)
    (hlong : 2 * (p.destinationRect.left - p.sourceRect.left) +
      (p.sourceRect.left - p.destinationRect.left) < s.width) :
    ∃ c ∈ copyRow g (hOverlap p && decide (0 ≤ overlap g p s)) (widthBytes g p s) (long (deltaX g p))
      (overlap g p s) (rowDst g p s 0) (rowSrc g p s 0), ¬c.Valid g := by
  have hrect := hw.left_lt hs hwidth
  have hsub := hw.inside s hs
  have hbpp := (g.desc p.sourceAllocation).bytesPerPixel_pos
  rw [copyRow_eq hw hs]
  by_cases hlt : p.sourceRect.left < p.destinationRect.left
  · have hdx := (deltaX_eq hw hlt).1
    have hpos : 0 < deltaX g p := hdx ▸ Nat.mul_pos (by omega) hbpp
    have hn : 2 * deltaX g p < widthBytes g p s := by
      rw [hdx, ← Nat.mul_assoc]
      exact Nat.mul_lt_mul_of_pos_right (by omega) hbpp
    have hov : hOverlap p = true := (hOverlap_iff hw hrect).mpr ⟨hsame, htop, hlt, by omega⟩
    have hend := rowDst_fits hw hs hh
    have hsize := (g.desc p.destinationAllocation).size_le
    rw [mapSize_eq] at hend
    refine ⟨_, by rw [if_pos ⟨hov, by omega⟩]; exact List.mem_cons_self, ?_⟩
    rw [advance_eq hw.bits (by omega)]
    rintro (hz | ⟨-, -, hd⟩)
    · simp only at hz
      omega
    · have := hd rfl
      simp only at this
      omega
  · have hno : ¬(hOverlap p = true ∧ deltaX g p ≤ widthBytes g p s) := fun h =>
      hlt ((hOverlap_iff hw hrect).mp h.1).2.2.1
    refine ⟨_, by rw [if_neg hno]; exact List.mem_cons_self, ?_⟩
    have hwb : widthBytes g p s = s.width * (g.desc p.sourceAllocation).bytesPerPixel := rfl
    have hbytes := Nat.mul_lt_mul_of_pos_right
      (show p.sourceRect.left - p.destinationRect.left < s.width by omega) hbpp
    have hat : (rowDst g p s 0).2 + (p.sourceRect.left - p.destinationRect.left) *
        (g.desc p.sourceAllocation).bytesPerPixel = (rowSrc g p s 0).2 := by
      simp only [rowDst, rowSrc, hsame, htop]
      rw [SurfaceDesc.at_width]
      congr 1
      omega
    rintro (hz | ⟨-, -, hd⟩)
    · simp only at hz
      omega
    · have := hd hsame
      simp only at this
      omega

theorem exists_not_valid_of_down (hw : WellFormed g p) (hs : s ∈ p.subRects) (hwidth : 0 < s.width)
    (hsame : p.destinationAllocation = p.sourceAllocation)
    (htop : p.sourceRect.top < p.destinationRect.top) (hbits : g.w = 64) (hh : 1 < s.height) :
    ∃ c ∈ copyRows g (copyRow g (hOverlap p && decide (0 ≤ overlap g p s)) (widthBytes g p s)
      (long (deltaX g p)) (overlap g p s)) (rowStep (vOverlap p) (g.desc p.destinationAllocation).stride)
      (rowStep (vOverlap p) (g.desc p.sourceAllocation).stride) s.height (rowDst g p s 0) (rowSrc g p s 0),
      ¬c.Valid g := by
  have hrect := hw.left_lt hs hwidth
  have hno : ¬(hOverlap p = true ∧ deltaX g p ≤ widthBytes g p s) := fun h =>
    absurd ((hOverlap_iff hw hrect).mp h.1).2.1 (Nat.ne_of_lt htop)
  have hpos : 0 < widthBytes g p s := Nat.mul_pos hwidth (g.desc p.sourceAllocation).bytesPerPixel_pos
  have hstride := (g.desc p.destinationAllocation).stride_pos
  have hle := (g.desc p.destinationAllocation).stride_le
  have hsize := (g.desc p.destinationAllocation).size_le
  have hdb := (hw.insideOf hs).dstBottom
  obtain ⟨n, hn⟩ : ∃ n, s.height = n + 1 + 1 := ⟨s.height - 2, by omega⟩
  -- the last row of the sub-rectangle is not the first of the surface
  have hrow : (g.desc p.destinationAllocation).stride ≤ (rowDst g p s 0).2 := by
    have hone : 1 ≤ p.destinationRect.top + s.top + rowIndex (vOverlap p) s.height 0 := by
      rw [vOverlap_iff.mpr ⟨hsame, htop⟩]
      simp only [rowIndex, if_true]
      omega
    have hmul := Nat.mul_le_mul_right (g.desc p.destinationAllocation).stride hone
    rw [Nat.one_mul] at hmul
    exact le_trans hmul (Nat.le_add_right _ _)
  have hend := rowDst_fits hw hs (show 0 < s.height by omega)
  rw [mapSize_eq] at hend
  have hstep : rowStep (vOverlap p) (g.desc p.destinationAllocation).stride =
      4294967296 - (g.desc p.destinationAllocation).stride := by
    rw [rowStep, vOverlap_iff.mpr ⟨hsame, htop⟩, if_pos rfl, u32]
    omega
  rw [hn, copyRows_succ, copyRows_succ]
  refine ⟨⟨advance g (rowDst g p s 0) (rowStep (vOverlap p) (g.desc p.destinationAllocation).stride),
    advance g (rowSrc g p s 0) (rowStep (vOverlap p) (g.desc p.sourceAllocation).stride),
    widthBytes g p s⟩, List.mem_append_right _ (List.mem_append_left _ ?_), ?_⟩
  · rw [copyRow_eq hw hs, if_neg hno]
    exact List.mem_singleton_self _
  · rw [hstep]
    have hfar : (advance g (rowDst g p s 0) (4294967296 - (g.desc p.destinationAllocation).stride)).2 =
        (rowDst g p s 0).2 + (4294967296 - (g.desc p.destinationAllocation).stride) := by
      simp only [advance, hbits]
      exact Nat.mod_eq_of_lt (by omega)
    rintro (hz | ⟨hmap, -⟩)
    · simp only at hz
      omega
    · have hdesc : (advance g (rowDst g p s 0)
          (4294967296 - (g.desc p.destinationAllocation).stride)).1 = p.destinationAllocation := rfl
      simp only [hdesc, hfar, mapSize_eq] at hmap
      omega

theorem rowsFit_of_valid (hw : WellFormed g p) (hs : s ∈ p.subRects)
    (hv : ∀ c ∈ xenGfxSubRectBlt g p (xenGfxStartRectAddress g p.destinationAllocation p.destinationRect)
      (xenGfxStartRectAddress g p.sourceAllocation p.sourceRect) (vOverlap p) (hOverlap p) s, c.Valid g) :
    RowsFit g p s := by
  intro hsame hwidth hh
  rw [xenGfxSubRectBlt_eq hw hs hh] at hv
  constructor
  · intro htop hbits
    by_contra hone
    obtain ⟨c, hc, hbad⟩ := exists_not_valid_of_down hw hs hwidth hsame htop hbits (by omega)
    exact hbad (hv c hc)
  · intro htop
    by_contra hlong
    obtain ⟨c, hc, hbad⟩ := exists_not_valid_of_row hw hs hwidth hh hsame htop (by omega)
    refine hbad (hv c ?_)
    obtain ⟨n, hn⟩ : ∃ n, s.height = n + 1 := ⟨s.height - 1, by omega⟩
    rw [hn, copyRows_succ]
    exact List.mem_append_left _ hc

end SubRect

/-! ## The blit -/

section Blt

variable {g : Gpu} {p : DmaPresent} {s t : DmaSubrect}

theorem meet_iff {a n b m : Nat} : Meet a n b m ↔ ∃ i < n, ∃ j < m, a + i = b + j := by
  simp only [Meet]
  constructor
  · intro h
    exact ⟨max a b - a, by omega, max a b - b, by omega, by omega⟩
  · rintro ⟨i, hi, j, hj, h⟩
    omega

theorem meets_of_moves (hw : WellFormed g p) (hs : s ∈ p.subRects) (ht : t ∈ p.subRects) {a b c : Loc}
    (h : Moves g p s a b) (h' : Moves g p t a c) : s.Meets t := by
  obtain ⟨x, hx, y, hy, k, hk, rfl, -⟩ := h
  obtain ⟨x', hx', y', hy', k', hk', ha, -⟩ := h'
  have hsin := (hw.insideOf hs).dstRight
  have htin := (hw.insideOf ht).dstRight
  rw [hw.bytesPerPixel] at hk hk'
  obtain ⟨hcol, hrow⟩ := pixelByte_inj (by omega) (by omega) hk hk' (congrArg Prod.snd ha)
  exact ⟨meet_iff.mpr ⟨x, hx, x', hx', by omega⟩, meet_iff.mpr ⟨y, hy, y', hy', by omega⟩⟩

theorem overwrites_iff (hw : WellFormed g p) (hs : s ∈ p.subRects) (ht : t ∈ p.subRects) :
    (∃ a b c, Moves g p t a b ∧ Moves g p s b c) ↔
      p.destinationAllocation = p.sourceAllocation ∧ Overwrites p s t := by
  have hsin := (hw.insideOf hs).dstRight
  have htin := (hw.insideOf ht).srcRight
  constructor
  · rintro ⟨a, b, c, ⟨x, hx, y, hy, k, hk, -, rfl⟩, x', hx', y', hy', k', hk', hb, -⟩
    have hsame : p.sourceAllocation = p.destinationAllocation := congrArg Prod.fst hb
    have hbyte := congrArg Prod.snd hb
    simp only [← hsame] at hbyte
    rw [← hsame] at hsin
    obtain ⟨hcol, hrow⟩ := pixelByte_inj (by omega) (by omega) hk hk' hbyte
    exact ⟨hsame.symm, meet_iff.mpr ⟨x', hx', x, hx, by omega⟩, meet_iff.mpr ⟨y', hy', y, hy, by omega⟩⟩
  · rintro ⟨hsame, hcol, hrow⟩
    obtain ⟨x', hx', x, hx, hcol⟩ := meet_iff.mp hcol
    obtain ⟨y', hy', y, hy, hrow⟩ := meet_iff.mp hrow
    refine ⟨_, _, _, ⟨x, hx, y, hy, 0, (g.desc p.sourceAllocation).bytesPerPixel_pos, rfl, rfl⟩,
      x', hx', y', hy', 0, (g.desc p.sourceAllocation).bytesPerPixel_pos, ?_, rfl⟩
    rw [hsame, hcol, hrow]

theorem moves_apart (hw : WellFormed g p) :
    p.subRects.Pairwise fun s t => ∀ a b c, Moves g p s a b → ¬Moves g p t a c :=
  hw.disjoint.imp_of_mem fun hs ht h _ _ _ hs' ht' => h (meets_of_moves hw hs ht hs' ht')

theorem ordered_iff (hw : WellFormed g p) : Ordered p ↔
    p.subRects.Pairwise fun s t => ∀ a b c, Moves g p t a b → ¬Moves g p s b c := by
  constructor
  · intro h
    by_cases hsame : p.destinationAllocation = p.sourceAllocation
    · refine (h hsame).imp_of_mem fun hs ht hno a b c hab hbc => hno ?_
      exact ((overwrites_iff hw hs ht).mp ⟨a, b, c, hab, hbc⟩).2
    · refine List.pairwise_of_forall_mem_list fun s hs t ht a b c hab hbc => hsame ?_
      exact ((overwrites_iff hw hs ht).mp ⟨a, b, c, hab, hbc⟩).1
  · intro h hsame
    refine h.imp_of_mem fun hs ht hno hover => ?_
    obtain ⟨a, b, c, hab, hbc⟩ := (overwrites_iff hw hs ht).mpr ⟨hsame, hover⟩
    exact hno a b c hab hbc

theorem carries_blt (hw : WellFormed g p) (hf : ∀ s ∈ p.subRects, RowsFit g p s) (ho : Ordered p) :
    Carries g (xenGfxBlt g p) fun a b => ∃ s ∈ p.subRects, Moves g p s a b :=
  carries_flatMap (fun s hs => carries_subRect hw hs (hf s hs)) ((ordered_iff hw).mp ho) (moves_apart hw)

theorem exact_of_carries (h : Carries g (xenGfxBlt g p) fun a b => ∃ s ∈ p.subRects, Moves g p s a b)
    (m : Memory) : Exact g p m := by
  refine ⟨_, if_pos h.valid, ?_, ?_⟩
  · intro s hs a b hab
    obtain ⟨c, hc, hca⟩ := (h.moves a b).mpr ⟨s, hs, hab⟩
    exact copyAll_hit (List.pairwise_map.mpr h.spares) (List.pairwise_map.mpr h.apart)
      (List.mem_map_of_mem hc) hca m
  · intro a ha
    refine copyAll_miss _ ?_ m
    intro d hd
    obtain ⟨c, hc, rfl⟩ := List.mem_map.mp hd
    rw [Option.eq_none_iff_forall_ne_some]
    intro b hb
    obtain ⟨s, hs, hab⟩ := (h.moves a b).mp ⟨c, hc, hb⟩
    exact ha s hs b hab

theorem valid_of_exact {m : Memory} (h : Exact g p m) : ∀ c ∈ xenGfxBlt g p, c.Valid g := by
  obtain ⟨m', hrun, -⟩ := h
  rw [runCopies] at hrun
  split at hrun
  · assumption
  · cases hrun

/-- A call with an effect reads no location that it writes. -/
theorem ne_of_valid {c : RtlCopyMemory} (h : c.Valid g) {x y : Loc} (hx : c.copy x = some y) : y ≠ x := by
  obtain ⟨u, hu, rfl, rfl⟩ := copy_eq_some.mp hx
  intro he
  obtain ⟨halloc, hoff⟩ := Prod.mk.inj he
  rcases h with hz | ⟨-, -, hd⟩
  · omega
  · have := hd halloc.symm
    omega

/-- **A blit is exact, whatever the surfaces hold, exactly when its rows fit and no sub-rectangle
overwrites the source of a later one.** -/
theorem xenGfxBlt_exact_iff (hw : WellFormed g p) :
    (∀ m : Memory, Exact g p m) ↔ (∀ s ∈ p.subRects, RowsFit g p s) ∧ Ordered p := by
  constructor
  · intro h
    have hvalid := valid_of_exact (h fun _ => 0)
    have hfit : ∀ s ∈ p.subRects, RowsFit g p s := fun s hs =>
      rowsFit_of_valid hw hs fun c hc => hvalid c (List.mem_flatMap.mpr ⟨s, hs, hc⟩)
    have hcarries := fun s hs => carries_subRect hw hs (hfit s hs)
    have hapart := apart_flatMap hcarries (moves_apart hw)
    refine ⟨hfit, (ordered_iff hw).mpr ((spares_flatMap hcarries).mp (List.pairwise_map.mp ?_))⟩
    have hbyte : Nontrivial UInt8 := ⟨0, 1, by decide⟩
    refine spares_of_hit UInt8 (List.pairwise_map.mpr hapart) ?_ ?_
    · intro d hd x y hx
      obtain ⟨c, hc, rfl⟩ := List.mem_map.mp hd
      exact ne_of_valid (hvalid c hc) hx
    · intro m d hd x y hx
      obtain ⟨c, hc, rfl⟩ := List.mem_map.mp hd
      obtain ⟨s, hs, hcs⟩ := List.mem_flatMap.mp hc
      obtain ⟨m', hrun, hmoved, -⟩ := h m
      rw [runCopies, if_pos hvalid] at hrun
      obtain rfl := Option.some.inj hrun
      exact hmoved s hs x y (((hcarries s hs).moves x y).mp ⟨c, hcs, hx⟩)
  · rintro ⟨hf, ho⟩ m
    exact exact_of_carries (carries_blt hw hf ho) m

/-- One line of four pixels of a byte. -/
def line : SurfaceDesc where
  xResolution := 4
  yResolution := 1
  bytesPerPixel := 1
  stride := 4
  bytesPerPixel_pos := by decide
  xResolution_pos := by decide
  yResolution_pos := by decide
  row_le := by decide
  size_le := by decide

/-- The first `n` pixels of the line go one to the right. -/
def scroll (n : Nat) : DmaPresent where
  sourceAllocation := 0
  destinationAllocation := 0
  sourceRect := ⟨0, 0, n, 1⟩
  destinationRect := ⟨1, 0, n + 1, 1⟩
  subRects := [⟨0, 0, n, 1⟩]

theorem xenGfxBlt_exact_iff_two : (∀ m : Memory, Exact ⟨fun _ => line, 64⟩ (scroll 2) m) ∧
    (xenGfxBlt ⟨fun _ => line, 64⟩ (scroll 2)).length = 2 := by
  have hw : WellFormed ⟨fun _ => line, 64⟩ (scroll 2) := by
    refine ⟨Or.inr rfl, rfl, ?_, ?_, rfl, rfl, ?_, List.pairwise_singleton ..⟩
    · constructor
      all_goals decide
    · constructor
      all_goals decide
    · decide
  refine ⟨(xenGfxBlt_exact_iff hw).mpr ⟨?_, fun _ => List.pairwise_singleton ..⟩, by decide⟩
  intro s hs
  obtain rfl := List.mem_singleton.mp hs
  intro _ _ _
  decide

/-- Three pixels to the right by one: the piece that goes first is copied over itself. -/
theorem xenGfxBlt_overlapping : WellFormed ⟨fun _ => line, 32⟩ (scroll 3) ∧
    ∀ m : Memory, ¬Exact ⟨fun _ => line, 32⟩ (scroll 3) m := by
  constructor
  · refine ⟨Or.inl rfl, rfl, ?_, ?_, rfl, rfl, ?_, List.pairwise_singleton ..⟩
    · constructor
      all_goals decide
    · constructor
      all_goals decide
    · decide
  · intro m h
    have hvalid := valid_of_exact h
    revert hvalid
    decide

end Blt

end XcWindows.Xengfx.Blt
