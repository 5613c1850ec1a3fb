import XcWindows.Inc.Xsapi
import XcWindows.Lib.Word

/-!
# The I/O hole

`xenutil/iohole.c`. `IO_HOLE_MAX_PAGES` is the capacity of the bitmap, but the lower bound of the number of
pages: `__XenevtchnInitIoHole` has `MAX` where it clamps. So the allocator is right for holes that have that
many pages at least and no more than the bitmap has bits, as it comes in whole words.

The bitmap routines of Windows are right for the size they are given: a run of clear bits is found where there
is one, and which one it is is chosen with the step. Each works under the lock.
-/

namespace XcWindows.Xenutil.IoHole

open XcWindows.Lib

abbrev ioHoleMaxPages : Nat := 45


/-- The bits of `io_hole_bitmap`. -/
abbrev bitmapBits : Nat := (ioHoleMaxPages + 31) / 32 * 32

/-- What `__XenevtchnInitIoHole` is given, what is in memory behind the bitmap, and what `RtlAreBitsSet` says
of no bits. -/
structure Hole where
  base : Nat
  baseVa : Nat
  nbytes : Nat
  behind : Nat → Bool
  noBitsSet : Bool

def Hole.nrPages (h : Hole) : Nat := max ioHoleMaxPages (h.nbytes / pageSize)

/-- What a caller gets. -/
inductive Handle where
  | pfn (pfn : Nat)
  | memory (va pa nrBytes : Nat)
deriving DecidableEq

/-- A handle that was given out, for the pages of the hole from `page` on. -/
structure Allocation where
  handle : Handle
  page : Nat
  count : Nat

structure State where
  bit : Nat → Bool
  live : List Allocation
  /-- the bits that a routine may have looked at or changed are below -/
  accessEnd : Nat
  crashed : Bool

variable (h : Hole)

/-! ## The bitmap -/

def clearRun (bit : Nat → Bool) (i n : Nat) : Bool := (List.range n).all fun k => !bit (i + k)

def setBits (bit : Nat → Bool) (i n : Nat) (v : Bool) : Nat → Bool :=
  fun j => if i ≤ j ∧ j < i + n then v else bit j

/-- Whether `RtlFindClearBitsAndSet` may answer so. -/
def mayFind (s : State) (n : Nat) : Option Nat → Bool
  | some i => decide (i + n ≤ h.nrPages) && clearRun s.bit i n
  | none => (List.range (h.nrPages + 1 - n)).all fun i => !clearRun s.bit i n

def rtlFindClearBitsAndSet (s : State) (n : Nat) (found : Option Nat) : State :=
  let s := { s with accessEnd := max s.accessEnd h.nrPages }
  match found with
  | none => s
  | some i => { s with bit := setBits s.bit i n true }

def rtlAreBitsSet (s : State) (i n : Nat) : Bool :=
  if n = 0 then h.noBitsSet else decide (i + n ≤ h.nrPages) && (List.range n).all fun k => s.bit (i + k)

def rtlClearBits (s : State) (i n : Nat) : State :=
  { s with bit := setBits s.bit i n false, accessEnd := max s.accessEnd (i + n) }

/-! ## The routines -/

/-- `(nr_bytes + PAGE_SIZE - 1) & ~(PAGE_SIZE - 1)`, in pages. -/
def pagesOf (nrBytes : Nat) : Nat := u32 (nrBytes + pageSize - 1) / pageSize

/-- `XenevtchnAllocIoPFN`; what it returns when there is no page is 0. -/
def allocIoPfn (found : Option Nat) (s : State) : State :=
  let s := rtlFindClearBitsAndSet h s 1 found
  match found with
  | none => s
  | some page =>
    let pfn := page + h.base / pageSize
    if pfn = 0 then s else { s with live := ⟨.pfn pfn, page, 1⟩ :: s.live }

def allocIoMemory (nrBytes : Nat) (found : Option Nat) (s : State) : State :=
  let s := rtlFindClearBitsAndSet h s (pagesOf nrBytes) found
  match found with
  | none => s
  | some page =>
    { s with live :=
        ⟨.memory (h.baseVa + page * pageSize) (h.base + page * pageSize) nrBytes, page, pagesOf nrBytes⟩ :: s.live }

def releaseIoMemory (va nrBytes : Nat) (s : State) : State :=
  let page := u32 ((va - h.baseVa) / pageSize)
  if va % pageSize ≠ 0 then { s with crashed := true }
  else if !rtlAreBitsSet h s page (pagesOf nrBytes) then { s with crashed := true }
  else rtlClearBits s page (pagesOf nrBytes)

def releaseIoPfn (pfn : Nat) (s : State) : State := rtlClearBits s (u32 (pfn - h.base / pageSize)) 1

/-- A release takes the handle from its owner. -/
def State.drop (s : State) (handle : Handle) : State :=
  { s with live := s.live.eraseP fun e => decide (e.handle = handle) }

inductive Act where
  | allocIoPfn (found : Option Nat)
  | allocIoMemory (nrBytes : Nat) (found : Option Nat)
  | release (handle : Handle)

/-- Handles are released by those who have them. -/
def step (s : State) (a : Act) : Option State :=
  if s.crashed then none
  else
    match a with
    | .allocIoPfn found => if mayFind h s 1 found then some (allocIoPfn h found s) else none
    | .allocIoMemory nrBytes found =>
      if nrBytes < 4294967296 ∧ mayFind h s (pagesOf nrBytes) found then some (allocIoMemory h nrBytes found s)
      else none
    | .release handle =>
      if s.live.any fun e => decide (e.handle = handle) then
        match handle with
        | .pfn pfn => some (releaseIoPfn h pfn (s.drop handle))
        | .memory va _ nrBytes => some (releaseIoMemory h va nrBytes (s.drop handle))
      else none

/-- The driver from `__XenevtchnInitIoHole` on. -/
def machine : Machine State Act where
  init := ⟨fun j => if j < bitmapBits then false else h.behind j, [], 0, false⟩
  step := step h

/-! ## What callers rely on -/

/-- Where an allocation starts. -/
def Allocation.start (e : Allocation) : Nat :=
  match e.handle with
  | .pfn pfn => pfn * pageSize
  | .memory _ pa _ => pa

/-- How long it was asked to be. -/
def Allocation.requested (e : Allocation) : Nat :=
  match e.handle with
  | .pfn _ => pageSize
  | .memory _ _ nrBytes => nrBytes

def Allocation.length (e : Allocation) : Nat := e.count * pageSize

/-- An address is in an allocation. -/
def Allocation.Has (e : Allocation) (x : Nat) : Prop := e.start ≤ x ∧ x < e.start + e.length

structure Safe (s : State) : Prop where
  disjoint : s.live.Pairwise fun a b => ∀ x, ¬(a.Has x ∧ b.Has x)
  long : ∀ e ∈ s.live, e.requested ≤ e.length
  inside : ∀ e ∈ s.live, h.base ≤ e.start ∧ e.start + e.length ≤ h.base + h.nbytes
  bitmap : s.accessEnd ≤ bitmapBits

/-- A hole of 45 to 64 whole pages. -/
structure Fits : Prop where
  least : ioHoleMaxPages ≤ h.nbytes / pageSize
  most : h.nbytes / pageSize ≤ bitmapBits
  aligned : h.base % pageSize = 0

/-- The byte count can be rounded up. -/
def Rounds : State → Act → Prop
  | _, .allocIoMemory nrBytes _ => nrBytes ≤ 4294967296 - pageSize
  | _, _ => True

instance (s : State) (a : Act) : Decidable (Rounds s a) := by
  cases a
  all_goals
    unfold Rounds
    infer_instance

/-! ## The invariant -/

/-- The handle says which pages the allocation has, and they are enough. -/
def Allocation.On (e : Allocation) : Prop :=
  match e.handle with
  | .pfn pfn => pfn = e.page + h.base / pageSize ∧ e.count = 1
  | .memory va pa nrBytes =>
    va = h.baseVa + e.page * pageSize ∧ pa = h.base + e.page * pageSize ∧ e.count = pagesOf nrBytes ∧
      nrBytes ≤ e.count * pageSize

/-- A page of the hole is in an allocation. -/
def Allocation.Page (e : Allocation) (j : Nat) : Prop := e.page ≤ j ∧ j < e.page + e.count

structure Inv (s : State) : Prop where
  on : ∀ e ∈ s.live, e.On h
  within : ∀ e ∈ s.live, e.page + e.count ≤ h.nrPages
  set : ∀ e ∈ s.live, ∀ j, e.Page j → s.bit j = true
  apart : s.live.Pairwise fun a b => ∀ j, ¬(a.Page j ∧ b.Page j)
  access : s.accessEnd ≤ h.nrPages

section Steps

variable {h} {s : State} {e : Allocation} {n : Nat}

theorem clearRun_eq {bit : Nat → Bool} {i j : Nat} (hc : clearRun bit i n = true) (hj : i ≤ j ∧ j < i + n) :
    bit j = false := by
  have := List.all_eq_true.mp hc (j - i) (List.mem_range.mpr (by omega))
  rwa [Nat.add_sub_cancel' hj.1, Bool.not_eq_true'] at this

theorem setBits_in {bit : Nat → Bool} {i j : Nat} {v : Bool} (hj : i ≤ j ∧ j < i + n) :
    setBits bit i n v j = v := if_pos hj

theorem setBits_out {bit : Nat → Bool} {i j : Nat} {v : Bool} (hj : ¬(i ≤ j ∧ j < i + n)) :
    setBits bit i n v j = bit j := if_neg hj

theorem Inv.find (hi : Inv h s) (n : Nat) (found : Option Nat) : Inv h (rtlFindClearBitsAndSet h s n found) := by
  have hmax : max s.accessEnd h.nrPages ≤ h.nrPages := Nat.max_le.mpr ⟨hi.access, Nat.le_refl _⟩
  cases found with
  | none => exact ⟨hi.on, hi.within, hi.set, hi.apart, hmax⟩
  | some i =>
    refine ⟨hi.on, hi.within, fun e he j hj => ?_, hi.apart, hmax⟩
    change setBits s.bit i n true j = true
    by_cases hin : i ≤ j ∧ j < i + n
    · exact setBits_in hin
    · rw [setBits_out hin]
      exact hi.set e he j hj

theorem Inv.take (hi : Inv h s) (hf : mayFind h s e.count (some e.page) = true) (he : e.On h) :
    Inv h { rtlFindClearBitsAndSet h s e.count (some e.page) with live := e :: s.live } := by
  rw [mayFind, Bool.and_eq_true, decide_eq_true_eq] at hf
  obtain ⟨hle, hclear⟩ := hf
  have hfind := hi.find e.count (some e.page)
  refine ⟨?_, ?_, ?_, List.pairwise_cons.mpr ⟨?_, hi.apart⟩, hfind.access⟩
  · exact List.forall_mem_cons.mpr ⟨he, hi.on⟩
  · exact List.forall_mem_cons.mpr ⟨hle, hi.within⟩
  · exact List.forall_mem_cons.mpr ⟨fun j hj => setBits_in hj, hfind.set⟩
  · rintro b hb j ⟨hj, hbj⟩
    exact Bool.false_ne_true ((clearRun_eq hclear hj).symm.trans (hi.set b hb j hbj))

theorem Inv.allocIoPfn {found : Option Nat} (hi : Inv h s) (hf : mayFind h s 1 found = true) :
    Inv h (allocIoPfn h found s) := by
  cases found with
  | none => exact hi.find 1 none
  | some page =>
    unfold IoHole.allocIoPfn
    simp only
    split
    · exact hi.find 1 (some page)
    · exact hi.take (e := ⟨.pfn (page + h.base / pageSize), page, 1⟩) hf ⟨rfl, rfl⟩

theorem le_pagesOf {nrBytes : Nat} (hr : nrBytes ≤ 4294967296 - pageSize) :
    nrBytes ≤ pagesOf nrBytes * pageSize := by
  simp only [pagesOf, u32, pageSize] at hr ⊢
  rw [Nat.mod_eq_of_lt (by omega)]
  omega

theorem Inv.allocIoMemory {nrBytes : Nat} {found : Option Nat} (hi : Inv h s)
    (hf : mayFind h s (pagesOf nrBytes) found = true) (hr : nrBytes ≤ 4294967296 - pageSize) :
    Inv h (allocIoMemory h nrBytes found s) := by
  cases found with
  | none => exact hi.find (pagesOf nrBytes) none
  | some page =>
    exact hi.take (e := ⟨.memory (h.baseVa + page * pageSize) (h.base + page * pageSize) nrBytes, page,
      pagesOf nrBytes⟩) hf ⟨rfl, rfl, rfl, le_pagesOf hr⟩

theorem Inv.drop {handle : Handle} (hi : Inv h s) (hh : s.live.any fun e => decide (e.handle = handle)) :
    ∃ e : Allocation, e.handle = handle ∧ e.On h ∧ e.page + e.count ≤ h.nrPages ∧ Inv h (s.drop handle) ∧
      ∀ b ∈ (s.drop handle).live, ∀ j, ¬(e.Page j ∧ b.Page j) := by
  obtain ⟨a, ha, hah⟩ := List.any_eq_true.mp hh
  obtain ⟨e, l, l', hl, he, hlive, herase⟩ :=
    List.exists_of_eraseP (p := fun e => decide (e.handle = handle)) ha hah
  have hsub : (s.drop handle).live ⊆ s.live := List.eraseP_subset
  have hmem : e ∈ s.live := by
    rw [hlive]
    exact List.mem_append_right _ List.mem_cons_self
  refine ⟨e, of_decide_eq_true he, hi.on e hmem, hi.within e hmem, ?_, ?_⟩
  · exact ⟨fun b hb => hi.on b (hsub hb), fun b hb => hi.within b (hsub hb), fun b hb => hi.set b (hsub hb),
      hi.apart.sublist List.eraseP_sublist, hi.access⟩
  · intro b hb j hj
    have hpair := hi.apart
    rw [hlive, List.pairwise_append, List.pairwise_cons] at hpair
    obtain ⟨-, ⟨hright, -⟩, hleft⟩ := hpair
    change b ∈ s.live.eraseP _ at hb
    rw [herase] at hb
    rcases List.mem_append.mp hb with hb | hb
    · exact hleft b hb e List.mem_cons_self j hj.symm
    · exact hright b hb j hj

theorem Inv.clear (hi : Inv h s) (hn : e.page + e.count ≤ h.nrPages)
    (hapart : ∀ b ∈ s.live, ∀ j, ¬(e.Page j ∧ b.Page j)) : Inv h (rtlClearBits s e.page e.count) := by
  refine ⟨hi.on, hi.within, fun b hb j hj => ?_, hi.apart, Nat.max_le.mpr ⟨hi.access, hn⟩⟩
  refine (setBits_out fun hin => hapart b hb j ⟨hin, hj⟩).trans ?_
  exact hi.set b hb j hj

theorem Inv.crash (hi : Inv h s) : Inv h { s with crashed := true } :=
  ⟨hi.on, hi.within, hi.set, hi.apart, hi.access⟩

theorem u32_page (hfit : Fits h) (he : e.page + e.count ≤ h.nrPages) : u32 e.page = e.page := by
  obtain ⟨hleast, hmost, -⟩ := hfit
  rw [Hole.nrPages, Nat.max_eq_right hleast] at he
  have hlt : e.page ≤ bitmapBits := Nat.le_trans (Nat.le_add_right _ _) (Nat.le_trans he hmost)
  exact Nat.mod_eq_of_lt (Nat.lt_of_le_of_lt hlt (by decide))

theorem Inv.release (hfit : Fits h) {handle : Handle} (hi : Inv h s)
    (hh : s.live.any fun e => decide (e.handle = handle)) :
    Inv h (match handle with
      | .pfn pfn => releaseIoPfn h pfn (s.drop handle)
      | .memory va _ nrBytes => releaseIoMemory h va nrBytes (s.drop handle)) := by
  obtain ⟨e, he, hon, hle, hdrop, hapart⟩ := hi.drop hh
  have hclear := hdrop.clear hle hapart
  cases handle with
  | pfn pfn =>
    rw [Allocation.On, he] at hon
    obtain ⟨hpfn, hcount⟩ := hon
    rw [hcount] at hclear
    simp only [releaseIoPfn, hpfn, Nat.add_sub_cancel]
    rwa [u32_page hfit hle, ← hpfn]
  | memory va pa nrBytes =>
    rw [Allocation.On, he] at hon
    obtain ⟨hva, -, hcount, -⟩ := hon
    have hpage : u32 ((va - h.baseVa) / pageSize) = e.page := by
      rw [hva, Nat.add_sub_cancel_left, Nat.mul_div_cancel _ (by decide), u32_page hfit hle]
    rw [hcount] at hclear
    simp only [releaseIoMemory, hpage]
    split
    · exact hdrop.crash
    · split
      · exact hdrop.crash
      · exact hclear

theorem Inv.step {t : State} {a : Act} (hfit : Fits h) (hi : Inv h s) (hr : Rounds s a)
    (hst : IoHole.step h s a = some t) : Inv h t := by
  unfold IoHole.step at hst
  split at hst
  · cases hst
  · cases a with
    | allocIoPfn found =>
      simp only at hst
      split at hst
      · next hf =>
        cases hst
        exact hi.allocIoPfn hf
      · cases hst
    | allocIoMemory nrBytes found =>
      simp only at hst
      split at hst
      · next hf =>
        cases hst
        exact hi.allocIoMemory hf.2 hr
      · cases hst
    | release handle =>
      simp only at hst
      split at hst
      · next hh =>
        have hrel := hi.release hfit hh
        cases handle with
        | pfn pfn =>
          cases hst
          exact hrel
        | memory va pa nrBytes =>
          cases hst
          exact hrel
      · cases hst

theorem inv_reach (hfit : Fits h) (hr : (machine h).Reach Rounds s) : Inv h s := by
  have hnil : (machine h).init.live = [] := rfl
  refine hr.inv ?_ fun _ _ _ hi hok hst => hi.step hfit hok hst
  constructor
  case access => exact Nat.zero_le _
  all_goals
    rw [hnil]
    simp

theorem Allocation.On.start (hfit : Fits h) (he : e.On h) : e.start = h.base + e.page * pageSize := by
  rw [Allocation.On] at he
  rw [Allocation.start]
  cases hh : e.handle with
  | pfn pfn =>
    rw [hh] at he
    have hbase := Nat.div_mul_cancel (Nat.dvd_of_mod_eq_zero hfit.aligned)
    simp only [he.1, Nat.add_mul, hbase, Nat.add_comm]
  | memory va pa nrBytes =>
    rw [hh] at he
    exact he.2.1

theorem Allocation.On.long (he : e.On h) : e.requested ≤ e.length := by
  rw [Allocation.On] at he
  rw [Allocation.requested, Allocation.length]
  cases hh : e.handle with
  | pfn pfn =>
    rw [hh] at he
    rw [he.2]
    exact Nat.le_of_eq (Nat.one_mul pageSize).symm
  | memory va pa nrBytes =>
    rw [hh] at he
    exact he.2.2.2

theorem Allocation.On.page (hfit : Fits h) (he : e.On h) {x : Nat} (hx : e.Has x) :
    e.Page ((x - h.base) / pageSize) := by
  obtain ⟨hle, hlt⟩ := hx
  rw [Allocation.length, he.start hfit] at hlt
  rw [he.start hfit] at hle
  constructor
  · rw [Nat.le_div_iff_mul_le (by decide)]
    omega
  · rw [Nat.div_lt_iff_lt_mul (by decide), Nat.add_mul]
    omega

/-- **In a hole of 45 to 64 pages, with byte counts that can be rounded up, what is live is disjoint, long enough
and in the hole, and the bitmap is not left.** -/
theorem safe_reach (hfit : Fits h) (hr : (machine h).Reach Rounds s) : Safe h s := by
  have hi := inv_reach hfit hr
  have hpages : h.nrPages = h.nbytes / pageSize := Nat.max_eq_right hfit.least
  refine ⟨hi.apart.imp_of_mem ?_, fun e he => (hi.on e he).long, fun e he => ?_, ?_⟩
  · rintro a b ha hb hab x ⟨hxa, hxb⟩
    exact hab _ ⟨(hi.on a ha).page hfit hxa, (hi.on b hb).page hfit hxb⟩
  · have hle := hi.within e he
    have hbytes := Nat.div_mul_le_self h.nbytes pageSize
    have hmul := Nat.mul_le_mul_right pageSize (hpages ▸ hle)
    rw [Nat.add_mul] at hmul
    rw [(hi.on e he).start hfit, Allocation.length]
    omega
  · have haccess := hi.access
    rw [hpages] at haccess
    exact Nat.le_trans haccess hfit.most

/-- A hole of 48 pages. -/
def sampleHole (pages : Nat) : Hole := ⟨0xf2000000, 0x80000000, pages * pageSize, fun _ => true, false⟩

theorem safe_sample : ∃ s, (machine (sampleHole 48)).Reach Rounds s ∧ s.live.length = 1 ∧
    Safe (sampleHole 48) s := by
  have hfit : Fits (sampleHole 48) := ⟨by decide, by decide, by decide⟩
  obtain ⟨s, hr, hp⟩ := Machine.exists_reach (machine (sampleHole 48)) Rounds (fun s => s.live.length == 1)
    [.allocIoPfn (some 0), .allocIoMemory 5000 (some 1), .release (.pfn 0xf2000)] (by decide)
  exact ⟨s, hr, of_decide_eq_true hp, safe_reach hfit hr⟩

/-- A hole of 16 pages, of which 20 are given out. -/
theorem hole_of_16 : ∃ s, (machine (sampleHole 16)).Reach Rounds s ∧ ¬Safe (sampleHole 16) s := by
  obtain ⟨s, hr, hp⟩ := Machine.exists_reach (machine (sampleHole 16)) Rounds
    (fun s => s.live.any fun e => decide (0xf2000000 + 16 * pageSize < e.start + e.length))
    [.allocIoMemory (20 * pageSize) (some 0)] (by decide)
  obtain ⟨e, he, hlt⟩ := List.any_eq_true.mp hp
  exact ⟨s, hr, fun hs => Nat.not_lt.mpr (hs.inside e he).2 (of_decide_eq_true hlt)⟩

end Steps

end XcWindows.Xenutil.IoHole
