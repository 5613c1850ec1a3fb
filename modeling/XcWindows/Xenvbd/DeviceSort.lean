import Mathlib.Data.Int.Order.Basic
import XcWindows.Lib.ExchangeSort

/-!
# The order of the disks

`SortDeviceListToMatchQemu` of `xenvbd/xen.c`: an insertion sort by exchanges over three arrays, with
which the disks are numbered as qemu does it. An exchange needs the smaller device id also where a SCSI
disk and one that is not SCSI are compared, so what the code sorts by (`Disk.Below`) is an order, but a
partial one: the order of its comment is `Disk.Precedes`.
-/

namespace XcWindows.Xenvbd.DeviceSort

open Lib

/-- The three arrays. -/
structure Lists where
  devices : Nat → String
  deviceIds : Nat → Int32
  names : Nat → String

structure Disk where
  device : String
  deviceId : Int32
  name : String
deriving DecidableEq

namespace Lists

def disk (s : Lists) (i : Nat) : Disk := ⟨s.devices i, s.deviceIds i, s.names i⟩

/-- The first `n` disks. -/
def disks (s : Lists) (n : Nat) : List Disk := (List.range n).map s.disk

end Lists

/-- Major number 0x8 -/
def isScsi (deviceId : Int32) : Bool := deviceId &&& 0xff00 == 0x800

/-- The body of the inner loop. -/
def probeDisk (div : Nat) (s : Lists) (probe : Nat) : Lists :=
  if (isScsi (s.deviceIds probe) && isScsi (s.deviceIds div)) ||
      (!isScsi (s.deviceIds probe) && !isScsi (s.deviceIds div)) ||
      (isScsi (s.deviceIds probe) && !isScsi (s.deviceIds div)) then
    if s.deviceIds div < s.deviceIds probe then
      { devices := exchange s.devices probe div
        deviceIds := exchange s.deviceIds probe div
        names := exchange s.names probe div }
    else s
  else s

def sortDeviceListToMatchQemu (s : Lists) (numVbds : Nat) : Lists :=
  (List.range' 1 (numVbds - 1)).foldl (fun s div => (List.range div).foldl (probeDisk div) s) s

/-! ## Two orders -/

namespace Disk

def scsi (d : Disk) : Bool := isScsi d.deviceId

/-- What the disk at `div` has to be for an exchange with the one at `probe`. -/
def Below (c a : Disk) : Prop := c.deviceId < a.deviceId ∧ ¬(a.scsi = false ∧ c.scsi = true)

/-- What it should be: not SCSI before SCSI, and then by device id. -/
def Precedes (c a : Disk) : Prop :=
  (c.scsi = false ∧ a.scsi = true) ∨ (c.scsi = a.scsi ∧ c.deviceId < a.deviceId)

instance : DecidableRel Below := fun _ _ => inferInstanceAs (Decidable (_ ∧ _))

instance : DecidableRel Precedes := fun _ _ => inferInstanceAs (Decidable (_ ∨ _))

instance : IsStrictOrder Disk Below where
  irrefl a h := Int32.lt_irrefl h.1
  trans a b c hab hbc := by
    refine ⟨Int32.lt_trans hab.1 hbc.1, fun ⟨hc, ha⟩ => ?_⟩
    cases hb : b.scsi with
    | true => exact hbc.2 ⟨hc, hb⟩
    | false => exact hab.2 ⟨hb, ha⟩

instance : IsStrictOrder Disk Precedes where
  irrefl a h := by
    obtain ⟨h, h'⟩ | ⟨-, h⟩ := h
    · rw [h] at h'
      cases h'
    · exact Int32.lt_irrefl h
  trans a b c hab hbc := by
    obtain ⟨ha, hb⟩ | ⟨hab, hlt⟩ := hab
    · obtain ⟨hb', -⟩ | ⟨hbc, -⟩ := hbc
      · rw [hb] at hb'
        cases hb'
      · exact .inl ⟨ha, hbc ▸ hb⟩
    · obtain ⟨hb, hc⟩ | ⟨hbc, hlt'⟩ := hbc
      · exact .inl ⟨hab.trans hb, hc⟩
      · exact .inr ⟨hab.trans hbc, Int32.lt_trans hlt hlt'⟩

theorem below_iff_precedes {c a : Disk}
    (h : c.scsi = false → a.scsi = true → c.deviceId < a.deviceId) : c.Below a ↔ c.Precedes a := by
  unfold Below Precedes
  cases hc : c.scsi <;> cases ha : a.scsi <;> simp_all

theorem Below.precedes {c a : Disk} (h : c.Below a) : c.Precedes a := by
  obtain ⟨hlt, h⟩ := h
  unfold Precedes
  cases hc : c.scsi <;> cases ha : a.scsi <;> simp_all

theorem not_below_of_large {c a : Disk} (h : ¬c.deviceId < a.deviceId) : ¬c.Below a :=
  fun hlt => h hlt.1

end Disk

/-! ## The arrays and the list -/

theorem disk_exchange (s : Lists) (i j : Nat) :
    (⟨exchange s.devices i j, exchange s.deviceIds i j, exchange s.names i j⟩ : Lists).disk =
      exchange s.disk i j := by
  funext k
  simp only [Lists.disk, exchange, Function.update_apply]
  split
  · rfl
  split <;> rfl

theorem disk_probeDisk (div probe : Nat) (s : Lists) :
    (probeDisk div s probe).disk = probeStep Disk.Below div s.disk probe := by
  have hiff : ((isScsi (s.deviceIds probe) && isScsi (s.deviceIds div)) ||
      (!isScsi (s.deviceIds probe) && !isScsi (s.deviceIds div)) ||
      (isScsi (s.deviceIds probe) && !isScsi (s.deviceIds div))) = true ↔
      ¬((s.disk probe).scsi = false ∧ (s.disk div).scsi = true) := by
    simp only [Disk.scsi, Lists.disk]
    cases isScsi (s.deviceIds probe) <;> cases isScsi (s.deviceIds div) <;> simp
  unfold probeDisk probeStep
  by_cases hgroup : ¬((s.disk probe).scsi = false ∧ (s.disk div).scsi = true)
  · rw [if_pos (hiff.2 hgroup)]
    by_cases hlt : s.deviceIds div < s.deviceIds probe
    · have hbelow : (s.disk div).Below (s.disk probe) := ⟨hlt, hgroup⟩
      rw [if_pos hlt, if_pos hbelow]
      exact disk_exchange s probe div
    · have hbelow : ¬(s.disk div).Below (s.disk probe) := Disk.not_below_of_large hlt
      rw [if_neg hlt, if_neg hbelow]
  · have hbelow : ¬(s.disk div).Below (s.disk probe) := fun h => hgroup h.2
    rw [if_neg (mt hiff.1 hgroup), if_neg hbelow]

theorem disk_sort (s : Lists) (n : Nat) :
    (sortDeviceListToMatchQemu s n).disk = exchangeLoop Disk.Below n s.disk := by
  have hinner : ∀ (s : Lists) (div : Nat),
      ((List.range div).foldl (probeDisk div) s).disk = probeLoop Disk.Below s.disk div :=
    fun s div => (List.foldl_hom Lists.disk fun s probe => (disk_probeDisk div probe s).symm).symm
  exact (List.foldl_hom Lists.disk fun s div => (hinner s div).symm).symm

theorem disks_sort (s : Lists) (n : Nat) :
    (sortDeviceListToMatchQemu s n).disks n = exchangeSort Disk.Below (s.disks n) := by
  unfold Lists.disks
  rw [disk_sort]
  exact (exchangeLoop_spec n s.disk).1

/-! ## When the order is qemu's -/

/-- The disks of `l` in qemu's order. -/
structure MatchesQemu (l sorted : List Disk) : Prop where
  perm : sorted.Perm l
  ide_first : sorted.Pairwise fun a b => a.scsi = true → b.scsi = true
  ascending : sorted.Pairwise fun a b => a.scsi = b.scsi → a.deviceId ≤ b.deviceId

/-- Where a disk that is not SCSI is listed after a SCSI one, the device ids of the disks up to there
that are not SCSI are below that of the SCSI one. -/
def NoLargeIde (l : List Disk) : Prop :=
  ∀ pre x post, l = pre ++ x :: post → x.scsi = false → ∀ a ∈ pre, a.scsi = true →
    ∀ c ∈ x :: pre, c.scsi = false → c.deviceId < a.deviceId

theorem not_precedes_iff {a b : Disk} :
    ¬b.Precedes a ↔ (a.scsi = true → b.scsi = true) ∧
      (a.scsi = b.scsi → a.deviceId ≤ b.deviceId) := by
  unfold Disk.Precedes
  rw [← Int32.not_lt]
  cases a.scsi <;> cases b.scsi <;> simp

theorem matchesQemu_iff {l sorted : List Disk} :
    MatchesQemu l sorted ↔ sorted.Perm l ∧ sorted.Pairwise fun a b => ¬b.Precedes a := by
  simp only [not_precedes_iff, List.pairwise_and_iff]
  exact ⟨fun h => ⟨h.perm, h.ide_first, h.ascending⟩, fun h => ⟨h.1, h.2.1, h.2.2⟩⟩

/-- Whatever the disks, each group comes out in ascending order. -/
theorem sort_ascending (l : List Disk) :
    (exchangeSort Disk.Below l).Pairwise fun a b => a.scsi = b.scsi → a.deviceId ≤ b.deviceId := by
  have hsort : (exchangeSort Disk.Below l).Pairwise fun a b => ¬b.Below a := exchangeSort_pairwise l
  refine hsort.imp fun {a b} h hab => ?_
  rw [← Int32.not_lt]
  refine fun hlt => h ⟨hlt, ?_⟩
  rintro ⟨ha, hb⟩
  rw [ha, hb] at hab
  cases hab

theorem NoLargeIde.init {l : List Disk} {x : Disk} (h : NoLargeIde (l ++ [x])) : NoLargeIde l := by
  rintro pre y post rfl
  exact h pre y (post ++ [x]) (by simp)

theorem NoLargeIde.sort_eq {l : List Disk} (h : NoLargeIde l) :
    exchangeSort Disk.Below l = exchangeSort Disk.Precedes l := by
  induction l using List.reverseRecOn with
  | nil => rfl
  | append_singleton l x ih =>
    rw [exchangeSort_snoc, exchangeSort_snoc, ih h.init]
    have hmem : ∀ {a}, a ∈ exchangeSort Disk.Precedes l → a ∈ l := (exchangeSort_perm l).mem_iff.1
    cases hx : x.scsi with
    | true =>
      -- a SCSI disk is only ever exchanged with SCSI disks
      refine sift_congr (p := fun c => c.scsi = true) hx fun c a hc ha => ?_
      refine ⟨Disk.below_iff_precedes fun hc' => ?_, fun hlt => ?_⟩
      · rw [hc] at hc'
        cases hc'
      by_contra hne
      exact hlt.2 ⟨by simpa using hne, hc⟩
    | false =>
      refine sift_congr (p := fun c => c ∈ x :: l) (by simp) fun c a hc ha => ?_
      refine ⟨Disk.below_iff_precedes fun hc' ha' => ?_, fun _ => List.mem_cons_of_mem _ (hmem ha)⟩
      exact h l x [] rfl hx a (hmem ha) ha' c hc hc'

theorem NoLargeIde.matchesQemu {l : List Disk} (h : NoLargeIde l) :
    MatchesQemu l (exchangeSort Disk.Below l) := by
  rw [matchesQemu_iff, h.sort_eq]
  exact ⟨exchangeSort_perm l, exchangeSort_pairwise l⟩

theorem not_matchesQemu_snoc {l : List Disk} {x a c : Disk}
    (hl : MatchesQemu l (exchangeSort Disk.Below l)) (hx : x.scsi = false) (ha : a ∈ l)
    (hascsi : a.scsi = true) (hc : c ∈ x :: l) (hcscsi : c.scsi = false)
    (hlarge : ¬c.deviceId < a.deviceId) :
    ¬MatchesQemu (l ++ [x]) (exchangeSort Disk.Below (l ++ [x])) := by
  intro hsorted
  obtain ⟨hperm, hfirst, hasc⟩ := hl
  obtain ⟨b, hb⟩ : ∃ b, (exchangeSort Disk.Below l).find? Disk.scsi = some b :=
    Option.isSome_iff_exists.1 (List.find?_isSome.2 ⟨a, hperm.mem_iff.2 ha, hascsi⟩)
  obtain ⟨hbscsi, ide, scsi, heq, hide⟩ := List.find?_eq_some_iff_append.1 hb
  -- what comes out of the disks that are not SCSI is the largest of them
  have hpair : (exchangeSort Disk.Below l).Pairwise fun a b => ¬b.Below a := exchangeSort_pairwise l
  rw [heq] at hfirst hasc hpair
  obtain ⟨front, last, hfront, hsift⟩ := sift_append Disk.Below x ide (b :: scsi)
  have hmem : ∀ {e}, e ∈ front ++ [last] ↔ e ∈ x :: ide := by
    intro e
    rw [← hfront]
    exact (sift_perm x ide).mem_iff
  have hlast : last.scsi = false := by
    obtain rfl | h := List.mem_cons.1 (hmem.1 (show last ∈ front ++ [last] by simp))
    · exact hx
    · simpa using hide last h
  have hcide : c ∈ x :: ide := by
    obtain rfl | h := List.mem_cons.1 hc
    · simp
    have h := hperm.mem_iff.2 h
    rw [heq] at h
    obtain h | h := List.mem_append.1 h
    · exact List.mem_cons_of_mem _ h
    · have hcs : c.scsi = true := by
        obtain rfl | h := List.mem_cons.1 h
        · exact hbscsi
        · exact (List.pairwise_cons.1 (List.pairwise_append.1 hfirst).2.1).1 c h hbscsi
      rw [hcs] at hcscsi
      cases hcscsi
  have hclast : c.deviceId ≤ last.deviceId := by
    obtain h | h := List.mem_append.1 (hmem.2 hcide)
    · have hsorted : (sift Disk.Below x ide).Pairwise fun a b => ¬b.Below a :=
        sift_pairwise x (List.pairwise_append.1 hpair).1
      rw [hfront] at hsorted
      rw [← Int32.not_lt]
      exact fun hlt => (List.pairwise_append.1 hsorted).2.2 c h last (by simp)
        ⟨hlt, fun h => by simp [hlast] at h⟩
    · rw [List.mem_singleton.1 h]
      exact Int32.le_refl _
  -- and the first of the SCSI ones is not above it
  have hba : b.deviceId ≤ a.deviceId := by
    have h := hperm.mem_iff.2 ha
    rw [heq] at h
    obtain h | h := List.mem_append.1 h
    · have := hide a h
      simp [hascsi] at this
    obtain rfl | h := List.mem_cons.1 h
    · exact Int32.le_refl _
    · exact (List.pairwise_cons.1 (List.pairwise_append.1 hasc).2.1).1 a h (hbscsi.trans hascsi.symm)
  have hstays : ¬last.Below b := Disk.not_below_of_large fun h =>
    hlarge (Int32.lt_of_lt_of_le (Int32.lt_of_le_of_lt hclast h) hba)
  have hres := hsorted.ide_first
  rw [exchangeSort_snoc, heq, hsift, sift_cons, if_neg hstays] at hres
  have hbl := (List.pairwise_cons.1 (List.pairwise_append.1 hres).2.1).1 last
    ((sift_perm last scsi).mem_iff.2 (by simp)) hbscsi
  rw [hlast] at hbl
  cases hbl

/-- The disks that are gone over come out in qemu's order at every turn exactly when none is too
large. -/
theorem sorted_prefixes_iff (l : List Disk) :
    (∀ pre post, l = pre ++ post → MatchesQemu pre (exchangeSort Disk.Below pre)) ↔ NoLargeIde l := by
  constructor
  · rintro h pre x post rfl hx a ha hascsi c hc hcscsi
    by_contra hlarge
    exact not_matchesQemu_snoc (h pre (x :: post) rfl) hx ha hascsi hc hcscsi hlarge
      (h (pre ++ [x]) post (by simp))
  · rintro h pre post rfl
    refine NoLargeIde.matchesQemu ?_
    rintro pre' x post' rfl
    exact h pre' x (post' ++ post) (by simp)

theorem sorted_orders_iff (l : List Disk) :
    (∀ l', l'.Perm l → MatchesQemu l' (exchangeSort Disk.Below l')) ↔
      ∀ a ∈ l, ∀ c ∈ l, a.scsi = true → c.scsi = false → c.deviceId < a.deviceId := by
  constructor
  · intro h a ha c hc hascsi hcscsi
    by_contra hlarge
    have hne : a ≠ c := by
      rintro rfl
      rw [hascsi] at hcscsi
      cases hcscsi
    -- the others in qemu's order, and then the one that is too large
    let others := exchangeSort Disk.Precedes (l.erase c)
    have hothers : others.Perm (l.erase c) := exchangeSort_perm _
    have hpair : others.Pairwise fun a b => ¬b.Precedes a := exchangeSort_pairwise _
    have hself : exchangeSort Disk.Below others = others :=
      exchangeSort_eq_self (hpair.imp fun h hb => h hb.precedes)
    have hmatch : MatchesQemu others (exchangeSort Disk.Below others) :=
      matchesQemu_iff.2 ⟨by rw [hself], by rw [hself]; exact hpair⟩
    have hperm : (others ++ [c]).Perm l :=
      (List.perm_append_singleton c others).trans ((hothers.cons c).trans (List.perm_cons_erase hc).symm)
    exact not_matchesQemu_snoc hmatch hcscsi (hothers.mem_iff.2 ((List.mem_erase_of_ne hne).2 ha))
      hascsi (by simp) hcscsi hlarge (h _ hperm)
  · intro h l' hperm
    refine NoLargeIde.matchesQemu ?_
    rintro pre x post rfl - a ha hascsi c hc hcscsi
    refine h a (hperm.mem_iff.1 (by simp [ha])) c (hperm.mem_iff.1 ?_) hascsi hcscsi
    obtain rfl | hc := List.mem_cons.1 hc
    · simp
    · simp [hc]

/-! ## `SortDeviceListToMatchQemu` -/

theorem disks_take (s : Lists) {n numVbds : Nat} (hn : n ≤ numVbds) :
    (s.disks numVbds).take n = s.disks n := by
  simp [Lists.disks, ← List.map_take, List.take_range, Nat.min_eq_left hn]

theorem length_disks (s : Lists) (n : Nat) : (s.disks n).length = n := by
  simp [Lists.disks]

theorem prefix_disks_iff (s : Lists) (numVbds : Nat) (p : List Disk → Prop) :
    (∀ pre post, s.disks numVbds = pre ++ post → p pre) ↔ ∀ n ≤ numVbds, p (s.disks n) := by
  constructor
  · intro h n hn
    exact h _ ((s.disks numVbds).drop n) (by rw [← disks_take s hn, List.take_append_drop])
  · intro h pre post heq
    have hlen : pre.length ≤ numVbds := by
      have := length_disks s numVbds
      rw [heq, List.length_append] at this
      omega
    have hpre : s.disks pre.length = pre := by
      rw [← disks_take s hlen, heq, List.take_left]
    exact hpre ▸ h _ hlen

theorem exists_lists (l : List Disk) : ∃ s : Lists, s.disks l.length = l := by
  let at' := fun i => l.getD i ⟨"", 0, ""⟩
  refine ⟨⟨fun i => (at' i).device, fun i => (at' i).deviceId, fun i => (at' i).name⟩, ?_⟩
  refine List.ext_getElem (length_disks _ _) fun i _ hi => ?_
  simp [Lists.disks, Lists.disk, at', hi]

/-- The entries of the arrays stay together, and each group comes out in ascending order. The groups
come out in qemu's order, at every turn of the outer loop, exactly when no disk that is not SCSI is too
large for a SCSI one listed before; and whatever order the disks are listed in, exactly when all that are
not SCSI have ids below those of all SCSI ones. -/
theorem sort_device_list (s : Lists) (numVbds : Nat) :
    ((sortDeviceListToMatchQemu s numVbds).disks numVbds).Perm (s.disks numVbds) ∧
    ((sortDeviceListToMatchQemu s numVbds).disks numVbds).Pairwise
      (fun a b => a.scsi = b.scsi → a.deviceId ≤ b.deviceId) ∧
    ((∀ n ≤ numVbds, MatchesQemu (s.disks n) ((sortDeviceListToMatchQemu s n).disks n)) ↔
      NoLargeIde (s.disks numVbds)) ∧
    ((∀ s' : Lists, (s'.disks numVbds).Perm (s.disks numVbds) →
        MatchesQemu (s'.disks numVbds) ((sortDeviceListToMatchQemu s' numVbds).disks numVbds)) ↔
      ∀ a ∈ s.disks numVbds, ∀ c ∈ s.disks numVbds, a.scsi = true → c.scsi = false →
        c.deviceId < a.deviceId) := by
  simp only [disks_sort]
  refine ⟨exchangeSort_perm _, sort_ascending _, ?_, ?_⟩
  · rw [← sorted_prefixes_iff]
    exact (prefix_disks_iff s numVbds fun l => MatchesQemu l (exchangeSort Disk.Below l)).symm
  · rw [← sorted_orders_iff]
    refine ⟨fun h l hperm => ?_, fun h s' hperm => h _ hperm⟩
    obtain ⟨s', hs'⟩ := exists_lists l
    rw [hperm.length_eq, length_disks] at hs'
    simpa only [hs'] using h s' (by rw [hs']; exact hperm)

/-- `sda` and `hdc` -/
def sdaHdc : Lists where
  devices := fun i => if i = 0 then "device/vbd/2048" else "device/vbd/5632"
  deviceIds := fun i => if i = 0 then 0x800 else 0x1600
  names := fun i => if i = 0 then "sda" else "hdc"

/-- The SCSI disk stays in front of the other one. -/
theorem scsi_disk_first :
    (sortDeviceListToMatchQemu sdaHdc 2).disks 2 =
      [⟨"device/vbd/2048", 0x800, "sda"⟩, ⟨"device/vbd/5632", 0x1600, "hdc"⟩] ∧
    ¬MatchesQemu (sdaHdc.disks 2) ((sortDeviceListToMatchQemu sdaHdc 2).disks 2) := by
  have hsort : (sortDeviceListToMatchQemu sdaHdc 2).disks 2 =
      [⟨"device/vbd/2048", 0x800, "sda"⟩, ⟨"device/vbd/5632", 0x1600, "hdc"⟩] := by decide
  refine ⟨hsort, fun h => ?_⟩
  have hfirst := h.ide_first
  rw [hsort] at hfirst
  have hscsi : isScsi 0x1600 = true :=
    (List.pairwise_cons.1 hfirst).1 ⟨"device/vbd/5632", 0x1600, "hdc"⟩ (List.mem_singleton.2 rfl) rfl
  exact absurd hscsi (by decide)

end XcWindows.Xenvbd.DeviceSort
