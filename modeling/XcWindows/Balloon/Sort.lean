import Mathlib.Logic.Equiv.Basic
import Mathlib.Data.List.Nodup
import Mathlib.Data.List.Perm.Basic

/-!
# Sorting the array of page frame numbers

`xenutil/balloon.c` sorts the frames Windows hands out with a heap sort. An array is a function of
the index. `none` is a failed assertion: all of them hold when the frames are distinct
(`balloonSortPfnArray_spec`).
-/

namespace XcWindows.Balloon

/-- A `PFN_NUMBER` array. -/
abbrev PfnArray := Nat → Nat

def swapNodes (heap : PfnArray) (x y : Nat) : PfnArray :=
  fun i => if i = x then heap y else if i = y then heap x else heap i

/-- Swap a child with its parent, and assert that the parent is now the larger. -/
def swapUp (heap : PfnArray) (child start : Nat) : Option PfnArray :=
  let heap := swapNodes heap child start
  if heap child < heap start then some heap else none

/-- `BalloonHeapPushDown`, for at most `n` turns. -/
def balloonHeapPushDown (count : Nat) : Nat → PfnArray → Nat → Option PfnArray
  | 0, _, _ => none
  | n + 1, heap, start =>
    let left := start * 2 + 1
    let right := start * 2 + 2
    if right < count then
      if heap left = heap start ∨ heap right = heap start ∨ heap left = heap right then none
      else if heap left < heap start ∧ heap right < heap start then some heap
      else if heap left < heap start ∧ heap right > heap start then
        (swapUp heap right start).bind fun heap => balloonHeapPushDown count n heap right
      else if heap right < heap start ∧ heap left > heap start then
        (swapUp heap left start).bind fun heap => balloonHeapPushDown count n heap left
      else if heap left > heap right then
        (swapUp heap left start).bind fun heap => balloonHeapPushDown count n heap left
      else
        (swapUp heap right start).bind fun heap => balloonHeapPushDown count n heap right
    else if left < count then
      if heap left = heap start then none
      else if heap left < heap start then some heap
      else (swapUp heap left start).bind fun heap => balloonHeapPushDown count n heap left
    else some heap

/-- The loop of `BalloonCreateHeap`, below `index`. -/
def balloonCreateHeap (count : Nat) : Nat → PfnArray → Option PfnArray
  | 0, heap => some heap
  | index + 1, heap =>
    (balloonHeapPushDown count (count + 1) heap index).bind (balloonCreateHeap count index)

/-- The loop of `BalloonSortPfnArray`. -/
def balloonExtract : Nat → PfnArray → Option PfnArray
  | 0, array => some array
  | unsorted + 1, array =>
    (balloonHeapPushDown unsorted (unsorted + 1) (swapNodes array 0 unsorted) 0).bind
      (balloonExtract unsorted)

def balloonSortPfnArray (array : PfnArray) (count : Nat) : Option PfnArray :=
  (balloonCreateHeap count count array).bind (balloonExtract count)

/-- The first `n` entries. -/
def contents (array : PfnArray) (n : Nat) : List Nat := (List.range n).map array

/-! ## Rearrangements -/

/-- `b` is `a` with its first `n` entries rearranged. -/
def Rearr (n : Nat) (a b : PfnArray) : Prop :=
  ∃ p : Equiv.Perm Nat, (∀ i, n ≤ i → p i = i) ∧ b = a ∘ p

section Rearr
variable {n m : Nat} {a b c : PfnArray}

theorem Rearr.refl (n : Nat) (a : PfnArray) : Rearr n a a := ⟨Equiv.refl _, fun _ _ => rfl, rfl⟩

theorem Rearr.trans (h : Rearr n a b) (h' : Rearr n b c) : Rearr n a c := by
  obtain ⟨p, hp, rfl⟩ := h
  obtain ⟨q, hq, rfl⟩ := h'
  refine ⟨q.trans p, fun i hi => ?_, rfl⟩
  rw [Equiv.trans_apply, hq i hi, hp i hi]

theorem Rearr.mono (h : Rearr n a b) (hle : n ≤ m) : Rearr m a b := by
  obtain ⟨p, hp, rfl⟩ := h
  exact ⟨p, fun i hi => hp i (by omega), rfl⟩

theorem rearr_swapNodes {x y : Nat} (hx : x < n) (hy : y < n) : Rearr n a (swapNodes a x y) := by
  refine ⟨Equiv.swap x y, fun i hi => Equiv.swap_apply_of_ne_of_ne (by omega) (by omega), ?_⟩
  funext i
  simp only [swapNodes, Function.comp_apply, Equiv.swap_apply_def]
  split
  · rfl
  · split <;> rfl

theorem Rearr.above (h : Rearr n a b) {i : Nat} (hi : n ≤ i) : b i = a i := by
  obtain ⟨p, hp, rfl⟩ := h
  rw [Function.comp_apply, hp i hi]

theorem Rearr.below (h : Rearr n a b) {i : Nat} (hi : i < n) : ∃ j, j < n ∧ b i = a j := by
  obtain ⟨p, hp, rfl⟩ := h
  refine ⟨p i, ?_, rfl⟩
  by_contra hc
  have := p.injective (hp (p i) (by omega))
  omega

theorem Rearr.perm (h : Rearr n a b) : (contents b n).Perm (contents a n) := by
  obtain ⟨p, hp, rfl⟩ := h
  have hr : ((List.range n).map p).Perm (List.range n) := by
    rw [List.perm_ext_iff_of_nodup (List.nodup_range.map p.injective) List.nodup_range]
    intro x
    simp only [List.mem_map, List.mem_range]
    constructor
    · rintro ⟨i, hi, rfl⟩
      by_contra hc
      have := p.injective (hp (p i) (by omega))
      omega
    · intro hx
      refine ⟨p.symm x, ?_, p.apply_symm_apply x⟩
      by_contra hc
      have := hp (p.symm x) (by omega)
      rw [p.apply_symm_apply] at this
      omega
  have := hr.map a
  rwa [List.map_map] at this

/-- The first `n` entries are distinct. -/
def Distinct (n : Nat) (a : PfnArray) : Prop := ∀ i j, i < n → j < n → a i = a j → i = j

theorem Rearr.distinct (h : Rearr n a b) (hd : Distinct n a) : Distinct n b := by
  obtain ⟨p, hp, rfl⟩ := h
  have hlt : ∀ i, i < n → p i < n := by
    intro i hi
    by_contra hc
    have := p.injective (hp (p i) (by omega))
    omega
  exact fun i j hi hj e => p.injective (hd _ _ (hlt i hi) (hlt j hj) e)

end Rearr

/-! ## Heaps -/

/-- `j` is a child of `i`. -/
def Child (i j : Nat) : Prop := j = i * 2 + 1 ∨ j = i * 2 + 2

/-- From `k` on, parents are larger than their children. -/
def HeapFrom (k count : Nat) (a : PfnArray) : Prop :=
  ∀ i j, k ≤ i → Child i j → j < count → a j < a i

/-- As `HeapFrom`, but the entry at `s` may be too small. -/
structure Hole (k count : Nat) (a : PfnArray) (s : Nat) : Prop where
  from_le : k ≤ s
  other : ∀ i j, k ≤ i → i ≠ s → Child i j → j < count → a j < a i
  /-- The children of the hole are smaller than its parent. -/
  grand : ∀ i j, k ≤ i → Child i s → Child s j → j < count → a j < a i

section Heap
variable {k count : Nat} {a : PfnArray} {s : Nat}

theorem Hole.close (h : Hole k count a s) (hs : ∀ j, Child s j → j < count → a j < a s) :
    HeapFrom k count a := by
  intro i j hk hc hj
  by_cases he : i = s
  · subst he; exact hs j hc hj
  · exact h.other i j hk he hc hj

theorem Hole.move (h : Hole k count a s) {c : Nat} (hc : Child s c) (hcc : c < count)
    (hlt : a s < a c) (hmax : ∀ j, Child s j → j < count → j ≠ c → a j < a c) :
    Hole k count (swapNodes a c s) c := by
  have hsc : s < c := by rcases hc with rfl | rfl <;> omega
  have hk := h.from_le
  constructor
  case from_le => omega
  case other =>
    intro i j hki hic hcj hj
    simp only [swapNodes, if_neg hic]
    by_cases hjc : j = c
    · -- `c` is a child of `s` only
      have his : i = s := by subst hjc; unfold Child at hc hcj; omega
      rw [if_pos hjc, if_pos his]; exact hlt
    rw [if_neg hjc]
    by_cases hjs : j = s
    · have his : i ≠ s := by unfold Child at hcj; omega
      rw [if_pos hjs, if_neg his]
      exact h.grand i c hki (hjs ▸ hcj) hc hcc
    · rw [if_neg hjs]
      by_cases his : i = s
      · rw [if_pos his]; exact hmax j (his ▸ hcj) hj hjc
      · rw [if_neg his]; exact h.other i j hki his hcj hj
  case grand =>
    intro i j hki hci hcj hj
    have his : i = s := by unfold Child at hc hci; omega
    have hjne : j ≠ c ∧ j ≠ s := by unfold Child at hcj hc; omega
    have hne : s ≠ c := by omega
    simp only [swapNodes, if_neg hjne.1, if_neg hjne.2, his, if_neg hne, if_true]
    exact h.other c j (by omega) (by omega) hcj hj

theorem HeapFrom.root_max (h : HeapFrom 0 count a) : ∀ i, i < count → a i ≤ a 0 := by
  intro i
  induction i using Nat.strongRecOn with
  | ind i ih =>
    intro hi
    cases i with
    | zero => exact Nat.le_refl _
    | succ i =>
      have hc : Child (i / 2) (i + 1) := by unfold Child; omega
      have h1 := h (i / 2) (i + 1) (Nat.zero_le _) hc hi
      have h2 := ih (i / 2) (by omega) (by omega)
      omega

theorem swapUp_spec {c : Nat} (hne : s ≠ c) (hlt : a s < a c) :
    swapUp a c s = some (swapNodes a c s) := by
  unfold swapUp
  simp only
  rw [if_pos]
  simpa [swapNodes, hne] using hlt

theorem balloonHeapPushDown_spec (n : Nat) : ∀ {a : PfnArray} {s : Nat}, Distinct count a →
    Hole k count a s → count < n + s ∧ 0 < n →
    ∃ b, balloonHeapPushDown count n a s = some b ∧ HeapFrom k count b ∧ Rearr count a b := by
  induction n with
  | zero => intro a s _ _ hn; omega
  | succ n ih =>
    intro a s hd hh hn
    -- the loop goes on with the child `c`, the larger one
    have go : ∀ c, Child s c → c < count → a s < a c →
        (∀ j, Child s j → j < count → j ≠ c → a j < a c) →
        ∃ b, ((swapUp a c s).bind fun heap => balloonHeapPushDown count n heap c) = some b ∧
          HeapFrom k count b ∧ Rearr count a b := by
      intro c hc hcc hlt hmax
      have hsc : s < c := by unfold Child at hc; omega
      have hr : Rearr count a (swapNodes a c s) := rearr_swapNodes hcc (by omega)
      obtain ⟨b, h1, h2, h3⟩ := ih (hr.distinct hd) (hh.move hc hcc hlt hmax) (by omega)
      rw [swapUp_spec (by omega) hlt, Option.bind_some]
      exact ⟨b, h1, h2, hr.trans h3⟩
    have stop : (∀ j, Child s j → j < count → a j < a s) →
        ∃ b, some a = some b ∧ HeapFrom k count b ∧ Rearr count a b :=
      fun hs => ⟨a, rfl, hh.close hs, Rearr.refl _ _⟩
    unfold balloonHeapPushDown
    simp only
    split
    · next hr =>
      have hls : a (s * 2 + 1) ≠ a s := fun e => by have := hd _ _ (by omega) (by omega) e; omega
      have hrs : a (s * 2 + 2) ≠ a s := fun e => by have := hd _ _ (by omega) (by omega) e; omega
      have hlr : a (s * 2 + 1) ≠ a (s * 2 + 2) := fun e => by
        have := hd _ _ (by omega) (by omega) e; omega
      rw [if_neg (by simp [hls, hrs, hlr])]
      split
      · next hc => exact stop fun j hj _ => by rcases hj with rfl | rfl <;> omega
      split
      · next hc =>
        exact go _ (.inr rfl) hr hc.2 fun j hj _ hne => by rcases hj with rfl | rfl <;> omega
      split
      · next hc =>
        exact go _ (.inl rfl) (by omega) hc.2 fun j hj _ hne => by
          rcases hj with rfl | rfl <;> omega
      split
      · next hc =>
        exact go _ (.inl rfl) (by omega) (by omega) fun j hj _ hne => by
          rcases hj with rfl | rfl <;> omega
      · next hc =>
        exact go _ (.inr rfl) hr (by omega) fun j hj _ hne => by
          rcases hj with rfl | rfl <;> omega
    · next hr =>
      split
      · next hl =>
        have hls : a (s * 2 + 1) ≠ a s := fun e => by have := hd _ _ (by omega) (by omega) e; omega
        rw [if_neg hls]
        split
        · next hc => exact stop fun j hj _ => by rcases hj with rfl | rfl <;> omega
        · next hc =>
          exact go _ (.inl rfl) hl (by omega) fun j hj _ hne => by
            rcases hj with rfl | rfl <;> omega
      · next hl => exact stop fun j hj _ => by rcases hj with rfl | rfl <;> omega

theorem balloonCreateHeap_spec (index : Nat) : ∀ {a : PfnArray}, Distinct count a →
    HeapFrom index count a →
    ∃ b, balloonCreateHeap count index a = some b ∧ HeapFrom 0 count b ∧ Rearr count a b := by
  induction index with
  | zero => exact fun {a} _ h => ⟨a, rfl, h, Rearr.refl _ _⟩
  | succ index ih =>
    intro a hd h
    have hh : Hole index count a index := by
      refine ⟨Nat.le_refl _, fun i j hk hne => h i j (by omega), fun i j hk hc => ?_⟩
      unfold Child at hc; omega
    obtain ⟨b, h1, h2, h3⟩ := balloonHeapPushDown_spec (count + 1) hd hh (by omega)
    obtain ⟨c, h4, h5, h6⟩ := ih (h3.distinct hd) h2
    exact ⟨c, by rw [balloonCreateHeap, h1]; exact h4, h5, h3.trans h6⟩

/-- From `u` on, below `count`, the array ascends, and nothing before `u` is larger. -/
def SortedFrom (u count : Nat) (a : PfnArray) : Prop :=
  ∀ i j, i < j → u ≤ j → j < count → a i < a j

theorem balloonExtract_spec (u : Nat) : ∀ {a : PfnArray}, u ≤ count → Distinct count a →
    HeapFrom 0 u a → SortedFrom u count a →
    ∃ b, balloonExtract u a = some b ∧ SortedFrom 0 count b ∧ Rearr count a b := by
  induction u with
  | zero => exact fun {a} _ _ _ h => ⟨a, rfl, h, Rearr.refl _ _⟩
  | succ u ih =>
    intro a hu hd hheap hs
    have hr0 : Rearr (u + 1) a (swapNodes a 0 u) := rearr_swapNodes (by omega) (by omega)
    have hd0 := (hr0.mono hu).distinct hd
    have hh : Hole 0 u (swapNodes a 0 u) 0 := by
      refine ⟨Nat.le_refl _, fun i j _ hi hc hj => ?_, fun i j _ hc => ?_⟩
      · have hij : j ≠ 0 ∧ i ≠ 0 ∧ j ≠ u ∧ i ≠ u := by unfold Child at hc; omega
        simp only [swapNodes, if_neg hij.1, if_neg hij.2.1, if_neg hij.2.2.1, if_neg hij.2.2.2]
        exact hheap i j (Nat.zero_le _) hc (by omega)
      · unfold Child at hc; omega
    have hdu : Distinct u (swapNodes a 0 u) :=
      fun i j hi hj => hd0 i j (by omega) (by omega)
    obtain ⟨b, h1, h2, h3⟩ := balloonHeapPushDown_spec (u + 1) hdu hh (by omega)
    have hr1 : Rearr (u + 1) a b := hr0.trans (h3.mono (by omega))
    have hdb := (hr1.mono hu).distinct hd
    -- the largest of the heap is now at `u`
    have hmax : ∀ i, i < u → b i < b u := by
      intro i hi
      have hbu : b u = a 0 := by
        rw [h3.above (Nat.le_refl u)]
        by_cases h0 : u = 0 <;> simp [swapNodes, h0]
      obtain ⟨j, hj, e⟩ := hr1.below (i := i) (by omega)
      have hle := hheap.root_max j hj
      have hne : b i ≠ b u := fun e => by have := hdb i u (by omega) (by omega) e; omega
      omega
    have hs1 : SortedFrom u count b := by
      intro i j hij huj hj
      rcases Nat.eq_or_lt_of_le huj with rfl | huj
      · exact hmax i hij
      · rw [hr1.above (i := j) (by omega)]
        by_cases hi : i < u + 1
        · obtain ⟨i', hi', e⟩ := hr1.below hi
          rw [e]; exact hs i' j (by omega) (by omega) hj
        · rw [hr1.above (by omega)]; exact hs i j hij (by omega) hj
    obtain ⟨c, h4, h5, h6⟩ := ih (by omega) hdb h2 hs1
    exact ⟨c, by rw [balloonExtract, h1]; exact h4, h5, (hr1.mono hu).trans h6⟩

end Heap

theorem balloonSortPfnArray_spec {a : PfnArray} {count : Nat} (hd : Distinct count a) :
    ∃ b, balloonSortPfnArray a count = some b ∧ (contents b count).Pairwise (· < ·) ∧
      (contents b count).Perm (contents a count) := by
  obtain ⟨b, h1, h2, h3⟩ := balloonCreateHeap_spec count hd fun i j hi hc hj => by
    unfold Child at hc; omega
  obtain ⟨c, h4, h5, h6⟩ := balloonExtract_spec count (Nat.le_refl _) (h3.distinct hd) h2
    fun i j _ hu hj => by omega
  refine ⟨c, by rw [balloonSortPfnArray, h1]; exact h4, ?_, (h3.trans h6).perm⟩
  rw [contents, List.pairwise_map]
  exact List.pairwise_lt_range.imp_of_mem fun _ hb hlt =>
    h5 _ _ hlt (Nat.zero_le _) (List.mem_range.mp hb)

end XcWindows.Balloon
