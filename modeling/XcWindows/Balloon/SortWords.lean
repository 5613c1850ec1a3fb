import XcWindows.Lib.Word
import XcWindows.Balloon.Sort

/-!
# The sort over machine words

The indices of `BalloonSortPfnArray` are `ULONG`s, and `BalloonCreateHeap` counts down in a `LONG`.
Below `2^31` entries no index wraps, so that the sort is the one of `Balloon.Sort`
(`balloonSortPfnArray32_eq`). Above, the `LONG` is negative from the start, no heap is built, and the
entry that was the first ends up last (`sort_last`).
-/

namespace XcWindows.Balloon

open XcWindows.Lib

/-- `BalloonHeapPushDown`, for at most `n` turns. -/
def balloonHeapPushDown32 (count : Nat) : Nat → PfnArray → Nat → Option PfnArray
  | 0, _, _ => none
  | n + 1, heap, start =>
    let left := u32 (start * 2 + 1)
    let right := u32 (start * 2 + 2)
    if right < count then
      if heap left = heap start ∨ heap right = heap start ∨ heap left = heap right then none
      else if heap left < heap start ∧ heap right < heap start then some heap
      else if heap left < heap start ∧ heap right > heap start then
        (swapUp heap right start).bind fun heap => balloonHeapPushDown32 count n heap right
      else if heap right < heap start ∧ heap left > heap start then
        (swapUp heap left start).bind fun heap => balloonHeapPushDown32 count n heap left
      else if heap left > heap right then
        (swapUp heap left start).bind fun heap => balloonHeapPushDown32 count n heap left
      else
        (swapUp heap right start).bind fun heap => balloonHeapPushDown32 count n heap right
    else if left < count then
      if heap left = heap start then none
      else if heap left < heap start then some heap
      else (swapUp heap left start).bind fun heap => balloonHeapPushDown32 count n heap left
    else some heap

/-- Conversion to `LONG`. -/
def long (n : Nat) : Int := if n < 2147483648 then n else n - 4294967296

/-- `--Index` of a `LONG`. -/
def decLong (index : Int) : Int := if index = -2147483648 then 2147483647 else index - 1

/-- The loop of `BalloonCreateHeap`, below `index`. -/
def createHeapLoop (count : Nat) : Nat → PfnArray → Option PfnArray
  | 0, heap => some heap
  | index + 1, heap =>
    (balloonHeapPushDown32 count (count + 1) heap index).bind (createHeapLoop count index)

/-- `BalloonCreateHeap`: the first index is `--Index` of the converted `count`, the last one is 0. -/
def balloonCreateHeap32 (count : Nat) (heap : PfnArray) : Option PfnArray :=
  createHeapLoop count (decLong (long count) + 1).toNat heap

/-- The loop of `BalloonSortPfnArray`. -/
def balloonExtract32 : Nat → PfnArray → Option PfnArray
  | 0, array => some array
  | unsorted + 1, array =>
    (balloonHeapPushDown32 unsorted (unsorted + 1) (swapNodes array 0 unsorted) 0).bind
      (balloonExtract32 unsorted)

def balloonSortPfnArray32 (array : PfnArray) (count : Nat) : Option PfnArray :=
  (balloonCreateHeap32 count array).bind (balloonExtract32 count)

/-! ## No index wraps -/

section Words
variable {count : Nat}

theorem balloonHeapPushDown32_eq (hc : count < 2147483648) (n : Nat) : ∀ {heap : PfnArray} {start : Nat},
    start < 2147483647 →
    balloonHeapPushDown32 count n heap start = balloonHeapPushDown count n heap start := by
  induction n with
  | zero => exact fun _ => rfl
  | succ n ih =>
    intro heap start hs
    have hl : u32 (start * 2 + 1) = start * 2 + 1 := Nat.mod_eq_of_lt (by omega)
    have hr : u32 (start * 2 + 2) = start * 2 + 2 := Nat.mod_eq_of_lt (by omega)
    have next : ∀ child, child < count →
        ((swapUp heap child start).bind fun heap => balloonHeapPushDown32 count n heap child) =
          (swapUp heap child start).bind fun heap => balloonHeapPushDown count n heap child := by
      intro child hchild
      congr 1
      funext heap
      exact ih (by omega)
    unfold balloonHeapPushDown32 balloonHeapPushDown
    simp only [hl, hr]
    split
    · next hright => rw [next _ hright, next (start * 2 + 1) (by omega)]
    · split
      · next hleft => rw [next _ hleft]
      · rfl

theorem createHeapLoop_eq (hc : count < 2147483648) (index : Nat) : ∀ {heap : PfnArray},
    index ≤ count → createHeapLoop count index heap = balloonCreateHeap count index heap := by
  induction index with
  | zero => exact fun _ => rfl
  | succ index ih =>
    intro heap hle
    rw [createHeapLoop, balloonCreateHeap, balloonHeapPushDown32_eq hc _ (by omega)]
    congr 1
    funext heap
    exact ih (by omega)

theorem balloonExtract32_eq (unsorted : Nat) (hc : unsorted < 2147483648) : ∀ {array : PfnArray},
    balloonExtract32 unsorted array = balloonExtract unsorted array := by
  induction unsorted with
  | zero => exact rfl
  | succ unsorted ih =>
    intro array
    rw [balloonExtract32, balloonExtract, balloonHeapPushDown32_eq (by omega) _ (by omega)]
    congr 1
    funext heap
    exact ih (by omega)

theorem balloonSortPfnArray32_eq (hc : count < 2147483648) (array : PfnArray) :
    balloonSortPfnArray32 array count = balloonSortPfnArray array count := by
  have hturns : (decLong (long count) + 1).toNat = count := by
    rw [long, if_pos hc, decLong, if_neg (by omega)]
    omega
  rw [balloonSortPfnArray32, balloonSortPfnArray, balloonCreateHeap32, hturns,
    createHeapLoop_eq hc count (Nat.le_refl _)]
  congr 1
  funext heap
  exact balloonExtract32_eq count hc

/-- Distinct frames, fewer than `2^31`, are sorted; the loops end and no assertion fails. -/
theorem sort_words {array : PfnArray} (hc : count < 2147483648) (hd : Distinct count array) :
    ∃ sorted, balloonSortPfnArray32 array count = some sorted ∧
      (contents sorted count).Pairwise (· < ·) ∧
      (contents sorted count).Perm (contents array count) := by
  rw [balloonSortPfnArray32_eq hc]
  exact balloonSortPfnArray_spec hd

/-- Three frames. -/
theorem sort_words_three : ∃ sorted, balloonSortPfnArray32 (fun i => 10 - i) 3 = some sorted ∧
    (contents sorted 3).Pairwise (· < ·) ∧ (contents sorted 3).Perm [10, 9, 8] :=
  @sort_words 3 (fun i => 10 - i) (by decide) fun i j hi hj he => by simp only at he; omega

/-! ## More than `2^31` entries -/

theorem balloonHeapPushDown32_frame {i : Nat} (hi : count ≤ i) (hlast : i ≠ 4294967295) (n : Nat) :
    ∀ {heap b : PfnArray} {start : Nat}, start ≠ i →
    balloonHeapPushDown32 count n heap start = some b → b i = heap i := by
  induction n with
  | zero => intro heap b start _ h; cases h
  | succ n ih =>
    intro heap b start hs h
    have next : ∀ child, child ≠ i →
        ((swapUp heap child start).bind fun heap => balloonHeapPushDown32 count n heap child) = some b →
          b i = heap i := by
      intro child hchild h
      obtain ⟨heap', h1, h2⟩ := Option.bind_eq_some_iff.mp h
      rw [ih hchild h2]
      unfold swapUp at h1
      simp only at h1
      split at h1
      · cases h1
        rw [swapNodes, if_neg (Ne.symm hchild), if_neg (Ne.symm hs)]
      · cases h1
    unfold balloonHeapPushDown32 at h
    simp only at h
    split at h
    · next hright =>
      have hr : u32 (start * 2 + 2) ≠ i := by omega
      have hl : u32 (start * 2 + 1) ≠ i := by simp only [u32] at *; omega
      split at h
      · cases h
      split at h
      · cases h; rfl
      split at h
      · exact next _ hr h
      split at h
      · exact next _ hl h
      split at h
      · exact next _ hl h
      · exact next _ hr h
    · split at h
      · next hleft =>
        split at h
        · cases h
        split at h
        · cases h; rfl
        · exact next _ (by omega) h
      · cases h; rfl

theorem balloonExtract32_frame {i : Nat} (h0 : i ≠ 0) (hlast : i ≠ 4294967295) (unsorted : Nat) :
    ∀ {array b : PfnArray}, unsorted ≤ i → balloonExtract32 unsorted array = some b → b i = array i := by
  induction unsorted with
  | zero => intro array b _ h; cases h; rfl
  | succ unsorted ih =>
    intro array b hle h
    obtain ⟨heap, h1, h2⟩ := Option.bind_eq_some_iff.mp h
    rw [ih (by omega) h2, balloonHeapPushDown32_frame (by omega) hlast _ (Ne.symm h0) h1, swapNodes,
      if_neg h0, if_neg (by omega)]

theorem sort_last {array b : PfnArray} (h1 : 2147483648 < count) (h2 : count < 4294967296)
    (h : balloonSortPfnArray32 array count = some b) : b (count - 1) = array 0 := by
  have hturns : (decLong (long count) + 1).toNat = 0 := by
    rw [long, if_neg (by omega), decLong, if_neg (by omega)]
    omega
  rw [balloonSortPfnArray32, balloonCreateHeap32, hturns, createHeapLoop, Option.bind_some] at h
  obtain ⟨u, rfl⟩ : ∃ u, count = u + 1 := ⟨count - 1, by omega⟩
  obtain ⟨heap, h3, h4⟩ := Option.bind_eq_some_iff.mp h
  rw [Nat.add_sub_cancel, balloonExtract32_frame (by omega) (by omega) u (Nat.le_refl _) h4,
    balloonHeapPushDown32_frame (Nat.le_refl _) (by omega) _ (by omega) h3, swapNodes,
    if_neg (by omega), if_pos rfl]

theorem not_sorted_of_last {b : PfnArray} (h1 : 1 < count) (h0 : b (count - 1) = 0) :
    ¬ (contents b count).Pairwise (· < ·) := by
  intro h
  rw [contents, List.pairwise_map] at h
  have := List.pairwise_iff_getElem.mp h 0 (count - 1) (by simp; omega) (by simp; omega) (by omega)
  rw [List.getElem_range, List.getElem_range, h0] at this
  exact Nat.not_lt_zero _ this

/-- The ascending array of `2^31 + 1` entries is not sorted. -/
theorem sort_words_fails : Distinct 2147483649 id ∧
    ¬ ∃ sorted, balloonSortPfnArray32 id 2147483649 = some sorted ∧
      (contents sorted 2147483649).Pairwise (· < ·) ∧
      (contents sorted 2147483649).Perm (contents id 2147483649) := by
  refine ⟨fun i j _ _ he => he, ?_⟩
  rintro ⟨b, h1, h2, -⟩
  exact not_sorted_of_last (by decide) (sort_last (by decide) (by decide) h1) h2

end Words

end XcWindows.Balloon
