import Mathlib.Data.Fintype.Basic
import Mathlib.Data.Finset.Card
import Mathlib.Data.Fintype.Card
import Mathlib.Data.Nat.Count

/-!
# How many of finitely many

`num f` is the number of indices at which `f` is true. A step of one of finitely many parties
changes `f` at one index, and so the number by one or not at all. The same for the first `n` of
parties that are numbered (`Nat.count`).
-/

namespace XcWindows.Lib

variable {ι : Type} [Fintype ι]

/-- The number of indices at which `f` is true. -/
def num (f : ι → Bool) : Nat := (Finset.univ.filter fun x => f x = true).card

variable {f g : ι → Bool} {c : ι}

theorem num_congr (h : ∀ x, g x = f x) : num g = num f := by
  rw [funext h]

theorem num_eq_zero : num f = 0 ↔ ∀ x, f x = false := by
  simp [num, Finset.filter_eq_empty_iff]

theorem num_of_all (h : ∀ x, f x = true) : num f = Fintype.card ι := by
  simp [num, h]

/-- The indices of two kinds. -/
theorem num_or {h : ι → Bool} (he : ∀ x, f x = (g x || h x)) (hd : ∀ x, g x = true → h x = false) :
    num f = num g + num h := by
  classical
  have hsplit : (Finset.univ.filter fun x => f x = true) =
      (Finset.univ.filter fun x => g x = true) ∪ Finset.univ.filter fun x => h x = true := by
    ext x
    simp [he]
  rw [num, num, num, hsplit, Finset.card_union_of_disjoint]
  rw [Finset.disjoint_filter]
  intro x _ hg hh
  rw [hd x hg] at hh
  cases hh

variable [DecidableEq ι]

/-- One index is no longer counted. -/
theorem num_off (hf : f c = true) (hg : g c = false) (h : ∀ x, x ≠ c → g x = f x) :
    num g + 1 = num f := by
  have hmem : c ∈ Finset.univ.filter fun x => f x = true := by simp [hf]
  have heq : (Finset.univ.filter fun x => g x = true) =
      (Finset.univ.filter fun x => f x = true).erase c := by
    ext x
    simp only [Finset.mem_filter, Finset.mem_univ, true_and, Finset.mem_erase]
    by_cases hx : x = c
    · subst hx; simp [hg]
    · simp [h x hx, hx]
  rw [num, num, heq, Finset.card_erase_add_one hmem]

theorem num_on (hf : f c = false) (hg : g c = true) (h : ∀ x, x ≠ c → g x = f x) :
    num g = num f + 1 :=
  (num_off hg hf fun x hx => (h x hx).symm).symm

section Count
variable {p q : Nat → Prop} [DecidablePred p] [DecidablePred q] {n i : Nat}

theorem count_congr (h : ∀ x, x < n → (q x ↔ p x)) : Nat.count q n = Nat.count p n := by
  rw [Nat.count_eq_card_filter_range, Nat.count_eq_card_filter_range]
  congr 1
  exact Finset.filter_congr fun x hx => h x (Finset.mem_range.mp hx)

theorem count_ne_zero (hi : i < n) (hp : p i) : Nat.count p n ≠ 0 := by
  rw [Nat.count_eq_card_filter_range]
  exact Finset.card_ne_zero_of_mem (Finset.mem_filter.mpr ⟨Finset.mem_range.mpr hi, hp⟩)

theorem count_on (hi : i < n) (hp : ¬ p i) (hq : q i) (h : ∀ x, x ≠ i → (q x ↔ p x)) :
    Nat.count q n = Nat.count p n + 1 := by
  rw [Nat.count_eq_card_filter_range, Nat.count_eq_card_filter_range]
  have hins : (Finset.range n).filter q = insert i ((Finset.range n).filter p) := by
    ext x
    by_cases hx : x = i
    · subst hx
      simp [hi, hq]
    · simp [h x hx, hx]
  rw [hins, Finset.card_insert_of_notMem (by simp [hp])]

theorem count_off (hi : i < n) (hp : p i) (hq : ¬ q i) (h : ∀ x, x ≠ i → (q x ↔ p x)) :
    Nat.count q n + 1 = Nat.count p n :=
  (count_on hi hq hp fun x hx => (h x hx).symm).symm

end Count

end XcWindows.Lib
