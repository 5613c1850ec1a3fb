import Mathlib.Algebra.BigOperators.Intervals
import Mathlib.Logic.Function.Basic

/-!
# One's complement sums

The sum of the words of a range of bytes, low byte first, and the 16 bits that its end-around carries leave.
A range that is cut in front of an even number of its bytes has the sum of its parts.
-/

namespace XcWindows.Lib

open Function (update update_of_ne update_self)

/-- Where bytes are, by their addresses. -/
abbrev Bytes := Nat → UInt8

/-- The word at an address. -/
def word (m : Bytes) (p : Nat) : Nat := (m p).toNat + 256 * (m (p + 1)).toNat

/-- Store a word. -/
def put16 (m : Bytes) (p v : Nat) : Bytes :=
  update (update m p (UInt8.ofNat v)) (p + 1) (UInt8.ofNat (v / 256))

theorem put16_other {m : Bytes} {p q v : Nat} (h : q ≠ p) (h' : q ≠ p + 1) : put16 m p v q = m q := by
  rw [put16, update_of_ne h', update_of_ne h]

theorem word_put16 {m : Bytes} {p v : Nat} (h : v < 65536) : word (put16 m p v) p = v := by
  have hne : p ≠ p + 1 := Nat.ne_of_lt (Nat.lt_succ_self p)
  rw [word, put16, update_self, update_of_ne hne, update_self,
    UInt8.toNat_ofNat', UInt8.toNat_ofNat']
  omega

theorem put16_put16 (m : Bytes) (p v v' : Nat) : put16 (put16 m p v) p v' = put16 m p v' := by
  funext q
  by_cases h' : q = p + 1
  · subst h'
    simp only [put16, update_self]
  · by_cases h : q = p
    · subst h
      have hne : q ≠ q + 1 := Nat.ne_of_lt (Nat.lt_succ_self q)
      simp only [put16, update_of_ne hne, update_self]
    · simp only [put16_other h h']

theorem word_lt (m : Bytes) (p : Nat) : word m p < 65536 := by
  have := (m p).toNat_lt
  have := (m (p + 1)).toNat_lt
  simp only [word]
  omega

theorem word_congr {m m' : Bytes} {p : Nat} (h : m p = m' p) (h' : m (p + 1) = m' (p + 1)) :
    word m p = word m' p := by
  rw [word, word, h, h']

/-! ## Sums over a range -/

/-- The sum of the words of `n` bytes from `p` on; a last byte alone is the low one of its word. -/
def bytesSum (m : Bytes) (p n : Nat) : Nat :=
  ∑ i ∈ Finset.range n, (if i % 2 = 0 then 1 else 256) * (m (p + i)).toNat

theorem bytesSum_zero (m : Bytes) (p : Nat) : bytesSum m p 0 = 0 := rfl

theorem bytesSum_add (m : Bytes) (p : Nat) {a : Nat} (b : Nat) (h : a % 2 = 0) :
    bytesSum m p (a + b) = bytesSum m p a + bytesSum m (p + a) b := by
  rw [bytesSum, Finset.sum_range_add]
  congr 1
  refine Finset.sum_congr rfl fun i _ => ?_
  rw [Nat.add_assoc, Nat.add_mod, h, Nat.zero_add, Nat.mod_mod]

theorem bytesSum_two (m : Bytes) (p : Nat) : bytesSum m p 2 = word m p := by
  simp [bytesSum, word, Finset.sum_range_succ]

theorem bytesSum_succ (m : Bytes) (p : Nat) {n : Nat} (h : n % 2 = 0) :
    bytesSum m p (n + 1) = bytesSum m p n + (m (p + n)).toNat := by
  rw [bytesSum_add m p 1 h]
  simp [bytesSum]

theorem bytesSum_congr {m m' : Bytes} {p n : Nat} (h : ∀ i < n, m (p + i) = m' (p + i)) :
    bytesSum m p n = bytesSum m' p n := by
  refine Finset.sum_congr rfl fun i hi => ?_
  rw [h i (Finset.mem_range.mp hi)]

theorem bytesSum_le (m : Bytes) (p n : Nat) : bytesSum m p n ≤ 65280 * n := by
  induction n with
  | zero => exact Nat.le_refl _
  | succ n ih =>
    have hbyte := (m (p + n)).toNat_lt
    have hterm : (if n % 2 = 0 then 1 else 256) * (m (p + n)).toNat ≤ 65280 := by
      split
      all_goals omega
    rw [bytesSum, Finset.sum_range_succ]
    simp only [bytesSum] at ih
    omega

theorem bytesSum_word (m : Bytes) (p : Nat) {k n : Nat} (hk : k % 2 = 0) (hn : k + 2 ≤ n) :
    bytesSum m p n = bytesSum m p k + word m (p + k) + bytesSum m (p + k + 2) (n - (k + 2)) := by
  obtain ⟨r, rfl⟩ := Nat.exists_eq_add_of_le hn
  rw [bytesSum_add m p r (by omega), bytesSum_add m p 2 hk, bytesSum_two, Nat.add_sub_cancel_left,
    ← Nat.add_assoc p k 2]

theorem bytesSum_put16 (m : Bytes) (p : Nat) {k n v : Nat} (hk : k % 2 = 0) (hn : k + 2 ≤ n) (hv : v < 65536) :
    bytesSum (put16 m (p + k) v) p n + word m (p + k) = bytesSum m p n + v := by
  have hleft : bytesSum (put16 m (p + k) v) p k = bytesSum m p k :=
    bytesSum_congr fun i hi => put16_other (by omega) (by omega)
  have hright : bytesSum (put16 m (p + k) v) (p + k + 2) (n - (k + 2)) =
      bytesSum m (p + k + 2) (n - (k + 2)) :=
    bytesSum_congr fun i _ => put16_other (by omega) (by omega)
  rw [bytesSum_word (put16 m (p + k) v) p hk hn, bytesSum_word m p hk hn, hleft, hright, word_put16 hv]
  omega

theorem bytesSum_update (m : Bytes) (p : Nat) {i n : Nat} (h : i < n) :
    bytesSum (update m (p + i) 1) p n =
      bytesSum (update m (p + i) 0) p n + if i % 2 = 0 then 1 else 256 := by
  induction n with
  | zero => cases h
  | succ n ih =>
    simp only [bytesSum] at ih ⊢
    rw [Finset.sum_range_succ, Finset.sum_range_succ]
    rcases Nat.eq_or_lt_of_le (Nat.le_of_lt_succ h) with rfl | hlt
    · have hbefore : ∀ b : UInt8, ∑ j ∈ Finset.range i,
          (if j % 2 = 0 then 1 else 256) * (update m (p + i) b (p + j)).toNat =
          ∑ j ∈ Finset.range i, (if j % 2 = 0 then 1 else 256) * (m (p + j)).toNat := by
        intro b
        refine Finset.sum_congr rfl fun j hj => ?_
        rw [update_of_ne (by have := Finset.mem_range.mp hj; omega)]
      rw [hbefore, hbefore, update_self, update_self]
      simp
    · rw [ih hlt, update_of_ne (by omega), update_of_ne (by omega)]
      omega

/-! ## End-around carry -/

/-- The sixteen bits of a sum with end-around carries; only nothing adds up to zero. -/
def onesRep (s : Nat) : Nat := if s = 0 then 0 else (s - 1) % 65535 + 1

theorem onesRep_le (s : Nat) : onesRep s ≤ 65535 := by
  unfold onesRep
  split
  all_goals omega

theorem onesRep_mod (s : Nat) : onesRep s % 65535 = s % 65535 := by
  unfold onesRep
  split
  all_goals omega

theorem onesRep_pos {s : Nat} (h : 0 < s) : 0 < onesRep s := by
  rw [onesRep, if_neg (by omega)]
  omega

theorem onesRep_eq_iff {s t : Nat} (hs : 0 < s) (ht : 0 < t) :
    onesRep s = onesRep t ↔ s % 65535 = t % 65535 := by
  constructor
  · intro h
    rw [← onesRep_mod s, ← onesRep_mod t, h]
  · intro h
    rw [onesRep, onesRep, if_neg (by omega), if_neg (by omega)]
    omega

theorem onesRep_eq_top_iff {s : Nat} : onesRep s = 65535 ↔ 0 < s ∧ s % 65535 = 0 := by
  unfold onesRep
  split
  all_goals omega

end XcWindows.Lib
