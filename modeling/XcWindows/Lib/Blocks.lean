import Mathlib.Algebra.Order.Ring.Nat

/-!
# Ranges in pieces

A range of numbers cut at the points of an increasing sequence (`flatMap_pieces`), the same in units
of `u` (`flatMap_pieces_mul`), the lengths of the pieces (`sum_pieces`), the piece of a number
(`exists_piece`), and `N` values dealt out in blocks of `m` (`flatMap_blocks`).
-/

namespace XcWindows.Lib

variable {α : Type} {D : Nat → Nat}

theorem flatMap_pieces {n : Nat} (h : ∀ k < n, D k ≤ D (k + 1)) (b : Nat) :
    (List.range n).flatMap (fun k => List.range' (b + D k) (D (k + 1) - D k)) =
        List.range' (b + D 0) (D n - D 0) ∧ D 0 ≤ D n := by
  induction n with
  | zero => exact ⟨by simp, Nat.le_refl _⟩
  | succ n ih =>
    obtain ⟨hr, hle⟩ := ih fun k hk => h k (Nat.lt_succ_of_lt hk)
    have hn := h n (Nat.lt_succ_self n)
    refine ⟨?_, hle.trans hn⟩
    have hb : b + D n = b + D 0 + 1 * (D n - D 0) := by omega
    have hlen : D n - D 0 + (D (n + 1) - D n) = D (n + 1) - D 0 := by omega
    rw [List.range_succ, List.flatMap_append, hr, List.flatMap_singleton, hb, List.range'_append, hlen]

theorem flatMap_pieces_mul {n : Nat} (h : ∀ k < n, D k ≤ D (k + 1)) (b u : Nat) :
    (List.range n).flatMap (fun k => List.range' (b + D k * u) ((D (k + 1) - D k) * u)) =
      List.range' (b + D 0 * u) ((D n - D 0) * u) := by
  have := (flatMap_pieces (D := fun k => D k * u) (n := n)
    (fun k hk => Nat.mul_le_mul_right u (h k hk)) b).1
  simpa only [Nat.sub_mul] using this

theorem sum_pieces {a n : Nat} (h : ∀ k < n, D (a + k) ≤ D (a + k + 1)) :
    ((List.range n).map fun k => D (a + k + 1) - D (a + k)).sum = D (a + n) - D a ∧ D a ≤ D (a + n) := by
  induction n with
  | zero => exact ⟨by simp, Nat.le_refl _⟩
  | succ n ih =>
    obtain ⟨hs, hle⟩ := ih fun k hk => h k (Nat.lt_succ_of_lt hk)
    have hn : D (a + n) ≤ D (a + (n + 1)) := h n (Nat.lt_succ_self n)
    refine ⟨?_, hle.trans hn⟩
    rw [List.range_succ, List.map_append, List.sum_append, hs, List.map_singleton, List.sum_singleton]
    show D (a + n) - D a + (D (a + (n + 1)) - D (a + n)) = _
    omega

/-- A number of the range is in one of the pieces. -/
theorem exists_piece {n p : Nat} (h0 : D 0 ≤ p) (hp : p < D n) : ∃ k < n, D k ≤ p ∧ p < D (k + 1) := by
  induction n with
  | zero => omega
  | succ n ih =>
    obtain hlt | hle := Nat.lt_or_ge p (D n)
    · obtain ⟨k, hk, hkp⟩ := ih hlt
      exact ⟨k, Nat.lt_succ_of_lt hk, hkp⟩
    · exact ⟨n, Nat.lt_succ_self n, hle, hp⟩

/-- `N` values in blocks of `m`, of which there are `R`. -/
theorem flatMap_blocks (g : Nat → α) (N m R : Nat) :
    (List.range R).flatMap (fun i => (List.range (min (N - m * i) m)).map fun j => g (m * i + j)) =
      (List.range (min N (m * R))).map g := by
  induction R with
  | zero => simp
  | succ R ih =>
    have hsum : min N (m * (R + 1)) = min N (m * R) + min (N - m * R) m := by
      rw [Nat.mul_succ]
      omega
    rw [List.range_succ, List.flatMap_append, ih, List.flatMap_singleton, hsum, List.range_add,
      List.map_append, List.map_map]
    refine congrArg _ (List.map_congr_left fun j hj => ?_)
    have hj' := List.mem_range.mp hj
    have : min N (m * R) = m * R := by omega
    rw [Function.comp, this]

end XcWindows.Lib
