import XcWindows.Lib.Circ

/-!
# Memory with a footprint

A memory together with the ranges that were written. It carries the frame condition as a field: what is
outside of the ranges is as it was.
-/

namespace XcWindows.Lib

variable {α : Type} {m : Nat → α}

/-- One of the ranges, each an offset and a length, has the address. -/
def Covers (ranges : List (Nat × Nat)) (k : Nat) : Prop := ∃ r ∈ ranges, r.1 ≤ k ∧ k < r.1 + r.2

structure Written (m : Nat → α) where
  now : Nat → α
  ranges : List (Nat × Nat)
  frame : ∀ k, ¬Covers ranges k → now k = m k

namespace Written

def start (m : Nat → α) : Written m where
  now := m
  ranges := []
  frame _ _ := rfl

def store (w : Written m) (a : Nat) (xs : List α) : Written m where
  now := blit w.now a xs
  ranges := (a, xs.length) :: w.ranges
  frame k hk := by
    have hother : ¬(a ≤ k ∧ k < a + xs.length) := fun h => hk ⟨(a, xs.length), by simp, h⟩
    rw [blit_miss (by omega)]
    exact w.frame k fun ⟨r, hr, h⟩ => hk ⟨r, List.mem_cons_of_mem _ hr, h⟩

def Touched (w : Written m) (k : Nat) : Prop := Covers w.ranges k

/-- Only the first `n` addresses were written. -/
def Within (w : Written m) (n : Nat) : Prop := ∀ k, w.Touched k → k < n

theorem touched_start (k : Nat) : ¬(start m).Touched k := by
  rintro ⟨r, hr, -⟩
  cases hr

theorem touched_store {w : Written m} {a : Nat} {xs : List α} {k : Nat} :
    (w.store a xs).Touched k ↔ (a ≤ k ∧ k < a + xs.length) ∨ w.Touched k := by
  simp [Touched, Covers, store]

theorem now_store_hit {w : Written m} {a i : Nat} {xs : List α} (h : i < xs.length) :
    (w.store a xs).now (a + i) = xs[i] := blit_hit h

theorem now_store_miss {w : Written m} {a i : Nat} {xs : List α} (h : i < a ∨ a + xs.length ≤ i) :
    (w.store a xs).now i = w.now i := blit_miss h

theorem within_start (n : Nat) : (start m).Within n := fun k h => absurd h (touched_start k)

theorem Within.store {w : Written m} {a n : Nat} {xs : List α} (h : w.Within n) (hend : a + xs.length ≤ n) :
    (w.store a xs).Within n := by
  intro k hk
  obtain hk | hk := touched_store.1 hk
  · omega
  · exact h k hk

theorem within_iff {w : Written m} {e n : Nat} (h : ∀ k, w.Touched k ↔ k < e) : w.Within n ↔ e ≤ n := by
  constructor
  · intro hw
    by_contra hlt
    exact absurd (hw n ((h n).2 (by omega))) (Nat.lt_irrefl n)
  · intro hle k hk
    exact Nat.lt_of_lt_of_le ((h k).1 hk) hle

end Written

end XcWindows.Lib
