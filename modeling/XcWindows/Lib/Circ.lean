import XcWindows.Lib.Word

/-!
# Circular buffers

A buffer of `R` cells is a memory `Nat → α` addressed below `R`; a position is an unbounded
counter `p` whose cell is `p % R`. `blit` copies a list to consecutive addresses, `circBlit`
splits the copy at the end of the buffer, and `window m R p n` reads the `n` cells from position
`p` on. A copy is read back by the window it wrote (`window_circBlit_self`) and leaves every
disjoint window alone (`window_circBlit_other`).
-/

namespace XcWindows.Lib

variable {α : Type}

/-- `memcpy`: store `xs` at the addresses from `a` on. -/
def blit (m : Nat → α) (a : Nat) (xs : List α) : Nat → α :=
  fun i => if a ≤ i then xs[i - a]?.getD (m i) else m i

/-- Copy `xs` into a buffer of `R` cells at address `a`, continuing at address `0`. -/
def circBlit (m : Nat → α) (R a : Nat) (xs : List α) : Nat → α :=
  blit (blit m a (xs.take (R - a))) 0 (xs.drop (R - a))

/-- `n` consecutive cells from address `a` on. -/
def bytes (m : Nat → α) (a n : Nat) : List α := (List.range n).map fun i => m (a + i)

/-- The `n` cells from position `p` on. -/
def window (m : Nat → α) (R p n : Nat) : List α :=
  (List.range n).map fun i => m ((p + i) % R)

theorem blit_hit {m : Nat → α} {a i : Nat} {xs : List α} (h : i < xs.length) :
    blit m a xs (a + i) = xs[i] := by
  simp [blit, List.getElem?_eq_getElem h]

theorem blit_miss {m : Nat → α} {a i : Nat} {xs : List α} (h : i < a ∨ a + xs.length ≤ i) :
    blit m a xs i = m i := by
  unfold blit
  split
  · rw [List.getElem?_eq_none (by omega)]; rfl
  · rfl

theorem bytes_blit (m : Nat → α) (a : Nat) (xs : List α) : bytes (blit m a xs) a xs.length = xs := by
  apply List.ext_getElem (by simp [bytes])
  intro i h1 h2
  simp only [bytes, List.getElem_map, List.getElem_range]
  exact blit_hit h2

@[simp] theorem blit_nil (m : Nat → α) (a : Nat) : blit m a [] = m := by
  funext i; simp [blit]

@[simp] theorem length_window (m : Nat → α) (R p n : Nat) : (window m R p n).length = n := by
  simp [window]

@[simp] theorem window_zero (m : Nat → α) (R p : Nat) : window m R p 0 = [] := rfl

theorem getElem_window {m : Nat → α} {R p n i : Nat} (h : i < (window m R p n).length) :
    (window m R p n)[i] = m ((p + i) % R) := by
  simp [window]

theorem window_add (m : Nat → α) (R p n k : Nat) :
    window m R p (n + k) = window m R p n ++ window m R (p + n) k := by
  simp [window, List.range_add, List.map_map, Function.comp_def, Nat.add_assoc]

theorem window_congr {m m' : Nat → α} {R p n : Nat}
    (h : ∀ i, i < n → m ((p + i) % R) = m' ((p + i) % R)) : window m R p n = window m' R p n := by
  apply List.map_congr_left
  intro i hi
  exact h i (List.mem_range.mp hi)

theorem window_congr_pos {m : Nat → α} {R p q n : Nat} (h : p % R = q % R) :
    window m R p n = window m R q n := by
  apply List.map_congr_left
  intro i _
  rw [Nat.add_mod, h, ← Nat.add_mod]

theorem take_window {m : Nat → α} {R p n k : Nat} (h : k ≤ n) :
    (window m R p n).take k = window m R p k := by
  obtain ⟨d, rfl⟩ := Nat.exists_eq_add_of_le h
  rw [window_add, List.take_append_of_le_length (by simp), List.take_of_length_le (by simp)]

theorem drop_window {m : Nat → α} {R p n k : Nat} (h : k ≤ n) :
    (window m R p n).drop k = window m R (p + k) (n - k) := by
  obtain ⟨d, rfl⟩ := Nat.exists_eq_add_of_le h
  rw [window_add, List.drop_append_of_le_length (by simp), List.drop_of_length_le (by simp)]
  simp

@[simp] theorem bytes_zero (m : Nat → α) (a : Nat) : bytes m a 0 = [] := rfl

@[simp] theorem length_bytes (m : Nat → α) (a n : Nat) : (bytes m a n).length = n := by
  simp [bytes]

theorem bytes_add (m : Nat → α) (a n k : Nat) : bytes m a (n + k) = bytes m a n ++ bytes m (a + n) k := by
  simp [bytes, List.range_add, List.map_map, Function.comp_def, Nat.add_assoc]

theorem bytes_cons (m : Nat → α) (a n : Nat) : bytes m a (n + 1) = m a :: bytes m (a + 1) n := by
  rw [Nat.add_comm, bytes_add]
  simp [bytes]

theorem bytes_congr {m m' : Nat → α} {a n : Nat} (h : ∀ i, a ≤ i → i < a + n → m' i = m i) :
    bytes m' a n = bytes m a n := by
  apply List.map_congr_left
  intro i hi
  have := List.mem_range.mp hi
  exact h (a + i) (by omega) (by omega)

theorem bytes_eq_window {m : Nat → α} {R a n : Nat} (h : a + n ≤ R) :
    bytes m a n = window m R a n := by
  apply List.map_congr_left
  intro i hi
  rw [Nat.mod_eq_of_lt (by have := List.mem_range.mp hi; omega)]

/-- The cells from a position on that does not come to the end of the buffer. -/
theorem window_eq_bytes {m : Nat → α} {R p n : Nat} (k : Nat) (h : p % R + k + n ≤ R) :
    window m R (p + k) n = bytes m (p % R + k) n := by
  rw [bytes_eq_window h]
  apply List.map_congr_left
  intro i _
  rw [Nat.add_assoc, Nat.add_assoc, ← Nat.mod_add_mod]

/-- A copy that does not come to the end of the buffer is one `memcpy`. -/
theorem circBlit_of_le {m : Nat → α} {R a : Nat} {xs : List α} (h : a + xs.length ≤ R) :
    circBlit m R a xs = blit m a xs := by
  unfold circBlit
  rw [List.take_of_length_le (by omega), List.drop_of_length_le (by omega), blit_nil]

theorem circBlit_hit {m : Nat → α} {R p i : Nat} {xs : List α} (hR : 0 < R)
    (hlen : xs.length ≤ R) (h : i < xs.length) :
    circBlit m R (p % R) xs ((p + i) % R) = xs[i] := by
  have hp := Nat.mod_lt p hR
  unfold circBlit
  rcases Nat.lt_or_ge (p % R + i) R with hw | hw
  · have e : (p + i) % R = p % R + i := by
      rw [Nat.add_mod, Nat.mod_eq_of_lt (show i < R by omega), Nat.mod_eq_of_lt hw]
    rw [e, blit_miss (by right; simp; omega), blit_hit (by simp; omega)]
    simp
  · have e : (p + i) % R = p % R + i - R := by
      rw [Nat.add_mod, Nat.mod_eq_of_lt (show i < R by omega), Nat.mod_eq_sub_mod hw,
        Nat.mod_eq_of_lt (by omega)]
    have hi : p % R + i - R < (xs.drop (R - p % R)).length := by simp; omega
    have := blit_hit (m := blit m (p % R) (xs.take (R - p % R))) (a := 0) hi
    rw [e]
    rw [Nat.zero_add] at this
    rw [this, List.getElem_drop]
    congr 1; omega

theorem circBlit_miss {m : Nat → α} {R p j : Nat} {xs : List α} (hR : 0 < R)
    (hlen : xs.length ≤ R) (hj : j < R) (h : ∀ i, i < xs.length → (p + i) % R ≠ j) :
    circBlit m R (p % R) xs j = m j := by
  have hp := Nat.mod_lt p hR
  -- the cell of `p + i` is `p % R + i`, less `R` once that reaches the end
  have cell : ∀ i, i < R → (p + i) % R = if p % R + i < R then p % R + i else p % R + i - R := by
    intro i hi
    rw [Nat.add_mod, Nat.mod_eq_of_lt hi]
    split
    · next hw => exact Nat.mod_eq_of_lt hw
    · next hw => rw [Nat.mod_eq_sub_mod (by omega), Nat.mod_eq_of_lt (by omega)]
  have hh : ∀ i, i < xs.length → (if p % R + i < R then p % R + i else p % R + i - R) ≠ j := by
    intro i hi; rw [← cell i (by omega)]; exact h i hi
  have h1 : j < p % R ∨ p % R + (xs.take (R - p % R)).length ≤ j := by
    by_cases hlt : j < p % R
    · exact .inl hlt
    · right
      by_contra hc
      have hi : j - p % R < xs.length := by simp at hc; omega
      have := hh (j - p % R) hi
      rw [if_pos (by omega)] at this
      omega
  have h2 : j < 0 ∨ 0 + (xs.drop (R - p % R)).length ≤ j := by
    right
    by_contra hc
    have hi : R - p % R + j < xs.length := by simp at hc; omega
    have := hh (R - p % R + j) hi
    rw [if_neg (by omega)] at this
    omega
  unfold circBlit
  rw [blit_miss h2, blit_miss h1]

theorem window_circBlit_self (m : Nat → α) {R : Nat} (p : Nat) {xs : List α} (hR : 0 < R)
    (hlen : xs.length ≤ R) : window (circBlit m R (p % R) xs) R p xs.length = xs := by
  apply List.ext_getElem (by simp)
  intro i h1 h2
  rw [getElem_window]
  exact circBlit_hit hR hlen h2

theorem window_circBlit_other (m : Nat → α) {R p q n : Nat} {xs : List α} (hR : 0 < R)
    (h1 : q + n ≤ p) (h2 : p + xs.length ≤ q + R) :
    window (circBlit m R (p % R) xs) R q n = window m R q n := by
  apply window_congr
  intro i hi
  refine circBlit_miss hR (by omega) (Nat.mod_lt _ hR) fun k hk e => ?_
  have := mod_inj (R := R) (a := q + i) (b := p + k) (by omega) (by omega) e.symm
  omega

end XcWindows.Lib
