import Mathlib.Data.List.Induction
import Mathlib.Data.List.Pairwise
import Mathlib.Data.List.Perm.Basic
import Mathlib.Logic.Function.Basic
import Mathlib.Order.Defs.Unbundled

/-!
# Insertion sort by exchanges

`exchangeLoop` goes over an array, and has every entry exchanged with each one before it that it is
below. On lists that is `exchangeSort`, where an entry goes through those before it (`sift`) and what it
is exchanged with goes on in its place. Whatever strict order it is used with, no entry of the result is
below an earlier one (`exchangeSort_pairwise`): with a partial order that need not say much.
-/

namespace XcWindows.Lib

variable {α : Type} (lt : α → α → Prop) [DecidableRel lt]

/-- `c` goes through the list: it is exchanged with the first entry it is below, which goes on. -/
def sift : α → List α → List α
  | c, [] => [c]
  | c, a :: l => if lt c a then c :: sift a l else a :: sift c l

/-- Every entry goes through those before it. -/
def exchangeSort (l : List α) : List α := l.foldl (fun sorted c => sift lt c sorted) []

variable {lt} {c : α} {l : List α}

theorem sift_cons (c a : α) (l : List α) :
    sift lt c (a :: l) = if lt c a then c :: sift lt a l else a :: sift lt c l := rfl

theorem sift_perm (c : α) (l : List α) : (sift lt c l).Perm (c :: l) := by
  induction l generalizing c with
  | nil => exact .refl _
  | cons a l ih =>
    rw [sift_cons]
    split
    · exact (ih a).cons c
    · exact ((ih c).cons a).trans (.swap c a l)

@[simp] theorem exchangeSort_nil : exchangeSort lt [] = [] := rfl

@[simp] theorem exchangeSort_snoc (l : List α) (c : α) :
    exchangeSort lt (l ++ [c]) = sift lt c (exchangeSort lt l) := by
  simp [exchangeSort]

theorem exchangeSort_perm (l : List α) : (exchangeSort lt l).Perm l := by
  induction l using List.reverseRecOn with
  | nil => exact .refl _
  | append_singleton l c ih =>
    rw [exchangeSort_snoc]
    exact (sift_perm c _).trans ((ih.cons c).trans (List.perm_append_singleton c l).symm)

theorem sift_eq_snoc (h : ∀ a ∈ l, ¬lt c a) : sift lt c l = l ++ [c] := by
  induction l with
  | nil => rfl
  | cons a l ih =>
    rw [sift_cons, if_neg (h a (by simp)), ih fun b hb => h b (by simp [hb])]
    rfl

theorem exchangeSort_eq_self (h : l.Pairwise fun a b => ¬lt b a) : exchangeSort lt l = l := by
  induction l using List.reverseRecOn with
  | nil => rfl
  | append_singleton l c ih =>
    obtain ⟨hl, -, hc⟩ := List.pairwise_append.1 h
    rw [exchangeSort_snoc, ih hl]
    exact sift_eq_snoc fun a ha => hc a ha c (by simp)

variable (lt) in
theorem sift_append (c : α) (l r : List α) :
    ∃ front last, sift lt c l = front ++ [last] ∧ sift lt c (l ++ r) = front ++ sift lt last r := by
  induction l generalizing c with
  | nil => exact ⟨[], c, rfl, rfl⟩
  | cons a l ih =>
    simp only [sift_cons, List.cons_append]
    split
    · obtain ⟨front, last, h, h'⟩ := ih a
      exact ⟨c :: front, last, by rw [h]; rfl, by rw [h']; rfl⟩
    · obtain ⟨front, last, h, h'⟩ := ih c
      exact ⟨a :: front, last, by rw [h]; rfl, by rw [h']; rfl⟩

/-- Two orders that agree on what goes through the list do the same. -/
theorem sift_congr {lt' : α → α → Prop} [DecidableRel lt'] {p : α → Prop} (hc : p c)
    (h : ∀ c a, p c → a ∈ l → (lt c a ↔ lt' c a) ∧ (lt c a → p a)) : sift lt c l = sift lt' c l := by
  induction l generalizing c with
  | nil => rfl
  | cons a l ih =>
    have ih' : ∀ {c}, p c → sift lt c l = sift lt' c l :=
      fun hc => ih hc fun c b hc hb => h c b hc (by simp [hb])
    obtain ⟨hiff, hp⟩ := h c a hc (by simp)
    rw [sift_cons, sift_cons]
    by_cases hlt : lt c a
    · rw [if_pos hlt, if_pos (hiff.1 hlt), ih' (hp hlt)]
    · rw [if_neg hlt, if_neg fun h => hlt (hiff.2 h), ih' hc]

section Order

variable [IsStrictOrder α lt]

theorem sift_pairwise (c : α) (h : l.Pairwise fun a b => ¬lt b a) :
    (sift lt c l).Pairwise fun a b => ¬lt b a := by
  induction l generalizing c with
  | nil => simp [sift]
  | cons a l ih =>
    obtain ⟨ha, hl⟩ := List.pairwise_cons.1 h
    rw [sift_cons]
    split
    case isTrue hlt =>
      refine List.pairwise_cons.2 ⟨fun b hb => ?_, ih a hl⟩
      obtain rfl | hb := List.mem_cons.1 ((sift_perm a l).mem_iff.1 hb)
      · exact fun hlt' => irrefl_of lt c (trans_of lt hlt hlt')
      · exact fun hlt' => ha b hb (trans_of lt hlt' hlt)
    case isFalse hlt =>
      refine List.pairwise_cons.2 ⟨fun b hb => ?_, ih c hl⟩
      obtain rfl | hb := List.mem_cons.1 ((sift_perm c l).mem_iff.1 hb)
      · exact hlt
      · exact ha b hb

theorem exchangeSort_pairwise (l : List α) : (exchangeSort lt l).Pairwise fun a b => ¬lt b a := by
  induction l using List.reverseRecOn with
  | nil => exact .nil
  | append_singleton l c ih =>
    rw [exchangeSort_snoc]
    exact sift_pairwise c ih

end Order

/-! ## The loops over an array -/

/-- The entries `i` and `j` are exchanged. -/
def exchange (f : Nat → α) (i j : Nat) : Nat → α :=
  Function.update (Function.update f i (f j)) j (f i)

variable (lt) in
/-- The entry at `div` against the one at `probe`. -/
def probeStep (div : Nat) (f : Nat → α) (probe : Nat) : Nat → α :=
  if lt (f div) (f probe) then exchange f probe div else f

variable (lt) in
/-- `for (probe = 0; probe < div; probe++)` -/
def probeLoop (f : Nat → α) (div : Nat) : Nat → α := (List.range div).foldl (probeStep lt div) f

variable (lt) in
/-- `for (div = 1; div < n; div++)` -/
def exchangeLoop (n : Nat) (f : Nat → α) : Nat → α := (List.range' 1 (n - 1)).foldl (probeLoop lt) f

theorem exchange_of_ne (f : Nat → α) {i j k : Nat} (hi : k ≠ i) (hj : k ≠ j) :
    exchange f i j k = f k := by
  simp [exchange, hi, hj]

@[simp] theorem exchange_right (f : Nat → α) (i j : Nat) : exchange f i j j = f i := by
  simp [exchange]

theorem exchange_left (f : Nat → α) {i j : Nat} (h : i ≠ j) : exchange f i j i = f j := by
  simp [exchange, h]

theorem map_congr_range {f g : Nat → α} {s n : Nat} (h : ∀ i, s ≤ i → i < s + n → f i = g i) :
    (List.range' s n).map f = (List.range' s n).map g := by
  refine List.map_congr_left fun i hi => ?_
  obtain ⟨hs, hn⟩ := List.mem_range'_1.1 hi
  exact h i hs hn

variable (lt) in
theorem foldl_probeStep (n s div : Nat) (f : Nat → α) (hs : s + n = div) :
    ((List.range' s (n + 1)).map ((List.range' s n).foldl (probeStep lt div) f) =
      sift lt (f div) ((List.range' s n).map f)) ∧
    ∀ i, i < s ∨ div < i → (List.range' s n).foldl (probeStep lt div) f i = f i := by
  induction n generalizing s f with
  | zero => exact ⟨by simp [sift, show s = div by omega], fun _ _ => rfl⟩
  | succ n ih =>
    obtain ⟨ih, hout⟩ := ih (s + 1) (probeStep lt div f s) (by omega)
    have hrest : (List.range' (s + 1) n).map (probeStep lt div f s) =
        (List.range' (s + 1) n).map f := by
      refine map_congr_range fun i hi hi' => ?_
      unfold probeStep
      split
      · exact exchange_of_ne f (by omega) (by omega)
      · rfl
    have hs' := hout s (.inl (by omega))
    rw [hrest] at ih
    refine ⟨?_, fun i hi => ?_⟩
    · rw [show List.range' s (n + 1 + 1) = s :: List.range' (s + 1) (n + 1) from List.range'_succ,
        show List.range' s (n + 1) = s :: List.range' (s + 1) n from List.range'_succ,
        List.foldl_cons, List.map_cons, ih, hs', List.map_cons, sift_cons]
      unfold probeStep
      split
      · rw [exchange_left f (by omega), exchange_right]
      · rfl
    · rw [List.range'_succ, List.foldl_cons, hout i (by omega)]
      unfold probeStep
      split
      · exact exchange_of_ne f (by omega) (by omega)
      · rfl

theorem probeLoop_map (f : Nat → α) (div : Nat) :
    (List.range (div + 1)).map (probeLoop lt f div) = sift lt (f div) ((List.range div).map f) := by
  have h := (foldl_probeStep lt div 0 div f (by omega)).1
  simpa only [probeLoop, List.range_eq_range'] using h

theorem probeLoop_above (f : Nat → α) {div i : Nat} (hi : div < i) : probeLoop lt f div i = f i := by
  have h := (foldl_probeStep lt div 0 div f (by omega)).2 i (.inr hi)
  simpa only [probeLoop, List.range_eq_range'] using h

theorem exchangeLoop_spec (n : Nat) (f : Nat → α) :
    (List.range n).map (exchangeLoop lt n f) = exchangeSort lt ((List.range n).map f) ∧
    ∀ i, n ≤ i → exchangeLoop lt n f i = f i := by
  induction n with
  | zero => exact ⟨rfl, fun _ _ => rfl⟩
  | succ n ih =>
    obtain rfl | hn := Nat.eq_zero_or_pos n
    · exact ⟨rfl, fun _ _ => rfl⟩
    obtain ⟨ih, hout⟩ := ih
    have hloop : exchangeLoop lt (n + 1) f = probeLoop lt (exchangeLoop lt n f) n := by
      unfold exchangeLoop
      rw [Nat.add_sub_cancel, ← Nat.sub_add_cancel hn, List.range'_concat, List.foldl_append]
      simp [show 1 + (n - 1) = n by omega, Nat.sub_add_cancel hn]
    refine ⟨?_, fun i hi => ?_⟩
    · rw [hloop, probeLoop_map, ih, hout n (Nat.le_refl n), List.range_succ, List.map_append]
      exact (exchangeSort_snoc _ _).symm
    · rw [hloop, probeLoop_above _ (by omega), hout i (by omega)]

end XcWindows.Lib
