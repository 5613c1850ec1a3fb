import Mathlib.Data.List.Nodup
import Mathlib.Data.Nat.ModEq

/-!
# Scanning a word from a given bit

`scan` is the loop that looks for set bits of a word from some bit on, with wrap-around, until none is
left: each set bit is cleared and handed to a body that may fail. From a bit inside the word it is the
body on the set bits in the order of `turn` (`scan_eq`), and it stops.
-/

namespace XcWindows.Lib

variable {n k : Nat} {σ ε : Type} {w : BitVec n} {i : Nat}

/-- The mask of a bit, for a machine that takes shift counts modulo the width. -/
def bit (n i : Nat) : BitVec n := 1#n <<< (i % n)

/-- `while (w) { if (w & bit i) { w &= ~bit i; body i } i = (i + 1) % n }`; the error `out` says that
the loop was not finished. -/
def scan (out : ε) (body : Nat → σ → Except ε σ) : Nat → BitVec n → Nat → σ → Except ε σ
  | 0, w, _, s => if w = 0 then .ok s else .error out
  | fuel + 1, w, i, s =>
    if w = 0 then .ok s
    else if w &&& bit n i ≠ 0 then
      body i s >>= scan out body fuel (w &&& ~~~bit n i) ((i + 1) % n)
    else scan out body fuel w ((i + 1) % n) s

/-- The next `k` bits from bit `i` on. -/
def turn (n i : Nat) : Nat → List Nat
  | 0 => []
  | k + 1 => i :: turn n ((i + 1) % n) k

theorem bit_mod (n i : Nat) : bit n (i % n) = bit n i := by
  unfold bit
  rw [Nat.mod_mod]

theorem getLsbD_bit (hi : i < n) (b : Nat) : (bit n i).getLsbD b = decide (b = i) := by
  unfold bit
  rw [Nat.mod_eq_of_lt hi]
  rcases Nat.lt_trichotomy b i with h | h | h
  · simp [h, Nat.ne_of_lt h]
  · subst h
    simp [hi]
  · have h0 : b - i ≠ 0 := by omega
    simp [Nat.ne_of_gt h, h0]

theorem and_bit_ne_zero (hi : i < n) : w &&& bit n i ≠ 0 ↔ w.getLsbD i = true := by
  constructor
  · intro h
    by_contra hw
    apply h
    apply BitVec.eq_of_getLsbD_eq
    intro b _
    by_cases hb : b = i
    · subst hb
      simp [hw]
    · simp [getLsbD_bit hi, hb]
  · intro h e
    have := congrArg (fun v => v.getLsbD i) e
    simp [getLsbD_bit hi, h] at this

theorem getLsbD_clear (hi : i < n) (b : Nat) :
    (w &&& ~~~bit n i).getLsbD b = (w.getLsbD b && decide (b ≠ i)) := by
  by_cases hb : b < n
  · rw [BitVec.getLsbD_and, BitVec.getLsbD_not, getLsbD_bit hi]
    simp [hb]
  · simp [BitVec.getLsbD_of_ge w b (by omega)]

theorem mem_turn (hi : i < n) {b : Nat} : b ∈ turn n i k ↔ ∃ j, j < k ∧ b = (i + j) % n := by
  induction k generalizing i with
  | zero => simp [turn]
  | succ k ih =>
    rw [turn, List.mem_cons, ih (Nat.mod_lt _ (by omega))]
    constructor
    · rintro (rfl | ⟨j, hj, rfl⟩)
      · exact ⟨0, by omega, (Nat.mod_eq_of_lt hi).symm⟩
      · exact ⟨j + 1, by omega, by rw [Nat.mod_add_mod]; congr 1; omega⟩
    · rintro ⟨j, hj, rfl⟩
      rcases j with _ | j
      · exact .inl (Nat.mod_eq_of_lt hi)
      · exact .inr ⟨j, by omega, by rw [Nat.mod_add_mod]; congr 1; omega⟩

theorem nodup_turn (hi : i < n) (hk : k ≤ n) : (turn n i k).Nodup := by
  induction k generalizing i with
  | zero => exact List.nodup_nil
  | succ k ih =>
    have hi' : (i + 1) % n < n := Nat.mod_lt _ (by omega)
    refine List.nodup_cons.mpr ⟨fun hmem => ?_, ih hi' (by omega)⟩
    obtain ⟨j, hj, e⟩ := (mem_turn hi').mp hmem
    rw [Nat.mod_add_mod] at e
    -- less than a whole turn away
    have h1 : (i + 0) % n = (i + (1 + j)) % n := by
      rw [Nat.add_zero, Nat.mod_eq_of_lt hi, ← Nat.add_assoc]
      exact e
    have h2 : 0 % n = (1 + j) % n := Nat.ModEq.add_left_cancel' i h1
    rw [Nat.zero_mod, Nat.mod_eq_of_lt (by omega)] at h2
    omega

/-- A whole turn comes by every bit. -/
theorem mem_turn_self (hi : i < n) {b : Nat} : b ∈ turn n i n ↔ b < n := by
  rw [mem_turn hi]
  constructor
  · rintro ⟨j, -, rfl⟩
    exact Nat.mod_lt _ (by omega)
  · intro hb
    by_cases h : i ≤ b
    · exact ⟨b - i, by omega, by rw [Nat.add_sub_cancel' h, Nat.mod_eq_of_lt hb]⟩
    · refine ⟨b + n - i, by omega, ?_⟩
      rw [show i + (b + n - i) = b + n by omega, Nat.add_mod_right, Nat.mod_eq_of_lt hb]

/-- The set bits among the next `k`. -/
def setBits (w : BitVec n) (i k : Nat) : List Nat := (turn n i k).filter w.getLsbD

theorem setBits_zero : setBits (0 : BitVec n) i k = [] :=
  List.filter_eq_nil_iff.mpr fun b _ => by simp

theorem setBits_of_set (hi : i < n) (hk : k + 1 ≤ n) (hb : w.getLsbD i = true) :
    setBits w i (k + 1) = i :: setBits (w &&& ~~~bit n i) ((i + 1) % n) k := by
  have hnot : i ∉ turn n ((i + 1) % n) k := (List.nodup_cons.mp (nodup_turn hi hk)).1
  unfold setBits
  rw [turn, List.filter_cons_of_pos hb]
  congr 1
  apply List.filter_congr
  intro b hmem
  have hne : b ≠ i := fun e => hnot (e ▸ hmem)
  simp [getLsbD_clear hi, hne]

theorem setBits_of_unset (hb : ¬ w.getLsbD i = true) :
    setBits w i (k + 1) = setBits w ((i + 1) % n) k := by
  unfold setBits
  rw [turn, List.filter_cons_of_neg hb]

theorem scan_turn {out : ε} {body : Nat → σ → Except ε σ} {fuel : Nat} {s : σ} (hi : i < n)
    (hk : k ≤ n) (hf : k ≤ fuel) (hw : ∀ b, w.getLsbD b = true → b ∈ turn n i k) :
    scan out body fuel w i s = (setBits w i k).foldlM (fun s b => body b s) s := by
  induction k generalizing fuel w i s with
  | zero =>
    have hz : w = 0 := by
      apply BitVec.eq_of_getLsbD_eq
      intro b _
      by_contra hb
      have := hw b (by simpa using hb)
      simp [turn] at this
    subst hz
    cases fuel <;> simp [scan, setBits, turn, pure, Except.pure]
  | succ k ih =>
    obtain ⟨fuel, rfl⟩ : ∃ f, fuel = f + 1 := ⟨fuel - 1, by omega⟩
    have hi' : (i + 1) % n < n := Nat.mod_lt _ (by omega)
    rw [scan]
    by_cases hz : w = 0
    · subst hz
      rw [if_pos rfl, setBits_zero]
      rfl
    rw [if_neg hz]
    by_cases hb : w.getLsbD i = true
    · rw [if_pos ((and_bit_ne_zero hi).mpr hb), setBits_of_set hi hk hb, List.foldlM_cons]
      congr 1
      funext s'
      refine ih hi' (by omega) (by omega) fun b hb' => ?_
      rw [getLsbD_clear hi, Bool.and_eq_true, decide_eq_true_eq] at hb'
      exact (List.mem_cons.mp (hw b hb'.1)).resolve_left hb'.2
    · rw [if_neg (fun h => hb ((and_bit_ne_zero hi).mp h)), setBits_of_unset hb]
      refine ih hi' (by omega) (by omega) fun b hb' => ?_
      exact (List.mem_cons.mp (hw b hb')).resolve_left fun e => hb (e ▸ hb')

/-- A scan from a bit of the word stops after a turn, and does the body on each set bit once. -/
theorem scan_eq {out : ε} {body : Nat → σ → Except ε σ} {fuel : Nat} {s : σ} (hi : i < n)
    (hf : n ≤ fuel) :
    scan out body fuel w i s = (setBits w i n).foldlM (fun s b => body b s) s :=
  scan_turn hi (Nat.le_refl n) hf fun _ hb => (mem_turn_self hi).mpr (BitVec.lt_of_getLsbD hb)

theorem mem_setBits (hi : i < n) {b : Nat} : b ∈ setBits w i n ↔ w.getLsbD b = true := by
  unfold setBits
  rw [List.mem_filter, mem_turn_self hi]
  exact ⟨fun h => h.2, fun h => ⟨BitVec.lt_of_getLsbD h, h⟩⟩

theorem nodup_setBits (hi : i < n) : (setBits w i n).Nodup :=
  (nodup_turn hi (Nat.le_refl n)).filter _

/-! ## Loops that a body can stop -/

theorem foldlM_congr {α σ ε : Type} {f g : σ → α → Except ε σ} {l : List α}
    (h : ∀ a ∈ l, ∀ s, f s a = g s a) (s : σ) : l.foldlM f s = l.foldlM g s := by
  induction l generalizing s with
  | nil => rfl
  | cons a l ih =>
    rw [List.foldlM_cons, List.foldlM_cons, h a List.mem_cons_self]
    congr 1
    funext s'
    exact ih (fun b hb => h b (.tail _ hb)) s'

theorem foldlM_flatMap {α β σ ε : Type} (f : α → List β) (g : σ → β → Except ε σ) (l : List α)
    (s : σ) : (l.flatMap f).foldlM g s = l.foldlM (fun s a => (f a).foldlM g s) s := by
  induction l generalizing s with
  | nil => rfl
  | cons a l ih =>
    rw [List.flatMap_cons, List.foldlM_append, List.foldlM_cons]
    congr 1
    funext s'
    exact ih s'

end XcWindows.Lib
