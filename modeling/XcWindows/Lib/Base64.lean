import Mathlib.Data.List.Basic
import Mathlib.Tactic.IntervalCases

/-!
# Base64

The standard encoding (`encode`), and a decoder that is fed one character after the other and skips
those outside the alphabet (`Decoder.feed`). It decodes what was encoded (`Decoder.run_encode`), and it
does not get through a text whose padding is anything but one or two characters at the end
(`Decoder.run_shape`).
-/

namespace XcWindows.Lib.Base64

/-- `=` -/
abbrev padding : UInt8 := 61

/-- The character of a six-bit value. -/
def digit (v : UInt8) : UInt8 :=
  if v < 26 then v + 65
  else if v < 52 then v - 26 + 97
  else if v < 62 then v - 52 + 48
  else if v = 62 then 43
  else 47

/-- The value of a character, if it stands for one. -/
def value (c : UInt8) : Option UInt8 :=
  if 65 ≤ c ∧ c ≤ 90 then some (c - 65)
  else if 97 ≤ c ∧ c ≤ 122 then some (c - 97 + 26)
  else if 48 ≤ c ∧ c ≤ 57 then some (c - 48 + 52)
  else if c = 43 then some 62
  else if c = 47 then some 63
  else none

/-- The characters of the alphabet, the padding among them. -/
def inAlphabet (c : UInt8) : Bool := c == padding || (value c).isSome

def encode : List UInt8 → List UInt8
  | [] => []
  | [a] => [digit (a >>> 2), digit ((a <<< 4) &&& 0x3f), padding, padding]
  | [a, b] =>
    [digit (a >>> 2), digit (((a <<< 4) ||| (b >>> 4)) &&& 0x3f), digit ((b <<< 2) &&& 0x3f), padding]
  | a :: b :: c :: rest =>
    digit (a >>> 2) :: digit (((a <<< 4) ||| (b >>> 4)) &&& 0x3f) ::
      digit (((b <<< 2) ||| (c >>> 6)) &&& 0x3f) :: digit (c &&& 0x3f) :: encode rest

/-- A decoder in the middle of a text: what it has decoded, padding included, the values of the group
it is in, and how much padding there was. -/
structure Decoder where
  out : List UInt8
  block : List UInt8
  pads : Nat

namespace Decoder

/-- One more value; four of them are three bytes. -/
def put (d : Decoder) (v : UInt8) : Decoder :=
  match d.block with
  | [v₀, v₁, v₂] =>
    { d with out := d.out ++ [(v₁ >>> 4) ||| (v₀ <<< 2), (v₂ >>> 2) ||| (v₁ <<< 4), v ||| (v₂ <<< 6)]
             block := [] }
  | block => { d with block := block ++ [v] }

/-- One more character; padding may be followed by padding only. -/
def feed (d : Decoder) (c : UInt8) : Option Decoder :=
  if c = padding then if d.pads < 2 then some ({ d with pads := d.pads + 1 }.put 0) else none
  else
    match value c with
    | some v => if d.pads = 0 then some (d.put v) else none
    | none => some d

def init : Decoder := ⟨[], [], 0⟩

def run (d : Decoder) (text : List UInt8) : Option Decoder := text.foldlM feed d

variable {d d' : Decoder} {text : List UInt8}

@[simp] theorem run_nil (d : Decoder) : d.run [] = some d := rfl

@[simp] theorem run_cons (d : Decoder) (c : UInt8) (text : List UInt8) :
    d.run (c :: text) = (d.feed c).bind fun d => d.run text := rfl

theorem run_append (d : Decoder) (text text' : List UInt8) :
    d.run (text ++ text') = (d.run text).bind fun d => d.run text' := by
  simp [run, List.foldlM_append]

theorem run_filter (d : Decoder) (text : List UInt8) : d.run (text.filter inAlphabet) = d.run text := by
  induction text generalizing d with
  | nil => rfl
  | cons c text ih =>
    cases hc : inAlphabet c with
    | true => simp [hc, ih]
    | false =>
      obtain ⟨hpad, hval⟩ : c ≠ padding ∧ value c = none := by simpa [inAlphabet] using hc
      have hfeed : d.feed c = some d := by simp [feed, hpad, hval]
      simp [hc, ih, hfeed]

@[simp] theorem put_pads (d : Decoder) (v : UInt8) : (d.put v).pads = d.pads := by
  unfold put
  split <;> rfl

theorem feed_padding (h : d.pads < 2) : d.feed padding = some ({ d with pads := d.pads + 1 }.put 0) := by
  simp [feed, h]

/-! ## What was encoded -/

theorem value_digit {v : UInt8} (h : v < 64) : value (digit v) = some v := by
  have hall : ∀ n : Fin 64, value (digit (UInt8.ofNat n)) = some (UInt8.ofNat n) := by decide
  have := hall ⟨v.toNat, by simpa using UInt8.lt_iff_toNat_lt.1 h⟩
  simpa using this

theorem digit_ne_padding {v : UInt8} (h : v < 64) : digit v ≠ padding := by
  intro hv
  have hval := value_digit h
  rw [hv, show value padding = none by decide] at hval
  cases hval

theorem feed_digit {v : UInt8} (h : v < 64) (hpads : d.pads = 0) : d.feed (digit v) = some (d.put v) := by
  simp [feed, digit_ne_padding h, value_digit h, hpads]

theorem and_lt (v : UInt8) : v &&& 0x3f < 64 := by
  rw [UInt8.lt_iff_toNat_lt, UInt8.toNat_and]
  exact Nat.and_lt_two_pow (n := 6) _ (by decide)

theorem shiftRight_lt (v : UInt8) : v >>> 2 < 64 := by
  rw [UInt8.lt_iff_toNat_lt, UInt8.toNat_shiftRight]
  have := v.toNat_lt
  simp [Nat.shiftRight_eq_div_pow]
  omega

theorem first_byte (a b : UInt8) :
    ((((a <<< 4) ||| (b >>> 4)) &&& 0x3f) >>> 4) ||| ((a >>> 2) <<< 2) = a := by
  apply UInt8.eq_of_toBitVec_eq
  simp only [UInt8.toBitVec_or, UInt8.toBitVec_and, UInt8.toBitVec_shiftLeft, UInt8.toBitVec_shiftRight]
  ext i hi
  interval_cases i <;> simp

theorem second_byte (a b c : UInt8) :
    ((((b <<< 2) ||| (c >>> 6)) &&& 0x3f) >>> 2) ||| ((((a <<< 4) ||| (b >>> 4)) &&& 0x3f) <<< 4) =
      b := by
  apply UInt8.eq_of_toBitVec_eq
  simp only [UInt8.toBitVec_or, UInt8.toBitVec_and, UInt8.toBitVec_shiftLeft, UInt8.toBitVec_shiftRight]
  ext i hi
  interval_cases i <;> simp

theorem third_byte (b c : UInt8) :
    (c &&& (0x3f : UInt8)) ||| ((((b <<< 2) ||| (c >>> 6)) &&& 0x3f) <<< 6) = c := by
  apply UInt8.eq_of_toBitVec_eq
  simp only [UInt8.toBitVec_or, UInt8.toBitVec_and, UInt8.toBitVec_shiftLeft, UInt8.toBitVec_shiftRight]
  ext i hi
  interval_cases i <;> simp

/-- Four values fed to a decoder that is between two groups. -/
theorem run_digits {v₀ v₁ v₂ v₃ : UInt8} (h₀ : v₀ < 64) (h₁ : v₁ < 64) (h₂ : v₂ < 64) (h₃ : v₃ < 64)
    (hpads : d.pads = 0) (hblock : d.block = []) (text : List UInt8) :
    d.run (digit v₀ :: digit v₁ :: digit v₂ :: digit v₃ :: text) =
      run ⟨d.out ++ [(v₁ >>> 4) ||| (v₀ <<< 2), (v₂ >>> 2) ||| (v₁ <<< 4), v₃ ||| (v₂ <<< 6)], [], 0⟩
        text := by
  obtain ⟨out, block, pads⟩ := d
  obtain rfl : block = [] := hblock
  obtain rfl : pads = 0 := hpads
  simp [feed_digit, h₀, h₁, h₂, h₃, put]

/-- A decoder between two groups decodes what was encoded; the padding stands for as many bytes more. -/
theorem run_encode (b : List UInt8) (hpads : d.pads = 0) (hblock : d.block = []) :
    ∃ tail, d.run (encode b) = some ⟨d.out ++ b ++ tail, [], tail.length⟩ := by
  induction b using encode.induct generalizing d with
  | case1 =>
    obtain ⟨out, block, pads⟩ := d
    obtain rfl : block = [] := hblock
    obtain rfl : pads = 0 := hpads
    exact ⟨[], by simp [encode]⟩
  | case2 a =>
    obtain ⟨out, block, pads⟩ := d
    obtain rfl : block = [] := hblock
    obtain rfl : pads = 0 := hpads
    have hfirst := first_byte a 0
    simp only [UInt8.zero_shiftRight, UInt8.or_zero] at hfirst
    refine ⟨[((a <<< 4) &&& 0x3f) <<< 4, 0], ?_⟩
    simp [encode, feed_digit, shiftRight_lt, and_lt, put, feed_padding, hfirst]
  | case3 a b =>
    obtain ⟨out, block, pads⟩ := d
    obtain rfl : block = [] := hblock
    obtain rfl : pads = 0 := hpads
    have hsecond := second_byte a b 0
    simp only [UInt8.zero_shiftRight, UInt8.or_zero] at hsecond
    refine ⟨[((b <<< 2) &&& 0x3f) <<< 6], ?_⟩
    simp [encode, feed_digit, shiftRight_lt, and_lt, put, feed_padding, first_byte, hsecond]
  | case4 a b c rest ih =>
    unfold encode
    rw [run_digits (shiftRight_lt a) (and_lt _) (and_lt _) (and_lt _) hpads hblock, first_byte,
      second_byte, third_byte]
    obtain ⟨tail, htail⟩ := ih (d := ⟨d.out ++ [a, b, c], [], 0⟩) rfl rfl
    exact ⟨tail, by simpa using htail⟩

/-! ## What gets through -/

theorem put_block_length (h : d.block.length < 4) (v : UInt8) :
    (d.put v).block.length = (d.block.length + 1) % 4 := by
  unfold put
  split
  case h_1 hblock => simp [hblock]
  case h_2 hblock =>
    have hne : d.block.length ≠ 3 := fun h => by
      obtain ⟨v₀, v₁, v₂, h⟩ := List.length_eq_three.1 h
      exact hblock v₀ v₁ v₂ h
    rw [List.length_append, List.length_singleton]
    omega

theorem feed_pads (h : d.feed padding = some d') : d'.pads = d.pads + 1 ∧ d'.pads ≤ 2 := by
  unfold feed at h
  rw [if_pos rfl] at h
  split at h
  · obtain rfl := Option.some.inj h
    rw [put_pads]
    exact ⟨rfl, by assumption⟩
  · cases h

theorem feed_value {c : UInt8} (hc : inAlphabet c) (hne : c ≠ padding) (h : d.feed c = some d') :
    d.pads = 0 ∧ d'.pads = 0 := by
  obtain ⟨v, hv⟩ : ∃ v, value c = some v := by
    simpa [inAlphabet, hne, Option.isSome_iff_exists] using hc
  simp only [feed, if_neg hne, hv] at h
  split at h
  · obtain rfl := Option.some.inj h
    exact ⟨‹_›, by rwa [put_pads]⟩
  · cases h

theorem feed_block_length (hlt : d.block.length < 4) {c : UInt8} (hc : inAlphabet c)
    (h : d.feed c = some d') : d'.block.length = (d.block.length + 1) % 4 := by
  by_cases hne : c = padding
  · subst hne
    unfold feed at h
    rw [if_pos rfl] at h
    split at h
    · obtain rfl := Option.some.inj h
      exact put_block_length (d := { d with pads := d.pads + 1 }) hlt 0
    · cases h
  · obtain ⟨v, hv⟩ : ∃ v, value c = some v := by
      simpa [inAlphabet, hne, Option.isSome_iff_exists] using hc
    simp only [feed, if_neg hne, hv] at h
    split at h
    · obtain rfl := Option.some.inj h
      exact put_block_length hlt v
    · cases h

theorem run_block_length (text : List UInt8) (hlt : d.block.length < 4)
    (hall : ∀ c ∈ text, inAlphabet c = true) (h : d.run text = some d') :
    d'.block.length = (d.block.length + text.length) % 4 := by
  induction text generalizing d with
  | nil =>
    obtain rfl := Option.some.inj h
    simp [Nat.mod_eq_of_lt hlt]
  | cons c text ih =>
    rw [run_cons, Option.bind_eq_some_iff] at h
    obtain ⟨d₁, hfeed, hrun⟩ := h
    have h₁ := feed_block_length hlt (hall c (by simp)) hfeed
    rw [ih (by omega) (fun c hc => hall c (by simp [hc])) hrun, h₁, List.length_cons]
    omega

theorem run_shape (text : List UInt8) (hpads : d.pads ≤ 2) (hall : ∀ c ∈ text, inAlphabet c = true)
    (h : d.run text = some d') :
    ∃ front k, text = front ++ List.replicate k padding ∧ padding ∉ front ∧ d'.pads = d.pads + k ∧
      d'.pads ≤ 2 ∧ (d.pads ≠ 0 → front = []) := by
  induction text generalizing d with
  | nil =>
    obtain rfl := Option.some.inj h
    exact ⟨[], 0, rfl, by simp, rfl, hpads, fun _ => rfl⟩
  | cons c text ih =>
    rw [run_cons, Option.bind_eq_some_iff] at h
    obtain ⟨d₁, hfeed, hrun⟩ := h
    by_cases hne : c = padding
    · subst hne
      obtain ⟨h₁, hle⟩ := feed_pads hfeed
      obtain ⟨front, k, rfl, -, hk, hk', hfront⟩ := ih hle (fun c hc => hall c (by simp [hc])) hrun
      obtain rfl := hfront (by omega)
      exact ⟨[], k + 1, by simp [List.replicate_succ], by simp, by omega, hk', fun _ => rfl⟩
    · obtain ⟨h₀, h₁⟩ := feed_value (hall c (by simp)) hne hfeed
      obtain ⟨front, k, rfl, hnot, hk, hk', -⟩ :=
        ih (by omega) (fun c hc => hall c (by simp [hc])) hrun
      exact ⟨c :: front, k, rfl, by simp [Ne.symm hne, hnot], by omega, hk', fun h => absurd h₀ h⟩

end Decoder

/-- Whole groups of four, at most two characters of padding, and these in the last group. -/
def WholeGroups (text : List UInt8) : Prop :=
  text.length % 4 = 0 ∧ text.count padding ≤ 2 ∧ padding ∉ text.take (text.length - 4)

theorem wholeGroups_of_run {text : List UInt8} {d : Decoder} (hall : ∀ c ∈ text, inAlphabet c = true)
    (h : Decoder.init.run text = some d) (hblock : d.block = []) : WholeGroups text := by
  have hlen := Decoder.run_block_length text (by simp [Decoder.init]) hall h
  rw [hblock] at hlen
  have hmod : text.length % 4 = 0 := by simpa [Decoder.init] using hlen.symm
  obtain ⟨front, k, rfl, hnot, hk, hk', -⟩ := Decoder.run_shape text (Nat.zero_le 2) hall h
  have hk : k ≤ 2 := by
    have : d.pads = 0 + k := hk
    omega
  refine ⟨hmod, by simp [List.count_eq_zero_of_not_mem hnot, hk], fun hmem => hnot ?_⟩
  rw [List.take_append_of_le_length (by simp at hmod ⊢; omega)] at hmem
  exact List.mem_of_mem_take hmem

end XcWindows.Lib.Base64
