import Mathlib.Data.List.Basic

/-!
# Fixed-width unsigned arithmetic

C's `unsigned short` and `unsigned` over `Nat`: a value of width `w` is a `Nat` taken modulo
`2^w`. `sub32` is the wrapping subtraction. The lemmas relate 32-bit ring indices to the unbounded
counters they are the residues of.
-/

namespace XcWindows.Lib

/-- Conversion to `unsigned short`. -/
abbrev u16 (n : Nat) : Nat := n % 65536

/-- Conversion to `unsigned`. -/
abbrev u32 (n : Nat) : Nat := n % 4294967296

/-- Conversion to `unsigned long long`. -/
abbrev u64 (n : Nat) : Nat := n % 18446744073709551616

/-- 32-bit wrapping subtraction. -/
abbrev sub32 (a b : Nat) : Nat := (a + (4294967296 - b % 4294967296)) % 4294967296

theorem sub32_u32 {a b : Nat} (h : b ≤ a) (hlt : a < b + 4294967296) :
    sub32 (u32 a) (u32 b) = a - b := by
  simp only [sub32, u32]; omega

theorem u32_inj {a b : Nat} (h : b ≤ a) (hlt : a < b + 4294967296) (e : u32 a = u32 b) :
    a = b := by
  simp only [u32] at e; omega

theorem u32_add (a k : Nat) : u32 (u32 a + k) = u32 (a + k) := Nat.mod_add_mod a _ k

theorem u32_mod {R : Nat} (hR : R ∣ 4294967296) (n : Nat) : u32 n % R = n % R :=
  Nat.mod_mod_of_dvd n hR

theorem mod_inj {R a b : Nat} (h : a ≤ b) (hlt : b < a + R) (e : a % R = b % R) : a = b := by
  have hd : R ∣ b - a := Nat.dvd_of_mod_eq_zero (Nat.sub_mod_eq_zero_of_mod_eq e.symm)
  have : b - a = 0 := Nat.eq_zero_of_dvd_of_lt hd (by omega)
  omega

theorem add_mod_of_lt {R p i : Nat} (h : p % R + i < R) : (p + i) % R = p % R + i := by
  rw [← Nat.mod_add_mod, Nat.mod_eq_of_lt h]

end XcWindows.Lib
