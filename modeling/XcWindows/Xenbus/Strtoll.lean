import XcWindows.Xenbus.Integers

/-!
# The loop of the integer parser

`xm_strtoll` of `xenutil/xenbus.c` with its loop as it is written: `off` is an `unsigned` and `len` a
`size_t`. Up to `2^32` the index reaches the end of the buffer and the loop is `strtollLoop`
(`strtollWhile_eq`); behind that it starts over at the front and the loop has no end
(`strtollWhile_none`).
-/

namespace XcWindows.Xenbus

open XcWindows.Lib

/-- The `while` loop of `xm_strtoll`, for at most so many passes. -/
def strtollWhile (base : Nat) (buf : List UInt8) : Nat → Nat → Nat × Bool → Option (Nat × Bool)
  | 0, _, _ => none
  | passes + 1, off, s =>
    if h : off < buf.length then
      if buf[off] = 0 ∧ off = buf.length - 1 then some s
      else strtollWhile base buf passes (u32 (off + 1)) (strtollStep base s buf[off])
    else some s

/-- `xm_strtoll` returns the value and `*err`. -/
def XmStrtollReturns (base : Nat) (buf : List UInt8) (value : Nat) (err : Bool) : Prop :=
  (base = 10 ∨ base = 16) ∧ ∃ passes, strtollWhile base buf passes 0 (0, false) = some (value, err)

/-- No error is reported exactly when the buffer, less a NUL at its end, has only digits and their value
is below `2^64`, and then that value is returned. -/
def ParsesExactly (base : Nat) (buf : List UInt8) : Prop :=
  ∃ value err, XmStrtollReturns base buf value err ∧
    (err = false ↔ (∀ b ∈ text buf, digitOf base b < base) ∧ positional base buf < 2 ^ 64) ∧
    (err = false → value = positional base buf)

/-- The `unsigned` index reaches the end of the buffer, or the NUL there. -/
def IndexReachesEnd (buf : List UInt8) : Prop :=
  buf.length < 2 ^ 32 ∨ buf.length = 2 ^ 32 ∧ buf.getLast? = some 0

section Loop
variable {base : Nat} {buf : List UInt8}

theorem getLast?_of_last {off : Nat} (h : off < buf.length) (hlast : off = buf.length - 1) :
    buf.getLast? = some buf[off] := by
  rw [List.getLast?_eq_getElem?, ← hlast, List.getElem?_eq_getElem h]

theorem strtollWhile_eq (hb : IndexReachesEnd buf) {off : Nat} (hoff : off ≤ buf.length)
    (s : Nat × Bool) :
    strtollWhile base buf (buf.length - off + 1) off s = some (strtollLoop base (buf.drop off) s) := by
  induction hn : buf.length - off generalizing off s with
  | zero =>
    have hge : buf.length ≤ off := by omega
    rw [strtollWhile, dif_neg (Nat.not_lt.mpr hge), List.drop_eq_nil_of_le hge, strtollLoop]
  | succ n ih =>
    have hlt : off < buf.length := by omega
    have hnil : buf.drop (off + 1) = [] ↔ off = buf.length - 1 := by
      rw [List.drop_eq_nil_iff]
      omega
    rw [strtollWhile, dif_pos hlt, List.drop_eq_getElem_cons hlt, strtollLoop]
    by_cases hend : buf[off] = 0 ∧ off = buf.length - 1
    · rw [if_pos hend, if_pos ⟨hend.1, hnil.mpr hend.2⟩]
    · rw [if_neg hend, if_neg fun h => hend ⟨h.1, hnil.mp h.2⟩]
      have hsmall : off + 1 < 2 ^ 32 := by
        rcases hb with hb | ⟨hb, hnul⟩
        · omega
        · by_contra hc
          have hlast : off = buf.length - 1 := by omega
          rw [getLast?_of_last hlt hlast] at hnul
          exact hend ⟨Option.some.inj hnul, hlast⟩
      rw [show u32 (off + 1) = off + 1 from Nat.mod_eq_of_lt hsmall]
      exact ih (by omega) _ (by omega)

theorem strtollWhile_none (hb : ¬ IndexReachesEnd buf) (passes : Nat) {off : Nat}
    (hoff : off < 2 ^ 32) (s : Nat × Bool) : strtollWhile base buf passes off s = none := by
  have hlen : 2 ^ 32 ≤ buf.length := by
    by_contra hc
    exact hb (.inl (by omega))
  induction passes generalizing off s with
  | zero => rfl
  | succ passes ih =>
    have hlt : off < buf.length := by omega
    have hend : ¬ (buf[off] = 0 ∧ off = buf.length - 1) := by
      rintro ⟨h0, hlast⟩
      refine hb (.inr ⟨by omega, ?_⟩)
      rw [getLast?_of_last hlt hlast, h0]
    rw [strtollWhile, dif_pos hlt, if_neg hend]
    exact ih (Nat.mod_lt _ (by decide)) _

end Loop

/-- The parser is exact on the buffers its index gets through, and does not return on any other. -/
theorem xm_strtoll_exact {base : Nat} (hbase : base = 10 ∨ base = 16) (buf : List UInt8) :
    ParsesExactly base buf ↔ IndexReachesEnd buf := by
  constructor
  · rintro ⟨value, err, ⟨-, passes, hrun⟩, -⟩
    by_contra hb
    rw [strtollWhile_none hb passes (by decide)] at hrun
    cases hrun
  · intro hb
    have hrange : 2 ≤ base ∧ base ≤ 16 := by omega
    obtain ⟨hval, herr⟩ := foldl_strtollStep hrange.1 hrange.2 (text buf)
    have hrun := @strtollWhile_eq base buf hb 0 (Nat.zero_le _) (0, false)
    rw [List.drop_zero, strtollLoop_eq] at hrun
    refine ⟨_, _, ⟨hbase, _, hrun⟩, herr, fun h => ?_⟩
    rw [hval]
    exact Nat.mod_eq_of_lt (herr.mp h).2

/-- `"fF"` and a NUL, in base 16. -/
theorem xm_strtoll_exact_hex : ParsesExactly 16 [102, 70, 0] :=
  (xm_strtoll_exact (.inr rfl) [102, 70, 0]).mpr (.inl (by decide))

/-- `2^32` digits keep the parser busy for ever. -/
theorem xm_strtoll_never_returns : ¬ ParsesExactly 10 (List.replicate (2 ^ 32) 48) := by
  rintro ⟨value, err, ⟨-, passes, hrun⟩, -⟩
  have hb : ¬ IndexReachesEnd (List.replicate (2 ^ 32) 48) := by
    rintro (hlt | ⟨-, hnul⟩)
    · rw [List.length_replicate] at hlt
      exact absurd hlt (Nat.lt_irrefl _)
    · have hmem := List.mem_of_getLast? hnul
      exact absurd (List.eq_of_mem_replicate hmem) (by decide)
  rw [strtollWhile_none hb passes (by decide)] at hrun
  cases hrun

end XcWindows.Xenbus
