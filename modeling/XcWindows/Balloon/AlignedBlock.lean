import XcWindows.Balloon.RangeSet

/-!
# Aligned blocks

`RangeSetPopAlignedBlock` looks for a naturally aligned block of `size` indices in one range after
the other. A range gives up its first indices when it starts at a multiple of `size`, else its last
ones when it ends at one, and is split otherwise. What it gives up from its end need not be its first
block, a split needs an entry, and of the range of all indices the source computes the length 0.

`Serves` is the range for which none of this goes wrong; the function meets its contract exactly when
the first range with a block is one (`aligned_block_iff`).
-/

namespace XcWindows.Balloon

section Functions
variable (M alignment size : Nat)

/-- `rs->NrItems -= size`. -/
def RangeSet.countDown (rs : RangeSet) : RangeSet :=
  { rs with nrItems := (rs.nrItems + M - size) % M }

/-- The loop of `RangeSetPopAlignedBlock` from the entry at `q` on; `alloc x` is the answer to the
`x`-th call of the allocator. -/
def popAlignedLoop (rs : RangeSet) (q : Nat) : List Rse → (Nat → Bool) → Option Nat × RangeSet
  | [], _ => (none, rs)
  | e :: es, alloc =>
    if (e.end1 + M - e.start) % M < size then popAlignedLoop rs (q + 1) es alloc
    else if e.start % alignment = 0 then
      let start := (e.start + size) % M
      (some e.start, (rs.splice q (if start = e.end1 then [] else [{ e with start }])).countDown M size)
    else if (e.end1 + M - size) % M % alignment = 0 then
      let end1 := (e.end1 + M - size) % M
      (some end1, (rs.splice q (if e.start = end1 then [] else [{ e with end1 }])).countDown M size)
    else
      let alignedStart := (e.start + alignment - e.start % alignment) % M
      if (e.end1 + M - alignedStart) % M < size then popAlignedLoop rs (q + 1) es alloc
      else
        match allocateRse rs (alloc 0) with
        | none => popAlignedLoop rs (q + 1) es fun x => alloc (x + 1)
        | some rs =>
          (some alignedStart,
            (rs.splice q [{ e with end1 := alignedStart },
              ⟨(alignedStart + size) % M, e.end1⟩]).countDown M size)

/-- `RangeSetPopAlignedBlock`: the start of the block, or `FALSE`. -/
def rangeSetPopAlignedBlock (rs : RangeSet) (alloc : Nat → Bool) : Option (Option Nat × RangeSet) :=
  if size = 0 ∨ alignment = 0 then none
  else some (popAlignedLoop M alignment size rs 0 rs.entries alloc)

end Functions

/-! ## Rounding up -/

/-- The first multiple of `size` from `x` on. -/
def alignUp (size x : Nat) : Nat := (x + size - 1) / size * size

section AlignUp
variable {size x y : Nat}

theorem alignUp_aligned : alignUp size x % size = 0 := Nat.mul_mod_left ..

theorem alignUp_eq (hs : 0 < size) :
    alignUp size x = if x % size = 0 then x else x + size - x % size := by
  have h1 := Nat.div_add_mod x size
  have h2 := Nat.mod_lt x hs
  generalize hq : x / size = q at h1
  unfold alignUp
  split
  · next h0 =>
    have e : x + size - 1 = size * q + (size - 1) := by omega
    rw [e, Nat.mul_add_div hs, Nat.div_eq_of_lt (by omega), Nat.add_zero, Nat.mul_comm]
    omega
  · next h0 =>
    have e : x + size - 1 = size * (q + 1) + (x % size - 1) := by rw [Nat.mul_add]; omega
    rw [e, Nat.mul_add_div hs, Nat.div_eq_of_lt (by omega), Nat.add_zero, Nat.mul_comm, Nat.mul_add]
    omega

theorem le_alignUp (hs : 0 < size) : x ≤ alignUp size x := by
  have := Nat.mod_lt x hs
  rw [alignUp_eq hs]
  split <;> omega

theorem alignUp_lt (hs : 0 < size) : alignUp size x < x + size := by
  rw [alignUp_eq hs]
  split <;> omega

theorem alignUp_least (hs : 0 < size) (hxy : x ≤ y) (hy : y % size = 0) : alignUp size x ≤ y := by
  obtain ⟨k, rfl⟩ := Nat.dvd_of_mod_eq_zero hy
  rw [alignUp, Nat.mul_comm]
  apply Nat.mul_le_mul_left
  rw [← Nat.lt_succ_iff, Nat.div_lt_iff_lt_mul hs, Nat.succ_mul, Nat.mul_comm k]
  omega

end AlignUp

/-! ## Cutting out the end or the middle of a range -/

section Cut
variable {M first last x size : Nat} {e : Rse} {A B : List Rse} {rs : RangeSet}

/-- What is left of a range without its indices from `first` to `last`, when it starts before
`first`. -/
def cut (M : Nat) (e : Rse) (first last : Nat) : List Rse :=
  { e with end1 := first } :: trim M e last

theorem Ranges.cut (h : Ranges M (A ++ e :: B)) (hs : e.start < first) (hle : first ≤ last)
    (hl : last < e.stop M) :
    Ranges M (A ++ cut M e first last ++ B) ∧ ∃ T U,
      e.elems M = T ++ List.range' first (last + 1 - first) ++ U ∧
      elems M (A ++ Balloon.cut M e first last ++ B) = elems M A ++ (T ++ U) ++ elems M B := by
  obtain ⟨h1, h2, h3⟩ := ranges_append.mp h
  obtain ⟨h4, h5, h6⟩ := ranges_cons.mp h2
  have hstop := Rse.stop_le h4.2
  have hf : Rse.stop M { e with end1 := first } = first := if_neg (by simp only; omega)
  obtain ⟨hT, T, hT1, hT2⟩ := h.trim (Nat.le_of_lt (Nat.lt_of_lt_of_le hs hle)) hl
  rw [List.append_assoc] at hT
  obtain ⟨-, hT3, hT4⟩ := ranges_append.mp hT
  -- what is left behind `last` starts behind it
  have hbehind : ∀ b ∈ Balloon.trim M e last ++ B, first < b.start := by
    intro b hb
    rcases List.mem_append.mp hb with hb | hb
    · unfold Balloon.trim at hb
      split at hb
      · cases hb
      · next hne =>
        obtain rfl := List.mem_singleton.mp hb
        have : last + 1 < e.stop M := by
          by_contra hc
          exact hne ((Rse.mod_eq_end1 (by omega) (by omega) h4.2).mpr (.inl (by omega)))
        simp only
        rw [Nat.mod_eq_of_lt (by omega)]
        omega
    · have := h6 b hb; omega
  refine ⟨?_, List.range' e.start (first - e.start), T, ?_, ?_⟩
  · rw [List.append_assoc]
    refine ranges_append.mpr ⟨h1, ranges_cons.mpr ⟨⟨?_, ?_⟩, hT3, ?_⟩, ?_⟩
    · rw [hf]; exact hs
    · simp only; omega
    · rw [hf]; exact hbehind
    · intro a ha b hb
      rcases List.mem_cons.mp hb with rfl | hb
      · exact h3 a ha e (by simp)
      · have := hbehind b hb
        have := h3 a ha e (by simp)
        omega
  · rw [hT1, show last + 1 - e.start = (first - e.start) + (last + 1 - first) by omega,
      ← List.range'_append_1, show e.start + (first - e.start) = first by omega]
  · have hfe : Rse.elems M { e with end1 := first } = List.range' e.start (first - e.start) := by
      rw [Rse.elems, hf]
    have := List.append_cancel_left ((elems_append (l := A)).symm.trans
      ((congrArg (elems M) (List.append_assoc A _ B)).symm.trans
        (hT2.trans (List.append_assoc _ _ _))))
    rw [List.append_assoc, elems_append]
    show elems M A ++ elems M ({ e with end1 := first } :: (Balloon.trim M e last ++ B)) = _
    rw [elems_cons, hfe, this]
    simp only [List.append_assoc]

theorem RsOk.cut (h : RsOk M rs) (he : rs.entries = A ++ e :: B) (hs : e.start < first)
    (hle : first ≤ last) (hl : last < e.stop M) :
    RsOk M { rs.splice A.length (cut M e first last) with
             nrItems := (rs.nrItems + M - (last + 1 - first) % M) % M } ∧
      (elems M rs.entries).Perm (List.range' first (last + 1 - first) ++
        elems M (rs.splice A.length (Balloon.cut M e first last)).entries) := by
  obtain ⟨h1, T, U, h2, h3⟩ := Ranges.cut (he ▸ h.ranges) hs hle hl
  have hM : 0 < M := by
    have := h.ranges.nonempty e (by rw [he]; simp)
    omega
  have hp : (elems M rs.entries).Perm (List.range' first (last + 1 - first) ++
      elems M (rs.splice A.length (Balloon.cut M e first last)).entries) := by
    rw [splice_entries he, h3, he]
    simp only [elems_append, elems_cons, h2, List.append_assoc]
    have := List.perm_append_comm_assoc (elems M A ++ T) (List.range' first (last + 1 - first))
      (U ++ elems M B)
    simpa only [List.append_assoc] using this
  refine ⟨⟨?_, splice_cursor he h.cursor, ?_⟩, hp⟩
  · rw [splice_entries he]; exact h1
  · have hlen := hp.length_eq
    rw [List.length_append, List.length_range'] at hlen
    simp only
    rw [h.items, mod_sub (by omega) hM]
    congr 1; omega

end Cut

/-! ## The contract -/

/-- An aligned block of the set starts at `x`. -/
def BlockAt (M size : Nat) (rs : RangeSet) (x : Nat) : Prop :=
  x % size = 0 ∧ ∀ y, x ≤ y → y < x + size → y ∈ elems M rs.entries

/-- The set `rs'` is `rs` without the `size` indices from `x` on, in good order and counted. -/
structure Shrunk (M size : Nat) (rs rs' : RangeSet) (x : Nat) : Prop where
  ok : RsOk M rs'
  rest : ∀ y, y ∈ elems M rs'.entries ↔ y ∈ elems M rs.entries ∧ ¬ (x ≤ y ∧ y < x + size)
  items : (rs'.nrItems + size) % M = rs.nrItems

/-- The contract: the smallest aligned block goes, or there is none and nothing changes. -/
def PopsSmallestBlock (M size : Nat) (rs : RangeSet) (alloc : Nat → Bool) : Prop :=
  ∃ out rs', rangeSetPopAlignedBlock M size size rs alloc = some (out, rs') ∧
    match out with
    | some x => BlockAt M size rs x ∧ (∀ y, BlockAt M size rs y → x ≤ y) ∧ Shrunk M size rs rs' x
    | none => rs' = rs ∧ ∀ y, ¬ BlockAt M size rs y

/-- The range contains an aligned block. -/
def HoldsBlock (M size : Nat) (e : Rse) : Prop := alignUp size e.start + size ≤ e.stop M

instance (M size : Nat) (e : Rse) : Decidable (HoldsBlock M size e) :=
  inferInstanceAs (Decidable (_ ≤ _))

/-- The range is not that of all indices, and its first block is at its start or its end, or it can
be split and does not end at a multiple of `size`. -/
def Serves (M size : Nat) (rs : RangeSet) (alloc : Nat → Bool) (e : Rse) : Prop :=
  ¬ (e.start = 0 ∧ e.end1 = 0) ∧
    (e.start % size = 0 ∨ alignUp size e.start + size = e.stop M ∨
      (e.stop M % size ≠ 0 ∧ (rs.rseCache ≠ 0 ∨ alloc 0 = true)))

instance (M size : Nat) (rs : RangeSet) (alloc : Nat → Bool) (e : Rse) :
    Decidable (Serves M size rs alloc e) :=
  inferInstanceAs (Decidable (_ ∧ _))

section Contract
variable {M size x q : Nat} {rs rs' : RangeSet} {alloc : Nat → Bool} {e : Rse} {A B es : List Rse}

theorem blockAt_alignUp (he : e ∈ rs.entries) (hs : 0 < size) (hb : HoldsBlock M size e) :
    BlockAt M size rs (alignUp size e.start) := by
  have hb : alignUp size e.start + size ≤ e.stop M := hb
  have := le_alignUp (x := e.start) hs
  exact ⟨alignUp_aligned, fun y h1 h2 => mem_elems.mpr ⟨e, he, by omega, by omega⟩⟩

theorem BlockAt.holds (h : RsOk M rs) (hs : 0 < size) (hb : BlockAt M size rs x) :
    ∃ e ∈ rs.entries, HoldsBlock M size e ∧ alignUp size e.start ≤ x := by
  have hlast : x ≤ x + size - 1 := by omega
  obtain ⟨A, e, B, hsplit, h1, h2⟩ := h.ranges.single hlast fun y h1 h2 => hb.2 y h1 (by omega)
  have hle := alignUp_least hs h1 hb.1
  refine ⟨e, by rw [hsplit]; simp, ?_, hle⟩
  unfold HoldsBlock
  omega

theorem Shrunk.of_perm (h : RsOk M rs) (ok : RsOk M rs')
    (hp : (elems M rs.entries).Perm (List.range' x size ++ elems M rs'.entries)) :
    Shrunk M size rs rs' x :=
  ⟨ok, (RsOk.of_perm h ok hp).1, (RsOk.of_perm h ok hp).2⟩

/-! ### The lengths the source computes -/

theorem range_length (h1 : e.start < e.stop M) (h2 : e.end1 < M) :
    (e.end1 + M - e.start) % M = if e.start = 0 ∧ e.end1 = 0 then 0 else e.stop M - e.start := by
  unfold Rse.stop at *
  split at h1
  · next h0 =>
    rw [h0, if_pos rfl, Nat.zero_add]
    split
    · next hw => rw [hw.1, Nat.sub_zero, Nat.mod_self]
    · exact Nat.mod_eq_of_lt (by omega)
  · next h0 =>
    rw [if_neg (fun h => h0 h.2), if_neg h0, show e.end1 + M - e.start = e.end1 - e.start + M by omega,
      Nat.add_mod_right, Nat.mod_eq_of_lt (by omega)]

theorem back_start (h0 : 0 < x) (hx : x ≤ e.stop M) (h2 : e.end1 < M) :
    (e.end1 + M - x) % M = e.stop M - x := by
  unfold Rse.stop at *
  split at hx
  · next h0 =>
    rw [h0, if_pos rfl, Nat.zero_add, Nat.mod_eq_of_lt (by omega)]
  · next h0 =>
    rw [if_neg h0, show e.end1 + M - x = e.end1 - x + M by omega, Nat.add_mod_right,
      Nat.mod_eq_of_lt (by omega)]

/-- What is known of a range of the set and of the size of a block. -/
structure Fit (M size : Nat) (e : Rse) : Prop where
  nonempty : e.start < e.stop M
  end1 : e.end1 < M
  pos : 0 < size
  dvd : size ∣ M
  lt : size < M

theorem Fit.alignedStart (h : Fit M size e) (hlen : size ≤ e.stop M - e.start)
    (h0 : e.start % size ≠ 0) :
    (e.start + size - e.start % size) % M = alignUp size e.start := by
  have := Rse.stop_le h.end1
  have := h.nonempty
  have := Nat.mod_lt e.start h.pos
  rw [alignUp_eq h.pos, if_neg h0, Nat.mod_eq_of_lt (by omega)]

/-- A range that ends at a multiple of `size` and is long enough contains the block at its end. -/
theorem Fit.back (h : Fit M size e) (hlen : size ≤ e.stop M - e.start) :
    (e.end1 + M - size) % M = e.stop M - size ∧
      ((e.stop M - size) % size = 0 ↔ e.stop M % size = 0) := by
  have := h.nonempty
  refine ⟨back_start h.pos (by omega) h.end1, ?_⟩
  rw [← Nat.sub_add_cancel (show size ≤ e.stop M by omega), Nat.add_sub_cancel, Nat.add_mod_right]

/-- The range of all indices is passed over. -/
theorem popAlignedLoop_whole (h : Fit M size e) (hw : e.start = 0 ∧ e.end1 = 0) :
    popAlignedLoop M size size rs q (e :: es) alloc =
      popAlignedLoop M size size rs (q + 1) es alloc := by
  rw [popAlignedLoop, range_length h.nonempty h.end1, if_pos hw, if_pos h.pos]

theorem popAlignedLoop_skip (h : Fit M size e) (hn : ¬ HoldsBlock M size e) :
    popAlignedLoop M size size rs q (e :: es) alloc =
      popAlignedLoop M size size rs (q + 1) es alloc := by
  have hn : e.stop M < alignUp size e.start + size := by unfold HoldsBlock at hn; omega
  by_cases hw : e.start = 0 ∧ e.end1 = 0
  · exact popAlignedLoop_whole h hw
  rw [popAlignedLoop, range_length h.nonempty h.end1, if_neg hw]
  split
  · rfl
  · next hlen =>
    have hlen : size ≤ e.stop M - e.start := by omega
    have hne := h.nonempty
    obtain ⟨hb1, hb2⟩ := h.back hlen
    have h0 : e.start % size ≠ 0 := fun h0 => by rw [alignUp_eq h.pos, if_pos h0] at hn; omega
    have h1 : ¬ (e.stop M - size) % size = 0 := fun h1 => by
      have := alignUp_least h.pos (x := e.start) (by omega) h1
      omega
    have hlt := alignUp_lt (x := e.start) h.pos
    have hle := le_alignUp (x := e.start) h.pos
    have hpos : 0 < alignUp size e.start := by
      rw [alignUp_eq h.pos, if_neg h0]
      have := Nat.mod_lt e.start h.pos
      omega
    rw [if_neg h0, hb1, if_neg h1]
    simp only
    rw [h.alignedStart hlen h0, back_start hpos (by omega) h.end1, if_pos (by omega)]

theorem popAlignedLoop_front (h : Fit M size e) (hb : HoldsBlock M size e)
    (hw : ¬ (e.start = 0 ∧ e.end1 = 0)) (h0 : e.start % size = 0) :
    popAlignedLoop M size size rs q (e :: es) alloc =
      (some e.start, (rs.splice q (trim M e (e.start + size - 1))).countDown M size) := by
  unfold HoldsBlock at hb
  rw [alignUp_eq h.pos, if_pos h0] at hb
  have := h.pos
  rw [popAlignedLoop, range_length h.nonempty h.end1, if_neg hw, if_neg (by omega), if_pos h0]
  simp only [trim]
  rw [show e.start + size - 1 + 1 = e.start + size by omega]

/-- Else, one that ends at a multiple of `size` gives up its last indices. -/
theorem popAlignedLoop_back (h : Fit M size e) (hb : HoldsBlock M size e)
    (h0 : e.start % size ≠ 0) (h1 : e.stop M % size = 0) :
    popAlignedLoop M size size rs q (e :: es) alloc =
      (some (e.stop M - size),
        (rs.splice q (cut M e (e.stop M - size) (e.stop M - 1))).countDown M size) := by
  have hb : alignUp size e.start + size ≤ e.stop M := hb
  have hle := le_alignUp (x := e.start) h.pos
  have hpos := h.pos
  obtain ⟨hb1, hb2⟩ := h.back (by omega)
  have hw : ¬ (e.start = 0 ∧ e.end1 = 0) := fun hw => h0 (by rw [hw.1, Nat.zero_mod])
  have hne : e.start ≠ e.stop M - size := fun he => h0 (by rw [he, hb2.mpr h1])
  have htrim : trim M e (e.stop M - 1) = [] := by
    unfold trim
    rw [if_pos]
    exact (Rse.mod_eq_end1 (by omega) (by have := h.lt; omega) h.end1).mpr (.inl (by omega))
  rw [popAlignedLoop, range_length h.nonempty h.end1, if_neg hw, if_neg (by omega), if_neg h0, hb1,
    if_pos (hb2.mpr h1)]
  simp only
  rw [if_neg hne, cut, htrim]

/-- Any other range is split at its first block, when there is an entry for the split. -/
theorem popAlignedLoop_middle (h : Fit M size e) (hb : HoldsBlock M size e)
    (h0 : e.start % size ≠ 0) (h1 : e.stop M % size ≠ 0) :
    popAlignedLoop M size size rs q (e :: es) alloc =
      match allocateRse rs (alloc 0) with
      | none => popAlignedLoop M size size rs (q + 1) es fun x => alloc (x + 1)
      | some rs => (some (alignUp size e.start),
          (rs.splice q (cut M e (alignUp size e.start)
            (alignUp size e.start + size - 1))).countDown M size) := by
  have hb : alignUp size e.start + size ≤ e.stop M := hb
  have hle := le_alignUp (x := e.start) h.pos
  have hpos := h.pos
  obtain ⟨hb1, hb2⟩ := h.back (by omega)
  have hw : ¬ (e.start = 0 ∧ e.end1 = 0) := fun hw => h0 (by rw [hw.1, Nat.zero_mod])
  have hup : 0 < alignUp size e.start := by
    rw [alignUp_eq h.pos, if_neg h0]
    have := Nat.mod_lt e.start h.pos
    omega
  have hne : alignUp size e.start + size ≠ e.stop M := fun he => h1 (by
    rw [← he, Nat.add_mod_right]; exact alignUp_aligned)
  have htrim : trim M e (alignUp size e.start + size - 1) =
      [⟨(alignUp size e.start + size) % M, e.end1⟩] := by
    unfold trim
    rw [show alignUp size e.start + size - 1 + 1 = alignUp size e.start + size by omega, if_neg]
    rw [Rse.mod_eq_end1 hb (by have := h.lt; omega) h.end1]
    omega
  rw [popAlignedLoop, range_length h.nonempty h.end1, if_neg hw, if_neg (by omega), if_neg h0, hb1,
    if_neg (mt hb2.mp h1)]
  simp only
  rw [h.alignedStart (by omega) h0, back_start hup (by omega) h.end1, if_neg (by omega), cut, htrim]

theorem popAlignedLoop_append (hA : ∀ a ∈ A, Fit M size a ∧ ¬ HoldsBlock M size a) :
    ∀ q, popAlignedLoop M size size rs q (A ++ es) alloc =
      popAlignedLoop M size size rs (q + A.length) es alloc := by
  induction A with
  | nil => exact fun q => rfl
  | cons a A ih =>
    intro q
    obtain ⟨hf, hn⟩ := hA a List.mem_cons_self
    rw [List.cons_append, popAlignedLoop_skip hf hn, ih (fun b hb => hA b (List.mem_cons_of_mem _ hb)),
      List.length_cons]
    congr 1; omega

/-- The block is not before the ranges looked at. -/
theorem popAlignedLoop_start (hes : ∀ f ∈ es, Fit M size f) :
    ∀ q alloc, (popAlignedLoop M size size rs q es alloc).1 = some x → ∃ f ∈ es, f.start ≤ x := by
  induction es with
  | nil => intro q alloc hx; cases hx
  | cons f es ih =>
    intro q alloc hx
    have hf := hes f List.mem_cons_self
    have later : ∀ q alloc, (popAlignedLoop M size size rs q es alloc).1 = some x →
        ∃ g ∈ f :: es, g.start ≤ x := fun q alloc hx => by
      obtain ⟨g, hg, hle⟩ := ih (fun g hg => hes g (List.mem_cons_of_mem _ hg)) q alloc hx
      exact ⟨g, List.mem_cons_of_mem _ hg, hle⟩
    have here : f.start ≤ x → ∃ g ∈ f :: es, g.start ≤ x := fun hle =>
      ⟨f, List.mem_cons_self, hle⟩
    have hup := le_alignUp (x := f.start) hf.pos
    by_cases hw : f.start = 0 ∧ f.end1 = 0
    · rw [popAlignedLoop_whole hf hw] at hx; exact later _ _ hx
    by_cases hb : HoldsBlock M size f
    · have hle : alignUp size f.start + size ≤ f.stop M := hb
      by_cases h0 : f.start % size = 0
      · rw [popAlignedLoop_front hf hb hw h0] at hx
        exact here (Nat.le_of_eq (Option.some.inj hx))
      by_cases h1 : f.stop M % size = 0
      · rw [popAlignedLoop_back hf hb h0 h1] at hx
        obtain rfl := Option.some.inj hx
        exact here (Nat.le_sub_of_add_le (Nat.le_trans (Nat.add_le_add_right hup size) hle))
      rw [popAlignedLoop_middle hf hb h0 h1] at hx
      split at hx
      · exact later _ _ hx
      · obtain rfl := Option.some.inj hx
        exact here hup
    · rw [popAlignedLoop_skip hf hb] at hx; exact later _ _ hx

theorem popAlignedLoop_serves (h : RsOk M rs) (hsplit : rs.entries = A ++ e :: B) (hf : Fit M size e)
    (hb : HoldsBlock M size e) (hs : Serves M size rs alloc e) :
    ∃ rs', popAlignedLoop M size size rs A.length (e :: B) alloc =
      (some (alignUp size e.start), rs') ∧ Shrunk M size rs rs' (alignUp size e.start) := by
  obtain ⟨hw, hs⟩ := hs
  have hle : alignUp size e.start + size ≤ e.stop M := hb
  have hup := le_alignUp (x := e.start) hf.pos
  have hpos := hf.pos
  have hmod : size % M = size := Nat.mod_eq_of_lt hf.lt
  by_cases h0 : e.start % size = 0
  · have he : alignUp size e.start = e.start := by rw [alignUp_eq hpos, if_pos h0]
    rw [popAlignedLoop_front hf hb hw h0, he]
    rw [he] at hle
    have hlast : e.start ≤ e.start + size - 1 := by omega
    obtain ⟨h1, h2⟩ := h.trim hsplit hlast (by omega)
    rw [show e.start + size - 1 - e.start + 1 = size by omega, hmod] at h1
    rw [show e.start + size - 1 + 1 - e.start = size by omega] at h2
    exact ⟨_, rfl, .of_perm h h1 h2⟩
  by_cases h1 : e.stop M % size = 0
  · have he : alignUp size e.start = e.stop M - size := by omega
    rw [popAlignedLoop_back hf hb h0 h1, he]
    have hne : e.start ≠ e.stop M - size := fun hc => h0 (by
      rw [hc, (hf.back (by omega)).2.mpr h1])
    have hlast : e.stop M - size ≤ e.stop M - 1 := by omega
    obtain ⟨h2, h3⟩ := h.cut hsplit (by omega) hlast (by omega)
    rw [show e.stop M - 1 + 1 - (e.stop M - size) = size by omega] at h2 h3
    rw [hmod] at h2
    exact ⟨_, rfl, .of_perm h h2 h3⟩
  · have hne : e.start ≠ alignUp size e.start := fun hc => h0 (hc ▸ alignUp_aligned)
    rw [popAlignedLoop_middle hf hb h0 h1]
    have hmem : rs.rseCache ≠ 0 ∨ alloc 0 = true := by
      rcases hs with hs | hs | hs
      · exact absurd hs h0
      · exact absurd (by rw [← hs, Nat.add_mod_right]; exact alignUp_aligned) h1
      · exact hs.2
    obtain ⟨cache, hal⟩ : ∃ cache, allocateRse rs (alloc 0) = some { rs with rseCache := cache } := by
      unfold allocateRse
      split
      · next hc =>
        rw [if_pos (hmem.resolve_left fun hn => hn hc)]
        exact ⟨_, rfl⟩
      · exact ⟨_, rfl⟩
    have hok : RsOk M { rs with rseCache := cache } := ⟨h.ranges, h.cursor, h.items⟩
    have hlast : alignUp size e.start ≤ alignUp size e.start + size - 1 := by omega
    obtain ⟨h2, h3⟩ := hok.cut hsplit (by omega) hlast (by omega)
    rw [show alignUp size e.start + size - 1 + 1 - alignUp size e.start = size by omega] at h2 h3
    rw [hmod] at h2
    rw [hal]
    exact ⟨_, rfl, .of_perm h h2 h3⟩

theorem popAlignedLoop_fails (hf : Fit M size e) (hb : HoldsBlock M size e)
    (hes : ∀ f ∈ B, Fit M size f ∧ e.stop M < f.start) (hs : ¬ Serves M size rs alloc e) :
    (popAlignedLoop M size size rs q (e :: B) alloc).1 ≠ some (alignUp size e.start) := by
  have hle : alignUp size e.start + size ≤ e.stop M := hb
  -- the ranges behind it have no block at that place
  have later : ∀ q alloc,
      (popAlignedLoop M size size rs q B alloc).1 ≠ some (alignUp size e.start) := by
    intro q alloc hx
    obtain ⟨f, hf, hle'⟩ := popAlignedLoop_start (fun f hf => (hes f hf).1) q alloc hx
    have := (hes f hf).2
    omega
  by_cases hw : e.start = 0 ∧ e.end1 = 0
  · rw [popAlignedLoop_whole hf hw]; exact later _ _
  have h0 : e.start % size ≠ 0 := fun h0 => hs ⟨hw, .inl h0⟩
  have hlast : alignUp size e.start + size ≠ e.stop M := fun hc => hs ⟨hw, .inr (.inl hc)⟩
  by_cases h1 : e.stop M % size = 0
  · rw [popAlignedLoop_back hf hb h0 h1]
    simp only [ne_eq, Option.some.injEq]
    omega
  · rw [popAlignedLoop_middle hf hb h0 h1]
    have hno : allocateRse rs (alloc 0) = none := by
      have hmem : ¬ (rs.rseCache ≠ 0 ∨ alloc 0 = true) := fun hc => hs ⟨hw, .inr (.inr ⟨h1, hc⟩)⟩
      rw [not_or, not_not] at hmem
      rw [allocateRse, if_pos hmem.1, if_neg hmem.2]
    rw [hno]
    exact later _ _

end Contract

/-- For every set in good order and every block order the contract holds if and only if the first
range with a block serves. -/
theorem aligned_block_iff {w order : Nat} (ho : order < w) {rs : RangeSet} (h : RsOk (2 ^ w) rs)
    (alloc : Nat → Bool) :
    PopsSmallestBlock (2 ^ w) (2 ^ order) rs alloc ↔
      ∀ e ∈ rs.entries, HoldsBlock (2 ^ w) (2 ^ order) e →
        (∀ f ∈ rs.entries, HoldsBlock (2 ^ w) (2 ^ order) f → e.start ≤ f.start) →
        Serves (2 ^ w) (2 ^ order) rs alloc e := by
  have hpos : 0 < 2 ^ order := Nat.two_pow_pos order
  have fit : ∀ e ∈ rs.entries, Fit (2 ^ w) (2 ^ order) e := fun e he =>
    ⟨(h.ranges.nonempty e he).1, (h.ranges.nonempty e he).2, hpos,
      Nat.pow_dvd_pow 2 (Nat.le_of_lt ho), Nat.pow_lt_pow_right (by decide) ho⟩
  generalize 2 ^ w = M at *
  generalize 2 ^ order = size at *
  have hcall : rangeSetPopAlignedBlock M size size rs alloc =
      some (popAlignedLoop M size size rs 0 rs.entries alloc) := by
    rw [rangeSetPopAlignedBlock, if_neg (by omega)]
  cases hfind : rs.entries.find? (HoldsBlock M size ·) with
  | none =>
    have hnone : ∀ e ∈ rs.entries, ¬ HoldsBlock M size e := by
      simpa using List.find?_eq_none.mp hfind
    have hloop : popAlignedLoop M size size rs 0 (rs.entries ++ []) alloc =
        popAlignedLoop M size size rs (0 + rs.entries.length) [] alloc :=
      popAlignedLoop_append (fun a ha => ⟨fit a ha, hnone a ha⟩) 0
    rw [List.append_nil] at hloop
    constructor
    · exact fun _ e he hb _ => absurd hb (hnone e he)
    · intro _
      refine ⟨none, rs, by rw [hcall, hloop]; rfl, rfl, fun y hy => ?_⟩
      obtain ⟨e, he, hb, -⟩ := hy.holds h hpos
      exact hnone e he hb
  | some e =>
    obtain ⟨hb, A, B, hsplit, hA⟩ := List.find?_eq_some_iff_append.mp hfind
    have hb : HoldsBlock M size e := by simpa using hb
    have hA : ∀ a ∈ A, ¬ HoldsBlock M size a := fun a ha => by simpa using hA a ha
    have hR : Ranges M (A ++ e :: B) := hsplit ▸ h.ranges
    have hbehind := (ranges_cons.mp (ranges_append.mp hR).2.1).2.2
    have he : e ∈ rs.entries := by rw [hsplit]; simp
    have hstart := (fit e he).nonempty
    -- no range with a block is before it
    have hfirst : ∀ f ∈ rs.entries, HoldsBlock M size f → e.start ≤ f.start := by
      intro f hf hbf
      rw [hsplit, List.mem_append, List.mem_cons] at hf
      rcases hf with hf | rfl | hf
      · exact absurd hbf (hA f hf)
      · exact Nat.le_refl _
      · have := hbehind f hf; omega
    have hmin : ∀ y, BlockAt M size rs y → alignUp size e.start ≤ y := by
      intro y hy
      obtain ⟨f, hf, hbf, hle⟩ := hy.holds h hpos
      exact Nat.le_trans (alignUp_least hpos (Nat.le_trans (hfirst f hf hbf) (le_alignUp hpos))
        alignUp_aligned) hle
    have hloop : popAlignedLoop M size size rs 0 (A ++ e :: B) alloc =
        popAlignedLoop M size size rs (0 + A.length) (e :: B) alloc :=
      popAlignedLoop_append (fun a ha => ⟨fit a (by rw [hsplit]; simp [ha]), hA a ha⟩) 0
    rw [← hsplit, Nat.zero_add] at hloop
    constructor
    · rintro ⟨out, rs', heq, hres⟩ f hf hbf hfmin
      obtain rfl : f = e := by
        have h1 := hfirst f hf hbf
        have h2 := hfmin e he hb
        rw [hsplit, List.mem_append, List.mem_cons] at hf
        rcases hf with hf | rfl | hf
        · exact absurd hbf (hA f hf)
        · rfl
        · have := hbehind f hf; omega
      by_contra hs
      have hfail : (popAlignedLoop M size size rs A.length (f :: B) alloc).1 ≠
          some (alignUp size f.start) :=
        popAlignedLoop_fails (fit f he) hb
          (fun g hg => ⟨fit g (by rw [hsplit]; simp [hg]), hbehind g hg⟩) hs
      rw [hcall, hloop, Option.some.injEq] at heq
      rw [heq] at hfail
      have hblock := blockAt_alignUp he hpos hb
      cases out with
      | none => exact hres.2 _ hblock
      | some x => exact hfail (by rw [Nat.le_antisymm (hres.2.1 _ hblock) (hmin x hres.1)])
    · intro hall
      obtain ⟨rs', h1, h2⟩ := popAlignedLoop_serves h hsplit (fit e he) hb (hall e he hb hfirst)
      exact ⟨some _, rs', by rw [hcall, hloop, h1], blockAt_alignUp he hpos hb, hmin, h2⟩

/-- The indices from 1 to 11, from which blocks of four can be taken at 4 and at 8. -/
def oneToEleven : RangeSet := ⟨[⟨1, 12⟩], none, 0, 11⟩

theorem oneToEleven_ok : RsOk (2 ^ 64) oneToEleven := by
  refine ⟨⟨?_, ?_⟩, ?_, ?_⟩
  · decide
  · decide
  · decide
  · decide

/-- Of the single indices the first is taken. -/
theorem aligned_block_iff_single :
    RsOk (2 ^ 64) oneToEleven ∧ PopsSmallestBlock (2 ^ 64) (2 ^ 0) oneToEleven fun _ => false := by
  refine ⟨oneToEleven_ok, (aligned_block_iff (w := 64) (by decide) oneToEleven_ok _).mpr ?_⟩
  decide

/-- Of the blocks of four the second is taken, at the end of the range. -/
theorem aligned_block_not_smallest :
    RsOk (2 ^ 64) oneToEleven ∧
      (rangeSetPopAlignedBlock (2 ^ 64) (2 ^ 2) (2 ^ 2) oneToEleven fun _ => true) =
        some (some 8, { oneToEleven with entries := [⟨1, 8⟩], nrItems := 7 }) ∧
      BlockAt (2 ^ 64) (2 ^ 2) oneToEleven 4 ∧
      ¬ PopsSmallestBlock (2 ^ 64) (2 ^ 2) oneToEleven fun _ => true := by
  have hblock : BlockAt (2 ^ 64) (2 ^ 2) oneToEleven 4 :=
    blockAt_alignUp (e := ⟨1, 12⟩) List.mem_cons_self (by decide) (by decide)
  refine ⟨oneToEleven_ok, by decide, hblock, ?_⟩
  rintro ⟨out, rs', heq, hres⟩
  have hout : rangeSetPopAlignedBlock (2 ^ 64) (2 ^ 2) (2 ^ 2) oneToEleven (fun _ => true) =
      some (some 8, { oneToEleven with entries := [⟨1, 8⟩], nrItems := 7 }) := by decide
  rw [hout, Option.some.injEq] at heq
  obtain ⟨rfl, rfl⟩ := heq
  exact absurd (hres.2.1 4 hblock) (by decide)

end XcWindows.Balloon
