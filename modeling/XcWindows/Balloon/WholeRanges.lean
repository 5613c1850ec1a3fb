import XcWindows.Balloon.RangeSet

/-!
# Whole ranges

`RangeSetAddRange` adds the first index of its range and then stretches the entry at the cursor. That
works because `RangeSetAdd` leaves the cursor at the entry with the new index, and because none of
the other indices is in the set.

`RangeSetRemoveRange` is right only for a range at the start of an entry that does not reach the
largest index: otherwise it ends the entry one index too early, or it never finds the entry.
-/

namespace XcWindows.Balloon

section Functions
variable (M : Nat)

/-- `RangeSetAddRange`, of the range from `start` to `last`. -/
def rangeSetAddRange (rs : RangeSet) (start last : Nat) (alloc : Bool) :
    Option (Bool × RangeSet) :=
  match rangeSetAdd M rs start alloc with
  | none => none
  | some (false, rs) => some (false, rs)
  | some (true, rs) =>
    if start = last then some (true, rs)
    else
      match rs.zipper with
      | ([], _) => none
      | (e :: left, right) =>
        if start = (e.end1 + M - 1) % M then
          some (true, { mergeForwards rs ({ e with end1 := (last + 1) % M } :: left) right with
                        nrItems := (rs.nrItems + (last + M - start) % M) % M })
        else none

end Functions

section Insert
variable {M idx start last : Nat} {rs rs' : RangeSet} {left right : List Rse} {new : List Nat}

/-- The set `rs'` is `rs` with the indices `new`, in good order and counted. -/
structure Grown (M : Nat) (rs rs' : RangeSet) (new : List Nat) : Prop where
  ok : RsOk M rs'
  union : (elems M rs'.entries).Perm (new ++ elems M rs.entries)
  items : rs'.nrItems = (rs.nrItems + new.length) % M

theorem Grown.of_union (h : RsOk M rs) (ok : RsOk M rs')
    (hp : (elems M rs'.entries).Perm (new ++ elems M rs.entries)) : Grown M rs rs' new := by
  refine ⟨ok, hp, ?_⟩
  rw [ok.items, hp.length_eq, h.items, List.length_append, Nat.mod_add_mod, Nat.add_comm]

theorem zipper_unzip (rs : RangeSet) (e : Rse) :
    (rs.unzip (e :: left) right).zipper = (e :: left, right) := by
  have h : left.length + 1 = (left.reverse ++ [e]).length := by simp
  simp only [RangeSet.unzip, RangeSet.zipper, List.reverse_cons, reduceCtorEq, if_false,
    List.length_cons, Nat.add_sub_cancel]
  rw [h, List.take_left', List.drop_left']
  · simp
  · rfl
  · rfl

/-- The cursor is at the entry that ends behind the new index, when no range follows there. -/
theorem addAt_cursor (rs : RangeSet) (left : List Rse) (alloc : Bool)
    (hr : ∀ b ∈ right, idx + 1 < b.start) (hM : idx + 1 < M)
    (hok : (addAt M rs left right idx alloc).1 = true) :
    ∃ s rest, (addAt M rs left right idx alloc).2.zipper = (⟨s, idx + 1⟩ :: rest, right) := by
  have hmod : (idx + 1) % M = idx + 1 := Nat.mod_eq_of_lt hM
  have hnew : (insertNew M rs left right idx alloc).1 = true →
      ∃ s rest, (insertNew M rs left right idx alloc).2.zipper = (⟨s, idx + 1⟩ :: rest, right) := by
    unfold insertNew
    split
    · intro h; cases h
    · next rs' _ =>
      intro _
      rw [hmod]
      exact ⟨idx, left, zipper_unzip rs' _⟩
  -- the next range does not start at `idx + 1`
  have hbefore : addBeforeNext M rs left right idx alloc = insertNew M rs left right idx alloc := by
    unfold addBeforeNext
    split
    · next n rest =>
      have := hr n (by simp)
      rw [if_neg (by omega)]
    · rfl
  unfold addAt at hok ⊢
  split
  · next e rest =>
    simp only at hok
    split
    · next he =>
      subst he
      rw [hmod]
      cases right with
      | nil => exact ⟨e.start, rest, zipper_unzip rs _⟩
      | cons n right =>
        have := hr n (by simp)
        rw [mergeForwards, if_neg (by simp only; omega)]
        exact ⟨e.start, rest, zipper_unzip rs _⟩
    · next he =>
      rw [if_neg he, hbefore] at hok
      rw [hbefore]
      exact hnew hok
  · simp only at hok
    rw [hbefore] at hok ⊢
    exact hnew hok

theorem rangeSetAdd_cursor (h : RsOk M rs) (hM : idx + 1 < M) (hidx : idx ∉ elems M rs.entries)
    (hnext : idx + 1 ∉ elems M rs.entries) {alloc : Bool}
    (heq : rangeSetAdd M rs idx alloc = some (true, rs')) :
    ∃ s left right, rs'.zipper = (⟨s, idx + 1⟩ :: left, right) := by
  obtain ⟨left, right, hadd, he, -, hr⟩ := rangeSetAdd_place h hidx alloc
  rw [hadd, Option.some.injEq] at heq
  have hr' : ∀ b ∈ right, idx + 1 < b.start := by
    intro b hb
    have hb' : b ∈ rs.entries := by rw [← he]; simp [hb]
    have hne : b.start ≠ idx + 1 := fun e => hnext (e ▸ h.ranges.start_mem hb')
    have := hr b hb
    omega
  obtain ⟨s, rest, hz⟩ := addAt_cursor rs left alloc hr' hM (by rw [heq])
  rw [heq] at hz
  exact ⟨s, rest, right, hz⟩

theorem rangeSetAddRange_spec (h : RsOk M rs) (hle : start ≤ last) (hM : last < M)
    (hx : ∀ x, start ≤ x → x ≤ last → x ∉ elems M rs.entries) (alloc : Bool) :
    ∃ ok rs', rangeSetAddRange M rs start last alloc = some (ok, rs') ∧
      (ok = true → Grown M rs rs' (List.range' start (last + 1 - start))) ∧
      (ok = false → alloc = false ∧ Grown M rs rs' []) := by
  have hstart := hx start (Nat.le_refl _) hle
  obtain ⟨ok, rs1, heq, hok1, hd, hf⟩ := rangeSetAdd_spec h (by omega) hstart alloc
  unfold rangeSetAddRange
  rw [heq]
  cases ok with
  | false =>
    obtain ⟨hno, hsame⟩ := hf rfl
    exact ⟨false, rs1, rfl, by simp, fun _ =>
      ⟨hno, .of_union h hok1 (by rw [hsame]; exact .refl _)⟩⟩
  | true =>
    have hp := hd rfl
    simp only
    split
    · next he =>
      refine ⟨true, rs1, rfl, fun _ => .of_union h hok1 ?_, by simp⟩
      rw [← he, Nat.add_sub_cancel_left]
      exact hp
    · next hne =>
      have hnext := hx (start + 1) (by omega) (by omega)
      obtain ⟨s, left, right, hz⟩ := rangeSetAdd_cursor h (by omega) hstart hnext heq
      have hent : left.reverse ++ ⟨s, start + 1⟩ :: right = rs1.entries := by
        have := zipper_eq rs1
        rw [hz] at this
        simpa using this
      have hR : Ranges M (left.reverse ++ ⟨s, start + 1⟩ :: right) := hent ▸ hok1.ranges
      have hstop : Rse.stop M ⟨s, start + 1⟩ = start + 1 := rfl
      have hs := (hR.nonempty _ (List.mem_append_right _ (List.mem_cons_self ..))).1
      -- what follows the entry starts behind the new range
      have hr : ∀ b ∈ right, last < b.start := by
        intro b hb
        have hgt : start + 1 < b.start := (ranges_cons.mp (ranges_append.mp hR).2.1).2.2 b hb
        by_contra hc
        have hmem := hok1.ranges.start_mem (e := b) (by rw [← hent]; simp [hb])
        rcases List.mem_cons.mp (hp.mem_iff.mp hmem) with hb' | hb'
        · omega
        · exact hx b.start (by omega) (by omega) hb'
      obtain ⟨rs2, left', right', hm, -, h1, h2⟩ :=
        mergeForwards_spec rs1 hR hM (by rw [hstop]; omega) hr
      have hend : (start + 1 + M - 1) % M = start := by
        rw [show start + 1 + M - 1 = start + M by omega, Nat.add_mod_right,
          Nat.mod_eq_of_lt (by omega)]
      rw [hz]
      simp only [hend, if_true, hm]
      rw [hstop, show last + 1 - (start + 1) = last - start by omega] at h2
      have hlen : last + 1 - start = (last - start) + 1 := by omega
      have hperm : (elems M (left'.reverse ++ right')).Perm
          (List.range' start (last + 1 - start) ++ elems M rs.entries) := by
        rw [h2, hlen, List.range'_succ, List.cons_append]
        have hmid : (elems M (left.reverse ++ [⟨s, start + 1⟩]) ++
            (List.range' (start + 1) (last - start) ++ elems M right)).Perm
            (List.range' (start + 1) (last - start) ++ elems M rs1.entries) := by
          rw [← hent]
          simp only [elems_append, elems_cons, elems_nil, List.append_nil]
          have := List.perm_append_comm_assoc (elems M left.reverse ++ Rse.elems M ⟨s, start + 1⟩)
            (List.range' (start + 1) (last - start)) (elems M right)
          simpa only [List.append_assoc] using this
        exact hmid.trans ((hp.append_left _).trans List.perm_middle)
      have hitems : (rs1.nrItems + (last + M - start) % M) % M =
          (elems M (left'.reverse ++ right')).length % M := by
        have hmod : (last + M - start) % M = last - start := by
          rw [show last + M - start = last - start + M by omega, Nat.add_mod_right,
            Nat.mod_eq_of_lt (by omega)]
        rw [hmod, hok1.items, Nat.mod_add_mod, hp.length_eq, hperm.length_eq, List.length_append,
          List.length_range', List.length_cons]
        congr 1; omega
      refine ⟨true, _, rfl, fun _ => .of_union h ⟨h1, unzip_cursor rs2 left' right', hitems⟩ ?_,
        by simp⟩
      exact hperm

/-- Insertion: what is added is disjoint from the set, and the result is the union in good order. A
failed call changes nothing but the cursor, and a failed `RangeSetAddItems` keeps the items it has
reported. -/
theorem insertion_union (h : RsOk M rs) :
    (∀ idx, idx < M → idx ∉ elems M rs.entries → ∀ alloc, ∃ ok rs',
      rangeSetAdd M rs idx alloc = some (ok, rs') ∧ (alloc = true → ok = true) ∧
      Grown M rs rs' (if ok then [idx] else [])) ∧
    (∀ start last, start ≤ last → last < M →
      (∀ x, start ≤ x → x ≤ last → x ∉ elems M rs.entries) → ∀ alloc, ∃ ok rs',
      rangeSetAddRange M rs start last alloc = some (ok, rs') ∧ (alloc = true → ok = true) ∧
      Grown M rs rs' (if ok then List.range' start (last + 1 - start) else [])) ∧
    (∀ items, (∀ x ∈ items, x < M ∧ x ∉ elems M rs.entries) → items.Nodup → ∀ alloc, ∃ n rs',
      rangeSetAddItems M rs items alloc = some (n, rs') ∧ n ≤ items.length ∧
      ((∀ i, i < items.length → alloc i = true) → n = items.length) ∧
      Grown M rs rs' (items.take n)) := by
  refine ⟨fun idx hM hidx alloc => ?_, fun start last hle hM hx alloc => ?_,
    fun items hx hnd alloc => ?_⟩
  · obtain ⟨ok, rs', heq, hok, hd, hf⟩ := rangeSetAdd_spec h hM hidx alloc
    refine ⟨ok, rs', heq, ?_, .of_union h hok ?_⟩
    · cases ok <;> simp_all
    · cases ok with
      | false => rw [(hf rfl).2]; exact .refl _
      | true => exact hd rfl
  · obtain ⟨ok, rs', heq, hd, hf⟩ := rangeSetAddRange_spec h hle hM hx alloc
    cases ok with
    | false =>
      obtain ⟨hno, hg⟩ := hf rfl
      exact ⟨false, rs', heq, by simp [hno], hg⟩
    | true => exact ⟨true, rs', heq, fun _ => rfl, hd rfl⟩
  · obtain ⟨n, rs', heq, hok, hn, hp, hall⟩ := rangeSetAddItems_spec items alloc h hx hnd
    exact ⟨n, rs', heq, hn, hall, .of_union h hok hp⟩

/-- Two ranges, the second up to the largest index, with the cursor at it. -/
def topped : RangeSet := ⟨[⟨5, 10⟩, ⟨4294967290, 0⟩], some 1, 0, 11⟩

theorem topped_ok : RsOk (2 ^ 32) topped := by
  refine ⟨⟨?_, ?_⟩, ?_, ?_⟩
  · decide
  · decide
  · decide
  · decide

theorem mem_topped {x : Nat} :
    x ∈ elems (2 ^ 32) topped.entries ↔ (5 ≤ x ∧ x < 10) ∨ (4294967290 ≤ x ∧ x < 2 ^ 32) := by
  simp [topped, Rse.mem_elems, Rse.stop]

/-- The gap between the two ranges is filled. -/
theorem insertion_union_gap : RsOk (2 ^ 32) topped ∧ ∃ ok rs',
    rangeSetAddRange (2 ^ 32) topped 10 4294967289 true = some (ok, rs') ∧ ok = true ∧
    Grown (2 ^ 32) topped rs' (if ok then List.range' 10 4294967280 else []) := by
  refine ⟨topped_ok, ?_⟩
  obtain ⟨ok, rs', h1, h2, h3⟩ := (insertion_union topped_ok).2.1 10 4294967289 (by omega)
    (by omega) (fun x h1 h2 => by rw [mem_topped]; omega) true
  exact ⟨ok, rs', h1, h2 rfl, h3⟩

end Insert

/-! ## Removal -/

section Remove
variable {M start last : Nat} {rs rs' : RangeSet} {e : Rse} {A B : List Rse}

/-- `RangeSetRemoveRange` takes exactly the range, or gets no memory and leaves the set as it is. -/
def RemovesExactly (M : Nat) (rs : RangeSet) (start last : Nat) (alloc : Bool) : Prop :=
  ∃ ok rs', rangeSetRemoveRange M rs start last alloc = some (ok, rs') ∧
    (alloc = true → ok = true) ∧ RsOk M rs' ∧
    if ok then
      (∀ x, x ∈ elems M rs'.entries ↔ x ∈ elems M rs.entries ∧ ¬ (start ≤ x ∧ x ≤ last)) ∧
        (rs'.nrItems + (last - start + 1)) % M = rs.nrItems
    else rs' = rs

theorem findRange_some {l : List Rse} {x q : Nat} (n : Nat) : ∀ i, findRange l x n i = some q →
    ∃ e, l[q]? = some e ∧ e.start ≤ x ∧ x < e.end1 := by
  induction n with
  | zero => intro i h; cases h
  | succ n ih =>
    intro i h
    unfold findRange at h
    split at h
    · cases h
    · next e he =>
      split at h
      · split at h
        · cases h
        · exact ih _ h
      · split at h
        · exact ih _ h
        · obtain rfl : i = q := by simpa using h
          exact ⟨e, he, by omega, by omega⟩

/-- Two entries that hold one index are one. -/
theorem Ranges.unique {l : List Rse} {f : Rse} {x : Nat} (h : Ranges M l) (hf : f ∈ l)
    (he : e ∈ l) (h1 : f.start ≤ x) (h2 : x < f.stop M) (h3 : e.start ≤ x) (h4 : x < e.stop M) :
    f = e := by
  obtain ⟨A, B, rfl⟩ := List.append_of_mem he
  obtain ⟨-, ha, h5⟩ := ranges_append.mp h
  rcases List.mem_append.mp hf with hf | hf
  · have := h5 f hf e (by simp); omega
  · rcases List.mem_cons.mp hf with rfl | hf
    · rfl
    · have := (ranges_cons.mp ha).2.2 f hf; omega

/-- The index before a range is not in the set. -/
theorem Ranges.pred_not_mem (h : Ranges M (A ++ e :: B)) (h0 : e.start ≠ 0) :
    e.start - 1 ∉ elems M (A ++ e :: B) := by
  obtain ⟨-, h2, h3⟩ := ranges_append.mp h
  obtain ⟨h4, -, h6⟩ := ranges_cons.mp h2
  intro hx
  obtain ⟨f, hf, h7, h8⟩ := mem_elems.mp hx
  rcases List.mem_append.mp hf with hf | hf
  · have := h3 f hf e (by simp); omega
  · rcases List.mem_cons.mp hf with rfl | hf
    · omega
    · have := h6 f hf; omega

/-- An index of the entry is gone when no entry in its place holds it. -/
theorem not_mem_splice (h : Ranges M (A ++ e :: B)) {x : Nat} (h1 : e.start ≤ x)
    (h2 : x < e.stop M) {es : List Rse} (hes : ∀ f ∈ es, f.stop M ≤ x ∨ x < f.start) :
    x ∉ elems M (A ++ es ++ B) := by
  obtain ⟨-, ha, h3⟩ := ranges_append.mp h
  obtain ⟨-, -, h6⟩ := ranges_cons.mp ha
  intro hx
  obtain ⟨f, hf, h7, h8⟩ := mem_elems.mp hx
  rw [List.append_assoc, List.mem_append, List.mem_append] at hf
  rcases hf with hf | hf | hf
  · have := h3 f hf e (by simp); omega
  · have := hes f hf; omega
  · have := h6 f hf; omega

/-- Where the entry starts before the range, the index before the range goes too. -/
theorem not_removesExactly (h : RsOk M rs) (hsplit : rs.entries = A ++ e :: B)
    (hs : e.start < start) (hle : start ≤ last) (hl : last < e.end1) :
    ¬ RemovesExactly M rs start last true := by
  have hstop : e.stop M = e.end1 := by unfold Rse.stop; rw [if_neg (by omega)]
  have hR : Ranges M (A ++ e :: B) := hsplit ▸ h.ranges
  have hlt := (hR.nonempty e (by simp)).2
  have hmod : (last + 1) % M = last + 1 := Nat.mod_eq_of_lt (by omega)
  rintro ⟨ok, rs', heq, hyes, hok, hres⟩
  obtain rfl := hyes rfl
  have hin : start - 1 ∈ elems M rs'.entries :=
    (hres.1 _).mpr ⟨mem_elems.mpr ⟨e, by rw [hsplit]; simp, by omega, by omega⟩, by omega⟩
  have hget : rs.entries[A.length]? = some e := by rw [hsplit]; simp
  unfold rangeSetRemoveRange at heq
  rw [findRange_cursor h hsplit (by omega) (by omega)] at heq
  simp only [hget, hmod] at heq
  rw [if_neg (by omega)] at heq
  split at heq
  · -- the end of the entry
    obtain rfl : _ = rs' := by simpa using heq
    simp only [splice_entries hsplit] at hin
    refine not_mem_splice hR (by omega) (by omega) (fun f hf => ?_) hin
    split at hf
    · cases hf
    · next hne =>
      obtain rfl := List.mem_singleton.mp hf
      left
      unfold Rse.stop
      simp only at hne ⊢
      split <;> omega
  · -- the middle
    split at heq
    · cases heq
    · next rs1 hal =>
      have he1 : rs1.entries = rs.entries := by
        unfold allocateRse at hal
        split at hal
        · cases hal; rfl
        · cases hal; rfl
      obtain rfl : _ = rs' := by simpa using heq
      have hsplit1 := he1.trans hsplit
      have hR' := hok.ranges
      simp only [splice_entries hsplit1] at hin hR'
      -- the two new entries are in order only when the first does not end at `M`
      have hfg := (ranges_append.mp (ranges_append.mp hR').1).2.1
      have hapart : Rse.stop M { e with end1 := start - 1 } < last + 1 :=
        (ranges_cons.mp hfg).2.2 _ (List.mem_singleton_self _)
      have hf : Rse.stop M { e with end1 := start - 1 } = start - 1 := by
        unfold Rse.stop at hapart ⊢
        simp only at hapart ⊢
        split
        · next h0 => rw [if_pos h0] at hapart; omega
        · rfl
      refine not_mem_splice hR (by omega) (by omega) (fun f hf' => ?_) hin
      rcases List.mem_cons.mp hf' with rfl | hf'
      · exact .inl (Nat.le_of_eq hf)
      · obtain rfl := List.mem_singleton.mp hf'
        right; simp only; omega

/-- Removal takes exactly its range, whatever the cursor and the memory, if and only if the index
before the range and some index behind it are not in the set. -/
theorem removal_exact_iff (h : RsOk M rs) (hle : start ≤ last)
    (hx : ∀ x, start ≤ x → x ≤ last → x ∈ elems M rs.entries) :
    (∀ alloc, RemovesExactly M rs start last alloc) ↔
      (start = 0 ∨ start - 1 ∉ elems M rs.entries) ∧
        ∃ y, last < y ∧ y < M ∧ y ∉ elems M rs.entries := by
  obtain ⟨A, e, B, hsplit, hs, hl⟩ := h.ranges.single hle hx
  have hmem : e ∈ rs.entries := by rw [hsplit]; simp
  have hlt := (h.ranges.nonempty e hmem).2
  constructor
  · intro hall
    -- the search has found an entry with an end
    obtain ⟨ok, rs', heq, -⟩ := hall true
    have hend : last < e.end1 := by
      unfold rangeSetRemoveRange at heq
      split at heq
      · cases heq
      · next q hq =>
        obtain ⟨f, hf, h1, h2⟩ := findRange_some _ _ hq
        have hfm := List.mem_of_getElem? hf
        have hfs : f.stop M = f.end1 := by unfold Rse.stop; rw [if_neg (by omega)]
        obtain rfl : f = e := h.ranges.unique hfm hmem h1 (by omega) hs (by omega)
        omega
    -- and the entry starts with the range
    obtain rfl : e.start = start := by
      by_contra hne
      exact not_removesExactly h hsplit (by omega) hle hend (hall true)
    have hstop : e.stop M = e.end1 := by unfold Rse.stop; rw [if_neg (by omega)]
    have hR := h.ranges
    rw [hsplit] at hR ⊢
    exact ⟨or_iff_not_imp_left.mpr hR.pred_not_mem, e.end1, hend, hlt, hstop ▸ hR.stop_not_mem⟩
  · rintro ⟨hpred, y, hy, hyM, hny⟩
    obtain rfl : e.start = start := by
      by_contra hne
      rcases hpred with h0 | hpred
      · omega
      · exact hpred (mem_elems.mpr ⟨e, hmem, by omega, by omega⟩)
    have hstop : e.stop M ≤ y := by
      by_contra hc
      exact hny (mem_elems.mpr ⟨e, hmem, by omega, by omega⟩)
    have hend : last < e.end1 := by
      unfold Rse.stop at hl hstop
      split at hl
      · next h0 => rw [if_pos h0] at hstop; omega
      · exact hl
    intro alloc
    obtain ⟨rs', h1, h2, -, h4⟩ := rangeSetRemoveRange_spec h hsplit hle hend alloc
    obtain ⟨hrest, hitems⟩ := h.of_perm h2 h4
    refine ⟨true, rs', h1, fun _ => rfl, h2, fun x => ?_, ?_⟩
    · rw [hrest]
      exact and_congr_right fun _ => not_congr (and_congr_right fun _ => by omega)
    · rw [← hitems]
      congr 2
      omega

/-- The front of the lower range goes exactly. -/
theorem removal_exact_front : RsOk (2 ^ 32) topped ∧
    ∀ alloc, RemovesExactly (2 ^ 32) topped 5 7 alloc := by
  refine ⟨topped_ok, (removal_exact_iff topped_ok (by omega) fun x h1 h2 => ?_).mpr ?_⟩
  · rw [mem_topped]; omega
  · simp only [mem_topped]
    exact ⟨by omega, 10, by omega⟩

/-- Removing the indices from 7 to 9 loses 6 as well. -/
theorem removal_loses_predecessor :
    RsOk (2 ^ 32) topped ∧ (∀ x, 7 ≤ x → x ≤ 9 → x ∈ elems (2 ^ 32) topped.entries) ∧
      (∃ rs', rangeSetRemoveRange (2 ^ 32) topped 7 9 true = some (true, rs') ∧
        rs'.entries = [⟨5, 6⟩, ⟨4294967290, 0⟩]) ∧
      ¬ RemovesExactly (2 ^ 32) topped 7 9 true := by
  refine ⟨topped_ok, fun x h1 h2 => by rw [mem_topped]; omega, ⟨_, rfl, by decide⟩, ?_⟩
  exact not_removesExactly (A := []) topped_ok rfl (by decide) (by decide) (by decide)

end Remove

/-! ## Popping -/

section Pop
variable {M : Nat}

/-- `n` calls of `RangeSetPopOne`, and so `RangeSetPopMany`, return the `n` smallest indices in
ascending order; after each call the set is the rest, in good order. -/
theorem pop_smallest (hM : 1 < M) {rs : RangeSet} (h : RsOk M rs) (n : Nat)
    (hn : n ≤ (elems M rs.entries).length) :
    (elems M rs.entries).Pairwise (· < ·) ∧ ∃ states : Nat → RangeSet, states 0 = rs ∧
      (∀ i < n, rangeSetPopOne M (states i) =
        (elems M rs.entries)[i]?.map fun x => (x, states (i + 1))) ∧
      (∀ i ≤ n, RsOk M (states i) ∧ elems M (states i).entries = (elems M rs.entries).drop i ∧
        ((states i).nrItems + i) % M = rs.nrItems) ∧
      rangeSetPopMany M rs n = some ((elems M rs.entries).take n, states n) := by
  obtain ⟨states, h0, hstep, hstate, hmany⟩ := popOne_states hM n h hn
  refine ⟨h.ranges.sorted, states, h0, hstep, fun i hi => ?_, hmany⟩
  obtain ⟨hok, hel⟩ := hstate i hi
  refine ⟨hok, hel, ?_⟩
  rw [hok.items, hel, h.items, Nat.mod_add_mod, List.length_drop]
  congr 1; omega

/-- The lower range goes whole, and the first index of the one that ends at 2^32. -/
theorem pop_smallest_across : ∃ rs',
    rangeSetPopMany (2 ^ 32) topped 6 = some ([5, 6, 7, 8, 9, 4294967290], rs') ∧
      RsOk (2 ^ 32) rs' ∧ rs'.nrItems = 5 := by
  have hel : elems (2 ^ 32) topped.entries =
      [5, 6, 7, 8, 9, 4294967290, 4294967291, 4294967292, 4294967293, 4294967294, 4294967295] := by
    decide
  obtain ⟨-, states, -, -, hstate, hmany⟩ := pop_smallest (by decide) topped_ok 6 (by rw [hel]; decide)
  obtain ⟨hok, he, -⟩ := hstate 6 (Nat.le_refl _)
  refine ⟨states 6, by rw [hmany, hel]; rfl, hok, ?_⟩
  rw [hok.items, he, hel]
  rfl

end Pop

end XcWindows.Balloon
