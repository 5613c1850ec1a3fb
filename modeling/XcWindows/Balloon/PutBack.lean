import XcWindows.Balloon.Worker

/-!
# Putting frames back

The frames that the hypervisor does not repopulate are put back one after the other, and what
`RangeSetAddItems` answers is ignored. A frame next to one of the set needs no entry; another one takes
an entry of the cache, which the popped ranges have filled, and only then one from the allocator. So
the allocator is asked at most once, for the range the popping has left with a part of its frames
(`PutBackServed`); when it refuses, that frame and the ones behind it are in neither place.
-/

namespace XcWindows.Balloon

/-! ## The cache of entries -/

section Cache
variable {M idx : Nat} {rs rs' : RangeSet} {left right : List Rse} {ok alloc : Bool} {e n : Rse}

theorem insertNew_cache (rs : RangeSet) (left right : List Rse) (idx : Nat) (alloc : Bool) :
    ((insertNew M rs left right idx alloc).1 = true ↔ rs.rseCache ≠ 0 ∨ alloc = true) ∧
      (insertNew M rs left right idx alloc).2.rseCache = rs.rseCache - 1 := by
  unfold insertNew allocateRse
  by_cases hc : rs.rseCache = 0
  · cases alloc <;> simp [hc, RangeSet.unzip, RangeSet.countUp]
  · simp [hc, RangeSet.unzip, RangeSet.countUp]

/-- The range before the index ends at it. -/
theorem end1_eq_idx (h : Ranges M (left.reverse ++ e :: right)) (hM : idx < M)
    (hs : e.start < idx) (hr : ∀ b ∈ right, idx < b.start)
    (hidx : idx ∉ elems M (left.reverse ++ e :: right)) :
    e.end1 = idx ↔ idx ≠ 0 ∧ idx - 1 ∈ elems M (left.reverse ++ e :: right) := by
  obtain ⟨-, h2, h3⟩ := ranges_append.mp h
  obtain ⟨h4, -, -⟩ := ranges_cons.mp h2
  have hstop : e.stop M ≤ idx := by
    by_contra hc
    exact hidx (mem_elems.mpr ⟨e, by simp, by omega, by omega⟩)
  have hend : e.stop M = e.end1 := by
    unfold Rse.stop at hstop ⊢
    split
    · next h0 => rw [if_pos h0] at hstop; omega
    · rfl
  constructor
  · intro he
    exact ⟨by omega, mem_elems.mpr ⟨e, by simp, by omega, by omega⟩⟩
  · rintro ⟨h0, hm⟩
    obtain ⟨f, hf, h5, h6⟩ := mem_elems.mp hm
    rcases List.mem_append.mp hf with hf | hf
    · have := h3 f hf e List.mem_cons_self; omega
    · rcases List.mem_cons.mp hf with rfl | hf
      · omega
      · have := hr f hf; omega

/-- The range behind the index starts right behind it. -/
theorem start_eq_succ (h : Ranges M (left ++ n :: right)) (hl : ∀ a ∈ left, a.stop M ≤ idx)
    (hs : idx < n.start) :
    (n.start = (idx + 1) % M ∧ n.start ≠ 0) ↔ idx + 1 ∈ elems M (left ++ n :: right) := by
  obtain ⟨-, h2, -⟩ := ranges_append.mp h
  obtain ⟨h4, -, h6⟩ := ranges_cons.mp h2
  have := Rse.stop_le h4.2
  rw [Nat.mod_eq_of_lt (by omega)]
  constructor
  · rintro ⟨he, -⟩
    exact mem_elems.mpr ⟨n, by simp, by omega, by omega⟩
  · intro hm
    obtain ⟨f, hf, h5, h7⟩ := mem_elems.mp hm
    rcases List.mem_append.mp hf with hf | hf
    · have := hl f hf; omega
    · rcases List.mem_cons.mp hf with rfl | hf
      · omega
      · have := h6 f hf; omega

/-- What an insertion does to the cache: next to an index of the set it needs no entry. -/
structure CacheUse (M : Nat) (rs : RangeSet) (idx : Nat) (alloc : Bool) (r : Bool × RangeSet) :
    Prop where
  next : (idx ≠ 0 ∧ idx - 1 ∈ elems M rs.entries) ∨ idx + 1 ∈ elems M rs.entries → r.1 = true
  behind : (idx ≠ 0 ∧ idx - 1 ∈ elems M rs.entries) → idx + 1 ∉ elems M rs.entries →
    r.2.rseCache = rs.rseCache
  apart : ¬ (idx ≠ 0 ∧ idx - 1 ∈ elems M rs.entries) → idx + 1 ∉ elems M rs.entries →
    (r.1 = true ↔ rs.rseCache ≠ 0 ∨ alloc = true) ∧ r.2.rseCache = rs.rseCache - 1

theorem addBeforeNext_cache (h : Ranges M rs.entries) (he : left.reverse ++ right = rs.entries)
    (hl : ∀ a ∈ left, a.stop M ≤ idx) (hr : ∀ b ∈ right, idx < b.start)
    (hb : ¬ (idx ≠ 0 ∧ idx - 1 ∈ elems M rs.entries)) :
    CacheUse M rs idx alloc (addBeforeNext M rs left right idx alloc) := by
  have hnew := insertNew_cache (M := M) rs left right idx alloc
  unfold addBeforeNext
  cases right with
  | nil =>
    have hnot : idx + 1 ∉ elems M rs.entries := by
      intro hm
      obtain ⟨f, hf, h1, h2⟩ := mem_elems.mp hm
      rw [← he] at hf
      have := hl f (by simpa using hf)
      omega
    exact ⟨fun hn => (hn.elim hb hnot).elim, fun hc => absurd hc hb, fun _ _ => hnew⟩
  | cons n rest =>
    have hR : Ranges M (left.reverse ++ n :: rest) := he ▸ h
    have hiff := start_eq_succ hR (fun a ha => hl a (List.mem_reverse.mp ha))
      (hr n List.mem_cons_self)
    rw [he] at hiff
    simp only
    split
    · next hn => exact ⟨fun _ => rfl, fun hc => absurd hc hb, fun _ hc => absurd (hiff.mp hn) hc⟩
    · next hn =>
      have hnot := mt hiff.mpr hn
      exact ⟨fun hc => (hc.elim hb hnot).elim, fun hc => absurd hc hb, fun _ _ => hnew⟩

theorem rangeSetAdd_cache (h : RsOk M rs) (hM : idx < M) (hidx : idx ∉ elems M rs.entries)
    (heq : rangeSetAdd M rs idx alloc = some (ok, rs')) : CacheUse M rs idx alloc (ok, rs') := by
  obtain ⟨left, right, hadd, he, hl, hr⟩ := rangeSetAdd_place h hidx alloc
  rw [hadd, Option.some.injEq] at heq
  rw [← heq]
  have hR : Ranges M (left.reverse ++ right) := he ▸ h.ranges
  have hl' : ∀ a ∈ left, a.stop M ≤ idx := by
    intro a ha
    by_contra hc
    exact hidx (mem_elems.mpr ⟨a, by rw [← he]; simp [ha], by have := hl a ha; omega, by omega⟩)
  unfold addAt
  cases left with
  | nil =>
    refine addBeforeNext_cache h.ranges he hl' hr fun hc => ?_
    obtain ⟨f, hf, h1, h2⟩ := mem_elems.mp hc.2
    rw [← he] at hf
    have := hr f (by simpa using hf)
    omega
  | cons e left =>
    have hsplit : left.reverse ++ e :: right = rs.entries := by rw [← he]; simp
    have hR' : Ranges M (left.reverse ++ e :: right) := hsplit ▸ h.ranges
    have hiff := end1_eq_idx hR' hM (hl e List.mem_cons_self) hr (hsplit ▸ hidx)
    rw [hsplit] at hiff
    simp only
    split
    · next hend =>
      refine ⟨fun _ => rfl, fun _ hnot => ?_, fun hc => absurd (hiff.mp hend) hc⟩
      -- the next range does not start right behind the index
      cases right with
      | nil => rfl
      | cons n rest =>
        have hn := start_eq_succ (show Ranges M ((e :: left).reverse ++ n :: rest) from hR)
          (fun a ha => hl' a (List.mem_reverse.mp ha)) (hr n List.mem_cons_self)
        rw [he] at hn
        have hne : ¬ (e.end1 + 1) % M = n.start := by
          intro hc
          have hn0 := hr n List.mem_cons_self
          exact hnot (hn.mp ⟨by rw [← hc, hend], by omega⟩)
        rw [mergeForwards, if_neg hne]
        rfl
    · next hend => exact addBeforeNext_cache h.ranges he hl' hr (mt hiff.mpr hend)

theorem rangeSetPopOne_cache {x : Nat} {rest : List Nat} (h : RsOk M rs)
    (hx : elems M rs.entries = x :: rest) (hM : 1 < M)
    (heq : rangeSetPopOne M rs = some (x, rs')) :
    rs'.rseCache = rs.rseCache + if x + 1 ∈ rest then 0 else 1 := by
  unfold rangeSetPopOne at heq
  cases he : rs.entries with
  | nil => rw [he] at hx; cases hx
  | cons e B =>
    have hR : Ranges M (e :: B) := he ▸ h.ranges
    have hok := (ranges_cons.mp hR).1
    have hstop := hR.stop_not_mem (A := [])
    rw [List.nil_append, ← he, hx] at hstop
    rw [he] at heq
    obtain ⟨rfl, rfl⟩ : e.start = x ∧ _ := by simpa using heq
    -- the entry goes when the index was its last
    have hlast : (e.start + 1) % M = e.end1 ↔ e.start + 1 ∉ rest := by
      rw [Rse.mod_eq_end1 (by omega) (by omega) hok.2]
      constructor
      · rintro (hc | hc)
        · rw [hc]; exact fun hm => hstop (List.mem_cons_of_mem _ hm)
        · omega
      · intro hnot
        left
        by_contra hne
        have hm : e.start + 1 ∈ elems M rs.entries :=
          mem_elems.mpr ⟨e, by rw [he]; simp, by omega, by omega⟩
        rw [hx, List.mem_cons] at hm
        exact hnot (hm.resolve_left (by omega))
    simp only [RangeSet.splice]
    by_cases hm : e.start + 1 ∈ rest
    · rw [if_pos hm, if_neg (by rw [if_neg (fun hc => hlast.mp hc hm)]; exact List.cons_ne_nil _ _)]
      rfl
    · rw [if_neg hm, if_pos (by rw [if_pos (hlast.mpr hm)])]

/-- Every range that is popped to its end leaves its entry in the cache. -/
theorem rangeSetPopMany_cache (hM : 1 < M) (n : Nat) : ∀ {rs rs' : RangeSet} {out : List Nat},
    RsOk M rs → n ≤ (elems M rs.entries).length → rangeSetPopMany M rs n = some (out, rs') →
    rs'.rseCache = rs.rseCache +
      ((elems M rs.entries).take n).countP (fun p => decide (p + 1 ∉ elems M rs.entries)) := by
  induction n with
  | zero => intro rs rs' out _ _ heq; cases heq; rfl
  | succ n ih =>
    intro rs rs' out h hn heq
    cases hx : elems M rs.entries with
    | nil => rw [hx] at hn; cases hn
    | cons x rest =>
      obtain ⟨rs1, h1, h2, h3⟩ := rangeSetPopOne_spec h hx hM
      have hs := h.ranges.sorted
      rw [hx, List.pairwise_cons] at hs
      rw [hx, List.length_cons] at hn
      rw [rangeSetPopMany, h1] at heq
      obtain ⟨⟨out', rs2⟩, h4, h5⟩ := Option.map_eq_some_iff.mp heq
      obtain rfl : rs2 = rs' := (Prod.mk.inj h5).2
      rw [ih h2 (by rw [h3]; omega) h4, h3, rangeSetPopOne_cache h hx hM h1, List.take_succ_cons,
        List.countP_cons]
      have hcount : (rest.take n).countP (fun p => decide (p + 1 ∉ rest)) =
          (rest.take n).countP (fun p => decide (p + 1 ∉ x :: rest)) := by
        apply List.countP_congr
        intro p hp
        have := hs.1 p (List.mem_of_mem_take hp)
        simp only [decide_eq_true_eq, List.mem_cons, not_or]
        exact ⟨fun hn => ⟨by omega, hn⟩, fun hn => hn.2⟩
      rw [hcount]
      by_cases hm : x + 1 ∈ rest
      · simp [hm]
      · simp [hm]; omega

end Cache

/-! ## The frames in their order -/

section Items
variable {M : Nat}

/-- The frame begins a run of the frames `done`, to be continued: the last frame done is the last of
its range. -/
def Begins (all done : List Nat) : Prop := ∀ p ∈ done.getLast?, p + 1 ∉ all

instance (all done : List Nat) : Decidable (Begins all done) :=
  match h : done.getLast? with
  | none => isTrue (by simp [Begins, h])
  | some p => decidable_of_iff (p + 1 ∉ all) (by simp [Begins, h])

/-- Where the items need an entry that is not in the cache, the allocator has one: at the start of a
run of at least two items that stops inside its range, when no entry is kept. -/
def Served (all done : List Nat) (kept : Nat) (items : List Nat) (alloc : Nat → Bool) : Prop :=
  ∀ as x y bs, items = as ++ x :: y :: bs → Begins all (done ++ as) →
    (∀ p ∈ x :: y :: bs, p + 1 ∈ all) → kept = 0 → alloc as.length = true

theorem served_nil {all done : List Nat} {kept : Nat} {alloc : Nat → Bool} :
    Served all done kept [] alloc := by
  intro as x y bs he
  simp at he

theorem served_single {all done : List Nat} {kept x : Nat} {alloc : Nat → Bool} :
    Served all done kept [x] alloc := by
  intro as y z bs he
  have := congrArg List.length he
  simp only [List.length_cons, List.length_append, List.length_nil] at this
  omega

theorem served_cons {all done xs : List Nat} {kept x y : Nat} {alloc : Nat → Bool} :
    Served all done kept (x :: y :: xs) alloc ↔
      (Begins all done → (∀ p ∈ x :: y :: xs, p + 1 ∈ all) → kept = 0 → alloc 0 = true) ∧
        Served all (done ++ [x]) kept (y :: xs) fun i => alloc (i + 1) := by
  constructor
  · intro h
    refine ⟨h [] x y xs rfl ∘ by simp, fun as z w bs he hb => ?_⟩
    exact h (x :: as) z w bs (by rw [he]; rfl) (by simpa using hb)
  · rintro ⟨h1, h2⟩ as z w bs he hb
    cases as with
    | nil =>
      obtain ⟨rfl, rfl, rfl⟩ : x = z ∧ y = w ∧ xs = bs := by simpa using he
      exact h1 (by simpa using hb)
    | cons a as =>
      obtain ⟨rfl, he'⟩ : x = a ∧ y :: xs = as ++ z :: w :: bs := by simpa using he
      exact h2 as z w bs he' (by simpa using hb)

instance decidableServed (all : List Nat) (kept : Nat) :
    ∀ (done items : List Nat) (alloc : Nat → Bool), Decidable (Served all done kept items alloc)
  | _, [], _ => isTrue served_nil
  | _, [_], _ => isTrue served_single
  | done, x :: y :: xs, alloc =>
    have := decidableServed all kept (done ++ [x]) (y :: xs) fun i => alloc (i + 1)
    decidable_of_iff ((Begins all done → (∀ p ∈ x :: y :: xs, p + 1 ∈ all) → kept = 0 →
      alloc 0 = true) ∧ Served all (done ++ [x]) kept (y :: xs) fun i => alloc (i + 1))
      served_cons.symm

/-- Between ascending frames the one before `x` is there exactly when `x` does not begin a run. -/
theorem behind_iff {done xs rest : List Nat} {x : Nat}
    (hs : (done ++ x :: (xs ++ rest)).Pairwise (· < ·)) :
    (x ≠ 0 ∧ x - 1 ∈ done ++ rest) ↔ ¬ Begins (done ++ x :: (xs ++ rest)) done := by
  obtain ⟨hdone, hright, hlt⟩ := List.pairwise_append.mp hs
  have hbehind := (List.pairwise_cons.mp hright).1
  unfold Begins
  constructor
  · rintro ⟨h0, hm⟩ hb
    have hm : x - 1 ∈ done := (List.mem_append.mp hm).resolve_right fun hm => by
      have := hbehind _ (List.mem_append_right _ hm)
      omega
    -- it is the last one done
    obtain ⟨as, bs, rfl⟩ := List.append_of_mem hm
    have hbs : bs = [] := by
      cases bs with
      | nil => rfl
      | cons b bs =>
        have h1 := (List.pairwise_cons.mp (List.pairwise_append.mp hdone).2.1).1 b List.mem_cons_self
        have h2 := hlt b (by simp) x List.mem_cons_self
        omega
    subst hbs
    exact hb (x - 1) (by simp) (by rw [Nat.sub_add_cancel (by omega)]; simp)
  · intro hb
    cases hl : done.getLast? with
    | none => simp [hl] at hb
    | some p =>
      have hp : p + 1 ∈ done ++ x :: (xs ++ rest) := by
        by_contra hn
        refine hb fun q hq => ?_
        obtain rfl : p = q := Option.some.inj (hl.symm.trans hq)
        exact hn
      obtain ⟨as, rfl⟩ := List.getLast?_eq_some_iff.mp hl
      have hpx := hlt p (by simp) x List.mem_cons_self
      have hge : x ≤ p + 1 := by
        rcases List.mem_append.mp hp with hp | hp
        · rcases List.mem_append.mp hp with hp | hp
          · have := (List.pairwise_append.mp hdone).2.2 _ hp p List.mem_cons_self
            omega
          · obtain he := List.mem_singleton.mp hp
            omega
        · rcases List.mem_cons.mp hp with he | hp
          · omega
          · exact Nat.le_of_lt (hbehind _ hp)
      refine ⟨by omega, ?_⟩
      rw [show x - 1 = p by omega]
      simp

/-- A number between the two parts of a set is not in it. -/
theorem not_mem_between {l done rest : List Nat} {v : Nat} (hp : l.Perm (done ++ rest))
    (h1 : ∀ p ∈ done, p < v) (h2 : ∀ p ∈ rest, v < p) : v ∉ l := by
  rw [hp.mem_iff, List.mem_append]
  rintro (hm | hm)
  · exact absurd (h1 v hm) (Nat.lt_irrefl v)
  · exact absurd (h2 v hm) (Nat.lt_irrefl v)

/-- Ascending items are put back between the frames `done` and `rest`: all of them, if and only if the
allocator serves. The cache holds the entries kept and one for each range that the items end. -/
theorem rangeSetAddItems_served {rest : List Nat} {kept : Nat} (items : List Nat) :
    ∀ {rs rs' : RangeSet} {done all : List Nat} {alloc : Nat → Bool} {n : Nat}, RsOk M rs →
    (elems M rs.entries).Perm (done ++ rest) → all = done ++ (items ++ rest) →
    all.Pairwise (· < ·) → (∀ p ∈ all, p < M) →
    rs.rseCache = kept + (items.countP fun p => decide (p + 1 ∉ all)) -
      (if Begins all done then 0 else 1) →
    rangeSetAddItems M rs items alloc = some (n, rs') →
    (n = items.length ↔ Served all done kept items alloc) := by
  induction items with
  | nil =>
    intro rs rs' done all alloc n _ _ _ _ _ _ heq
    cases heq
    exact iff_of_true rfl fun as x y bs he => by simp at he
  | cons x xs ih =>
    intro rs rs' done all alloc n h hp hall hs hM hcache heq
    subst hall
    rw [List.cons_append] at hs hM hcache ⊢
    obtain ⟨hdone, hright, hlt⟩ := List.pairwise_append.mp hs
    have hbehind := (List.pairwise_cons.mp hright).1
    have hx : x ∉ elems M rs.entries := not_mem_between hp
      (fun p hm => hlt p hm x List.mem_cons_self) fun p hm => hbehind p (List.mem_append_right _ hm)
    obtain ⟨ok, rs1, h1, hok1, hd1, -⟩ := rangeSetAdd_spec h (hM x (by simp)) hx (alloc 0)
    obtain ⟨hnext, hsame, hapart⟩ := rangeSetAdd_cache h (hM x (by simp)) hx h1
    have hpred : (x ≠ 0 ∧ x - 1 ∈ elems M rs.entries) ↔
        ¬ Begins (done ++ x :: (xs ++ rest)) done := by
      rw [hp.mem_iff]; exact behind_iff hs
    simp only [hpred] at hnext hsame hapart
    rw [rangeSetAddItems, h1] at heq
    cases xs with
    | nil =>
      -- the last one: its own range has left an entry in the cache
      have hok : ok = true := by
        by_cases hb : Begins (done ++ x :: ([] ++ rest)) done
        · by_cases hm : x + 1 ∈ elems M rs.entries
          · exact hnext (.inr hm)
          · have hnot : x + 1 ∉ done ++ x :: ([] ++ rest) := by
              rw [hp.mem_iff, List.mem_append] at hm
              rw [List.nil_append, List.mem_append, List.mem_cons]
              rintro (hc | hc | hc)
              · exact hm (.inl hc)
              · omega
              · exact hm (.inr hc)
            refine (hapart (not_not.mpr hb) hm).1.mpr (.inl ?_)
            rw [hcache, if_pos hb, List.countP_cons, if_pos (by simpa using hnot)]
            omega
        · exact hnext (.inl hb)
      subst hok
      simp only [rangeSetAddItems, Option.map_some, Option.some.injEq, Prod.mk.injEq] at heq
      exact iff_of_true heq.1.symm served_single
    | cons y ys =>
      have hy := hbehind y (by simp)
      have hsucc : x + 1 ∉ elems M rs.entries := not_mem_between hp
        (fun p hm => Nat.lt_succ_of_lt (hlt p hm x List.mem_cons_self)) fun p hm => by
          have := (List.pairwise_cons.mp (List.pairwise_cons.mp hright).2).1 p
            (List.mem_append_right _ hm)
          omega
      -- when the cache is needed, it holds the entries of the ranges that end here or later
      have hfree : Begins (done ++ x :: (y :: ys ++ rest)) done →
          (ok = true ↔ rs.rseCache ≠ 0 ∨ alloc 0 = true) := fun hb =>
        (hapart (not_not.mpr hb) hsucc).1
      have hzero : Begins (done ++ x :: (y :: ys ++ rest)) done →
          (rs.rseCache = 0 ↔ (∀ p ∈ x :: y :: ys, p + 1 ∈ done ++ x :: (y :: ys ++ rest)) ∧
            kept = 0) := by
        intro hb
        rw [hcache, if_pos hb, Nat.sub_zero, Nat.add_eq_zero_iff, List.countP_eq_zero, And.comm]
        simp only [decide_eq_true_eq, not_not]
      rw [served_cons]
      cases ok with
      | false =>
        obtain ⟨rfl, -⟩ : 0 = n ∧ _ := by simpa using heq
        have hb : Begins (done ++ x :: (y :: ys ++ rest)) done := by
          by_contra hb
          cases hnext (.inl hb)
        have hno : ¬ (rs.rseCache ≠ 0 ∨ alloc 0 = true) := fun hc => by cases (hfree hb).mpr hc
        rw [not_or, not_not] at hno
        refine iff_of_false (by simp) fun hserved => hno.2 ?_
        obtain ⟨hends, hkept⟩ := (hzero hb).mp hno.1
        exact hserved.1 hb hends hkept
      | true =>
        obtain ⟨⟨n', rs2⟩, h2, h3⟩ := Option.map_eq_some_iff.mp heq
        obtain rfl : n' + 1 = n := (Prod.mk.inj h3).1
        have hbx : Begins (done ++ x :: (y :: ys ++ rest)) (done ++ [x]) ↔
            x + 1 ∉ done ++ x :: (y :: ys ++ rest) := by simp [Begins]
        have hcache1 : rs1.rseCache = kept +
            ((y :: ys).countP fun p => decide (p + 1 ∉ done ++ x :: (y :: ys ++ rest))) -
            (if Begins (done ++ x :: (y :: ys ++ rest)) (done ++ [x]) then 0 else 1) := by
          rw [List.countP_cons] at hcache
          simp only [decide_eq_true_eq] at hcache
          simp only [hbx]
          by_cases hb : Begins (done ++ x :: (y :: ys ++ rest)) done
          · rw [(hapart (not_not.mpr hb) hsucc).2, hcache, if_pos hb]
            split <;> omega
          · rw [hsame hb hsucc, hcache, if_neg hb]
            split <;> omega
        have hp1 : (elems M rs1.entries).Perm ((done ++ [x]) ++ rest) := by
          rw [List.append_assoc, List.singleton_append]
          exact (hd1 rfl).trans (((List.perm_cons x).mpr hp).trans List.perm_middle.symm)
        have hrec := ih hok1 hp1 (by simp) hs hM hcache1 h2
        rw [← hrec, List.length_cons]
        constructor
        · intro hn
          refine ⟨fun hb hends hkept => ?_, by omega⟩
          exact ((hfree hb).mp rfl).resolve_left (not_not.mpr ((hzero hb).mpr ⟨hends, hkept⟩))
        · rintro ⟨-, hn⟩
          omega

end Items

/-! ## Partial repopulation -/

/-- There is an entry for the frames to be put back: `populated` of the `requested` lowest frames are
repopulated, and the entries kept are the cached ones and one for each range they end. -/
def PutBackServed (rs : RangeSet) (requested populated : Nat) (alloc : Nat → Bool) : Prop :=
  let frames := elems pfnModulus rs.entries
  Served (frames.drop populated) []
    (rs.rseCache + (frames.take populated).countP fun p => decide (p + 1 ∉ frames))
    ((frames.take requested).drop populated) alloc

instance (rs : RangeSet) (requested populated : Nat) (alloc : Nat → Bool) :
    Decidable (PutBackServed rs requested populated alloc) :=
  inferInstanceAs (Decidable (Served ..))

/-- `BalloonPopulatePfnArray` pops the lowest frames, and each frame of the set is repopulated or in
the set afterwards. -/
def NothingLost (rs : RangeSet) (requested : Nat) (env : DeflateEnv) : Prop :=
  let frames := elems pfnModulus rs.entries
  let populated := min env.populated requested
  ∃ rs', balloonPopulatePfnArray rs requested env = some (frames.take requested, populated, rs') ∧
    RsOk pfnModulus rs' ∧ ∀ p ∈ frames, p ∈ frames.take populated ∨ p ∈ elems pfnModulus rs'.entries

section PutBack
variable {rs : RangeSet} {frames : List Nat} {requested populated n : Nat}

theorem RsOk.dropCache {M : Nat} {rs : RangeSet} (h : RsOk M rs) :
    RsOk M (rangeSetDropRseCache rs) := ⟨h.ranges, h.cursor, h.items⟩

theorem drop_populated {frames : List Nat} {populated requested : Nat}
    (hle : populated ≤ requested) (hn : requested ≤ frames.length) :
    frames.drop populated = (frames.take requested).drop populated ++ frames.drop requested := by
  conv_lhs => rw [← List.take_append_drop requested frames]
  rw [List.drop_append_of_le_length (by rw [List.length_take]; omega)]

/-- The entries in the cache once the frames are popped: those kept, and one for each range that the
frames to be put back end. -/
theorem popped_entries (hs : frames.Pairwise (· < ·)) (hle : populated ≤ requested)
    (hn : requested ≤ frames.length) :
    (frames.take requested).countP (fun p => decide (p + 1 ∉ frames)) =
      (frames.take populated).countP (fun p => decide (p + 1 ∉ frames)) +
        ((frames.take requested).drop populated).countP
          fun p => decide (p + 1 ∉ frames.drop populated) := by
  have htake : frames.take requested =
      frames.take populated ++ (frames.take requested).drop populated := by
    conv_lhs => rw [← List.take_append_drop populated (frames.take requested)]
    rw [List.take_take, Nat.min_eq_left (by omega)]
  conv_lhs => rw [htake, List.countP_append]
  congr 1
  apply List.countP_congr
  intro p hp
  have hp' : p ∈ frames.drop populated := by rw [drop_populated hle hn]; simp [hp]
  rw [← List.take_append_drop populated frames, List.pairwise_append] at hs
  -- the frames before the suffix are smaller
  have hgt : p + 1 ∉ frames.take populated := fun hc => by have := hs.2.2 _ hc p hp'; omega
  have hiff : p + 1 ∈ frames ↔ p + 1 ∈ frames.drop populated := by
    conv_lhs => rw [← List.take_append_drop populated frames, List.mem_append]
    exact ⟨fun hc => hc.resolve_left hgt, .inr⟩
  simp only [hiff]

/-- With the first `n` of the frames put back, none is lost when these are all. -/
theorem lost_iff {set : List Nat} (hnd : frames.Nodup) (hle : populated ≤ requested)
    (hn : requested ≤ frames.length) (hn' : n ≤ ((frames.take requested).drop populated).length)
    (hp : set.Perm (((frames.take requested).drop populated).take n ++ frames.drop requested)) :
    (∀ p ∈ frames, p ∈ frames.take populated ∨ p ∈ set) ↔
      n = ((frames.take requested).drop populated).length := by
  have hsplit := drop_populated hle hn
  have hparts := hnd
  rw [← List.take_append_drop populated frames, List.nodup_append] at hparts
  have hback := hparts.2.1
  rw [hsplit, List.nodup_append] at hback
  simp only [hp.mem_iff, List.mem_append]
  constructor
  · intro hall
    by_contra hne
    -- the first frame that was refused
    have hdrop := List.drop_eq_getElem_cons
      (show n < ((frames.take requested).drop populated).length by omega)
    generalize ((frames.take requested).drop populated)[n] = p at hdrop
    have hmem : p ∈ (frames.take requested).drop populated :=
      List.mem_of_mem_drop (i := n) (by rw [hdrop]; exact List.mem_cons_self)
    have hlater : p ∈ frames.drop populated := by rw [hsplit]; simp [hmem]
    have hfirst := hback.1
    rw [← List.take_append_drop n ((frames.take requested).drop populated), List.nodup_append,
      hdrop] at hfirst
    rcases hall p (List.mem_of_mem_drop hlater) with hc | hc | hc
    · exact hparts.2.2 p hc p hlater rfl
    · exact hfirst.2.2 p hc p List.mem_cons_self rfl
    · exact hback.2.2 p hmem p hc rfl
  · intro hn p hp
    rw [hn, List.take_length]
    rwa [← List.take_append_drop populated frames, hsplit, List.mem_append, List.mem_append] at hp

/-- What is back in the set: the first `n` of the frames not repopulated, all of them when there is an
entry for them. -/
theorem balloonPopulatePfnArray_back (h : RsOk pfnModulus rs)
    (hn : requested ≤ (elems pfnModulus rs.entries).length) (env : DeflateEnv) :
    ∃ n rs', balloonPopulatePfnArray rs requested env = some ((elems pfnModulus rs.entries).take
        requested, min env.populated requested, rs') ∧ RsOk pfnModulus rs' ∧
      n ≤ (((elems pfnModulus rs.entries).take requested).drop
        (min env.populated requested)).length ∧
      (elems pfnModulus rs'.entries).Perm
        ((((elems pfnModulus rs.entries).take requested).drop (min env.populated requested)).take n ++
          (elems pfnModulus rs.entries).drop requested) ∧
      (n = (((elems pfnModulus rs.entries).take requested).drop
          (min env.populated requested)).length ↔
        PutBackServed rs requested env.populated env.alloc) := by
  have hs := h.ranges.sorted
  have hnd := h.ranges.nodup
  have hM : ∀ p ∈ elems pfnModulus rs.entries, p < pfnModulus := fun p hp => h.ranges.mem_lt hp
  obtain ⟨rs1, h1, ok1, he1⟩ := rangeSetPopMany_spec requested h (by decide) hn
  have hcache := rangeSetPopMany_cache (by decide) requested h hn h1
  unfold PutBackServed balloonPopulatePfnArray
  simp only [h1]
  generalize elems pfnModulus rs.entries = frames at *
  split
  · next hlt =>
    have hm : min env.populated requested = env.populated := by omega
    rw [hm] at hlt ⊢
    generalize env.populated = populated at *
    have hle := Nat.le_of_lt hlt
    have hsplit := drop_populated hle hn
    have hback := hnd.sublist (List.drop_sublist populated frames)
    rw [hsplit, List.nodup_append] at hback
    obtain ⟨n, rs2, h2, ok2, hn2, hp2, -⟩ := rangeSetAddItems_spec
      ((frames.take requested).drop populated) env.alloc ok1
      (fun x hx => by
        refine ⟨hM x (List.mem_of_mem_take (List.mem_of_mem_drop hx)), fun hm => ?_⟩
        rw [he1] at hm
        exact hback.2.2 x hx x hm rfl) hback.1
    have hperm : (elems pfnModulus rs1.entries).Perm ([] ++ frames.drop requested) := by
      rw [he1]
      exact .refl _
    have hcache1 : rs1.rseCache = rs.rseCache +
        ((frames.take populated).countP fun p => decide (p + 1 ∉ frames)) +
        (((frames.take requested).drop populated).countP fun p =>
          decide (p + 1 ∉ frames.drop populated)) -
        (if Begins (frames.drop populated) [] then 0 else 1) := by
      rw [hcache, popped_entries hs hle hn, if_pos (by simp [Begins])]
      omega
    have hserved := rangeSetAddItems_served _ ok1 hperm hsplit
      (hs.sublist (List.drop_sublist _ _)) (fun p hp => hM p (List.mem_of_mem_drop hp)) hcache1 h2
    rw [he1] at hp2
    exact ⟨n, _, by rw [h2]; rfl, ok2.dropCache, hn2, hp2, hserved⟩
  · next hge =>
    have hm : min env.populated requested = requested := by omega
    refine ⟨0, _, rfl, ok1.dropCache, Nat.zero_le _, ?_, iff_of_true ?_ fun as x y bs he => ?_⟩
    · rw [rangeSetDropRseCache, he1]; exact .refl _
    · rw [hm]; simp
    · have := congrArg List.length he
      simp only [List.length_drop, List.length_take, List.length_append, List.length_cons] at this
      omega

/-- With an entry for them, the frames not repopulated are back. -/
theorem balloonPopulatePfnArray_served (h : RsOk pfnModulus rs)
    (hn : requested ≤ (elems pfnModulus rs.entries).length) {env : DeflateEnv}
    (hserved : PutBackServed rs requested env.populated env.alloc) :
    ∃ m rs', balloonPopulatePfnArray rs requested env =
        some ((elems pfnModulus rs.entries).take requested, m, rs') ∧ RsOk pfnModulus rs' ∧
      m ≤ requested ∧
      (elems pfnModulus rs'.entries).Perm ((elems pfnModulus rs.entries).drop m) := by
  obtain ⟨n, rs', h1, h2, -, h4, h5⟩ := balloonPopulatePfnArray_back h hn env
  rw [h5.mpr hserved, List.take_length, ← drop_populated (Nat.min_le_right _ _) hn] at h4
  exact ⟨_, rs', h1, h2, Nat.min_le_right _ _, h4⟩

/-- No frame is lost, whatever number is repopulated, if and only if there is an entry for those put
back. -/
theorem put_back_iff (h : RsOk pfnModulus rs) (hn : requested ≤ (elems pfnModulus rs.entries).length)
    (env : DeflateEnv) :
    NothingLost rs requested env ↔ PutBackServed rs requested env.populated env.alloc := by
  obtain ⟨n, rs', h1, h2, h3, h4, h5⟩ := balloonPopulatePfnArray_back h hn env
  rw [← h5, ← lost_iff h.ranges.nodup (Nat.min_le_right _ _) hn h3 h4]
  unfold NothingLost
  constructor
  · rintro ⟨rs2, heq, -, hall⟩
    obtain rfl : rs' = rs2 := by
      rw [h1] at heq
      simp only [Option.some.injEq, Prod.mk.injEq] at heq
      exact heq.2.2
    exact hall
  · exact fun hall => ⟨rs', h1, h2, hall⟩

end PutBack

/-- A single frame and a range of four. -/
def oneAndFour : RangeSet := ⟨[⟨1, 2⟩, ⟨5, 9⟩], none, 0, 5⟩

theorem oneAndFour_ok : RsOk pfnModulus oneAndFour := by
  refine ⟨⟨?_, ?_⟩, ?_, ?_⟩
  · decide
  · decide
  · decide
  · decide

/-- The single frame is repopulated and leaves its entry, which is enough to put back the rest. -/
theorem put_back_iff_kept : RsOk pfnModulus oneAndFour ∧
    NothingLost oneAndFour 4 ⟨1, fun _ => false, false, false⟩ := by
  refine ⟨oneAndFour_ok, (put_back_iff oneAndFour_ok (by decide) _).mpr ?_⟩
  intro as x y bs _ _ _ hkept
  exact absurd hkept (by decide)

/-- The frames 1 to 5, of which three are popped, none is repopulated and none can be put back. -/
theorem put_back_loses : RsOk pfnModulus ⟨[⟨1, 6⟩], none, 0, 5⟩ ∧
    ¬ NothingLost ⟨[⟨1, 6⟩], none, 0, 5⟩ 3 ⟨0, fun _ => false, false, false⟩ := by
  refine ⟨⟨⟨by decide, by decide⟩, by decide, by decide⟩, ?_⟩
  rintro ⟨rs', heq, -, hall⟩
  obtain rfl : rs' = ⟨[⟨4, 6⟩], none, 0, 2⟩ := by
    have : balloonPopulatePfnArray ⟨[⟨1, 6⟩], none, 0, 5⟩ 3 ⟨0, fun _ => false, false, false⟩ =
        some ([1, 2, 3], 0, ⟨[⟨4, 6⟩], none, 0, 2⟩) := by decide
    rw [this] at heq
    simp only [Option.some.injEq, Prod.mk.injEq] at heq
    exact heq.2.2.symm
  exact absurd (hall 1 (by decide)) (by decide)

end XcWindows.Balloon
