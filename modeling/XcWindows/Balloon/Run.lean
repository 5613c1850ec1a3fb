import XcWindows.Balloon.PutBack

/-!
# Runs of the balloon

`Balanced` is the invariant: the set holds exactly the frames the hypervisor has, and the page count
moves with its size. `RangeSetRemoveRange` also drops the predecessor of what it removes, so a turn
keeps the invariant when no frame given back is next to one that stays, and when there is an entry for
what is put back (`TurnOk`).
-/

namespace XcWindows.Balloon

open XcWindows.Lib

/-! ## The condition -/

/-- How many of the pages come before `p`. -/
def rank (pages : List Nat) (p : Nat) : Nat := (pages.filter (· < p)).length

/-- No frame that is given back to Windows follows one that stays in the set. -/
def GivesBackApart (s : State) (env : InflateEnv) : Prop :=
  ∀ p ∈ env.pages, env.released ≤ rank env.pages p →
    p - 1 ∉ s.balloonedOut ∧ (p - 1 ∈ env.pages → env.released ≤ rank env.pages (p - 1))

/-- There is an entry for the frames that are not repopulated. -/
def PutsBack (s : State) (env : DeflateEnv) : Prop :=
  match s.phase with
  | .deflating requested returned =>
    PutBackServed s.pfnsBalloonedOut (min (requested - returned) balloonPfnArraySize)
      env.populated env.alloc
  | _ => True

def TurnOk (s : State) : Act → Prop
  | .inflate env => GivesBackApart s env
  | .deflate env => PutsBack s env
  | _ => True

section Rank
variable {l pages : List Nat} {n p : Nat}

theorem rank_perm (h : l.Perm pages) (p : Nat) : rank l p = rank pages p :=
  (h.filter _).length_eq

theorem le_rank_of_mem_drop (h : l.Pairwise (· < ·)) (hn : n ≤ l.length) (hp : p ∈ l.drop n) :
    n ≤ rank l p := by
  rw [← List.take_append_drop n l, List.pairwise_append] at h
  rw [rank, ← List.take_append_drop n l, List.filter_append, List.length_append]
  have : (l.take n).filter (· < p) = l.take n := by
    rw [List.filter_eq_self]
    exact fun a ha => by simpa using h.2.2 a ha p hp
  rw [this, List.length_take]
  omega

theorem rank_lt_of_mem_take (h : l.Pairwise (· < ·)) (hp : p ∈ l.take n) : rank l p < n := by
  obtain ⟨as, bs, he⟩ := List.append_of_mem hp
  have hlen := congrArg List.length he
  rw [List.length_take, List.length_append, List.length_cons] at hlen
  rw [← List.take_append_drop n l, he, List.pairwise_append, List.pairwise_append] at h
  obtain ⟨⟨h1, h2, h3⟩, h4, h5⟩ := h
  rw [List.pairwise_cons] at h2
  -- only what stands before `p` is smaller
  have e : l.filter (· < p) = as.filter (· < p) := by
    rw [← List.take_append_drop n l, he, List.filter_append, List.filter_append]
    have hb : (p :: bs).filter (· < p) = [] := by
      rw [List.filter_eq_nil_iff]
      intro a ha
      rcases List.mem_cons.mp ha with rfl | ha
      · simp
      · have := h2.1 a ha; simp; omega
    have hd : (l.drop n).filter (· < p) = [] := by
      rw [List.filter_eq_nil_iff]
      intro a ha
      have := h5 p (by simp) a ha; simp; omega
    rw [hb, hd, List.append_nil, List.append_nil]
  rw [rank, e]
  have := List.length_filter_le (fun a => decide (a < p)) as
  omega

end Rank

/-! ## One turn -/

theorem balloonAllocatePfnArray_spec {pages : List Nat} (hnd : pages.Nodup) :
    ∃ array, balloonAllocatePfnArray pages = some array ∧ array.Pairwise (· < ·) ∧
      array.Perm pages := by
  have hc : contents (fun i => pages.getD i 0) pages.length = pages := by
    refine List.ext_getElem (by simp [contents]) fun i h1 h2 => ?_
    simp [contents, List.getD_eq_getElem?_getD, h2]
  have hd : Distinct pages.length fun i => pages.getD i 0 := by
    intro i j hi hj e
    simp only [List.getD_eq_getElem?_getD, List.getElem?_eq_getElem hi,
      List.getElem?_eq_getElem hj, Option.getD_some] at e
    exact (hnd.getElem_inj_iff).mp e
  obtain ⟨b, h1, h2, h3⟩ := balloonSortPfnArray_spec hd
  rw [hc] at h3
  exact ⟨_, by rw [balloonAllocatePfnArray, h1]; rfl, h2, h3⟩

section Turn
variable {rs : RangeSet} {array old : List Nat}

theorem balloonReleasePfnArray_spec (env : InflateEnv) (h : RsOk pfnModulus rs)
    (hp : (elems pfnModulus rs.entries).Perm old) (hold : ∀ x ∈ old, x < pfnLimit)
    (hs : array.Pairwise (· < ·)) (hnew : ∀ x ∈ array, 0 < x ∧ x < pfnLimit ∧ x ∉ old)
    (hok : ∀ x ∈ array, env.released ≤ rank array x → x - 1 ∉ old ∧
      (x - 1 ∈ array → env.released ≤ rank array (x - 1))) :
    ∃ n rs', balloonReleasePfnArray rs array env = some (n, rs') ∧ RsOk pfnModulus rs' ∧
      n ≤ array.length ∧ (elems pfnModulus rs'.entries).Perm (array.take n ++ old) := by
  have hnd : array.Nodup := hs.imp fun h => Nat.ne_of_lt h
  unfold balloonReleasePfnArray
  split
  · exact ⟨0, _, rfl, h.dropCache, Nat.zero_le _, hp⟩
  rw [if_neg fun h0 => absurd (hnew 0 h0).1 (Nat.lt_irrefl 0)]
  obtain ⟨registered, rs1, h1, ho1, hn1, hp1, -⟩ := rangeSetAddItems_spec array
    env.allocAdd h
    (fun x hx => ⟨Nat.lt_trans (hnew x hx).2.1 (by decide), fun hm => (hnew x hx).2.2 (hp.mem_iff.mp hm)⟩)
    hnd
  have hp1 : (elems pfnModulus rs1.entries).Perm (array.take registered ++ old) :=
    hp1.trans (List.Perm.append_left _ hp)
  simp only [h1]
  split
  · next h0 =>
    rw [h0, List.take_zero, List.nil_append] at hp1
    exact ⟨0, _, rfl, ho1.dropCache, Nat.zero_le _, hp1⟩
  split
  · next hlt =>
    have hr : min env.released registered = env.released := by omega
    rw [hr] at hlt ⊢
    -- the set holds what is to be removed, then what is to stay
    have htake : array.take registered =
        array.take env.released ++ (array.take registered).drop env.released := by
      rw [← List.take_append_drop env.released (array.take registered), List.take_take,
        Nat.min_eq_left (by omega), List.drop_left' (by simp; omega)]
    have hp2 : (elems pfnModulus rs1.entries).Perm
        ((array.take registered).drop env.released ++ (array.take env.released ++ old)) := by
      apply hp1.trans
      rw [htake, ← List.append_assoc, List.drop_left' (by simp; omega)]
      exact List.Perm.append_right _ List.perm_append_comm
    have hmem : ∀ x ∈ (array.take registered).drop env.released,
        x ∈ array ∧ env.released ≤ rank array x := by
      intro x hx
      have hx' : x ∈ array.drop env.released := by
        rw [List.drop_take] at hx; exact List.mem_of_mem_take hx
      exact ⟨List.mem_of_mem_drop hx', le_rank_of_mem_drop hs (by omega) hx'⟩
    obtain ⟨m, rs2, h2, ho2, hp3⟩ := rangeSetRemoveItems_spec _ env.allocRemove ho1 hp2
      (hs.sublist ((List.drop_sublist _ _).trans (List.take_sublist _ _)))
      (fun x hx _ hk => by
        obtain ⟨hx1, hx2⟩ := hmem x hx
        rcases List.mem_append.mp hk with hk | hk
        · have := (hok x hx1 hx2).2 (List.mem_of_mem_take hk)
          have := rank_lt_of_mem_take hs hk
          omega
        · exact (hok x hx1 hx2).1 hk)
      (fun x hx => by
        have : x < pfnLimit := by
          rcases List.mem_append.mp hx with hx | hx
          · exact (hnew x (hmem x hx).1).2.1
          · rcases List.mem_append.mp hx with hx | hx
            · exact (hnew x (List.mem_of_mem_take hx)).2.1
            · exact hold x hx
        simp only [pfnLimit, pfnModulus] at *
        omega)
    refine ⟨env.released, _, by rw [h2]; rfl, ho2.dropCache, by omega, hp3⟩
  · next hge =>
    have hr : min env.released registered = registered := by omega
    rw [hr]
    exact ⟨registered, _, rfl, ho1.dropCache, hn1, hp1⟩

theorem balloonFreePfnArray_eq (array : List Nat) (h : ∀ x ∈ array, 0 < x) :
    balloonFreePfnArray array = some array :=
  if_neg fun h0 => absurd (h 0 h0) (Nat.lt_irrefl 0)

end Turn

/-! ## The invariant -/

/-- The page count, with what the operation in progress has done so far. -/
def PagesOk (s : State) : Prop :=
  match s.phase with
  | .idle => s.balloonedOut.length + s.currentPages = s.maxPages
  | .inflating requested acquired =>
    s.balloonedOut.length + s.currentPages = s.maxPages + acquired ∧ acquired ≤ requested ∧
      requested ≤ s.currentPages
  | .deflating requested returned =>
    s.balloonedOut.length + returned + s.currentPages = s.maxPages ∧ returned ≤ requested ∧
      requested + s.currentPages ≤ s.maxPages

structure Balanced (maxPages : Nat) (s : State) : Prop where
  rs : RsOk pfnModulus s.pfnsBalloonedOut
  set : s.balloonedOut.Perm s.released
  taken : s.taken.Perm s.released
  frames : ∀ p ∈ s.released, 0 < p ∧ p < pfnLimit
  pages : PagesOk s
  target : s.targetPages ≤ s.maxPages
  max : s.maxPages = maxPages
  noCrash : s.crashed = false

section Invariant
variable {maxPages : Nat} {s s' : State}

theorem balanced_init (maxPages : Nat) : Balanced maxPages (init maxPages) where
  rs := ⟨ranges_nil, by simp [init, rangeSetInit], rfl⟩
  set := List.Perm.refl _
  taken := List.Perm.refl _
  frames := by simp [init]
  pages := by simp [PagesOk, init, State.balloonedOut, rangeSetInit]
  target := Nat.le_refl _
  max := rfl
  noCrash := rfl

theorem Balanced.nodup (h : Balanced maxPages s) : s.released.Nodup :=
  h.set.nodup_iff.mp h.rs.ranges.nodup

theorem filter_notMem_left {a b l : List Nat} (hp : l.Perm (a ++ b)) (hnd : l.Nodup) :
    (l.filter (· ∉ a)).Perm b := by
  have hnd := hp.nodup_iff.mp hnd
  rw [List.nodup_append] at hnd
  apply (hp.filter _).trans
  rw [List.filter_append]
  have h1 : a.filter (· ∉ a) = [] := by rw [List.filter_eq_nil_iff]; simp
  have h2 : b.filter (· ∉ a) = b := by
    rw [List.filter_eq_self]
    exact fun x hx => by simpa using fun hm => hnd.2.2 x hm x hx rfl
  rw [h1, h2, List.nil_append]

theorem Balanced.inflate (h : Balanced maxPages s) {requested acquired : Nat} {env : InflateEnv}
    (hph : s.phase = .inflating requested acquired) (hok : GivesBackApart s env)
    (hcan : CanHandOut s (min (requested - acquired) balloonPfnArraySize) env.pages) :
    ∃ s', balloonInflate s requested acquired env = some s' ∧ Balanced maxPages s' := by
  obtain ⟨hnd, hlen, hpages⟩ := hcan
  have hpc := h.pages
  simp only [PagesOk, hph] at hpc
  obtain ⟨array, h1, hs1, hp1⟩ := balloonAllocatePfnArray_spec hnd
  have hnew : ∀ x ∈ array, 0 < x ∧ x < pfnLimit ∧ x ∉ s.released := by
    intro x hx
    obtain ⟨h2, h3, h4⟩ := hpages x (hp1.mem_iff.mp hx)
    exact ⟨h2, h3, fun hm => h4 (h.taken.mem_iff.mpr hm)⟩
  obtain ⟨n, rs', h2, ho2, hn2, hp2⟩ := balloonReleasePfnArray_spec env h.rs h.set
    (fun x hx => (h.frames x hx).2) hs1 hnew fun x hx hr => by
      rw [rank_perm hp1] at hr
      obtain ⟨h3, h4⟩ := hok x (hp1.mem_iff.mp hx) hr
      refine ⟨fun hm => h3 (h.set.mem_iff.mpr hm), fun hm => ?_⟩
      rw [rank_perm hp1]; exact h4 (hp1.mem_iff.mp hm)
  have h3 := balloonFreePfnArray_eq (array.drop n) fun x hx =>
    (hnew x (List.mem_of_mem_drop hx)).1
  -- the frames that stay with the hypervisor
  have htaken : ((s.taken ++ env.pages).filter (· ∉ array.drop n)).Perm
      (s.released ++ array.take n) := by
    refine filter_notMem_left ?_ ?_
    · have e : (s.taken ++ env.pages).Perm (s.released ++ (array.take n ++ array.drop n)) := by
        rw [List.take_append_drop]; exact h.taken.append hp1.symm
      apply e.trans
      rw [← List.append_assoc]
      exact List.perm_append_comm
    · rw [List.nodup_append]
      refine ⟨h.taken.nodup_iff.mpr h.nodup, hnd, ?_⟩
      rintro a ha _ hb rfl
      exact (hpages a hb).2.2 ha
  have hset : (elems pfnModulus rs'.entries).Perm (s.released ++ array.take n) :=
    hp2.trans List.perm_append_comm
  have hcount : (elems pfnModulus rs'.entries).length = s.balloonedOut.length + n := by
    rw [hset.length_eq, List.length_append, List.length_take, h.set.length_eq]; omega
  have hframes : ∀ p ∈ s.released ++ array.take n, 0 < p ∧ p < pfnLimit := by
    intro p hp
    rcases List.mem_append.mp hp with hp | hp
    · exact h.frames p hp
    · have := hnew p (List.mem_of_mem_take hp); exact ⟨this.1, this.2.1⟩
  have hle : n ≤ requested - acquired := by have := hp1.length_eq; omega
  simp only [balloonInflate, h1, h2, h3, Option.bind_eq_bind, Option.bind_some]
  split
  · refine ⟨_, rfl, ho2, hset, htaken, hframes, ?_, h.target, h.max, h.noCrash⟩
    simp only [PagesOk, State.balloonedOut]
    omega
  · refine ⟨_, rfl, ho2, hset, htaken, hframes, ?_, h.target, h.max, h.noCrash⟩
    simp only [PagesOk, State.balloonedOut]
    omega

theorem Balanced.deflate (h : Balanced maxPages s) {requested returned m : Nat} {env : DeflateEnv}
    {rs' : RangeSet} (hph : s.phase = .deflating requested returned)
    (h1 : balloonPopulatePfnArray s.pfnsBalloonedOut (min (requested - returned) balloonPfnArraySize)
      env = some ((elems pfnModulus s.pfnsBalloonedOut.entries).take
        (min (requested - returned) balloonPfnArraySize), m, rs'))
    (ho1 : RsOk pfnModulus rs') (hm : m ≤ min (requested - returned) balloonPfnArraySize)
    (hp1 : (elems pfnModulus rs'.entries).Perm
      ((elems pfnModulus s.pfnsBalloonedOut.entries).drop m)) :
    ∃ s', balloonDeflate s requested returned env = some s' ∧ Balanced maxPages s' := by
  have hpc := h.pages
  simp only [PagesOk, hph] at hpc
  have hlen : s.balloonedOut.length = (elems pfnModulus s.pfnsBalloonedOut.entries).length := rfl
  have hsplit : (elems pfnModulus s.pfnsBalloonedOut.entries).Perm s.released := h.set
  have htt : ((elems pfnModulus s.pfnsBalloonedOut.entries).take
      (min (requested - returned) balloonPfnArraySize)).take m =
      (elems pfnModulus s.pfnsBalloonedOut.entries).take m := by
    rw [List.take_take, Nat.min_eq_left hm]
  have h2 := balloonFreePfnArray_eq
    ((elems pfnModulus s.pfnsBalloonedOut.entries).take m) fun x hx =>
      (h.frames x (hsplit.mem_iff.mp (List.mem_of_mem_take hx))).1
  have hrest : ∀ l : List Nat, l.Perm s.released →
      (l.filter (· ∉ (elems pfnModulus s.pfnsBalloonedOut.entries).take m)).Perm
        ((elems pfnModulus s.pfnsBalloonedOut.entries).drop m) := by
    intro l hl
    refine filter_notMem_left ?_ (hl.nodup_iff.mpr h.nodup)
    rw [List.take_append_drop]
    exact hl.trans hsplit.symm
  have hset := hp1.trans (hrest _ (List.Perm.refl _)).symm
  have htaken := (hrest _ h.taken).trans (hrest _ (List.Perm.refl _)).symm
  have hcount : (elems pfnModulus rs'.entries).length = s.balloonedOut.length - m := by
    rw [hp1.length_eq, List.length_drop]; rfl
  have hframes : ∀ p ∈ s.released.filter
      (· ∉ (elems pfnModulus s.pfnsBalloonedOut.entries).take m), 0 < p ∧ p < pfnLimit :=
    fun p hp => h.frames p (List.mem_of_mem_filter hp)
  simp only [balloonDeflate, h1, htt, h2, Option.bind_eq_bind, Option.bind_some]
  split
  · refine ⟨_, rfl, ho1, hset, htaken, hframes, ?_, h.target, h.max, h.noCrash⟩
    simp only [PagesOk, State.balloonedOut] at *
    omega
  · refine ⟨_, rfl, ho1, hset, htaken, hframes, ?_, h.target, h.max, h.noCrash⟩
    simp only [PagesOk, State.balloonedOut] at *
    omega

theorem Balanced.step {a : Act} (h : Balanced maxPages s) (hok : TurnOk s a) (hs : step s a = some s') :
    Balanced maxPages s' := by
  have hpc := h.pages
  cases a with
  | target pages =>
    simp only [Balloon.step, Option.some.injEq] at hs
    subst hs
    exact ⟨h.rs, h.set, h.taken, h.frames, hpc, Nat.min_le_right _ _, h.max, h.noCrash⟩
  | wake fistInflation fistDeflation =>
    simp only [Balloon.step] at hs
    split at hs
    · next hph =>
      simp only [PagesOk, hph] at hpc
      have ht := h.target
      split at hs
      · split at hs <;> cases hs
        · exact h
        · refine ⟨h.rs, h.set, h.taken, h.frames, ?_, h.target, h.max, h.noCrash⟩
          simp only [PagesOk, State.balloonedOut] at *
          omega
      split at hs
      · split at hs <;> cases hs
        · exact h
        · refine ⟨h.rs, h.set, h.taken, h.frames, ?_, h.target, h.max, h.noCrash⟩
          simp only [PagesOk, State.balloonedOut] at *
          omega
      · cases hs; exact h
    · cases hs
  | inflate env =>
    simp only [Balloon.step] at hs
    split at hs
    · next requested acquired hph =>
      split at hs
      · next hcan =>
        obtain ⟨t, h1, ht⟩ := h.inflate hph hok hcan
        rw [h1] at hs
        cases hs
        exact ht
      · cases hs
    · cases hs
  | deflate env =>
    simp only [Balloon.step] at hs
    split at hs
    · next requested returned hph =>
      simp only [PagesOk, hph, State.balloonedOut] at hpc
      simp only [TurnOk, PutsBack, hph] at hok
      obtain ⟨m, rs', h1, h2, h3, h4⟩ := balloonPopulatePfnArray_served h.rs (by omega) hok
      obtain ⟨t, h1, ht⟩ := h.deflate hph h1 h2 h3 h4
      rw [h1] at hs
      cases hs
      exact ht
    · cases hs

theorem balanced_of_reach (h : (machine maxPages).Reach TurnOk s) : Balanced maxPages s :=
  h.inv (balanced_init maxPages) fun _ _ _ hi hok hs => hi.step hok hs

theorem Balanced.nrItems_eq (h : Balanced maxPages s) :
    s.pfnsBalloonedOut.nrItems = s.balloonedOut.length := by
  have hsub : s.released ⊆ List.range pfnLimit := fun p hp => by simpa using (h.frames p hp).2
  have hle := (List.subperm_of_subset h.nodup hsub).length_le
  rw [List.length_range, ← h.set.length_eq] at hle
  rw [h.rs.items]
  apply Nat.mod_eq_of_lt
  simp only [State.balloonedOut, pfnLimit, pfnModulus] at *
  omega

/-- `PfnsBalloonedOut` is the set of the frames the hypervisor has, each once; none of them is with
Windows; between operations its size and the current pages add up to the maximum. -/
theorem balloon_accounting (h : (machine maxPages).Reach TurnOk s) :
    (∀ p, p ∈ s.balloonedOut ↔ p ∈ s.released) ∧ s.balloonedOut.Nodup ∧
    (∀ p ∈ s.balloonedOut, p ∈ s.taken) ∧
    (s.phase = .idle → s.balloonedOut.length + s.currentPages = maxPages) ∧
    s.pfnsBalloonedOut.nrItems = s.balloonedOut.length ∧ s.crashed = false := by
  have h := balanced_of_reach h
  refine ⟨fun p => h.set.mem_iff, h.rs.ranges.nodup,
    fun p hp => (h.set.trans h.taken.symm).mem_iff.mp hp, fun hph => ?_, h.nrItems_eq, h.noCrash⟩
  have := h.pages
  rw [← h.max]
  simpa only [PagesOk, hph] using this

end Invariant

/-- Windows hands out the frames 5 and 6, of which the hypervisor releases one. -/
def splitPair : InflateEnv := ⟨[6, 5], fun _ => true, fun _ => true, 1, false, true⟩

/-- Removing frame 6 from the set takes frame 5 along, which the hypervisor has. -/
theorem balloon_accounting_loses : ∃ s, (machine 10).Reach Machine.Any s ∧ s.phase = .idle ∧
    5 ∈ s.released ∧ 5 ∉ s.balloonedOut ∧ s.balloonedOut.length + s.currentPages = 9 := by
  obtain ⟨s, hr, hp⟩ := Machine.exists_reach (machine 10) Machine.Any
    (fun s => s.phase = .idle ∧ 5 ∈ s.released ∧ 5 ∉ s.balloonedOut ∧
      s.balloonedOut.length + s.currentPages = 9)
    [.target 8, .wake false false, .inflate splitPair] (by decide +kernel)
  exact ⟨s, hr, by simpa using hp⟩

instance (s : State) (env : InflateEnv) : Decidable (GivesBackApart s env) :=
  inferInstanceAs (Decidable (∀ p ∈ env.pages, _))

instance (s : State) (env : DeflateEnv) : Decidable (PutsBack s env) :=
  match h : s.phase with
  | .deflating _ _ => decidable_of_iff _ (iff_of_eq (by rw [PutsBack, h]) : _ ↔ PutsBack s env)
  | .idle => isTrue (by rw [PutsBack, h]; trivial)
  | .inflating _ _ => isTrue (by rw [PutsBack, h]; trivial)

instance (s : State) : ∀ a, Decidable (TurnOk s a)
  | .inflate env => inferInstanceAs (Decidable (GivesBackApart s env))
  | .deflate env => inferInstanceAs (Decidable (PutsBack s env))
  | .target _ | .wake _ _ => isTrue trivial

/-- A partial release, and a deflation that the hypervisor does not serve: the frame goes back without
memory. -/
theorem balloon_accounting_run : ∃ s, (machine 10).Reach TurnOk s ∧
    (s.phase = .idle ∧ s.released = [3, 5] ∧ s.currentPages = 8) ∧
    (∀ p, p ∈ s.balloonedOut ↔ p ∈ s.released) ∧ s.balloonedOut.Nodup ∧
    (∀ p ∈ s.balloonedOut, p ∈ s.taken) ∧
    (s.phase = .idle → s.balloonedOut.length + s.currentPages = 10) ∧
    s.pfnsBalloonedOut.nrItems = s.balloonedOut.length ∧ s.crashed = false := by
  obtain ⟨s, hr, hp⟩ := Machine.exists_reach (machine 10) TurnOk
    (fun s => s.phase = .idle ∧ s.released = [3, 5] ∧ s.currentPages = 8)
    [.target 7, .wake false false,
      .inflate ⟨[9, 5, 3], fun _ => true, fun _ => true, 2, false, true⟩, .target 9,
      .wake false false, .deflate ⟨0, fun _ => false, false, false⟩] (by decide +kernel)
  exact ⟨s, hr, by simpa using hp, balloon_accounting hr⟩

end XcWindows.Balloon
