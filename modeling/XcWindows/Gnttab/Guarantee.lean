import XcWindows.Gnttab.Run

/-!
# The guarantee of a grant cache

`GnttabAllocCache` promises that `min_population` references can be had from the cache whatever
happens to the pool. What a cache has and what its users hold never falls below that number: a grant
and its end move one reference between the two, replenishing adds, and trimming stops at the minimum.
-/

namespace XcWindows.Gnttab

open XcWindows.Lib

/-- The cache and its users together have what was promised. -/
def Backed (gc : GrantCache) : Prop := gc.minPopulation ≤ gc.population + gc.nrOutstanding

/-- A call has kept the promise of a cache. -/
structure KeepsPromise (gc gc' : GrantCache) : Prop where
  addr : gc'.addr = gc.addr
  minPopulation : gc'.minPopulation = gc.minPopulation
  backed : Backed gc → Backed gc'

section Cache
variable {env : Nat → FrameAnswer} {t t' : Table} {gc gc' : GrantCache} {ref : GrantRef}
  {free l rest : List Nat}

theorem KeepsPromise.refl (gc : GrantCache) : KeepsPromise gc gc := ⟨rfl, rfl, id⟩

theorem putCacheEntry_population (h : putCacheEntry t gc ref = some (t', gc')) :
    SameCache gc gc' ∧ gc'.population = gc.population + 1 := by
  unfold putCacheEntry at h
  obtain ⟨rfl, rfl⟩ := Prod.mk.inj (Option.some.inj (xmAssert_bind (xmAssert_bind h)))
  exact ⟨⟨rfl, rfl, rfl, rfl⟩, rfl⟩

theorem replenishLoop_population {target n : Nat}
    (h : replenishLoop env target n t gc = some (t', gc')) :
    SameCache gc gc' ∧ gc.population ≤ gc'.population := by
  induction n generalizing t gc with
  | zero => cases h; exact ⟨⟨rfl, rfl, rfl, rfl⟩, Nat.le_refl _⟩
  | succ n ih =>
    unfold replenishLoop at h
    split at h
    · obtain ⟨⟨ref, t1⟩, -, h⟩ := Option.bind_eq_some_iff.mp h
      simp only at h
      split at h
      · cases h; exact ⟨⟨rfl, rfl, rfl, rfl⟩, Nat.le_refl _⟩
      · obtain ⟨⟨t2, gc2⟩, hput, h⟩ := Option.bind_eq_some_iff.mp h
        obtain ⟨hs2, hp2⟩ := putCacheEntry_population hput
        simp only at h
        obtain ⟨hs, hp⟩ := ih h
        exact ⟨hs2.trans hs, by omega⟩
    · cases h; exact ⟨⟨rfl, rfl, rfl, rfl⟩, Nat.le_refl _⟩

theorem replenishCache_population {target : Nat}
    (h : replenishCache env t gc target = some (t', gc')) :
    SameCache gc gc' ∧ gc.population ≤ gc'.population := by
  unfold replenishCache at h
  obtain ⟨⟨t1, gc1⟩, hloop, h⟩ := Option.bind_eq_some_iff.mp (xmAssert_bind h)
  cases h
  exact replenishLoop_population hloop

theorem getCacheEntry_pop (h : getCacheEntry t gc = some (ref, t', gc')) :
    SameCache gc gc' ∧ gc'.population = gc.population - 1 ∧
      ((ref = nullGrantRef ∧ gc.population = 0) ∨ (ref = gc.headFree ∧ gc.population ≠ 0)) := by
  unfold getCacheEntry at h
  split at h
  · next h0 =>
    cases h
    exact ⟨⟨rfl, rfl, rfl, rfl⟩, by omega, .inl ⟨rfl, h0⟩⟩
  · next hpop =>
    cases xmAssert_bind (xmAssert_bind (xmAssert_bind h))
    exact ⟨⟨rfl, rfl, rfl, rfl⟩, rfl, .inr ⟨rfl, hpop⟩⟩

theorem getCacheEntry_lock (h : getCacheEntry t gc = some (ref, t', gc')) : t'.lock = t.lock := by
  unfold getCacheEntry at h
  split at h
  · cases h; rfl
  · cases xmAssert_bind (xmAssert_bind (xmAssert_bind h)); rfl

theorem gnttabGrantForeignAccessRef_lock {domid frame : Nat} {mode : GrantMode}
    (h : gnttabGrantForeignAccessRef t domid frame mode ref = some t') :
    t'.lock = t.lock ∧ t'.freeCount = t.freeCount := by
  unfold gnttabGrantForeignAccessRef at h
  cases xmAssert_bind h
  exact ⟨rfl, rfl⟩

theorem getCacheEntry_population (h : CacheOwn t gc free l rest)
    (hg : getCacheEntry t gc = some (ref, t', gc')) : SameCache gc gc' ∧
      gc.population = gc'.population + if ref = nullGrantRef then 0 else 1 := by
  obtain ⟨hs, hp, ⟨rfl, h0⟩ | ⟨rfl, hne⟩⟩ := getCacheEntry_pop hg
  · exact ⟨hs, by rw [if_pos rfl]; omega⟩
  · -- a cache with entries has one at its head
    have hnull := h.cached.chain.null_iff fun y hy => (h.own.small (by simp [hy])).2
    rw [if_neg fun e => hne (h.cached.count.trans (hnull.mpr e))]
    exact ⟨hs, by omega⟩

theorem trimLoop_population {target n : Nat} (h : trimLoop target n t gc = some (t', gc'))
    (hn : gc.population = target + n) : SameCache gc gc' ∧ gc'.population = target := by
  induction n generalizing t gc with
  | zero => cases h; exact ⟨⟨rfl, rfl, rfl, rfl⟩, hn⟩
  | succ n ih =>
    unfold trimLoop at h
    rw [if_pos (by omega)] at h
    obtain ⟨⟨ref, t1, gc1⟩, h1, h⟩ := Option.bind_eq_some_iff.mp h
    obtain ⟨t2, -, h⟩ := Option.bind_eq_some_iff.mp (xmAssert_bind h)
    obtain ⟨hs1, hp1, -⟩ := getCacheEntry_pop h1
    obtain ⟨hs, hp⟩ := ih h (by omega)
    exact ⟨hs1.trans hs, hp⟩

theorem trimCache_population {target : Nat} (h : trimCache t gc target = some (t', gc'))
    (hle : target ≤ gc.population) : SameCache gc gc' ∧ gc'.population = target := by
  unfold trimCache at h
  obtain ⟨⟨t1, gc1⟩, hloop, h⟩ := Option.bind_eq_some_iff.mp (xmAssert_bind h)
  cases h
  exact trimLoop_population hloop (by omega)

theorem getCacheEntryReplenish_population (h : CacheOwn t gc free l rest)
    (hg : getCacheEntryReplenish env t gc = some (ref, t', gc')) : SameCache gc gc' ∧
      gc.population ≤ gc'.population + if ref = nullGrantRef then 0 else 1 := by
  unfold getCacheEntryReplenish at hg
  obtain ⟨⟨ref1, t1, gc1⟩, h1, hg⟩ := Option.bind_eq_some_iff.mp hg
  obtain ⟨hs1, hp1⟩ := getCacheEntry_population h h1
  simp only at hg
  split at hg
  · next hnull =>
    rw [if_pos hnull] at hp1
    obtain ⟨_, t1', gc1', h1', hs1', hk1, ht1⟩ := getCacheEntry_taken h
    obtain ⟨rfl, rfl, rfl⟩ : ref1 = _ ∧ t1 = t1' ∧ gc1 = gc1' := by simpa [h1] using h1'
    obtain ⟨⟨t2, gc2⟩, h2, hg⟩ := Option.bind_eq_some_iff.mp hg
    obtain ⟨hs2, hp2⟩ := replenishCache_population h2
    rcases ht1 with ⟨-, free1, l1, ho1⟩ | ⟨x, free1, l1, rfl, ho1, -⟩
    · obtain ⟨t2', gc2', free2, l2, h2', ho2, -, -⟩ := replenishCache_spec env ho1
        (gc1.population + gnttabCacheThreshold) (by simp)
      obtain ⟨rfl, rfl⟩ : t2 = t2' ∧ gc2 = gc2' := by simpa [h2] using h2'
      obtain ⟨hs3, hp3⟩ := getCacheEntry_population ho2 hg
      exact ⟨(hs1.trans hs2).trans hs3, by omega⟩
    · exact absurd hnull (wrapGrantRef_ne_null (ho1.own.small (by simp)).2)
  · next hne =>
    cases hg
    exact ⟨hs1, Nat.le_of_eq hp1⟩

/-- A grant moves a reference from the cache to its users. -/
theorem getCacheEntryReplenish_promise (h : CacheOwn t gc free l rest)
    (hg : getCacheEntryReplenish env t gc = some (ref, t', gc')) :
    KeepsPromise gc (if ref = nullGrantRef then gc'
      else { gc' with nrOutstanding := gc'.nrOutstanding + 1 }) := by
  obtain ⟨hs, hp⟩ := getCacheEntryReplenish_population h hg
  split
  · next hnull =>
    rw [if_pos hnull] at hp
    refine ⟨hs.addr, hs.minPopulation, fun hb => ?_⟩
    rw [Backed, hs.minPopulation, hs.nrOutstanding]
    unfold Backed at hb
    omega
  · next hne =>
    rw [if_neg hne] at hp
    refine ⟨hs.addr, hs.minPopulation, fun hb => ?_⟩
    simp only [Backed, hs.minPopulation, hs.nrOutstanding]
    unfold Backed at hb
    omega

/-- The end of a grant moves it back, and what is trimmed is above the minimum. -/
theorem giveBackCache_promise (h : giveBackCache t ref gc = some (t', gc'))
    (hout : 0 < gc.nrOutstanding) : KeepsPromise gc gc' := by
  unfold giveBackCache at h
  obtain ⟨⟨t1, gc1⟩, h1, h⟩ := Option.bind_eq_some_iff.mp h
  obtain ⟨hs, hp⟩ := putCacheEntry_population h1
  have hmin := hs.minPopulation
  have hnr := hs.nrOutstanding
  simp only at h hp hmin hnr
  split at h
  · next hc =>
    obtain ⟨hs2, hp2⟩ := trimCache_population h (by omega)
    refine ⟨hs2.addr.trans hs.addr, hs2.minPopulation.trans hmin, fun _ => ?_⟩
    rw [Backed, hs2.minPopulation]
    omega
  · cases h
    refine ⟨hs.addr, hmin, fun hb => ?_⟩
    unfold Backed at hb ⊢
    omega

/-- A new cache has its minimum. -/
theorem fillCache_backed {addr id minPop : Nat}
    (h : fillCache env t addr id minPop = some (some gc, t')) :
    gc.addr = addr ∧ gc.minPopulation = minPop ∧ Backed gc := by
  unfold fillCache at h
  simp only at h
  split at h
  · obtain ⟨⟨t1, gc1⟩, h1, h⟩ := Option.bind_eq_some_iff.mp h
    obtain ⟨hs, -⟩ := replenishCache_population h1
    simp only at h
    split at h
    · next hp =>
      cases h
      refine ⟨hs.addr, hs.minPopulation, ?_⟩
      rw [Backed, hp, hs.minPopulation]
      exact Nat.le_add_right _ _
    · obtain ⟨_, -, h⟩ := Option.bind_eq_some_iff.mp h
      cases h
  · next hle =>
    cases h
    exact ⟨rfl, rfl, by simp only [Backed]; omega⟩

end Cache

/-! ## Over whole runs -/

section Steps
variable {env : Nat → FrameAnswer} {s s' : State} {a : Act} {gc gc' : GrantCache}

theorem mem_setCache (h : gc ∈ s.setCache gc') : gc = gc' ∨ gc ∈ s.caches := by
  obtain ⟨q, hq, rfl⟩ := List.mem_map.mp h
  split
  · exact .inl rfl
  · exact .inr hq

/-- Where the caches after a call come from. -/
def FromStep (s : State) (a : Act) (gc' : GrantCache) : Prop :=
  (∃ gc ∈ s.caches, KeepsPromise gc gc') ∨
    (a = .allocCache (some gc'.addr) gc'.minPopulation ∧ Backed gc')

theorem fromStep_same (h : gc ∈ s.caches) : FromStep s a gc := .inl ⟨gc, h, .refl gc⟩

theorem step_caches (h : Conserved s) (hs : step env s a = some s') :
    ∀ gc' ∈ s'.caches, FromStep s a gc' := by
  obtain ⟨-, free, chain, h⟩ := h
  have hsame : ∀ gc ∈ s.caches, FromStep s a gc := fun _ => fromStep_same
  cases step_cases hs with
  | failed | getGrantRef _ | grantRef _ _ | noReference _ | grant _ _ _ | endAccess _ _ _ | noMemory
  | notFilled _ _ | remote => exact hsame
  | allocCache ha hx =>
    intro gc' hg
    obtain ⟨rfl, rfl, hb⟩ := fillCache_backed hx
    rcases List.mem_append.mp hg with hg | hg
    · exact fromStep_same hg
    · rw [List.mem_singleton.mp hg]
      exact .inr ⟨rfl, hb⟩
  | freeCache _ => exact fun gc hg => fromStep_same (List.mem_of_mem_filter hg)
  | cacheEmpty hf h1 =>
    obtain ⟨rfl, pre, post, hsplit⟩ := split_of_find? GrantCache.addr hf
    rw [hsplit] at h
    intro gc' hg
    rcases mem_setCache hg with rfl | hg
    · exact .inl ⟨_, List.mem_of_find?_eq_some hf, getCacheEntryReplenish_promise h.split h1⟩
    · exact fromStep_same hg
  | grantCache hf h1 hne h2 =>
    obtain ⟨rfl, pre, post, hsplit⟩ := split_of_find? GrantCache.addr hf
    rw [hsplit] at h
    intro gc' hg
    rcases mem_setCache hg with rfl | hg
    · have hk := getCacheEntryReplenish_promise h.split h1
      rw [if_neg hne] at hk
      exact .inl ⟨_, List.mem_of_find?_eq_some hf, hk⟩
    · exact fromStep_same hg
  | @endAccessCache _ _ _ done gc _ _ _ hf ho h1 h2 =>
    obtain ⟨rfl, -⟩ := split_of_find? GrantCache.addr hf
    have hmem := List.mem_of_find?_eq_some hf
    have hout : 0 < gc.nrOutstanding := by
      rw [h.counted gc hmem]
      exact List.length_pos_of_mem (List.mem_filter.mpr ⟨ho, by simp⟩)
    intro gc' hg
    rcases mem_setCache hg with rfl | hg
    · cases done with
      | false => rw [h2.2]; exact fromStep_same hmem
      | true => exact .inl ⟨gc, hmem, giveBackCache_promise h2 hout⟩
    · exact fromStep_same hg

/-- The accounts are in order, and every cache is backed. -/
def Sound (s : State) : Prop := Conserved s ∧ ∀ gc ∈ s.caches, Backed gc

theorem sound_init : Sound (init env) := by
  refine ⟨conserved_init, ?_⟩
  obtain ⟨t, -, h1, -, -⟩ := expandGrantTable_spec env own_blank
  simp [init, h1, State.orAssert]

theorem Sound.step (h : Sound s) (hs : step env s a = some s') : Sound s' := by
  refine ⟨h.1.step hs, fun gc' hg => ?_⟩
  rcases step_caches h.1 hs gc' hg with ⟨gc, hm, hk⟩ | ⟨-, hb⟩
  · exact hk.backed (h.2 gc hm)
  · exact hb

theorem backed_of_reach (h : (machine env).Reach Machine.Any s) : ∀ gc ∈ s.caches, Backed gc :=
  (h.inv (I := Sound) sound_init fun _ _ _ hi _ hs => hi.step hs).2

/-- A grant from a cache that has references succeeds, without the lock. -/
theorem grantCache_of_population (h : Conserved s) (hg : gc ∈ s.caches)
    (hpop : gc.population ≠ 0) (domid : Nat) {frame : Nat} (mode : GrantMode) (hf : frame < 4294967296) :
    ∃ ref s', step env s (.grantCache gc.addr domid frame mode) = some s' ∧ ref ≠ nullGrantRef ∧
      s'.outstanding = (ref, some gc.addr) :: s.outstanding ∧ s'.table.lock = s.table.lock := by
  obtain ⟨-, free, chain, h⟩ := h
  obtain ⟨pre, post, hsplit⟩ := List.append_of_mem hg
  have hfind : s.caches.find? (·.addr = gc.addr) = some gc := by
    rw [hsplit]
    exact find?_key (hsplit ▸ h.nodup)
  rw [hsplit] at h
  have hc := h.split
  cases hl : chain gc.addr with
  | nil => exact absurd (by rw [hc.cached.count, hl]; rfl) hpop
  | cons x l =>
    rw [hl] at hc
    obtain ⟨t1, gc1, h1, -⟩ := getCacheEntry_spec hc
    have hne := wrapGrantRef_ne_null (c := gc.id) (hc.own.small (x := x) (by simp)).2
    obtain ⟨t2, h2, -⟩ := gnttabGrantForeignAccessRef_spec t1 domid mode (wrapGrantRef x gc.id) hf
    refine ⟨wrapGrantRef x gc.id, _, by simp only [step, hfind, if_pos hf]; rfl, hne, ?_⟩
    simp only [gnttabGrantForeignAccessCache, getCacheEntryReplenish, h1, Option.bind_eq_bind,
      Option.bind_some, if_neg hne, h2, State.orAssert, hold, true_and]
    exact (gnttabGrantForeignAccessRef_lock h2).1.trans (getCacheEntry_lock h1)

end Steps

/-! ## What is held from a cache -/

section Caches
variable {env : Nat → FrameAnswer} {s s' : State} {a : Act} {addr : Nat}

theorem addrs_setCache {gc : GrantCache} (h : addr ∈ s.caches.map (·.addr)) :
    addr ∈ (s.setCache gc).map (·.addr) := by
  obtain ⟨q, hq, rfl⟩ := List.mem_map.mp h
  rw [State.setCache, putKey, List.map_map, List.mem_map]
  refine ⟨q, hq, ?_⟩
  simp only [Function.comp]
  split
  · next e => exact e.symm
  · rfl

/-- A cache stays until it is freed. -/
theorem step_addrs (hs : step env s a = some s') (ha : a ≠ .freeCache addr)
    (h : addr ∈ s.caches.map (·.addr)) : addr ∈ s'.caches.map (·.addr) := by
  cases step_cases hs with
  | failed | getGrantRef _ | grantRef _ _ | noReference _ | grant _ _ _ | endAccess _ _ _ | noMemory
  | notFilled _ _ | remote => exact h
  | allocCache _ _ =>
    rw [List.map_append]
    exact List.mem_append_left _ h
  | @freeCache addr' _ _ _ _ =>
    have hne : addr ≠ addr' := fun e => ha (by rw [e])
    obtain ⟨q, hq, rfl⟩ := List.mem_map.mp h
    exact List.mem_map_of_mem (List.mem_filter.mpr ⟨hq, by simpa using hne⟩)
  | cacheEmpty _ _ | grantCache _ _ _ _ | endAccessCache _ _ _ _ => exact addrs_setCache h

/-- There is a cache at `addr` that promises `least` references. -/
def Promises (addr least : Nat) (s : State) : Prop :=
  ∃ gc ∈ s.caches, gc.addr = addr ∧ gc.minPopulation = least

/-- A promise stands until the cache is freed. -/
theorem Promises.step {least : Nat} (h : Promises addr least s) (hc : Conserved s)
    (hs : step env s a = some s') (ha : a ≠ .freeCache addr) : Promises addr least s' := by
  obtain ⟨gc, hgc, rfl, rfl⟩ := h
  obtain ⟨gc', hgc', hadd⟩ := List.mem_map.mp (step_addrs hs ha (List.mem_map_of_mem hgc))
  rcases step_caches hc hs gc' hgc' with ⟨q, hq, hk⟩ | ⟨rfl, -⟩
  · obtain ⟨-, free, chain, hacc⟩ := hc
    obtain rfl : q = gc :=
      List.inj_on_of_nodup_map hacc.nodup hq hgc (hk.addr.symm.trans hadd)
    exact ⟨gc', hgc', hadd, hk.minPopulation⟩
  · -- a new cache does not get the memory of one that is there
    simp only [Gnttab.step] at hs
    split at hs
    · next hn => exact absurd (hadd ▸ List.mem_map_of_mem hgc) hn
    · cases hs

/-- How many references are held from the cache at `addr`. -/
def nrHeld (addr : Nat) (s : State) : Nat := (heldFrom (some addr) s.outstanding).length

theorem heldFrom_hold {ref : GrantRef} {c c' : Option Nat} {out : List (GrantRef × Option Nat)}
    (h : c' ≠ c) : heldFrom c (hold ref c' out) = heldFrom c out := by
  unfold hold
  split
  · rfl
  · rw [heldFrom, List.filter_cons_of_neg (by simpa using h)]
    rfl

theorem heldFrom_erase_other {o : GrantRef × Option Nat} {c : Option Nat}
    {out : List (GrantRef × Option Nat)} (ho : o ∈ out) (h : o.2 ≠ c) :
    (heldFrom c (out.erase o)).length = (heldFrom c out).length := by
  rw [heldFrom_erase ho c, if_neg h, Nat.add_zero]

/-- A call that names the cache at `addr`. -/
def Act.uses (addr : Nat) : Act → Prop
  | .freeCache a | .grantCache a _ _ _ | .endAccessCache a _ _ => a = addr
  | _ => False

instance (addr : Nat) (a : Act) : Decidable (a.uses addr) := by
  unfold Act.uses
  split <;> infer_instance

/-- What others do leaves alone what is held from a cache. -/
theorem step_nrHeld (hs : step env s a = some s') (ha : ¬a.uses addr) :
    nrHeld addr s' = nrHeld addr s := by
  have hend : ∀ {ref c} {done : Bool}, (ref, c) ∈ s.outstanding → c ≠ some addr →
      (heldFrom (some addr) (if done then s.outstanding.erase (ref, c) else s.outstanding)).length =
        nrHeld addr s := by
    intro ref c done ho hne
    cases done
    · rfl
    · exact heldFrom_erase_other ho hne
  cases step_cases hs with
  | failed | grantRef _ _ | noReference _ | noMemory | notFilled _ _ | allocCache _ _ | freeCache _
  | cacheEmpty _ _ | remote => rfl
  | getGrantRef _ => exact congrArg List.length (heldFrom_hold (by simp))
  | grant _ _ _ => exact congrArg List.length (List.filter_cons_of_neg (by simp))
  | endAccess ho _ _ => exact hend ho (by simp)
  | grantCache _ _ _ _ =>
    exact congrArg List.length
      (List.filter_cons_of_neg fun e => ha (Option.some.inj (of_decide_eq_true e)))
  | endAccessCache _ ho _ _ => exact hend ho fun e => ha (Option.some.inj e)

end Caches

end XcWindows.Gnttab
