import XcWindows.Gnttab.Guarantee

/-!
# The grant table lock

`get_free_entry`, `put_free_entry`, `ReplenishCache` and `TrimCache` against `gnttab_lock`. A caller
that has the lock passes `locked`; `get_free_entry` releases it all the same when the table is at its
end, at an IRQL nobody saved, and `ReplenishCache` then releases it once more. `supply` is the number
of references that can be had before that: it drops by one with each reference taken
(`getFreeEntry_room`), whether from the pool or from a new frame.
-/

namespace XcWindows.Gnttab

open XcWindows.Lib

/-- Of the next `room` frames, those mapped in a row from request `asked` on. -/
def mappable (env : Nat → FrameAnswer) : Nat → Nat → Nat
  | 0, _ => 0
  | room + 1, asked =>
    match env asked with
    | .mapped => mappable env room (asked + 1) + 1
    | .noMemory | .rejected => 0

/-- The frames the table grows to without a failure. -/
def reachFrames (env : Nat → FrameAnswer) (t : Table) : Nat :=
  t.nrGrantFrames + if t.grantTableFullyMapped then 0
    else mappable env (maxNrGrantFrames - t.nrGrantFrames) t.asked

/-- The references that are free, or in frames that will be mapped. -/
def supply (env : Nat → FrameAnswer) (t : Table) : Nat :=
  t.freeCount + ((usable (reachFrames env t)).length - (usable t.nrGrantFrames).length)

/-- The calls that take or release `gnttab_lock`. -/
inductive LockCall where
  | getFreeEntry (locked : Bool)
  | putFreeEntry (ref : GrantRef) (locked : Bool)
  | replenishCache (gc : GrantCache) (targetPop : Nat)
  | trimCache (gc : GrantCache) (targetPop : Nat)

def LockCall.run (env : Nat → FrameAnswer) (t : Table) : LockCall → Option Table
  | .getFreeEntry locked => (Gnttab.getFreeEntry env t locked).map (·.2)
  | .putFreeEntry ref locked => Gnttab.putFreeEntry t ref locked
  | .replenishCache gc targetPop => (Gnttab.replenishCache env t gc targetPop).map (·.1)
  | .trimCache gc targetPop => (Gnttab.trimCache t gc targetPop).map (·.1)

/-- The caller has the lock. -/
def LockCall.locked : LockCall → Bool
  | .getFreeEntry locked | .putFreeEntry _ locked => locked
  | .replenishCache .. | .trimCache .. => false

/-- The references a call asks the pool for with the lock held. -/
def LockCall.asks : LockCall → Nat
  | .getFreeEntry locked => if locked then 1 else 0
  | .replenishCache gc targetPop => targetPop - gc.population
  | .putFreeEntry .. | .trimCache .. => 0

/-- A call as the driver makes it: on a consistent table, with the lock held as the call says. -/
structure LockCall.Entered (c : LockCall) (t : Table) : Prop where
  held : t.lock.held = c.locked
  once : t.lock.badRelease = false
  args : match c with
    | .getFreeEntry _ => ∃ free rest, Own t free rest
    | .putFreeEntry ref _ => ∃ x free rest, ref = wrapGrantRef x 0 ∧ Own t free (x :: rest) ∧
        t.gnttabList x = nullGrantRef
    | .replenishCache gc targetPop => gc.population < targetPop ∧
        ∃ free l rest, CacheOwn t gc free l rest
    | .trimCache gc targetPop => targetPop ≤ gc.population ∧ ∃ free l rest, CacheOwn t gc free l rest

/-- The call returns, with the lock and the IRQL as on entry and no release of a lock not held. -/
def LockCall.KeepsLock (env : Nat → FrameAnswer) (c : LockCall) (t : Table) : Prop :=
  ∃ t', c.run env t = some t' ∧ t'.lock = t.lock

section Room
variable {env : Nat → FrameAnswer} {t t' : Table} {gc gc' : GrantCache} {free l rest : List Nat}
  {ref : GrantRef}

theorem IrqLock.release_acquire (k : IrqLock) (hh : k.held = false) :
    k.acquire.release k.irql = k := by
  obtain ⟨held, irql, bad⟩ := k
  obtain rfl : held = false := hh
  simp [IrqLock.acquire, IrqLock.release]

theorem Own.room (env : Nat → FrameAnswer) (h : Own t free rest) :
    supply env t + rest.length = (usable (reachFrames env t)).length := by
  have hlen := h.perm.length_eq
  have hle : t.nrGrantFrames ≤ reachFrames env t := Nat.le_add_right _ _
  have hmono := Nat.mul_le_mul_left grantEntriesPerPage hle
  rw [List.length_append] at hlen
  unfold supply
  rw [h.count]
  simp only [List.length_range'] at hlen ⊢
  omega

/-- The same room to grow, and the same lock. -/
structure SameRoom (t t' : Table) : Prop where
  frames : t'.nrGrantFrames = t.nrGrantFrames
  mapped : t'.grantTableFullyMapped = t.grantTableFullyMapped
  asked : t'.asked = t.asked
  lock : t'.lock = t.lock

theorem SameRoom.trans {t'' : Table} (h : SameRoom t t') (h' : SameRoom t' t'') : SameRoom t t'' :=
  ⟨h'.1.trans h.1, h'.2.trans h.2, h'.3.trans h.3, h'.4.trans h.4⟩

theorem SameRoom.reach (h : SameRoom t t') : reachFrames env t' = reachFrames env t := by
  unfold reachFrames
  rw [h.frames, h.mapped, h.asked]

theorem putFreeEntry_room {locked : Bool} (h : putFreeEntry t ref locked = some t') :
    t'.nrGrantFrames = t.nrGrantFrames ∧ t'.grantTableFullyMapped = t.grantTableFullyMapped ∧
      t'.asked = t.asked ∧
      t'.lock = if locked then t.lock else t.lock.acquire.release t.lock.irql := by
  unfold putFreeEntry at h
  cases xmAssert_bind (xmAssert_bind h)
  cases locked <;> exact ⟨rfl, rfl, rfl, rfl⟩

theorem putFreeEntry_sameRoom (h : putFreeEntry t ref true = some t') : SameRoom t t' := by
  obtain ⟨h1, h2, h3, h4⟩ := putFreeEntry_room h
  exact ⟨h1, h2, h3, h4⟩

theorem hookUp_sameRoom {xs : List Nat} (h : hookUp xs t = some t') : SameRoom t t' := by
  induction xs generalizing t with
  | nil => cases h; exact ⟨rfl, rfl, rfl, rfl⟩
  | cons x xs ih =>
    unfold hookUp at h
    simp only at h
    split at h
    · exact ih h
    · obtain ⟨t1, h1, h⟩ := Option.bind_eq_some_iff.mp h
      have hs := (putFreeEntry_sameRoom h1).trans (ih h)
      exact ⟨hs.1, hs.2, hs.3, hs.4⟩

theorem ensureFree_room (h : Own t free rest) (he : ensureFree env t = some t') :
    t'.lock = t.lock ∧ (t'.freeCount ≠ 0 → reachFrames env t' = reachFrames env t) ∧
      (t'.freeCount = 0 → supply env t = 0) := by
  unfold ensureFree at he
  split at he
  · next h0 =>
    have hend (hm : t.grantTableFullyMapped = true ∨
        mappable env (maxNrGrantFrames - t.nrGrantFrames) t.asked = 0) : supply env t = 0 := by
      have hreach : reachFrames env t = t.nrGrantFrames := by
        rcases hm with hm | hm <;> simp [reachFrames, hm]
      rw [supply, hreach, h0, Nat.sub_self]
    unfold expandGrantTable at he
    split at he
    · next hmax =>
      cases he
      refine ⟨rfl, fun _ => rfl, fun _ => hend ?_⟩
      rcases hmax with hmax | hmax
      · exact .inr (by rw [hmax]; rfl)
      · exact .inl hmax
    · next hmax =>
      obtain ⟨hne, hfm⟩ := not_or.mp hmax
      have hlt : t.nrGrantFrames < maxNrGrantFrames := Nat.lt_of_le_of_ne h.frames hne
      have hroom : maxNrGrantFrames - t.nrGrantFrames =
          (maxNrGrantFrames - (t.nrGrantFrames + 1)) + 1 := by omega
      split at he
      · next ha =>
        cases he
        exact ⟨rfl, fun hn => absurd h0 hn, fun _ => hend (.inr (by rw [hroom, mappable, ha]))⟩
      · next ha =>
        cases he
        exact ⟨rfl, fun hn => absurd h0 hn, fun _ => hend (.inr (by rw [hroom, mappable, ha]))⟩
      · next ha =>
        obtain ⟨t1, free1, h1, ho1, -⟩ := expandGrantTable_spec env h
        have h1' : expandGrantTable env t = some t' := by
          rw [expandGrantTable, if_neg hmax, ha]
          exact he
        obtain rfl : t1 = t' := Option.some.inj (h1.symm.trans h1')
        have hs := hookUp_sameRoom he
        refine ⟨hs.lock, fun _ => ?_, fun hz => ?_⟩
        · unfold reachFrames
          rw [hs.frames, hs.mapped, hs.asked, if_neg hfm, if_neg hfm, hroom, mappable, ha]
          simp only
          omega
        · have hlen := h.perm.length_eq
          have hlen1 := ho1.perm.length_eq
          rw [List.length_append, ← h.count, h0] at hlen
          rw [List.length_append, ← ho1.count, hz, hs.frames] at hlen1
          simp only [List.length_range', grantEntriesPerPage, nrReservedEntries] at hlen hlen1
          omega
  · next h0 =>
    cases he
    exact ⟨rfl, fun _ => rfl, fun hz => absurd hz h0⟩

theorem popFreeEntry_sameRoom (h : popFreeEntry t = some (ref, t')) :
    ref ≠ nullGrantRef ∧ SameRoom t t' := by
  unfold popFreeEntry at h
  by_cases hv : t.Valid t.freeHead
  · obtain ⟨rfl, rfl⟩ := Prod.mk.inj (Option.some.inj (xmAssert_bind (xmAssert_bind (xmAssert_bind h))))
    exact ⟨hv.1, ⟨rfl, rfl, rfl, rfl⟩⟩
  · simp only [xmAssert, if_neg hv] at h
    cases h

theorem getFreeEntry_room (h : Own t free rest) {locked : Bool}
    (hg : getFreeEntry env t locked = some (ref, t')) :
    (ref = nullGrantRef ∧ supply env t = 0 ∧ t'.lock = (t.lockUnless locked).lock.release
        (if locked then passiveLevel else t.lock.irql)) ∨
      (ref ≠ nullGrantRef ∧ supply env t' + 1 = supply env t ∧
        t'.lock = ((t.lockUnless locked).unlockUnless locked t.lock.irql).lock) := by
  have h0 : Own (t.lockUnless locked) free rest := by
    cases locked <;> exact h.congr ⟨rfl, rfl, rfl, rfl⟩
  have hsup : supply env (t.lockUnless locked) = supply env t := by cases locked <;> rfl
  obtain ⟨ref', t2, hg', -, htaken⟩ := getFreeEntry_spec env h locked
  obtain ⟨rfl, rfl⟩ := Prod.mk.inj (Option.some.inj (hg'.symm.trans hg))
  unfold getFreeEntry at hg
  obtain ⟨t1, h1, hg⟩ := Option.bind_eq_some_iff.mp hg
  obtain ⟨hlock, hreach, hempty⟩ := ensureFree_room h0 h1
  simp only at hg
  split at hg
  · next hz =>
    obtain ⟨rfl, rfl⟩ := Prod.mk.inj (Option.some.inj hg)
    refine .inl ⟨rfl, hsup ▸ hempty hz, ?_⟩
    simp only [hlock]
  · next hz =>
    right
    obtain ⟨⟨ref2, t3⟩, h3, hg⟩ := Option.bind_eq_some_iff.mp hg
    obtain ⟨rfl, rfl⟩ := Prod.mk.inj (Option.some.inj hg)
    obtain ⟨hvalid, hs⟩ := popFreeEntry_sameRoom h3
    refine ⟨hvalid, ?_, ?_⟩
    · rcases htaken with ⟨hnull, -⟩ | ⟨x, free', -, ho, -⟩
      · exact absurd hnull hvalid
      · have hroom := ho.room env
        have hroom' := h.room env
        have hr : reachFrames env (t3.unlockUnless locked
            (if locked then passiveLevel else t.lock.irql)) = reachFrames env t := by
          have h1 := hs.reach.trans (hreach hz)
          cases locked <;> exact h1
        rw [hr] at hroom
        rw [List.length_cons] at hroom
        omega
    · cases locked <;> simp [Table.unlockUnless, hs.lock, hlock]

theorem putCacheEntry_sameRoom (h : putCacheEntry t gc ref = some (t', gc')) : SameRoom t t' := by
  unfold putCacheEntry at h
  cases xmAssert_bind (xmAssert_bind h)
  exact ⟨rfl, rfl, rfl, rfl⟩

theorem getCacheEntry_sameRoom (h : getCacheEntry t gc = some (ref, t', gc')) : SameRoom t t' := by
  unfold getCacheEntry at h
  split at h
  · cases h; exact ⟨rfl, rfl, rfl, rfl⟩
  · cases xmAssert_bind (xmAssert_bind (xmAssert_bind h))
    exact ⟨rfl, rfl, rfl, rfl⟩

theorem replenishLoop_lock {target n : Nat} (h : CacheOwn t gc free l rest)
    (hn : gc.population + n = target) (hr : replenishLoop env target n t gc = some (t', gc')) :
    if n ≤ supply env t then t'.lock = t.lock ∧ gc'.population = target
    else t'.lock = t.lock.release passiveLevel ∧ gc'.population < target := by
  induction n generalizing t gc free l with
  | zero => cases hr; rw [if_pos (Nat.zero_le _)]; exact ⟨rfl, hn⟩
  | succ n ih =>
    unfold replenishLoop at hr
    rw [if_pos (by omega)] at hr
    obtain ⟨ref, t1, h1, hk1, htaken⟩ := getFreeEntry_spec env h.own true
    rw [h1, Option.bind_eq_bind, Option.bind_some] at hr
    simp only at hr
    rcases getFreeEntry_room h.own h1 with ⟨hnull, hz, hlock⟩ | ⟨hnull, hsup, hlock⟩
    · rw [if_pos hnull] at hr
      cases hr
      rw [if_neg (by omega)]
      exact ⟨hlock, by omega⟩
    · rw [if_neg hnull] at hr
      rcases htaken with ⟨he, -⟩ | ⟨x, free1, rfl, ho, hx⟩
      · exact absurd he hnull
      have hsm := (ho.small (x := x) (by simp)).2
      have hc1 := h.cached.keep (hk1.sub fun y hy => List.mem_append_left _ hy)
      obtain ⟨t2, h2, ho2, -⟩ := putCacheEntry_spec gc ho hc1 h.id hx
      rw [changeGrantCache_wrap hsm, h2] at hr
      have hs2 := putCacheEntry_sameRoom h2
      have hroom := ho.room env
      have hroom2 := ho2.own.room env
      rw [hs2.reach] at hroom2
      simp only [List.length_append, List.length_cons] at hroom hroom2
      have hrec := ih ho2 (by simp only; omega) hr
      rw [hs2.lock, hlock, show supply env t2 = supply env t1 by omega] at hrec
      by_cases hle : n + 1 ≤ supply env t
      · rw [if_pos (by omega)] at hrec
        rw [if_pos hle]
        exact hrec
      · rw [if_neg (by omega)] at hrec
        rw [if_neg hle]
        exact hrec

theorem trimLoop_sameRoom {target n : Nat} (h : trimLoop target n t gc = some (t', gc')) :
    SameRoom t t' := by
  induction n generalizing t gc with
  | zero => cases h; exact ⟨rfl, rfl, rfl, rfl⟩
  | succ n ih =>
    unfold trimLoop at h
    split at h
    · obtain ⟨⟨ref, t1, gc1⟩, h1, h⟩ := Option.bind_eq_some_iff.mp h
      obtain ⟨t2, h2, h⟩ := Option.bind_eq_some_iff.mp (xmAssert_bind h)
      exact (getCacheEntry_sameRoom h1).trans ((putFreeEntry_sameRoom h2).trans (ih h))
    · cases h; exact ⟨rfl, rfl, rfl, rfl⟩

theorem replenishCache_lock (env : Nat → FrameAnswer) {target : Nat} (h : CacheOwn t gc free l rest)
    (hlt : gc.population < target) (hheld : t.lock.held = false) :
    ∃ t' gc', replenishCache env t gc target = some (t', gc') ∧
      if target - gc.population ≤ supply env t then t'.lock = t.lock ∧ gc'.population = target
      else t'.lock.badRelease = true ∧ gc'.population < target := by
  obtain ⟨t1, gc1, -, -, h1, -⟩ :=
    replenishLoop_spec env target (target - gc.population) (h.lock t.lock.acquire)
  have hlock := replenishLoop_lock (h.lock t.lock.acquire) (by omega) h1
  simp only [replenishCache, xmAssert_pos hlt, h1, Option.bind_eq_bind, Option.bind_some]
  refine ⟨_, _, rfl, ?_⟩
  have hsup : supply env { t with lock := t.lock.acquire } = supply env t := rfl
  rw [hsup] at hlock
  split at hlock
  · next hle =>
    rw [if_pos hle, hlock.1, IrqLock.release_acquire _ hheld]
    exact ⟨rfl, hlock.2⟩
  · next hle =>
    rw [if_neg hle, hlock.1]
    exact ⟨by simp [IrqLock.release], hlock.2⟩

theorem replenishCache_badRelease (env : Nat → FrameAnswer) {target : Nat}
    (h : CacheOwn t gc free l rest) (hlt : gc.population < target) (hheld : t.lock.held = false)
    (hsup : supply env t < target - gc.population) :
    ∃ t' gc', replenishCache env t gc target = some (t', gc') ∧ t'.lock.badRelease = true := by
  obtain ⟨t', gc', hr, hlock⟩ := replenishCache_lock env h hlt hheld
  rw [if_neg (Nat.not_le.mpr hsup)] at hlock
  exact ⟨t', gc', hr, hlock.1⟩

end Room

/-- The lock is as on entry exactly when the table has what is taken from it under the lock. -/
theorem gnttab_lock_discipline {env : Nat → FrameAnswer} {c : LockCall} {t : Table}
    (h : c.Entered t) : c.KeepsLock env t ↔ c.asks ≤ supply env t := by
  obtain ⟨hheld, honce, hargs⟩ := h
  cases c with
  | getFreeEntry locked =>
    obtain ⟨free, rest, ho⟩ := hargs
    obtain ⟨ref, t', hg, -⟩ := getFreeEntry_spec env ho locked
    have hrun : LockCall.run env t (.getFreeEntry locked) = some t' := by simp [LockCall.run, hg]
    simp only [LockCall.KeepsLock, hrun, Option.some.injEq, exists_eq_left', LockCall.asks]
    rcases getFreeEntry_room ho hg with ⟨-, hz, hlock⟩ | ⟨-, hsup, hlock⟩
    · cases locked with
      | false => simp [hlock, Table.lockUnless, IrqLock.release_acquire _ hheld]
      | true =>
        have hne : t'.lock ≠ t.lock := fun he => by
          rw [he] at hlock
          have := congrArg IrqLock.held hlock
          rw [hheld] at this
          cases this
        simp [hne, hz]
    · cases locked with
      | false => simp [hlock, Table.lockUnless, Table.unlockUnless, IrqLock.release_acquire _ hheld]
      | true => simp [hlock, Table.lockUnless, Table.unlockUnless]; omega
  | putFreeEntry ref locked =>
    obtain ⟨x, free, rest, rfl, ho, hx⟩ := hargs
    obtain ⟨t', hp, -⟩ := putFreeEntry_spec ho hx locked
    refine iff_of_true ⟨t', hp, ?_⟩ (Nat.zero_le _)
    rw [(putFreeEntry_room hp).2.2.2]
    cases locked with
    | false => exact IrqLock.release_acquire _ hheld
    | true => rfl
  | replenishCache gc targetPop =>
    obtain ⟨hlt, free, l, rest, ho⟩ := hargs
    obtain ⟨t', gc', hr, hlock⟩ := replenishCache_lock env ho hlt hheld
    have hrun : LockCall.run env t (.replenishCache gc targetPop) = some t' := by
      simp [LockCall.run, hr]
    simp only [LockCall.KeepsLock, hrun, Option.some.injEq, exists_eq_left', LockCall.asks]
    split at hlock
    · next hle => exact iff_of_true hlock.1 hle
    · next hle =>
      refine iff_of_false (fun he => ?_) hle
      rw [he, honce] at hlock
      cases hlock.1
  | trimCache gc targetPop =>
    obtain ⟨hle, free, l, rest, ho⟩ := hargs
    obtain ⟨t', gc', -, -, ht, -⟩ := trimCache_spec ho targetPop (by rw [← ho.cached.count]; exact hle)
    have hrun : LockCall.run env t (.trimCache gc targetPop) = some t' := by simp [LockCall.run, ht]
    refine iff_of_true ⟨t', hrun, ?_⟩ (Nat.zero_le _)
    unfold trimCache at ht
    obtain ⟨⟨t1, gc1⟩, hloop, ht⟩ := Option.bind_eq_some_iff.mp (xmAssert_bind ht)
    cases ht
    simp only [(trimLoop_sameRoom hloop).lock]
    exact IrqLock.release_acquire _ hheld

/-- One frame, with all of its references in use. -/
def allInUse : Table := { blank with nrGrantFrames := 1, asked := 1 }

/-- A cache to be filled. -/
def newCache (minPopulation : Nat) : GrantCache := ⟨0, 1, 0, 0, minPopulation, nullGrantRef⟩

theorem allInUse_own : CacheOwn allInUse (newCache 64) [] [] (usable 1) where
  own := ⟨rfl, rfl, by decide, List.Perm.refl _, fun _ _ => rfl⟩
  cached := ⟨rfl, rfl⟩
  id := by decide

theorem allInUse_entered : (LockCall.replenishCache (newCache 64) 64).Entered allInUse :=
  ⟨rfl, rfl, by decide, [], [], usable 1, allInUse_own⟩

/-- With frames to come the refill keeps the lock. -/
theorem gnttab_lock_discipline_refill :
    (LockCall.replenishCache (newCache 64) 64).KeepsLock (fun _ => .mapped) allInUse := by
  refine (gnttab_lock_discipline allInUse_entered).mpr ?_
  have hreach : reachFrames (fun _ => .mapped) allInUse = 32 := by decide
  rw [supply, hreach]
  simp only [List.length_range']
  decide

theorem supply_allInUse : supply (fun _ => .rejected) allInUse = 0 := by
  have hreach : reachFrames (fun _ => .rejected) allInUse = 1 := by decide
  rw [supply, hreach, show allInUse.nrGrantFrames = 1 from rfl, Nat.sub_self]
  rfl

/-- With no further frame it releases the lock twice. -/
theorem replenishCache_releases_twice :
    (LockCall.replenishCache (newCache 64) 64).Entered allInUse ∧
      ¬ (LockCall.replenishCache (newCache 64) 64).KeepsLock (fun _ => .rejected) allInUse := by
  refine ⟨allInUse_entered, ?_⟩
  obtain ⟨t1, gc1, hr, hbad⟩ := replenishCache_badRelease (fun _ => .rejected) allInUse_own
    (show (newCache 64).population < 64 by decide) rfl (by rw [supply_allInUse]; decide)
  rintro ⟨t2, hrun, hlock⟩
  rw [LockCall.run, hr] at hrun
  obtain rfl : t1 = t2 := Option.some.inj hrun
  rw [hlock] at hbad
  cases hbad

end XcWindows.Gnttab
