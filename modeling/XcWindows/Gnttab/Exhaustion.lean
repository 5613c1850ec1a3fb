import XcWindows.Gnttab.LockDiscipline
import XcWindows.Gnttab.Revoke

/-!
# The guarantee under exhaustion

When the pool is exhausted, `get_free_entry` releases the lock that `ReplenishCache` holds, and
`ReplenishCache` releases it again some time later: if another CPU has taken it in between, that CPU
is no longer alone with the pool. Here the second release is a step of its own (`release`), and a
call that takes references may stop in `get_free_entry`, with the lock held, between the test of the
pool and the stores to it (`stop`, `resume`). A call that needs the lock waits until it is free.

`SharedOk` is the invariant: as long as nobody holds the lock when it is released a second time, at
most one call is stopped, and the pool that it has tested is left alone until it goes on.
-/

namespace XcWindows.Gnttab

open XcWindows.Lib

def State.setLock (s : State) (lock : IrqLock) : State := s.setTable { s.table with lock }

/-- The cache a call works on. -/
def Act.cache? : Act → Option Nat
  | .allocCache addr _ => addr
  | .freeCache addr | .grantCache addr _ _ _ | .endAccessCache addr _ _ => some addr
  | .getGrantRef | .grantRef _ _ _ _ | .grant _ _ _ | .endAccess _ _ | .remote _ _ => none

/-- The call gets to `get_free_entry`. -/
def asksPool (s : State) : Act → Bool
  | .getGrantRef => true
  | .grant _ frame _ => frame < 4294967296
  | .grantCache addr _ frame _ =>
    frame < 4294967296 && s.caches.any fun gc => gc.addr = addr && gc.population = 0
  | .allocCache (some addr) minPopulation => addr ∉ s.caches.map (·.addr) ∧ 0 < minPopulation
  | .allocCache none _ | .freeCache _ | .endAccessCache _ _ _ | .grantRef _ _ _ _ | .endAccess _ _
  | .remote _ _ => false

structure Shared where
  base : State
  /-- the calls in `get_free_entry`, after the test of the pool -/
  stopped : List Act
  /-- the calls of `ReplenishCache` that have still to release the lock -/
  again : Nat

inductive SharedAct where
  | call (a : Act)
  | stop (a : Act)
  | resume (a : Act)
  | release

namespace Shared

variable (s : Shared)

/-- A cache is used by one call at a time. -/
def free (a : Act) : Bool := s.stopped.all fun b => b.cache? = none || b.cache? ≠ a.cache?

def held : Bool := s.base.table.lock.held

/-- A call is over, but for the second release of `ReplenishCache`. -/
def after (b : State) (stopped : List Act) : Shared where
  base := b.setLock { b.table.lock with badRelease := false }
  stopped := stopped
  again := s.again + if b.table.lock.badRelease then 1 else 0

def step (env : Nat → FrameAnswer) : SharedAct → Option Shared
  | .call a =>
    if s.free a then
      (Gnttab.step env s.base a).bind fun b =>
        if s.held && !b.table.lock.held then none else some (s.after b s.stopped)
    else none
  | .stop a =>
    if s.free a ∧ asksPool s.base a ∧ s.held = false then
      match ensureFree env s.base.table with
      | none => some { s with base := { s.base with assertFailed := true } }
      | some t =>
        if t.freeCount = 0 then none
        else some { s with
          base := s.base.setTable { t with lock := t.lock.acquire }
          stopped := a :: s.stopped }
    else none
  | .resume a =>
    if a ∈ s.stopped then
      if s.base.table.Valid s.base.table.freeHead then
        (Gnttab.step env s.base a).map fun b =>
          s.after (b.setLock { b.table.lock with held := false }) (s.stopped.erase a)
      -- XM_ASSERT(valid_GRANT_REF(ref))
      else some { s with base := { s.base with assertFailed := true } }
    else none
  | .release =>
    if 0 < s.again then
      some { s with
        base := s.base.setLock { s.base.table.lock with held := false }
        again := s.again - 1 }
    else none

end Shared

def sharedMachine (env : Nat → FrameAnswer) : Machine Shared SharedAct where
  init := ⟨init env, [], 0⟩
  step s := s.step env

/-- Nobody holds the lock when `ReplenishCache` releases it the second time. -/
def ReleasesFree (s : Shared) : SharedAct → Prop
  | .release => s.held = false
  | _ => True

instance (s : Shared) : DecidablePred (ReleasesFree s)
  | .release => inferInstanceAs (Decidable (_ = _))
  | .call _ | .stop _ | .resume _ => isTrue trivial

/-! ## Calls without the lock -/

/-- The call has left the lock and the pool alone, or it has taken the lock and released it. -/
def Apart (t t' : Table) : Prop :=
  t'.lock = t.lock ∧ t'.freeCount = t.freeCount ∨ t'.lock.held = false

section Apart
variable {env : Nat → FrameAnswer} {t t' t'' : Table} {gc gc' : GrantCache} {ref : GrantRef}

theorem Apart.refl (t : Table) : Apart t t := .inl ⟨rfl, rfl⟩

theorem Apart.trans (h : Apart t t') (h' : Apart t' t'') : Apart t t'' := by
  rcases h' with ⟨hl', hc'⟩ | h'
  · rcases h with ⟨hl, hc⟩ | h
    · exact .inl ⟨hl'.trans hl, hc'.trans hc⟩
    · exact .inr (by rw [hl', h])
  · exact .inr h'

theorem getFreeEntry_apart (h : getFreeEntry env t false = some (ref, t')) : Apart t t' := by
  unfold getFreeEntry at h
  obtain ⟨t1, -, h⟩ := Option.bind_eq_some_iff.mp h
  simp only at h
  split at h
  · cases h
    exact .inr rfl
  · obtain ⟨⟨ref2, t2⟩, -, h⟩ := Option.bind_eq_some_iff.mp h
    cases h
    exact .inr rfl

theorem putFreeEntry_apart (h : putFreeEntry t ref false = some t') : Apart t t' := by
  unfold putFreeEntry at h
  cases xmAssert_bind (xmAssert_bind h)
  exact .inr rfl

theorem putCacheEntry_apart (h : putCacheEntry t gc ref = some (t', gc')) : Apart t t' := by
  unfold putCacheEntry at h
  cases xmAssert_bind (xmAssert_bind h)
  exact .inl ⟨rfl, rfl⟩

theorem getCacheEntry_apart (h : getCacheEntry t gc = some (ref, t', gc')) : Apart t t' := by
  unfold getCacheEntry at h
  split at h
  · cases h
    exact .refl t
  · cases xmAssert_bind (xmAssert_bind (xmAssert_bind h))
    exact .inl ⟨rfl, rfl⟩

theorem replenishCache_apart {target : Nat} (h : replenishCache env t gc target = some (t', gc')) :
    Apart t t' := by
  unfold replenishCache at h
  obtain ⟨⟨t1, gc1⟩, -, h⟩ := Option.bind_eq_some_iff.mp (xmAssert_bind h)
  cases h
  exact .inr rfl

theorem trimCache_apart {target : Nat} (h : trimCache t gc target = some (t', gc')) :
    Apart t t' := by
  unfold trimCache at h
  obtain ⟨⟨t1, gc1⟩, -, h⟩ := Option.bind_eq_some_iff.mp (xmAssert_bind h)
  cases h
  exact .inr rfl

theorem gnttabGrantForeignAccessRef_apart {domid frame : Nat} {mode : GrantMode}
    (h : gnttabGrantForeignAccessRef t domid frame mode ref = some t') : Apart t t' :=
  .inl (gnttabGrantForeignAccessRef_lock h)

theorem gnttabEndForeignAccessRef_apart {raced : List Nat} {done : Bool}
    (h : gnttabEndForeignAccessRef t ref raced = some (done, t')) : Apart t t' := by
  unfold gnttabEndForeignAccessRef at h
  have h := xmAssert_bind h
  simp only at h
  split at h <;> cases h <;> exact .inl ⟨rfl, rfl⟩

theorem getCacheEntryReplenish_apart (h : getCacheEntryReplenish env t gc = some (ref, t', gc')) :
    Apart t t' := by
  unfold getCacheEntryReplenish at h
  obtain ⟨⟨ref1, t1, gc1⟩, h1, h⟩ := Option.bind_eq_some_iff.mp h
  have ha := getCacheEntry_apart h1
  simp only at h
  split at h
  · obtain ⟨⟨t2, gc2⟩, h2, h⟩ := Option.bind_eq_some_iff.mp h
    exact (ha.trans (replenishCache_apart h2)).trans (getCacheEntry_apart h)
  · cases h
    exact ha

theorem emptyCache_apart (h : emptyCache t gc = some (t', gc')) : Apart t t' :=
  trimCache_apart (xmAssert_bind h)

theorem fillCache_apart {addr id minPopulation : Nat} {new : Option GrantCache}
    (h : fillCache env t addr id minPopulation = some (new, t')) : Apart t t' := by
  unfold fillCache at h
  simp only at h
  split at h
  · obtain ⟨⟨t1, gc1⟩, h1, h⟩ := Option.bind_eq_some_iff.mp h
    have ha := replenishCache_apart h1
    simp only at h
    split at h
    · cases h
      exact ha
    · obtain ⟨⟨t2, gc2⟩, h2, h⟩ := Option.bind_eq_some_iff.mp h
      cases h
      exact ha.trans (emptyCache_apart h2)
  · cases h
    exact .refl t

theorem giveBackCache_apart (h : giveBackCache t ref gc = some (t', gc')) : Apart t t' := by
  unfold giveBackCache at h
  obtain ⟨⟨t1, gc1⟩, h1, h⟩ := Option.bind_eq_some_iff.mp h
  have ha := putCacheEntry_apart h1
  simp only at h
  split at h
  · exact ha.trans (trimCache_apart h)
  · cases h
    exact ha

variable {s s' : State} {a : Act}

/-- A call that leaves the lock held by another CPU leaves the pool alone. -/
theorem step_apart (hs : Gnttab.step env s a = some s') : Apart s.table s'.table := by
  cases step_cases hs with
  | failed | noMemory => exact .refl _
  | getGrantRef h | noReference h => exact getFreeEntry_apart h
  | grantRef _ h => exact gnttabGrantForeignAccessRef_apart h
  | grant h1 _ h2 => exact (getFreeEntry_apart h1).trans (gnttabGrantForeignAccessRef_apart h2)
  | @endAccess _ _ done _ _ _ h1 h2 =>
    have ha := gnttabEndForeignAccessRef_apart h1
    cases done with
    | false => rw [h2]; exact ha
    | true => exact ha.trans (putFreeEntry_apart h2)
  | notFilled _ h | allocCache _ h => exact fillCache_apart h
  | freeCache h => exact emptyCache_apart h
  | cacheEmpty _ h => exact getCacheEntryReplenish_apart h
  | grantCache _ h1 _ h2 =>
    exact (getCacheEntryReplenish_apart h1).trans (gnttabGrantForeignAccessRef_apart h2)
  | @endAccessCache _ _ _ done _ _ _ _ _ _ h1 h2 =>
    have ha := gnttabEndForeignAccessRef_apart h1
    cases done with
    | false => rw [h2.1]; exact ha
    | true => exact ha.trans (giveBackCache_apart h2)
  | remote => exact .inl ⟨rfl, rfl⟩

end Apart

/-! ## The invariant -/

structure SharedOk (s : Shared) : Prop where
  sound : Sound s.base
  alone : s.stopped = [] ∧ s.held = false ∨
    ∃ b, s.stopped = [b] ∧ s.held = true ∧ s.base.table.freeCount ≠ 0

section Shared
variable {env : Nat → FrameAnswer} {s s' : Shared} {b : State} {a : Act}

theorem Sound.setLock (h : Sound b) (lock : IrqLock) : Sound (b.setLock lock) :=
  ⟨h.1.setTable ⟨rfl, rfl, rfl, rfl⟩, h.2⟩

/-- A pool that is not empty has a reference at its head. -/
theorem Sound.validHead (h : Sound b) (hc : b.table.freeCount ≠ 0) :
    b.table.Valid b.table.freeHead := by
  obtain ⟨-, free, chain, h⟩ := h.1
  cases free with
  | nil => exact absurd h.own.count hc
  | cons x free =>
    rw [h.own.chain.1]
    exact h.own.valid (by simp) 0

theorem sharedOk_init : SharedOk ⟨init env, [], 0⟩ := by
  refine ⟨sound_init, .inl ⟨rfl, ?_⟩⟩
  obtain ⟨t, free, h1, -, -⟩ := expandGrantTable_spec env own_blank
  have hl := (ensureFree_room own_blank (show ensureFree env blank = some t from h1)).1
  simp only [Shared.held, init, h1, State.orAssert, hl]
  rfl

theorem SharedOk.call (h : SharedOk s) (hs : s.step env (.call a) = some s') : SharedOk s' := by
  simp only [Shared.step] at hs
  split at hs
  · obtain ⟨b, hb, hs⟩ := Option.bind_eq_some_iff.mp hs
    split at hs
    · cases hs
    · next hheld =>
      obtain rfl := Option.some.inj hs
      refine ⟨(h.sound.step hb).setLock _, ?_⟩
      have ha := step_apart hb
      rcases h.alone with ⟨hnil, hfree⟩ | ⟨c, hc, hlock, hcount⟩
      · refine .inl ⟨hnil, ?_⟩
        rcases ha with ⟨hl, -⟩ | hl
        · exact (congrArg IrqLock.held hl).trans hfree
        · exact hl
      · have hb' : b.table.lock.held = true := by simpa [hlock] using hheld
        refine .inr ⟨c, hc, hb', ?_⟩
        rcases ha with ⟨-, hl⟩ | hl
        · exact fun e => hcount (hl.symm.trans e)
        · rw [hb'] at hl
          cases hl
  · cases hs

theorem SharedOk.stop (h : SharedOk s) (hs : s.step env (.stop a) = some s') : SharedOk s' := by
  simp only [Shared.step] at hs
  split at hs
  · next hg =>
    rcases h.alone with ⟨hnil, -⟩ | ⟨c, -, hlock, -⟩
    · obtain ⟨hf, free, chain, hacc⟩ := h.sound.1
      obtain ⟨t, free', ht, ho, hk⟩ := ensureFree_spec env hacc.own
      simp only [ht] at hs
      split at hs
      · cases hs
      · next hcount =>
        obtain rfl := Option.some.inj hs
        have hsound : Sound (s.base.setTable t) := ⟨⟨hf, free', chain, hacc.moved ho hk⟩, h.sound.2⟩
        exact ⟨hsound.setLock _, .inr ⟨a, by rw [hnil], rfl, hcount⟩⟩
    · rw [hlock] at hg
      exact absurd hg.2.2 (by simp)
  · cases hs

/-- The call that is stopped is alone with the pool, and goes on as the whole call would. -/
theorem SharedOk.resume (h : SharedOk s) (hs : s.step env (.resume a) = some s') : SharedOk s' := by
  simp only [Shared.step] at hs
  split at hs
  · next ha =>
    rcases h.alone with ⟨hnil, -⟩ | ⟨c, hc, -, hcount⟩
    · rw [hnil] at ha
      cases ha
    · rw [if_pos (h.sound.validHead hcount)] at hs
      obtain ⟨b, hb, rfl⟩ := Option.map_eq_some_iff.mp hs
      rw [hc, List.mem_singleton] at ha
      refine ⟨((h.sound.step hb).setLock _).setLock _, .inl ⟨?_, rfl⟩⟩
      simp [Shared.after, hc, ha]
  · cases hs

theorem SharedOk.step {a : SharedAct} (h : SharedOk s) (hok : ReleasesFree s a)
    (hs : s.step env a = some s') : SharedOk s' := by
  cases a with
  | call a => exact h.call hs
  | stop a => exact h.stop hs
  | resume a => exact h.resume hs
  | release =>
    simp only [Shared.step] at hs
    split at hs
    · obtain rfl := Option.some.inj hs
      refine ⟨h.sound.setLock _, .inl ⟨?_, rfl⟩⟩
      rcases h.alone with ⟨hnil, -⟩ | ⟨c, -, hlock, -⟩
      · exact hnil
      · have hfree : s.held = false := hok
        rw [hlock] at hfree
        cases hfree
    · cases hs

/-- A cache keeps its minimum, and a new one has that of its `GnttabAllocCache`. -/
theorem shared_caches {a : SharedAct} (h : SharedOk s) (hs : s.step env a = some s')
    {gc' : GrantCache} (hg : gc' ∈ s'.base.caches) :
    (∃ gc ∈ s.base.caches, gc.addr = gc'.addr ∧ gc.minPopulation = gc'.minPopulation) ∨
      a = .call (.allocCache (some gc'.addr) gc'.minPopulation) ∨
      a = .resume (.allocCache (some gc'.addr) gc'.minPopulation) := by
  have hcall {b : State} {a : Act} (hb : Gnttab.step env s.base a = some b)
      (hg : gc' ∈ b.caches) :
      (∃ gc ∈ s.base.caches, gc.addr = gc'.addr ∧ gc.minPopulation = gc'.minPopulation) ∨
        a = .allocCache (some gc'.addr) gc'.minPopulation := by
    rcases step_caches h.sound.1 hb gc' hg with ⟨gc, hm, hk⟩ | ⟨ha, -⟩
    · exact .inl ⟨gc, hm, hk.addr.symm, hk.minPopulation.symm⟩
    · exact .inr ha
  cases a with
  | call a =>
    simp only [Shared.step] at hs
    split at hs
    · obtain ⟨b, hb, hs⟩ := Option.bind_eq_some_iff.mp hs
      split at hs
      · cases hs
      · obtain rfl := Option.some.inj hs
        exact (hcall hb hg).imp_right fun e => .inl (congrArg _ e)
    · cases hs
  | stop a =>
    simp only [Shared.step] at hs
    split at hs
    · split at hs
      · obtain rfl := Option.some.inj hs
        exact .inl ⟨gc', hg, rfl, rfl⟩
      · split at hs
        · cases hs
        · obtain rfl := Option.some.inj hs
          exact .inl ⟨gc', hg, rfl, rfl⟩
    · cases hs
  | resume a =>
    simp only [Shared.step] at hs
    split at hs
    · split at hs
      · obtain ⟨b, hb, rfl⟩ := Option.map_eq_some_iff.mp hs
        exact (hcall hb hg).imp_right fun e => .inr (congrArg _ e)
      · obtain rfl := Option.some.inj hs
        exact .inl ⟨gc', hg, rfl, rfl⟩
    · cases hs
  | release =>
    simp only [Shared.step] at hs
    split at hs
    · obtain rfl := Option.some.inj hs
      exact .inl ⟨gc', hg, rfl, rfl⟩
    · cases hs

/-- Whatever is done with the pool and with other caches, as long as no second release takes the lock
from another CPU: no assertion fails, a cache and its users always have the promised number of
references, and while its users hold fewer a grant from it succeeds at once. The number is the one
the cache was made with. -/
theorem grant_cache_guarantee (h : (sharedMachine env).Reach ReleasesFree s) :
    s.base.assertFailed = false ∧
    (∀ gc ∈ s.base.caches, gc.minPopulation ≤ gc.population + gc.nrOutstanding ∧
      (gc.nrOutstanding < gc.minPopulation → ∀ domid frame mode, frame < 4294967296 →
        s.free (.grantCache gc.addr domid frame mode) = true →
        ∃ ref s', s.step env (.call (.grantCache gc.addr domid frame mode)) = some s' ∧
          ref ≠ nullGrantRef ∧
          s'.base.outstanding = (ref, some gc.addr) :: s.base.outstanding)) ∧
    ∀ a s', s.step env a = some s' → ∀ gc' ∈ s'.base.caches,
      (∃ gc ∈ s.base.caches, gc.addr = gc'.addr ∧ gc.minPopulation = gc'.minPopulation) ∨
        a = .call (.allocCache (some gc'.addr) gc'.minPopulation) ∨
        a = .resume (.allocCache (some gc'.addr) gc'.minPopulation) := by
  have hok : SharedOk s := h.inv sharedOk_init fun _ _ _ hi hc hs => hi.step hc hs
  refine ⟨hok.sound.1.1, fun gc hg => ⟨hok.sound.2 gc hg, fun hlt domid frame mode hf hfree => ?_⟩,
    fun a s' hs gc' => shared_caches hok hs⟩
  have hb : gc.minPopulation ≤ gc.population + gc.nrOutstanding := hok.sound.2 gc hg
  obtain ⟨ref, b, (hs : Gnttab.step env _ _ = _), hne, hout, hlock⟩ :=
    grantCache_of_population hok.sound.1 hg (by omega) domid mode hf
  refine ⟨ref, s.after b s.stopped, ?_, hne, hout⟩
  simp [Shared.step, hfree, hs, Shared.held, hlock]

/-- A call takes the last reference while another one takes a reference from its cache, which holds
one of 503; a second cache meets the exhausted pool, and its second release meets nobody. -/
theorem grant_cache_guarantee_run :
    ∃ s, (sharedMachine oneFrame).Reach ReleasesFree s ∧
      (s.base.caches.map (fun gc => (gc.nrOutstanding, gc.minPopulation)) = [(1, 503), (0, 0)] ∧
        s.base.table.freeCount = 0 ∧ s.again = 0) ∧
      s.base.assertFailed = false ∧
      ∀ gc ∈ s.base.caches, gc.minPopulation ≤ gc.population + gc.nrOutstanding ∧
        (gc.nrOutstanding < gc.minPopulation → ∀ domid frame mode, frame < 4294967296 →
          s.free (.grantCache gc.addr domid frame mode) = true →
          ∃ ref s', s.step oneFrame (.call (.grantCache gc.addr domid frame mode)) = some s' ∧
            ref ≠ nullGrantRef ∧
            s'.base.outstanding = (ref, some gc.addr) :: s.base.outstanding) := by
  obtain ⟨s, hr, hp⟩ := Machine.exists_reach (sharedMachine oneFrame) ReleasesFree
    (fun s => s.base.caches.map (fun gc => (gc.nrOutstanding, gc.minPopulation)) =
        [(1, 503), (0, 0)] ∧ s.base.table.freeCount = 0 ∧ s.again = 0)
    [.call (.allocCache (some 200) 503), .stop (.grant 0 7 .rw), .call (.grantCache 200 1 5 .rw),
      .resume (.grant 0 7 .rw), .call (.allocCache (some 100) 0), .call (.grantCache 100 0 9 .rw),
      .release]
    (by simp only [sharedMachine, init_oneFrame]; decide +kernel)
  obtain ⟨hf, hg, -⟩ := grant_cache_guarantee hr
  exact ⟨s, hr, of_decide_eq_true hp, hf, hg⟩

/-- The pool is exhausted in a call for the cache 100. Before its second release a reference comes
back and a call for the cache 300 has the lock, to take it; the release lets a third call in, which
takes it first, and `get_free_entry` asserts on the null reference that `ReplenishCache` is left. -/
theorem exclusion_lost :
    ¬∀ s, (sharedMachine oneFrame).Reach Machine.Any s → s.base.assertFailed = false := by
  intro hall
  obtain ⟨s, hr, hp⟩ := Machine.exists_reach (sharedMachine oneFrame) Machine.Any
    (fun s => s.base.assertFailed)
    [.call (.allocCache (some 200) 503), .call (.allocCache (some 100) 0),
      .call (.allocCache (some 300) 0), .call (.grant 0 7 .rw), .call (.grantCache 100 0 9 .rw),
      .call (.endAccess (wrapGrantRef 8 0) []), .stop (.grantCache 300 1 5 .rw), .release,
      .call .getGrantRef, .resume (.grantCache 300 1 5 .rw)]
    (by simp only [sharedMachine, init_oneFrame]; decide +kernel)
  rw [hall s hr] at hp
  cases hp

end Shared

end XcWindows.Gnttab
