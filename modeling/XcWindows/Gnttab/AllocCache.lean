import XcWindows.Gnttab.LockDiscipline

/-!
# A grant cache that cannot be filled

`GnttabAllocCache` with its list. When the pool does not have `min_population` references the new
cache goes to `GnttabFreeCache`, which unlinks it from `grant_cache_list`: it has not been linked, and
the two pointers of its `LIST_ENTRY` are what the memory block held before. `grant_cache_list` is
modelled in the memory words that `RemoveEntryList` stores through these pointers; `writable` are the
words where such a store neither faults nor hits the grant tables or the cache itself.
-/

namespace XcWindows.Gnttab

open XcWindows.Lib
open Function (update update_of_ne update_self)

/-- The grant tables and the memory with `grant_cache_list`: a `LIST_ENTRY` at `a` has its `Flink` in
word `a` and its `Blink` in word `a + 1`. -/
structure CacheWorld where
  table : Table
  word : Nat → Nat
  writable : Nat → Bool
  /-- The address of `grant_cache_list`. -/
  head : Nat
  /-- `next_id` of `GnttabAllocCache`. -/
  nextId : Nat

/-- Two stores, in this order. -/
def CacheWorld.store2 (s : CacheWorld) (a v b w : Nat) : Option CacheWorld :=
  if s.writable a ∧ s.writable b then
    some { s with word := update (update s.word a v) b w }
  else none

def removeEntryList (s : CacheWorld) (entry : Nat) : Option CacheWorld :=
  let flink := s.word entry
  let blink := s.word (entry + 1)
  s.store2 blink flink (flink + 1) blink

/-- `InsertTailList` at `grant_cache_list` -/
def insertTailList (s : CacheWorld) (entry : Nat) : Option CacheWorld := do
  let blink := s.word (s.head + 1)
  let s ← s.store2 entry s.head (entry + 1) blink
  s.store2 blink entry (s.head + 1) entry

def gnttabFreeCache (s : CacheWorld) (gc : GrantCache) : Option CacheWorld := do
  let s ← removeEntryList s gc.addr
  let (table, _) ← emptyCache s.table gc
  some { s with table }

/-- `GnttabAllocCache` with memory at `alloc`: the address it returns. The loop runs at most once, since
`ReplenishCache` succeeds exactly when the population is the minimum. -/
def gnttabAllocCache (env : Nat → FrameAnswer) (s : CacheWorld) (alloc : Option Nat)
    (minPopulation : Nat) : Option (Option Nat × CacheWorld) :=
  match alloc with
  | none => some (none, s)
  | some addr => do
    let work : GrantCache := ⟨addr, (drawId s.nextId).1, 0, 0, minPopulation, nullGrantRef⟩
    let s := { s with nextId := (drawId s.nextId).2 }
    if work.population < minPopulation then
      let (table, work) ← replenishCache env s.table work minPopulation
      if work.population = minPopulation then
        let s ← insertTailList { s with table } work.addr
        some (some work.addr, s)
      else
        let s ← gnttabFreeCache { s with table } work
        some (none, s)
    else
      let s ← insertTailList s work.addr
      some (some work.addr, s)

/-- The entries are linked both ways, in a circle with `head`. -/
def Linked (word : Nat → Nat) (head : Nat) (entries : List Nat) : Prop :=
  ∀ p ∈ (head :: entries).zip (entries ++ [head]), word p.1 = p.2 ∧ word (p.2 + 1) = p.1

instance (word : Nat → Nat) (head : Nat) (entries : List Nat) : Decidable (Linked word head entries) :=
  List.decidableBAll _ _

/-- The words of the list. -/
def listWords (head : Nat) (entries : List Nat) : List Nat :=
  (head :: entries).flatMap fun a => [a, a + 1]

/-- `GnttabAllocCache` returns `NULL`, the pool has everything it had, with the rest in the hands it was
in, and the list is what it was. -/
def CleanFailure (env : Nat → FrameAnswer) (s : CacheWorld) (entries rest : List Nat)
    (addr minPopulation : Nat) : Prop :=
  ∃ s' free', gnttabAllocCache env s (some addr) minPopulation = some (none, s') ∧
    Own s'.table free' rest ∧ (∀ w ∈ listWords s.head entries, s'.word w = s.word w) ∧
    Linked s'.word s.head entries

/-- What the block held points to memory that may be stored to, and a word of the list among it holds
already what is stored. -/
def Harmless (s : CacheWorld) (entries : List Nat) (addr : Nat) : Prop :=
  let flink := s.word addr
  let blink := s.word (addr + 1)
  s.writable blink ∧ s.writable (flink + 1) ∧
    (flink + 1 ∈ listWords s.head entries → s.word (flink + 1) = blink) ∧
    (blink ∈ listWords s.head entries → blink ≠ flink + 1 → s.word blink = flink)

instance (s : CacheWorld) (entries : List Nat) (addr : Nat) : Decidable (Harmless s entries addr) :=
  inferInstanceAs (Decidable (_ ∧ _ ∧ (_ → _) ∧ (_ → _ → _)))

section Failure
variable {env : Nat → FrameAnswer} {s : CacheWorld} {entries free rest : List Nat}
  {addr minPopulation : Nat}

theorem mem_listWords_of_zip {head : Nat} {p : Nat × Nat}
    (hp : p ∈ (head :: entries).zip (entries ++ [head])) :
    p.1 ∈ listWords head entries ∧ p.2 + 1 ∈ listWords head entries := by
  have h1 := (List.of_mem_zip hp).1
  have h2 := (List.of_mem_zip hp).2
  have h2' : p.2 ∈ head :: entries := by
    rcases List.mem_append.mp h2 with h | h
    · exact List.mem_cons_of_mem _ h
    · rw [List.mem_singleton.mp h]
      exact List.mem_cons_self
  exact ⟨List.mem_flatMap.mpr ⟨p.1, h1, by simp⟩, List.mem_flatMap.mpr ⟨p.2, h2', by simp⟩⟩

theorem Linked.congr {word word' : Nat → Nat} {head : Nat} (h : Linked word head entries)
    (hw : ∀ w ∈ listWords head entries, word' w = word w) : Linked word' head entries := by
  intro p hp
  obtain ⟨h1, h2⟩ := mem_listWords_of_zip hp
  rw [hw _ h1, hw _ h2]
  exact h p hp

theorem harmless_iff :
    Harmless s entries addr ↔ ∃ s', removeEntryList s addr = some s' ∧
      ∀ w ∈ listWords s.head entries, s'.word w = s.word w := by
  unfold Harmless removeEntryList CacheWorld.store2
  simp only
  generalize s.word addr = flink
  generalize s.word (addr + 1) = blink
  constructor
  · rintro ⟨hb, hf, hsecond, hfirst⟩
    refine ⟨_, if_pos ⟨hb, hf⟩, fun w hw => ?_⟩
    simp only
    by_cases h2 : w = flink + 1
    · subst h2
      rw [update_self, hsecond hw]
    · rw [update_of_ne h2]
      by_cases h1 : w = blink
      · subst h1
        rw [update_self, hfirst hw h2]
      · rw [update_of_ne h1]
  · rintro ⟨s', hs, hsame⟩
    split at hs
    · next hw =>
      cases hs
      refine ⟨hw.1, hw.2, fun hm => ?_, fun hm hne => ?_⟩
      · have := hsame _ hm
        simp only [update_self] at this
        exact this.symm
      · have := hsame _ hm
        simp only [update_of_ne hne, update_self] at this
        exact this.symm
    · cases hs

theorem gnttabAllocCache_short (hown : Own s.table free rest) (hheld : s.table.lock.held = false)
    (hshort : supply env s.table < minPopulation) :
    ∃ t gc free' l, gnttabAllocCache env s (some addr) minPopulation =
        (gnttabFreeCache { s with nextId := (drawId s.nextId).2, table := t } gc).bind
          (fun s => some (none, s)) ∧
      gc.addr = addr ∧ gc.nrOutstanding = 0 ∧ CacheOwn t gc free' l rest := by
  have h0 : CacheOwn s.table ⟨addr, (drawId s.nextId).1, 0, 0, minPopulation, nullGrantRef⟩ free []
      rest := ⟨hown, ⟨rfl, rfl⟩, drawId_lt _⟩
  have hpos : 0 < minPopulation := by omega
  obtain ⟨t, gc, hr, hif⟩ := replenishCache_lock env h0 hpos hheld
  rw [if_neg (by simp only; omega)] at hif
  obtain ⟨t', gc', free', l, hr', hown', hsame, -⟩ := replenishCache_spec env h0 minPopulation hpos
  obtain ⟨rfl, rfl⟩ := Prod.mk.inj (Option.some.inj (hr.symm.trans hr'))
  refine ⟨t, gc, free', l, ?_, hsame.addr, hsame.nrOutstanding, hown'⟩
  simp only [gnttabAllocCache, if_pos hpos, hr, Option.bind_eq_bind, Option.bind_some,
    if_neg (Nat.ne_of_lt hif.2)]

theorem gnttabFreeCache_eq {gc : GrantCache} {l : List Nat} (h : CacheOwn s.table gc free l rest)
    (h0 : gc.nrOutstanding = 0) :
    ∃ t free', Own t free' rest ∧ gnttabFreeCache s gc =
      (removeEntryList s gc.addr).map fun s => { s with table := t } := by
  obtain ⟨t, gc', free', he, hown, -⟩ := emptyCache_spec h h0
  refine ⟨t, free', hown, ?_⟩
  unfold gnttabFreeCache removeEntryList CacheWorld.store2
  simp only
  split
  · simp only [Option.bind_eq_bind, Option.bind_some, he, Option.map_some]
  · rfl

theorem gnttabAllocCache_unlinks (hown : Own s.table free rest) (hheld : s.table.lock.held = false)
    (hshort : supply env s.table < minPopulation) :
    ∃ t free', Own t free' rest ∧ gnttabAllocCache env s (some addr) minPopulation =
      (removeEntryList s addr).map fun u =>
        (none, { u with nextId := (drawId s.nextId).2, table := t }) := by
  obtain ⟨t, gc, free1, l, hcall, rfl, h0, hgc⟩ :=
    @gnttabAllocCache_short env s free rest addr minPopulation hown hheld hshort
  obtain ⟨t', free', hown', hfree⟩ := @gnttabFreeCache_eq
    { s with nextId := (drawId s.nextId).2, table := t } free1 rest gc l hgc h0
  refine ⟨t', free', hown', ?_⟩
  rw [hcall, hfree]
  unfold removeEntryList CacheWorld.store2
  simp only
  split <;> rfl

theorem CleanFailure.harmless (h : CleanFailure env s entries rest addr minPopulation)
    (hown : Own s.table free rest) (hheld : s.table.lock.held = false)
    (hshort : supply env s.table < minPopulation) : Harmless s entries addr := by
  obtain ⟨s', free2, hrun, -, hwords, -⟩ := h
  obtain ⟨t, free', -, hcall⟩ := @gnttabAllocCache_unlinks env s free rest addr _ hown hheld hshort
  rw [hcall] at hrun
  obtain ⟨u, hre, hu⟩ := Option.map_eq_some_iff.mp hrun
  cases hu
  exact harmless_iff.mpr ⟨u, hre, hwords⟩

theorem Harmless.clean (h : Harmless s entries addr) (hown : Own s.table free rest)
    (hheld : s.table.lock.held = false) (hlist : Linked s.word s.head entries)
    (hshort : supply env s.table < minPopulation) :
    CleanFailure env s entries rest addr minPopulation := by
  obtain ⟨u, hre, hwords⟩ := harmless_iff.mp h
  obtain ⟨t, free', hown', hcall⟩ :=
    @gnttabAllocCache_unlinks env s free rest addr _ hown hheld hshort
  rw [hre, Option.map_some] at hcall
  exact ⟨_, free', hcall, hown', hwords, hlist.congr hwords⟩

end Failure

/-- The failure is clean exactly when what the fresh block held happens to be harmless. -/
theorem gnttabAllocCache_failure {env : Nat → FrameAnswer} {s : CacheWorld}
    {entries free rest : List Nat} {addr minPopulation : Nat} (hown : Own s.table free rest)
    (hheld : s.table.lock.held = false) (hlist : Linked s.word s.head entries)
    (hshort : supply env s.table < minPopulation) :
    CleanFailure env s entries rest addr minPopulation ↔ Harmless s entries addr :=
  ⟨fun h => h.harmless hown hheld hshort, fun h => h.clean hown hheld hlist hshort⟩

/-- One cache in the list; the fresh block at 3000 holds `flink` and `blink`. -/
def stale (flink blink : Nat) : CacheWorld where
  table := allInUse
  word a := if a = 3000 then flink else if a = 3001 then blink
    else if a = 1000 ∨ a = 1001 then 2000 else 1000
  writable a := a ≠ 0
  head := 1000
  nextId := 1

/-- The block points to itself. -/
theorem gnttabAllocCache_failure_self :
    CleanFailure (fun _ => .rejected) (stale 3000 3000) [2000] (usable 1) 3000 64 :=
  (gnttabAllocCache_failure allInUse_own.own rfl (by decide)
    (by rw [show (stale 3000 3000).table = allInUse from rfl, supply_allInUse]; decide)).mpr (by decide)

/-- The block still has the links of a cache that was alone in the list: the cache that is there now
drops out. -/
theorem gnttabAllocCache_unlinks_other : Linked (stale 1000 1000).word 1000 [2000] ∧
    ¬ CleanFailure (fun _ => .rejected) (stale 1000 1000) [2000] (usable 1) 3000 64 := by
  refine ⟨by decide, fun h => ?_⟩
  have hshort : supply (fun _ => .rejected) (stale 1000 1000).table < 64 := by
    rw [show (stale 1000 1000).table = allInUse from rfl, supply_allInUse]
    decide
  exact absurd (h.harmless allInUse_own.own rfl hshort) (by decide)

end XcWindows.Gnttab
