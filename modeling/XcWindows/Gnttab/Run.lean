import XcWindows.Lib.Keyed
import XcWindows.Lib.Machine
import XcWindows.Gnttab.Lists

/-!
# Grant references are conserved

The calls of `gnttab.c` in any order, from callers that keep its contract: a reference is given back
once, to where it came from, and a cache is freed when all its references are back. The environment
answers the requests for further frames, and the remote domains write the flags of the entries.

`Accounts` is the invariant: the pool, the caches and the callers have every usable reference of the
mapped frames exactly once, with counters to match.
-/

namespace XcWindows.Gnttab

open XcWindows.Lib
open Function (update update_of_ne update_self)

structure State where
  table : Table
  /-- The live `struct grant_cache`s. -/
  caches : List GrantCache
  grantCacheList : List Nat
  /-- An entry that was never linked was removed from the list. -/
  listBroken : Bool
  nextId : Nat
  /-- The references callers hold, and the cache each is from. -/
  outstanding : List (GrantRef × Option Nat)
  assertFailed : Bool

inductive Act where
  | getGrantRef
  /-- `GnttabGrantForeignAccessRef` on a reference the caller holds. -/
  | grantRef (ref : GrantRef) (domid frame : Nat) (mode : GrantMode)
  | grant (domid frame : Nat) (mode : GrantMode)
  | endAccess (ref : GrantRef) (raced : List Nat)
  /-- `GnttabAllocCache`, with the memory it gets. -/
  | allocCache (addr : Option Nat) (minPopulation : Nat)
  | freeCache (addr : Nat)
  | grantCache (addr domid frame : Nat) (mode : GrantMode)
  | endAccessCache (addr : Nat) (ref : GrantRef) (raced : List Nat)
  | remote (x flags : Nat)
deriving DecidableEq

/-- A failed assertion ends a call. -/
def State.orAssert {α : Type} (s : State) (r : Option α) (f : α → State) : State :=
  match r with
  | none => { s with assertFailed := true }
  | some a => f a

/-- The caller keeps a reference it was given. -/
def hold (ref : GrantRef) (cache : Option Nat) (l : List (GrantRef × Option Nat)) :
    List (GrantRef × Option Nat) :=
  if ref = nullGrantRef then l else (ref, cache) :: l

def State.setCache (s : State) (gc : GrantCache) : List GrantCache :=
  putKey (·.addr) gc s.caches

/-- `GnttabAllocCache`, given memory at `addr`. A cache that could not be filled is freed without
ever having been linked. -/
def State.allocCache (env : Nat → FrameAnswer) (s : State) (addr minPopulation : Nat) : State :=
  let (id, nextId) := drawId s.nextId
  s.orAssert (fillCache env s.table addr id minPopulation) fun
    | (some gc, t) => { s with table := t, caches := s.caches ++ [gc], nextId
                               grantCacheList := s.grantCacheList ++ [addr] }
    | (none, t) => { s with table := t, nextId, listBroken := true }

instance : LawfulBEq (GrantRef × Option Nat) := Prod.instLawfulBEq

def step (env : Nat → FrameAnswer) (s : State) : Act → Option State
  | .getGrantRef =>
    some <| s.orAssert (gnttabGetGrantRef env s.table) fun (ref, t) =>
      { s with table := t, outstanding := hold ref none s.outstanding }
  | .grantRef ref domid frame mode =>
    if ref ∈ s.outstanding.map (·.1) ∧ frame < 4294967296 then
      some <| s.orAssert (gnttabGrantForeignAccessRef s.table domid frame mode ref) fun t =>
        { s with table := t }
    else none
  | .grant domid frame mode =>
    if frame < 4294967296 then
      some <| s.orAssert (gnttabGrantForeignAccess env s.table domid frame mode) fun (ref, t) =>
        { s with table := t, outstanding := hold ref none s.outstanding }
    else none
  | .endAccess ref raced =>
    if (ref, none) ∈ s.outstanding then
      some <| s.orAssert (gnttabEndForeignAccess s.table ref raced) fun (done, t) =>
        { s with table := t
                 outstanding := if done then s.outstanding.erase (ref, none) else s.outstanding }
    else none
  | .allocCache none _ => some s
  | .allocCache (some addr) minPopulation =>
    if addr ∉ s.caches.map (·.addr) then some (s.allocCache env addr minPopulation) else none
  | .freeCache addr =>
    match s.caches.find? (·.addr = addr) with
    | some gc =>
      if ∀ o ∈ s.outstanding, o.2 ≠ some addr then
        some <| s.orAssert (emptyCache s.table gc) fun (t, _) =>
          { s with table := t, caches := s.caches.filter (·.addr ≠ addr)
                   grantCacheList := s.grantCacheList.erase addr }
      else none
    | none => none
  | .grantCache addr domid frame mode =>
    match s.caches.find? (·.addr = addr) with
    | some gc =>
      if frame < 4294967296 then
        some <| s.orAssert (gnttabGrantForeignAccessCache env s.table domid frame mode gc)
          fun (ref, t, gc) =>
            { s with table := t, caches := s.setCache gc
                     outstanding := hold ref (some addr) s.outstanding }
      else none
    | none => none
  | .endAccessCache addr ref raced =>
    match s.caches.find? (·.addr = addr) with
    | some gc =>
      if (ref, some addr) ∈ s.outstanding then
        some <| s.orAssert (gnttabEndForeignAccessCache s.table ref gc raced)
          fun (done, t, gc) =>
            { s with table := t, caches := s.setCache gc
                     outstanding := if done then s.outstanding.erase (ref, some addr)
                                    else s.outstanding }
      else none
    | none => none
  | .remote x flags =>
    some { s with table := s.table.setEntry (wrapGrantRef x 0) { s.table.entry x with flags } }

/-- The globals before `ExpandGrantTable` in `GnttabInit`. -/
def blank : Table where
  gnttabList _ := nullGrantRef
  freeCount := 0
  freeHead := nullGrantRef
  nrGrantFrames := 0
  grantTableFullyMapped := false
  entry _ := ⟨0, 0, 0⟩
  pfns _ := 0
  domids _ := domidInvalid
  readonlyFlags _ := 0
  lock := ⟨false, passiveLevel, false⟩
  asked := 0

/-- The state after `GnttabInit`. -/
def init (env : Nat → FrameAnswer) : State :=
  let s : State := ⟨blank, [], [], false, 0, [], false⟩
  s.orAssert (expandGrantTable env blank) fun t => { s with table := t }

def machine (env : Nat → FrameAnswer) : Machine State Act := ⟨init env, step env⟩

/-! ## What a step does -/

section Stepped
variable {env : Nat → FrameAnswer} {s s' : State} {a : Act}

theorem gnttabEndForeignAccessCache_eq (t : Table) (ref : GrantRef) (gc : GrantCache)
    (raced : List Nat) : gnttabEndForeignAccessCache t ref gc raced =
      (gnttabEndForeignAccessRef t ref raced).bind fun r =>
        if r.1 then (giveBackCache r.2 ref gc).map fun p => (true, p.1, p.2)
        else some (false, r.2, gc) := by
  unfold gnttabEndForeignAccessCache giveBackCache
  cases gnttabEndForeignAccessRef t ref raced with
  | none => rfl
  | some r =>
    obtain ⟨done, t⟩ := r
    cases done with
    | false => rfl
    | true =>
      simp only [Option.bind_eq_bind, Option.bind_some, if_true]
      cases putCacheEntry t { gc with nrOutstanding := gc.nrOutstanding - 1 } ref with
      | none => rfl
      | some p =>
        obtain ⟨t, gc⟩ := p
        simp only [Option.bind_some]
        split
        · cases trimCache t gc (max (gc.population - gnttabCacheThreshold) gc.minPopulation) <;> rfl
        · rfl

/-- What each call does when it returns, by what the functions under it returned. -/
inductive Stepped (env : Nat → FrameAnswer) (s : State) : Act → State → Prop
  | failed {a : Act} : Stepped env s a { s with assertFailed := true }
  | getGrantRef {ref : GrantRef} {t : Table} (h : getFreeEntry env s.table false = some (ref, t)) :
      Stepped env s .getGrantRef { s with table := t, outstanding := hold ref none s.outstanding }
  | grantRef {ref : GrantRef} {domid frame : Nat} {mode : GrantMode} {t : Table}
      (ho : ref ∈ s.outstanding.map (·.1))
      (h : gnttabGrantForeignAccessRef s.table domid frame mode ref = some t) :
      Stepped env s (.grantRef ref domid frame mode) { s with table := t }
  | noReference {domid frame : Nat} {mode : GrantMode} {t : Table}
      (h : getFreeEntry env s.table false = some (nullGrantRef, t)) :
      Stepped env s (.grant domid frame mode) { s with table := t }
  | grant {ref : GrantRef} {domid frame : Nat} {mode : GrantMode} {t t' : Table}
      (h1 : getFreeEntry env s.table false = some (ref, t)) (hne : ref ≠ nullGrantRef)
      (h2 : gnttabGrantForeignAccessRef t domid frame mode ref = some t') :
      Stepped env s (.grant domid frame mode)
        { s with table := t', outstanding := (ref, none) :: s.outstanding }
  | endAccess {ref : GrantRef} {raced : List Nat} {done : Bool} {t t' : Table}
      (ho : (ref, none) ∈ s.outstanding)
      (h1 : gnttabEndForeignAccessRef s.table ref raced = some (done, t))
      (h2 : if done then putFreeEntry t ref false = some t' else t' = t) :
      Stepped env s (.endAccess ref raced)
        { s with table := t'
                 outstanding := if done then s.outstanding.erase (ref, none) else s.outstanding }
  | noMemory {n : Nat} : Stepped env s (.allocCache none n) s
  | notFilled {addr n : Nat} {t : Table} (ha : addr ∉ s.caches.map (·.addr))
      (h : fillCache env s.table addr (drawId s.nextId).1 n = some (none, t)) :
      Stepped env s (.allocCache (some addr) n)
        { s with table := t, nextId := (drawId s.nextId).2, listBroken := true }
  | allocCache {addr n : Nat} {gc : GrantCache} {t : Table} (ha : addr ∉ s.caches.map (·.addr))
      (h : fillCache env s.table addr (drawId s.nextId).1 n = some (some gc, t)) :
      Stepped env s (.allocCache (some addr) n)
        { s with table := t, caches := s.caches ++ [gc], nextId := (drawId s.nextId).2
                 grantCacheList := s.grantCacheList ++ [addr] }
  | freeCache {addr : Nat} {gc gc' : GrantCache} {t : Table}
      (h : emptyCache s.table gc = some (t, gc')) :
      Stepped env s (.freeCache addr)
        { s with table := t, caches := s.caches.filter (·.addr ≠ addr)
                 grantCacheList := s.grantCacheList.erase addr }
  | cacheEmpty {addr domid frame : Nat} {mode : GrantMode} {gc gc' : GrantCache} {t : Table}
      (hf : s.caches.find? (·.addr = addr) = some gc)
      (h : getCacheEntryReplenish env s.table gc = some (nullGrantRef, t, gc')) :
      Stepped env s (.grantCache addr domid frame mode)
        { s with table := t, caches := s.setCache gc' }
  | grantCache {addr domid frame : Nat} {mode : GrantMode} {ref : GrantRef} {gc gc' : GrantCache}
      {t t' : Table} (hf : s.caches.find? (·.addr = addr) = some gc)
      (h1 : getCacheEntryReplenish env s.table gc = some (ref, t, gc')) (hne : ref ≠ nullGrantRef)
      (h2 : gnttabGrantForeignAccessRef t domid frame mode ref = some t') :
      Stepped env s (.grantCache addr domid frame mode)
        { s with table := t'
                 caches := s.setCache { gc' with nrOutstanding := gc'.nrOutstanding + 1 }
                 outstanding := (ref, some addr) :: s.outstanding }
  | endAccessCache {addr : Nat} {ref : GrantRef} {raced : List Nat} {done : Bool}
      {gc gc' : GrantCache} {t t' : Table} (hf : s.caches.find? (·.addr = addr) = some gc)
      (ho : (ref, some addr) ∈ s.outstanding)
      (h1 : gnttabEndForeignAccessRef s.table ref raced = some (done, t))
      (h2 : if done then giveBackCache t ref gc = some (t', gc') else t' = t ∧ gc' = gc) :
      Stepped env s (.endAccessCache addr ref raced)
        { s with table := t', caches := s.setCache gc'
                 outstanding := if done then s.outstanding.erase (ref, some addr)
                                else s.outstanding }
  | remote {x flags : Nat} : Stepped env s (.remote x flags)
      { s with table := s.table.setEntry (wrapGrantRef x 0) { s.table.entry x with flags } }

theorem stepped_orAssert {α : Type} {r : Option α} {f : α → State}
    (h : ∀ x, r = some x → Stepped env s a (f x)) : Stepped env s a (s.orAssert r f) := by
  cases r with
  | none => exact .failed
  | some x => exact h x rfl

theorem step_cases (hs : step env s a = some s') : Stepped env s a s' := by
  cases a with
  | getGrantRef =>
    obtain rfl := Option.some.inj hs
    exact stepped_orAssert fun _ hx => .getGrantRef hx
  | grantRef ref domid frame mode =>
    obtain ⟨hc, hs⟩ := Option.ite_none_right_eq_some.mp hs
    obtain rfl := Option.some.inj hs
    exact stepped_orAssert fun _ hx => .grantRef hc.1 hx
  | grant domid frame mode =>
    obtain ⟨-, hs⟩ := Option.ite_none_right_eq_some.mp hs
    obtain rfl := Option.some.inj hs
    refine stepped_orAssert fun x hx => ?_
    obtain ⟨⟨ref, t⟩, h1, hx⟩ := Option.bind_eq_some_iff.mp hx
    simp only at hx
    split at hx
    · next hnull =>
      cases hx
      rw [hnull] at h1 ⊢
      exact .noReference h1
    · next hne =>
      obtain ⟨t', h2, hx⟩ := Option.bind_eq_some_iff.mp hx
      cases hx
      simp only [hold, if_neg hne]
      exact .grant h1 hne h2
  | endAccess ref raced =>
    obtain ⟨ho, hs⟩ := Option.ite_none_right_eq_some.mp hs
    obtain rfl := Option.some.inj hs
    refine stepped_orAssert fun x hx => ?_
    obtain ⟨⟨done, t⟩, h1, hx⟩ := Option.bind_eq_some_iff.mp (xmAssert_bind hx)
    cases done with
    | false => cases hx; exact .endAccess ho h1 rfl
    | true =>
      obtain ⟨t', h2, hx⟩ := Option.bind_eq_some_iff.mp hx
      cases hx
      exact .endAccess ho h1 h2
  | allocCache addr minPopulation =>
    cases addr with
    | none => obtain rfl := Option.some.inj hs; exact .noMemory
    | some addr =>
      obtain ⟨ha, hs⟩ := Option.ite_none_right_eq_some.mp hs
      obtain rfl := Option.some.inj hs
      refine stepped_orAssert fun x hx => ?_
      obtain ⟨_ | gc, t⟩ := x
      · exact .notFilled ha hx
      · exact .allocCache ha hx
  | freeCache addr =>
    simp only [step] at hs
    split at hs
    · obtain ⟨-, hs⟩ := Option.ite_none_right_eq_some.mp hs
      obtain rfl := Option.some.inj hs
      exact stepped_orAssert fun _ hx => .freeCache hx
    · cases hs
  | grantCache addr domid frame mode =>
    simp only [step] at hs
    split at hs
    · next gc hf =>
      obtain ⟨-, hs⟩ := Option.ite_none_right_eq_some.mp hs
      obtain rfl := Option.some.inj hs
      refine stepped_orAssert fun x hx => ?_
      obtain ⟨⟨ref, t, gc'⟩, h1, hx⟩ := Option.bind_eq_some_iff.mp hx
      simp only at hx
      split at hx
      · next hnull =>
        cases hx
        rw [hnull] at h1 ⊢
        exact .cacheEmpty hf h1
      · next hne =>
        obtain ⟨t', h2, hx⟩ := Option.bind_eq_some_iff.mp hx
        cases hx
        simp only [hold, if_neg hne]
        exact .grantCache hf h1 hne h2
    · cases hs
  | endAccessCache addr ref raced =>
    simp only [step] at hs
    split at hs
    · next gc hf =>
      obtain ⟨ho, hs⟩ := Option.ite_none_right_eq_some.mp hs
      obtain rfl := Option.some.inj hs
      refine stepped_orAssert fun x hx => ?_
      rw [gnttabEndForeignAccessCache_eq] at hx
      obtain ⟨⟨done, t⟩, h1, hx⟩ := Option.bind_eq_some_iff.mp hx
      cases done with
      | false => cases hx; exact .endAccessCache hf ho h1 ⟨rfl, rfl⟩
      | true =>
        obtain ⟨_, h2, hx⟩ := Option.map_eq_some_iff.mp hx
        cases hx
        exact .endAccessCache hf ho h1 h2
    · cases hs
  | remote x flags => obtain rfl := Option.some.inj hs; exact .remote

end Stepped

/-! ## The invariant -/

/-- What the callers hold from a cache. -/
def heldFrom (c : Option Nat) (l : List (GrantRef × Option Nat)) : List (GrantRef × Option Nat) :=
  l.filter (·.2 = c)

/-- A reference a caller holds is unlinked and carries the id of the cache it is from. -/
structure Held (t : Table) (caches : List GrantCache) (o : GrantRef × Option Nat) : Prop where
  unlinked : t.gnttabList (xenGrantRef o.1) = nullGrantRef
  pool : o.2 = none → o.1 = wrapGrantRef (xenGrantRef o.1) 0
  cache : ∀ gc ∈ caches, o.2 = some gc.addr → o.1 = wrapGrantRef (xenGrantRef o.1) gc.id
  live : ∀ a, o.2 = some a → a ∈ caches.map (·.addr)

/-- The references in the caches and in the hands of callers. -/
def elsewhere (caches : List GrantCache) (chain : Nat → List Nat)
    (out : List (GrantRef × Option Nat)) : List Nat :=
  caches.flatMap (fun gc => chain gc.addr) ++ out.map (fun o => xenGrantRef o.1)

structure Accounts (t : Table) (caches : List GrantCache) (out : List (GrantRef × Option Nat))
    (free : List Nat) (chain : Nat → List Nat) : Prop where
  own : Own t free (elsewhere caches chain out)
  nodup : (caches.map (·.addr)).Nodup
  cached : ∀ gc ∈ caches, Cached t gc (chain gc.addr) ∧ 0 < gc.id ∧ gc.id < 4
  counted : ∀ gc ∈ caches, gc.nrOutstanding = (heldFrom (some gc.addr) out).length
  held : ∀ o ∈ out, Held t caches o

section Accounts
variable {t t' : Table} {caches pre post : List GrantCache} {gc gc' : GrantCache}
  {out out' : List (GrantRef × Option Nat)} {free free' l : List Nat} {chain : Nat → List Nat}

theorem Held.keep {o : GrantRef × Option Nat} (h : Held t caches o)
    (hk : t'.gnttabList (xenGrantRef o.1) = t.gnttabList (xenGrantRef o.1)) : Held t' caches o :=
  ⟨hk.trans h.unlinked, h.pool, h.cache, h.live⟩

theorem Accounts.pool (h : Accounts t caches out free chain)
    (ho : Own t' free' (elsewhere caches chain out')) (hk : Keeps (elsewhere caches chain []) t t')
    (hheld : ∀ o ∈ out', Held t' caches o)
    (hcount : ∀ gc ∈ caches,
      (heldFrom (some gc.addr) out').length = (heldFrom (some gc.addr) out).length) :
    Accounts t' caches out' free' chain where
  own := ho
  nodup := h.nodup
  cached gc hg := by
    refine ⟨(h.cached gc hg).1.keep fun y hy => hk y ?_, (h.cached gc hg).2⟩
    simpa [elsewhere] using ⟨gc, hg, hy⟩
  counted gc hg := by rw [hcount gc hg]; exact h.counted gc hg
  held := hheld

theorem elsewhere_sub (caches : List GrantCache) (chain : Nat → List Nat)
    (out : List (GrantRef × Option Nat)) :
    ∀ y ∈ elsewhere caches chain [], y ∈ elsewhere caches chain out := by
  intro y hy
  rw [elsewhere, List.map_nil, List.append_nil] at hy
  exact List.mem_append_left _ hy

theorem elsewhere_mem {o : GrantRef × Option Nat} (ho : o ∈ out) :
    xenGrantRef o.1 ∈ elsewhere caches chain out := by
  rw [elsewhere, List.mem_append, List.mem_map]
  exact .inr ⟨o, ho, rfl⟩

theorem Accounts.same (h : Accounts t caches out free chain) (hs : SameLists t t') :
    Accounts t' caches out free chain :=
  h.pool (h.own.congr hs) (fun _ _ => by rw [hs.gnttabList])
    (fun o ho => (h.held o ho).keep (by rw [hs.gnttabList])) fun _ _ => rfl

/-- A call that takes from the pool for itself and gives back. -/
theorem Accounts.moved (h : Accounts t caches out free chain)
    (ho : Own t' free' (elsewhere caches chain out)) (hk : Keeps (elsewhere caches chain out) t t') :
    Accounts t' caches out free' chain :=
  h.pool ho (hk.sub (elsewhere_sub _ _ _))
    (fun o hm => (h.held o hm).keep (hk _ (elsewhere_mem hm))) fun _ _ => rfl

/-- A caller holds what it took from the pool. -/
theorem Accounts.taken {ref : GrantRef} (h : Accounts t caches out free chain)
    (hk : Keeps (elsewhere caches chain out) t t') (ht : Taken (elsewhere caches chain out) t' ref) :
    ∃ free', Accounts t' caches (hold ref none out) free' chain := by
  rcases ht with ⟨rfl, ho⟩ | ⟨x, free', rfl, ho, hn⟩
  · exact ⟨[], by rw [hold, if_pos rfl]; exact h.moved ho hk⟩
  · have hsm := (ho.small (x := x) (by simp)).2
    rw [hold, if_neg (wrapGrantRef_ne_null hsm)]
    refine ⟨free', h.pool ?_ (hk.sub (elsewhere_sub _ _ _)) ?_ fun gc _ => by simp [heldFrom]⟩
    · apply ho.swap
      rw [elsewhere, elsewhere, List.map_cons, xenGrantRef_wrap hsm]
      exact List.perm_middle.symm
    · intro o hm
      rcases List.mem_cons.mp hm with rfl | hm
      · refine ⟨?_, ?_, ?_, ?_⟩ <;> simp [xenGrantRef_wrap hsm, hn]
      · exact (h.held o hm).keep (hk _ (elsewhere_mem hm))

theorem elsewhere_erase {o : GrantRef × Option Nat} (ho : o ∈ out) :
    (elsewhere caches chain out).Perm (xenGrantRef o.1 :: elsewhere caches chain (out.erase o)) := by
  have hp := (List.perm_cons_erase ho).map fun o => xenGrantRef o.1
  rw [List.map_cons] at hp
  rw [elsewhere, elsewhere]
  exact (List.Perm.append_left _ hp).trans List.perm_middle

theorem elsewhere_split : (elsewhere (pre ++ gc :: post) chain out).Perm
    (chain gc.addr ++ elsewhere (pre ++ post) chain out) := by
  simp only [elsewhere, List.flatMap_append, List.flatMap_cons, List.append_assoc]
  exact List.perm_append_comm_assoc _ _ _

theorem Accounts.split (h : Accounts t (pre ++ gc :: post) out free chain) :
    CacheOwn t gc free (chain gc.addr) (elsewhere (pre ++ post) chain out) :=
  have hg := h.cached gc (by simp)
  ⟨h.own.swap elsewhere_split, hg.1, hg.2⟩

theorem Accounts.addr_ne (h : Accounts t (pre ++ gc :: post) out free chain) {g : GrantCache}
    (hg : g ∈ pre ++ post) : g.addr ≠ gc.addr := by
  have hn := h.nodup
  rw [(List.perm_middle.map _).nodup_iff, List.map_cons, List.nodup_cons] at hn
  exact fun e => hn.1 (e ▸ List.mem_map_of_mem hg)

theorem elsewhere_update (h : ∀ g ∈ caches, g.addr ≠ gc.addr) :
    elsewhere caches (update chain gc.addr l) out = elsewhere caches chain out := by
  simp only [elsewhere]
  congr 1
  refine List.flatMap_congr fun g hg => ?_
  rw [update_of_ne (h g hg)]

theorem mem_middle {g : GrantCache} : g ∈ pre ++ gc :: post ↔ g = gc ∨ g ∈ pre ++ post := by
  rw [List.perm_middle.mem_iff, List.mem_cons]

/-- One cache moves references, between its chain `l`, the pool and its users. -/
theorem Accounts.join (h : Accounts t (pre ++ gc :: post) out free chain)
    (hc : CacheOwn t' gc' free' l (elsewhere (pre ++ post) chain out')) (ha : gc'.addr = gc.addr)
    (hk : Keeps (elsewhere (pre ++ post) chain []) t t')
    (hheld : ∀ o ∈ out', Held t' (pre ++ gc' :: post) o)
    (hcount : ∀ a, a ≠ gc.addr → (heldFrom (some a) out').length = (heldFrom (some a) out).length)
    (hown : gc'.nrOutstanding = (heldFrom (some gc.addr) out').length) :
    Accounts t' (pre ++ gc' :: post) out' free' (update chain gc.addr l) := by
  have hne := fun g (hg : g ∈ pre ++ post) => h.addr_ne hg
  constructor
  case own =>
    refine hc.own.swap (List.Perm.trans ?_ elsewhere_split.symm)
    rw [ha, elsewhere_update hne, update_self]
  case nodup => simpa [ha] using h.nodup
  case cached =>
    intro g hg
    rcases mem_middle.mp hg with rfl | hg
    · rw [ha, update_self]; exact ⟨hc.cached, hc.id⟩
    · have hm : g ∈ pre ++ gc :: post := mem_middle.mpr (.inr hg)
      rw [update_of_ne (hne g hg)]
      refine ⟨(h.cached g hm).1.keep fun y hy => hk y ?_, (h.cached g hm).2⟩
      rw [elsewhere, List.map_nil, List.append_nil, List.mem_flatMap]
      exact ⟨g, hg, hy⟩
  case counted =>
    intro g hg
    rcases mem_middle.mp hg with rfl | hg
    · rw [ha]; exact hown
    · rw [hcount g.addr (hne g hg)]
      exact h.counted g (mem_middle.mpr (.inr hg))
  case held => exact hheld

theorem heldFrom_erase {o : GrantRef × Option Nat} (ho : o ∈ out) (c : Option Nat) :
    (heldFrom c out).length = (heldFrom c (out.erase o)).length + if o.2 = c then 1 else 0 := by
  have hp := ((List.perm_cons_erase ho).filter (·.2 = c)).length_eq
  rw [List.filter_cons] at hp
  simp only [heldFrom]
  split at hp
  · next h => rw [if_pos (by simpa using h)]; simpa using hp
  · next h => rw [if_neg (by simpa using h)]; simpa using hp

theorem Held.replace {o : GrantRef × Option Nat} (h : Held t (pre ++ gc :: post) o)
    (ha : gc'.addr = gc.addr) (hi : gc'.id = gc.id)
    (hk : t'.gnttabList (xenGrantRef o.1) = t.gnttabList (xenGrantRef o.1)) :
    Held t' (pre ++ gc' :: post) o := by
  refine ⟨hk.trans h.unlinked, h.pool, fun g hg => ?_, fun a e => ?_⟩
  · rcases mem_middle.mp hg with rfl | hg
    · rw [ha, hi]; exact h.cache gc (by simp)
    · exact h.cache g (mem_middle.mpr (.inr hg))
  · simpa [ha] using h.live a e

/-- A cache changes without its users. -/
theorem Accounts.replace (h : Accounts t (pre ++ gc :: post) out free chain)
    (hc : CacheOwn t' gc' free' l (elsewhere (pre ++ post) chain out)) (hs : SameCache gc gc')
    (hk : Keeps (elsewhere (pre ++ post) chain out) t t') :
    Accounts t' (pre ++ gc' :: post) out free' (update chain gc.addr l) := by
  refine h.join hc hs.addr (hk.sub (elsewhere_sub _ _ _)) ?_ (fun _ _ => rfl) ?_
  · exact fun o ho => (h.held o ho).replace hs.addr hs.id (hk _ (elsewhere_mem ho))
  · rw [hs.nrOutstanding]; exact h.counted gc (by simp)

/-- A caller holds what it took from a cache. -/
theorem Accounts.cacheTaken {ref : GrantRef} (h : Accounts t (pre ++ gc :: post) out free chain)
    (hs : SameCache gc gc') (hk : Keeps (elsewhere (pre ++ post) chain out) t t')
    (ht : CacheTaken (elsewhere (pre ++ post) chain out) t' gc' ref) :
    (ref = nullGrantRef → ∃ free' chain', Accounts t' (pre ++ gc' :: post) out free' chain') ∧
    (ref ≠ nullGrantRef → ∃ free' chain',
      Accounts t' (pre ++ { gc' with nrOutstanding := gc'.nrOutstanding + 1 } :: post)
        ((ref, some gc.addr) :: out) free' chain') := by
  rcases ht with ⟨rfl, free', l, ho⟩ | ⟨x, free', l, rfl, ho, hn⟩
  · exact ⟨fun _ => ⟨free', _, h.replace ho hs hk⟩, fun hne => absurd rfl hne⟩
  · have hsm := (ho.own.small (x := x) (by simp)).2
    refine ⟨fun e => absurd e (wrapGrantRef_ne_null hsm), fun _ => ?_⟩
    have hperm : (elsewhere (pre ++ post) chain ((wrapGrantRef x gc'.id, some gc.addr) :: out)).Perm
        (x :: elsewhere (pre ++ post) chain out) := by
      rw [elsewhere, elsewhere, List.map_cons, xenGrantRef_wrap hsm]
      exact List.perm_middle
    refine ⟨free', update chain gc.addr l, h.join ?_ hs.addr (hk.sub (elsewhere_sub _ _ _))
      ?_ ?_ ?_⟩
    · exact ⟨ho.own.swap (List.Perm.append_left _ hperm.symm), ⟨ho.cached.1, ho.cached.2⟩, ho.id⟩
    · intro o hm
      rcases List.mem_cons.mp hm with rfl | hm
      · refine ⟨by simp [xenGrantRef_wrap hsm, hn], by simp, fun g hg e => ?_, by simp [hs.addr]⟩
        -- of the caches only this one has the address
        rcases mem_middle.mp hg with rfl | hg
        · rw [xenGrantRef_wrap hsm]
        · exact absurd (by simpa using e.symm) (h.addr_ne hg)
      · exact (h.held o hm).replace hs.addr hs.id (hk _ (elsewhere_mem hm))
    · intro a ha
      simp [heldFrom, ha.symm]
    · simp [heldFrom, hs.nrOutstanding, h.counted gc (by simp)]

/-- A caller gives a reference back to the pool. -/
theorem Accounts.putFree {ref : GrantRef} (h : Accounts t caches out free chain)
    (ho : (ref, none) ∈ out) (locked : Bool) : ∃ t' free', putFreeEntry t ref locked = some t' ∧
      Accounts t' caches (out.erase (ref, none)) free' chain := by
  have hheld := h.held _ ho
  have hown := h.own.swap (elsewhere_erase ho)
  obtain ⟨t', h1, ho', hk⟩ := putFreeEntry_spec hown hheld.unlinked locked
  rw [← hheld.pool rfl] at h1
  refine ⟨t', _, h1, h.pool ho' (hk.sub (elsewhere_sub _ _ _)) ?_ ?_⟩
  · intro o hm
    exact (h.held o (List.mem_of_mem_erase hm)).keep (hk _ (elsewhere_mem hm))
  · intro gc _
    simp [heldFrom_erase ho (some gc.addr)]

/-- A caller gives a reference back to its cache. -/
theorem Accounts.putCache {ref : GrantRef} (h : Accounts t (pre ++ gc :: post) out free chain)
    (ho : (ref, some gc.addr) ∈ out) :
    ∃ t' gc' free' chain', putCacheEntry t { gc with nrOutstanding := gc.nrOutstanding - 1 } ref =
        some (t', gc') ∧ gc'.addr = gc.addr ∧
      Accounts t' (pre ++ gc' :: post) (out.erase (ref, some gc.addr)) free' chain' := by
  have hheld := h.held _ ho
  have hc := h.split
  have hown : Own t free (xenGrantRef ref :: (chain gc.addr ++
      elsewhere (pre ++ post) chain (out.erase (ref, some gc.addr)))) :=
    hc.own.swap ((List.Perm.append_left _ (elsewhere_erase ho)).trans List.perm_middle)
  have href := hheld.cache gc (by simp) rfl
  obtain ⟨t', h1, ho', hk⟩ := putCacheEntry_spec
    { gc with nrOutstanding := gc.nrOutstanding - 1 } hown
    ⟨hc.cached.1, hc.cached.2⟩ hc.id hheld.unlinked
  simp only at href h1
  rw [← href] at h1
  refine ⟨t', _, free, update chain gc.addr (xenGrantRef ref :: chain gc.addr), h1, rfl, ?_⟩
  refine h.join (by simpa only [← href] using ho') rfl (hk.sub (elsewhere_sub _ _ _)) ?_ ?_ ?_
  · intro o hm
    exact (h.held o (List.mem_of_mem_erase hm)).replace rfl rfl (hk _ (elsewhere_mem hm))
  · intro a ha
    simp [heldFrom_erase ho (some a), ha.symm]
  · rw [h.counted gc (by simp), heldFrom_erase ho (some gc.addr), if_pos rfl, Nat.add_sub_cancel]

/-- A new cache at a fresh address. -/
theorem Accounts.add (h : Accounts t caches out free chain)
    (hc : CacheOwn t' gc free' l (elsewhere caches chain out)) (h0 : gc.nrOutstanding = 0)
    (hnew : gc.addr ∉ caches.map (·.addr)) (hk : Keeps (elsewhere caches chain out) t t') :
    Accounts t' (caches ++ [gc]) out free' (update chain gc.addr l) := by
  have hne : ∀ g ∈ caches, g.addr ≠ gc.addr := fun g hg e => hnew (e ▸ List.mem_map_of_mem hg)
  have hmem : ∀ g ∈ caches ++ [gc], g ∈ caches ∨ g = gc := by simp
  constructor
  case own =>
    refine hc.own.swap (List.Perm.trans ?_ elsewhere_split.symm)
    rw [List.append_nil, elsewhere_update hne, update_self]
  case nodup =>
    rw [List.map_append, List.nodup_append]
    refine ⟨h.nodup, by simp, ?_⟩
    rintro a ha b hb rfl
    obtain rfl : a = gc.addr := by simpa using hb
    exact hnew ha
  case cached =>
    intro g hg
    rcases hmem g hg with hg | rfl
    · rw [update_of_ne (hne g hg)]
      refine ⟨(h.cached g hg).1.keep fun y hy => hk y (elsewhere_sub _ _ _ _ ?_), (h.cached g hg).2⟩
      rw [elsewhere, List.map_nil, List.append_nil, List.mem_flatMap]
      exact ⟨g, hg, hy⟩
    · rw [update_self]; exact ⟨hc.cached, hc.id⟩
  case counted =>
    intro g hg
    rcases hmem g hg with hg | rfl
    · exact h.counted g hg
    · rw [h0, eq_comm, List.length_eq_zero_iff, heldFrom, List.filter_eq_nil_iff]
      exact fun o ho e => hnew ((h.held o ho).live _ (by simpa using e))
  case held =>
    intro o ho
    have hh := (h.held o ho).keep (hk _ (elsewhere_mem ho))
    refine ⟨hh.unlinked, hh.pool, fun g hg e => ?_, fun a e => ?_⟩
    · rcases hmem g hg with hg | rfl
      · exact hh.cache g hg e
      · exact absurd (hh.live _ e) hnew
    · rw [List.map_append]; exact List.mem_append_left _ (hh.live a e)

/-- A cache without users goes, its references being in the pool. -/
theorem Accounts.remove (h : Accounts t (pre ++ gc :: post) out free chain)
    (ho : Own t' free' (elsewhere (pre ++ post) chain out))
    (hnone : ∀ o ∈ out, o.2 ≠ some gc.addr)
    (hk : Keeps (elsewhere (pre ++ post) chain out) t t') :
    Accounts t' (pre ++ post) out free' chain := by
  have hmem : ∀ g ∈ pre ++ post, g ∈ pre ++ gc :: post := fun g hg => mem_middle.mpr (.inr hg)
  constructor
  case own => exact ho
  case nodup =>
    have hn := h.nodup
    rw [(List.perm_middle.map _).nodup_iff, List.map_cons, List.nodup_cons] at hn
    exact hn.2
  case cached =>
    intro g hg
    refine ⟨(h.cached g (hmem g hg)).1.keep fun y hy => hk y (elsewhere_sub _ _ _ _ ?_),
      (h.cached g (hmem g hg)).2⟩
    rw [elsewhere, List.map_nil, List.append_nil, List.mem_flatMap]
    exact ⟨g, hg, hy⟩
  case counted => exact fun g hg => h.counted g (hmem g hg)
  case held =>
    intro o hm
    have hh := (h.held o hm).keep (hk _ (elsewhere_mem hm))
    refine ⟨hh.unlinked, hh.pool, fun g hg => hh.cache g (hmem g hg), fun a e => ?_⟩
    have ha := hh.live a e
    rw [(List.perm_middle.map _).mem_iff, List.map_cons, List.mem_cons] at ha
    exact ha.resolve_left fun e' => hnone o hm (e' ▸ e)

end Accounts

/-! ## The calls -/

/-- No assertion has failed, and the accounts are in order. -/
def Conserved (s : State) : Prop :=
  s.assertFailed = false ∧ ∃ free chain, Accounts s.table s.caches s.outstanding free chain

section Calls
variable {env : Nat → FrameAnswer} {s s' : State} {gc : GrantCache}

/-- The table with the references below `n` of the first frame on the pool, the last one first. -/
def firstFrame (n : Nat) : Table :=
  { blank with
    gnttabList := fun x =>
      if nrReservedEntries < x ∧ x < n then wrapGrantRef (x - 1) 0 else nullGrantRef
    freeCount := n - nrReservedEntries
    freeHead := if nrReservedEntries < n then wrapGrantRef (n - 1) 0 else nullGrantRef
    nrGrantFrames := 1
    entry := fun x => if nrReservedEntries ≤ x ∧ x < n then ⟨0, domidInvalid, x⟩ else ⟨0, 0, 0⟩
    asked := 1 }

/-- A reserved reference changes nothing. -/
theorem firstFrame_reserved {n : Nat} (h : n < nrReservedEntries) :
    firstFrame (n + 1) = firstFrame n := by
  have h1 : ∀ x, (nrReservedEntries < x ∧ x < n + 1) ↔ (nrReservedEntries < x ∧ x < n) := by omega
  have h2 : ∀ x, (nrReservedEntries ≤ x ∧ x < n + 1) ↔ (nrReservedEntries ≤ x ∧ x < n) := by omega
  simp only [firstFrame, h1, h2, if_neg (show ¬ nrReservedEntries < n + 1 by omega),
    if_neg (show ¬ nrReservedEntries < n by omega), Nat.sub_eq_zero_of_le (Nat.le_of_lt h),
    Nat.sub_eq_zero_of_le (show n + 1 ≤ nrReservedEntries from h)]

theorem firstFrame_put {n : Nat} (h : nrReservedEntries ≤ n) (hn : n < grantEntriesPerPage) :
    putFreeEntry ((firstFrame n).setEntry (wrapGrantRef n 0) ⟨0, domidInvalid, n⟩)
      (wrapGrantRef n 0) true = some (firstFrame (n + 1)) := by
  have hlt : n < 16384 := Nat.lt_trans hn (by decide)
  have hx : xenGrantRef (wrapGrantRef n 0) = n := xenGrantRef_wrap hlt
  have hv : ((firstFrame n).setEntry (wrapGrantRef n 0) ⟨0, domidInvalid, n⟩).Valid
      (wrapGrantRef n 0) := by
    refine ⟨wrapGrantRef_ne_null hlt, ?_⟩
    rw [hx]
    exact hn
  have hnext : ((firstFrame n).setEntry (wrapGrantRef n 0) ⟨0, domidInvalid, n⟩).next
      (wrapGrantRef n 0) = nullGrantRef := by
    simp only [Table.next, hx]
    exact if_neg (by omega)
  have hlist : update (firstFrame n).gnttabList n (firstFrame n).freeHead =
      (firstFrame (n + 1)).gnttabList := by
    funext x
    by_cases e : x = n
    · subst e
      have hiff : (nrReservedEntries < x ∧ x < x + 1) ↔ nrReservedEntries < x := by omega
      rw [update_self]
      simp only [firstFrame, hiff]
    · rw [update_of_ne e]
      have hiff : (nrReservedEntries < x ∧ x < n + 1) ↔ (nrReservedEntries < x ∧ x < n) := by omega
      simp only [firstFrame, hiff]
  have hentry : update (firstFrame n).entry n ⟨0, domidInvalid, n⟩ =
      (firstFrame (n + 1)).entry := by
    funext x
    by_cases e : x = n
    · subst e
      rw [update_self]
      exact (if_pos ⟨h, Nat.lt_succ_self x⟩).symm
    · rw [update_of_ne e]
      have hiff : (nrReservedEntries ≤ x ∧ x < n + 1) ↔ (nrReservedEntries ≤ x ∧ x < n) := by omega
      simp only [firstFrame, hiff]
  have hcount : (firstFrame n).freeCount + 1 = (firstFrame (n + 1)).freeCount := by
    simp only [firstFrame]
    omega
  have hhead : wrapGrantRef n 0 = (firstFrame (n + 1)).freeHead :=
    (if_pos (Nat.lt_succ_of_le h)).symm
  simp only [putFreeEntry, Table.lockUnless, Table.unlockUnless, if_true, xmAssert, if_pos hv,
    if_pos hnext, Option.bind_eq_bind, Option.bind_some, Table.setNext, hx]
  simp only [Table.setEntry, hx, hlist, hentry, hcount]
  rw [hhead]
  rfl

theorem hookUp_firstFrame {n k : Nat} (h : n + k = grantEntriesPerPage) :
    hookUp (List.range' n k) (firstFrame n) = some (firstFrame grantEntriesPerPage) := by
  induction k generalizing n with
  | zero => rw [← h]; rfl
  | succ k ih =>
    rw [List.range'_succ, hookUp]
    have hn : n < grantEntriesPerPage := by omega
    simp only [xenGrantRef_wrap (Nat.lt_trans hn (by decide))]
    have hih := ih (show n + 1 + k = grantEntriesPerPage by omega)
    split
    · next hr => rwa [firstFrame_reserved hr] at hih
    · next hr =>
      rw [firstFrame_put (Nat.le_of_not_lt hr) hn]
      exact hih

theorem init_mapped (h : env 0 = .mapped) :
    init env = ⟨firstFrame grantEntriesPerPage, [], [], false, 0, [], false⟩ := by
  have hexp : expandGrantTable env blank = some (firstFrame grantEntriesPerPage) := by
    have hask : env blank.asked = .mapped := h
    unfold expandGrantTable
    rw [if_neg (by decide)]
    simp only [hask]
    have hb : ({ blank with asked := blank.asked + 1, nrGrantFrames := blank.nrGrantFrames + 1 } :
        Table) = firstFrame 0 := by
      simp [firstFrame, blank]
    rw [hb]
    exact hookUp_firstFrame (Nat.zero_add _)
  simp only [init, hexp]
  rfl

/-- One frame can be mapped, and no more. -/
abbrev oneFrame : Nat → FrameAnswer := fun n => if n = 0 then .mapped else .rejected

theorem init_oneFrame : init oneFrame =
    ⟨firstFrame grantEntriesPerPage, [], [], false, 0, [], false⟩ :=
  init_mapped rfl

theorem own_blank : Own blank [] [] where
  chain := rfl
  count := rfl
  frames := by simp [blank]
  perm := by simp [blank]
  fresh _ _ := rfl

theorem conserved_init : Conserved (init env) := by
  obtain ⟨t, free, h1, ho, -⟩ := expandGrantTable_spec env own_blank
  simp only [init, h1, State.orAssert]
  refine ⟨rfl, free, fun _ => [], ho, by simp, by simp, by simp, by simp⟩

theorem Conserved.getGrantRef (h : Conserved s) (hs : step env s .getGrantRef = some s') :
    Conserved s' := by
  obtain ⟨hf, free, chain, h⟩ := h
  obtain ⟨ref, t, h1, hk, ht⟩ := getFreeEntry_spec env h.own false
  simp only [step, gnttabGetGrantRef, h1, State.orAssert, Option.some.injEq] at hs
  subst hs
  obtain ⟨free', h⟩ := h.taken hk ht
  exact ⟨hf, free', chain, h⟩

theorem Conserved.grantRef {ref : GrantRef} {domid frame : Nat} {mode : GrantMode}
    (h : Conserved s) (hs : step env s (.grantRef ref domid frame mode) = some s') :
    Conserved s' := by
  obtain ⟨hf, free, chain, h⟩ := h
  obtain ⟨hc, hs⟩ := Option.ite_none_right_eq_some.mp hs
  obtain ⟨t, h1, hsame⟩ := gnttabGrantForeignAccessRef_spec s.table domid mode ref hc.2
  simp only [h1, State.orAssert, Option.some.injEq] at hs
  subst hs
  exact ⟨hf, free, chain, h.same hsame⟩

theorem Conserved.grant {domid frame : Nat} {mode : GrantMode} (h : Conserved s)
    (hs : step env s (.grant domid frame mode) = some s') : Conserved s' := by
  obtain ⟨hf, free, chain, h⟩ := h
  obtain ⟨hframe, hs⟩ := Option.ite_none_right_eq_some.mp hs
  obtain ⟨ref, t, h1, hk, ht⟩ := getFreeEntry_spec env h.own false
  obtain ⟨free', h⟩ := h.taken hk ht
  simp only [gnttabGrantForeignAccess, h1, Option.bind_eq_bind, Option.bind_some] at hs
  split at hs
  · simp only [State.orAssert, Option.some.injEq] at hs
    subst hs
    exact ⟨hf, free', chain, h⟩
  · obtain ⟨t2, h2, hsame⟩ := gnttabGrantForeignAccessRef_spec t domid mode ref hframe
    simp only [h2, Option.bind_some, State.orAssert, Option.some.injEq] at hs
    subst hs
    exact ⟨hf, free', chain, h.same hsame⟩

theorem Accounts.valid {t : Table} {caches : List GrantCache}
    {out : List (GrantRef × Option Nat)} {free : List Nat} {chain : Nat → List Nat}
    {o : GrantRef × Option Nat} {c : Nat} (h : Accounts t caches out free chain) (ho : o ∈ out)
    (hc : o.1 = wrapGrantRef (xenGrantRef o.1) c) : t.Valid o.1 := by
  rw [hc]
  exact h.own.valid (List.mem_append_right _ (elsewhere_mem ho)) c

theorem Conserved.endAccess {ref : GrantRef} {raced : List Nat} (h : Conserved s)
    (hs : step env s (.endAccess ref raced) = some s') : Conserved s' := by
  obtain ⟨hf, free, chain, h⟩ := h
  obtain ⟨ho, hs⟩ := Option.ite_none_right_eq_some.mp hs
  have href := (h.held _ ho).pool rfl
  have hsm := (h.own.small (List.mem_append_right _ (elsewhere_mem ho))).2
  have hcache : grantRefCache ref = 0 := by
    simp only at href hsm
    rw [href, grantRefCache_wrap hsm]
  obtain ⟨done, t, h1, hsame⟩ := gnttabEndForeignAccessRef_spec (h.valid ho href) raced
  simp only [gnttabEndForeignAccess, xmAssert_pos hcache, h1, Option.bind_eq_bind,
    Option.bind_some] at hs
  have h := h.same hsame
  cases done
  · simp only [State.orAssert, Option.some.injEq, Bool.false_eq_true, if_false] at hs
    subst hs
    exact ⟨hf, free, chain, h⟩
  · obtain ⟨t2, free2, h2, h⟩ := h.putFree ho false
    simp only [h2, Option.bind_some, State.orAssert, Option.some.injEq, if_true] at hs
    subst hs
    exact ⟨hf, free2, chain, h⟩

theorem Conserved.remote {x flags : Nat} (h : Conserved s)
    (hs : step env s (.remote x flags) = some s') : Conserved s' := by
  obtain ⟨hf, free, chain, h⟩ := h
  simp only [step, Option.some.injEq] at hs
  subst hs
  exact ⟨hf, free, chain, h.same ⟨rfl, rfl, rfl, rfl⟩⟩

theorem Conserved.allocCache {addr : Option Nat} {minPopulation : Nat} (h : Conserved s)
    (hs : step env s (.allocCache addr minPopulation) = some s') : Conserved s' := by
  cases addr with
  | none => cases hs; exact h
  | some addr =>
    obtain ⟨hf, free, chain, h⟩ := h
    obtain ⟨hnew, hs⟩ := Option.ite_none_right_eq_some.mp hs
    obtain ⟨gc?, t, free', h1, hk, ht⟩ := fillCache_spec env h.own addr minPopulation
      (drawId_lt s.nextId)
    simp only [State.allocCache, h1, State.orAssert, Option.some.injEq] at hs
    subst hs
    cases gc? with
    | none => exact ⟨hf, free', chain, h.moved ht hk⟩
    | some gc =>
      obtain ⟨rfl, h0, l, hc⟩ := ht
      exact ⟨hf, free', _, h.add hc h0 hnew hk⟩

theorem Conserved.freeCache {addr : Nat} (h : Conserved s)
    (hs : step env s (.freeCache addr) = some s') : Conserved s' := by
  obtain ⟨hf, free, chain, h⟩ := h
  simp only [step] at hs
  split at hs
  · next gc hfind =>
    obtain ⟨rfl, pre, post, hsplit⟩ := split_of_find? GrantCache.addr hfind
    split at hs
    · next hnone =>
      rw [hsplit] at h
      have h0 : gc.nrOutstanding = 0 := by
        rw [h.counted gc (by simp), List.length_eq_zero_iff, heldFrom, List.filter_eq_nil_iff]
        exact fun o ho e => hnone o ho (by simpa using e)
      obtain ⟨t, gc', free', h1, ho, hk⟩ := emptyCache_spec h.split h0
      simp only [h1, State.orAssert, Option.some.injEq] at hs
      subst hs
      refine ⟨hf, free', chain, ?_⟩
      simp only [hsplit, filter_key_split h.nodup]
      exact h.remove ho hnone hk
    · cases hs
  · cases hs

theorem setCache_split (gc' : GrantCache) {pre post : List GrantCache}
    (hsplit : s.caches = pre ++ gc :: post) (hn : ((pre ++ gc :: post).map (·.addr)).Nodup)
    (ha : gc'.addr = gc.addr) : s.setCache gc' = pre ++ gc' :: post := by
  rw [State.setCache, hsplit]
  exact putKey_split hn ha

theorem Conserved.grantCache {addr domid frame : Nat} {mode : GrantMode} (h : Conserved s)
    (hs : step env s (.grantCache addr domid frame mode) = some s') : Conserved s' := by
  obtain ⟨hf, free, chain, h⟩ := h
  simp only [step] at hs
  split at hs
  · next gc hfind =>
    obtain ⟨rfl, pre, post, hsplit⟩ := split_of_find? GrantCache.addr hfind
    split at hs
    · next hframe =>
      rw [hsplit] at h
      obtain ⟨ref, t, gc', h1, hsame, hk, ht⟩ := getCacheEntryReplenish_spec env h.split
      obtain ⟨hnull, hsome⟩ := h.cacheTaken hsame hk ht
      simp only [gnttabGrantForeignAccessCache, h1, Option.bind_eq_bind, Option.bind_some] at hs
      split at hs
      · next he =>
        obtain ⟨free', chain', h'⟩ := hnull he
        simp only [State.orAssert, Option.some.injEq, hold, if_pos he] at hs
        subst hs
        refine ⟨hf, free', chain', ?_⟩
        simp only [setCache_split _ hsplit h.nodup hsame.addr]
        exact h'
      · next he =>
        obtain ⟨free', chain', h'⟩ := hsome he
        obtain ⟨t2, h2, hl⟩ := gnttabGrantForeignAccessRef_spec t domid mode ref hframe
        simp only [h2, Option.bind_some, State.orAssert, Option.some.injEq, hold, if_neg he] at hs
        subst hs
        refine ⟨hf, free', chain', ?_⟩
        simp only [setCache_split { gc' with nrOutstanding := gc'.nrOutstanding + 1 }
          hsplit h.nodup hsame.addr]
        exact h'.same hl
    · cases hs
  · cases hs

/-- A caller gives a reference back to its cache, which is trimmed when it has grown. -/
theorem Accounts.giveBackCache {t : Table} {pre post : List GrantCache} {ref : GrantRef}
    {out : List (GrantRef × Option Nat)} {free : List Nat} {chain : Nat → List Nat}
    (h : Accounts t (pre ++ gc :: post) out free chain) (ho : (ref, some gc.addr) ∈ out) :
    ∃ t' gc' free' chain', Gnttab.giveBackCache t ref gc = some (t', gc') ∧ gc'.addr = gc.addr ∧
      Accounts t' (pre ++ gc' :: post) (out.erase (ref, some gc.addr)) free' chain' := by
  obtain ⟨t2, gc2, free2, chain2, h2, ha2, h'⟩ := h.putCache ho
  simp only [Gnttab.giveBackCache, h2, Option.bind_eq_bind, Option.bind_some]
  split
  · next htrim =>
    -- the target lies below the population, so the cache can be trimmed to it
    have hpop := h'.split.cached.count
    obtain ⟨t3, gc3, free3, l3, h3, hc3, -, hs3, hk3⟩ := trimCache_spec h'.split
      (max (gc2.population - gnttabCacheThreshold) gc2.minPopulation) (by omega)
    exact ⟨t3, gc3, free3, update chain2 gc2.addr l3, h3, hs3.addr.trans ha2,
      h'.replace hc3 hs3 hk3⟩
  · exact ⟨t2, gc2, free2, chain2, rfl, ha2, h'⟩

theorem Conserved.endAccessCache {addr : Nat} {ref : GrantRef} {raced : List Nat}
    (h : Conserved s) (hs : step env s (.endAccessCache addr ref raced) = some s') :
    Conserved s' := by
  obtain ⟨hf, free, chain, h⟩ := h
  simp only [step] at hs
  split at hs
  · next gc hfind =>
    obtain ⟨rfl, pre, post, hsplit⟩ := split_of_find? GrantCache.addr hfind
    split at hs
    · next ho =>
      rw [hsplit] at h
      have href := (h.held _ ho).cache gc (by simp) rfl
      obtain ⟨done, t, h1, hsame⟩ := gnttabEndForeignAccessRef_spec (h.valid ho href) raced
      have h := h.same hsame
      rw [gnttabEndForeignAccessCache_eq, h1, Option.bind_some] at hs
      cases done
      · simp only [State.orAssert, Option.some.injEq, Bool.false_eq_true, if_false] at hs
        subst hs
        refine ⟨hf, free, chain, ?_⟩
        simp only [setCache_split _ hsplit h.nodup rfl]
        exact h
      · obtain ⟨t2, gc2, free2, chain2, h2, ha2, h'⟩ := h.giveBackCache ho
        simp only [h2, Option.map_some, State.orAssert, Option.some.injEq, if_true] at hs
        subst hs
        refine ⟨hf, free2, chain2, ?_⟩
        simp only [setCache_split _ hsplit h.nodup ha2]
        exact h'
    · cases hs
  · cases hs

theorem Conserved.step {a : Act} (h : Conserved s) (hs : step env s a = some s') :
    Conserved s' := by
  cases a with
  | getGrantRef => exact h.getGrantRef hs
  | grantRef ref domid frame mode => exact h.grantRef hs
  | grant domid frame mode => exact h.grant hs
  | endAccess ref raced => exact h.endAccess hs
  | allocCache addr minPopulation => exact h.allocCache hs
  | freeCache addr => exact h.freeCache hs
  | grantCache addr domid frame mode => exact h.grantCache hs
  | endAccessCache addr ref raced => exact h.endAccessCache hs
  | remote x flags => exact h.remote hs

theorem conserved_of_reach (h : (machine env).Reach Machine.Any s) : Conserved s :=
  h.inv conserved_init fun _ _ _ hi _ hs => hi.step hs

/-- After any calls: the pool and the caches are chains as long as their counters say, every usable
reference of the mapped frames is in the pool, in one of the caches or in a caller's hands, and in
one of these only, and no assertion has failed. -/
theorem grant_references_conserved (h : (machine env).Reach Machine.Any s) :
    s.assertFailed = false ∧ ∃ (free : List Nat) (chain : Nat → List Nat),
      Chain s.table.gnttabList 0 s.table.freeHead free ∧ s.table.freeCount = free.length ∧
      (∀ gc ∈ s.caches, Chain s.table.gnttabList gc.id gc.headFree (chain gc.addr) ∧
        gc.population = (chain gc.addr).length ∧
        gc.nrOutstanding = (heldFrom (some gc.addr) s.outstanding).length) ∧
      (∀ x, nrReservedEntries ≤ x → x < grantEntriesPerPage * s.table.nrGrantFrames →
        (free ++ elsewhere s.caches chain s.outstanding).count x = 1) ∧
      ∀ x ∈ free ++ elsewhere s.caches chain s.outstanding,
        nrReservedEntries ≤ x ∧ x < grantEntriesPerPage * s.table.nrGrantFrames := by
  obtain ⟨hf, free, chain, h⟩ := conserved_of_reach h
  refine ⟨hf, free, chain, h.own.chain, h.own.count, fun gc hg => ?_, fun x h1 h2 => ?_, ?_⟩
  · exact ⟨(h.cached gc hg).1.chain, (h.cached gc hg).1.count, h.counted gc hg⟩
  · refine List.count_eq_one_of_mem h.own.nodup (h.own.perm.mem_iff.mpr ?_)
    rw [List.mem_range'_1]
    omega
  · intro x hx
    have := h.own.perm.mem_iff.mp hx
    rw [List.mem_range'_1] at this
    omega

/-- One frame, a cache of two references, a grant from it and one from the pool. -/
theorem grant_references_conserved_run :
    ∃ s, (machine fun n => if n = 0 then .mapped else .rejected).Reach Machine.Any s ∧
      (s.outstanding.length = 2 ∧ s.caches.length = 1 ∧ s.table.freeCount = 501) ∧
      s.assertFailed = false ∧ ∃ (free : List Nat) (chain : Nat → List Nat),
        Chain s.table.gnttabList 0 s.table.freeHead free ∧ s.table.freeCount = free.length ∧
        (∀ gc ∈ s.caches, Chain s.table.gnttabList gc.id gc.headFree (chain gc.addr) ∧
          gc.population = (chain gc.addr).length ∧
          gc.nrOutstanding = (heldFrom (some gc.addr) s.outstanding).length) ∧
        (∀ x, nrReservedEntries ≤ x → x < grantEntriesPerPage * s.table.nrGrantFrames →
          (free ++ elsewhere s.caches chain s.outstanding).count x = 1) ∧
        ∀ x ∈ free ++ elsewhere s.caches chain s.outstanding,
          nrReservedEntries ≤ x ∧ x < grantEntriesPerPage * s.table.nrGrantFrames := by
  obtain ⟨s, hr, hp⟩ := Machine.exists_reach
    (machine fun n => if n = 0 then .mapped else .rejected) Machine.Any
    (fun s => s.outstanding.length = 2 ∧ s.caches.length = 1 ∧ s.table.freeCount = 501)
    [.allocCache (some 100) 2, .grantCache 100 0 7 .rw, .grant 0 9 .ro]
    (by simp only [machine, init_oneFrame]; decide +kernel)
  exact ⟨s, hr, by simpa using hp, grant_references_conserved hr⟩

end Calls

end XcWindows.Gnttab
