import XcWindows.Gnttab.Run

/-!
# Revoking a grant while it may be in use

`GnttabEndForeignAccess` and `GnttabEndForeignAccessCache` step by step, on `n` threads, while the
remote domains store to the flags of the entries and the other calls of `gnttab.c` go on. Each load,
each store and the compare-and-swap is a step; the reference goes back to the pool under the lock,
and to a cache by the one CPU that uses it.

`live` remembers of an entry that it was granted and has not been cleared since at a moment at which
neither `GTF_reading` nor `GTF_writing` was set.
-/

namespace XcWindows.Gnttab

open XcWindows.Lib
open Function (update update_of_ne update_self)

inductive RevokePc where
  /-- `nflags = GRANT_ENTRY(ref).flags` -/
  | read
  /-- `flags & (GTF_reading | GTF_writing)` -/
  | test (flags : Nat)
  | swap (flags : Nat)
  | domid
  | frame
  | pfns
  | domids
  /-- `put_free_entry`, or the end of `GnttabEndForeignAccessCache` -/
  | put
  /-- it returns `STATUS_DEVICE_BUSY` -/
  | busy
  | success
deriving DecidableEq

/-- A call of `GnttabEndForeignAccess` or, with a cache, of `GnttabEndForeignAccessCache`. -/
structure Revocation where
  ref : GrantRef
  cache : Option Nat
  pc : RevokePc
  /-- the call has stored to an entry, a list or a counter -/
  stored : Bool
deriving DecidableEq

structure Domain (n : Nat) where
  base : State
  /-- what the threads revoke -/
  calls : Fin n → Option Revocation
  live : Nat → Bool

inductive DomainAct (n : Nat) where
  /-- another call, or a store of the remote domain to the flags of an entry -/
  | other (a : Act)
  /-- a thread begins to revoke a reference -/
  | revoke (i : Fin n) (ref : GrantRef) (cache : Option Nat)
  | run (i : Fin n)

/-- The remote domain uses the page. -/
def inUse (flags : Nat) : Bool := flags &&& (gtfReading ||| gtfWriting) ≠ 0

/-- The references a call has granted. -/
def granted (s : State) (a : Act) (s' : State) : List Nat :=
  match a with
  | .grantRef ref _ _ _ => [xenGrantRef ref]
  | .grant _ _ _ | .grantCache _ _ _ _ =>
    (s'.outstanding.take (s'.outstanding.length - s.outstanding.length)).map (xenGrantRef ·.1)
  | .getGrantRef | .endAccess _ _ | .allocCache _ _ | .freeCache _ | .endAccessCache _ _ _
  | .remote _ _ => []

def State.setTable (s : State) (t : Table) : State := { s with table := t }

/-- The reference goes back to where it came from. -/
def State.putBack (s : State) (ref : GrantRef) (cache : Option Nat) : State :=
  match cache with
  | none =>
    s.orAssert (putFreeEntry s.table ref false) fun t =>
      { s with table := t, outstanding := s.outstanding.erase (ref, none) }
  | some addr =>
    match s.caches.find? (·.addr = addr) with
    | none => s
    | some gc =>
      s.orAssert (giveBackCache s.table ref gc) fun (t, gc) =>
        { s with table := t, caches := s.setCache gc
                 outstanding := s.outstanding.erase (ref, some addr) }

namespace Domain

variable {n : Nat} (s : Domain n)

/-- No thread revokes the reference. -/
def free (ref : GrantRef) : Bool :=
  decide (∀ i, (s.calls i).all (fun c => c.pc = .success || c.ref ≠ ref) = true)

def goto (i : Fin n) (c : Revocation) : Domain n :=
  { s with calls := update s.calls i (some c) }

/-- A store of the call of thread `i`. -/
def store (i : Fin n) (c : Revocation) (pc : RevokePc) (b : State) : Domain n :=
  { s with base := b, calls := update s.calls i (some { c with pc, stored := true }) }

/-- The assertions of the two functions on their argument. -/
def assertRef (c : Revocation) : Option Unit := do
  xmAssert (c.cache = none → grantRefCache c.ref = 0)
  xmAssert (s.base.table.Valid c.ref)

/-- A step of a call. -/
def runCall (i : Fin n) (c : Revocation) : Domain n :=
  let t := s.base.table
  let xgr := xenGrantRef c.ref
  match c.pc with
  | .read =>
    match s.assertRef c with
    | none => { s with base := { s.base with assertFailed := true } }
    | some () => s.goto i { c with pc := .test (t.entry xgr).flags }
  | .test flags => s.goto i { c with pc := if inUse flags then .busy else .swap flags }
  -- InterlockedCompareExchange16
  | .swap flags =>
    if (t.entry xgr).flags = flags then
      { s.store i c .domid (s.base.setTable (t.setEntry c.ref { t.entry xgr with flags := 0 })) with
        live := update s.live xgr (inUse (t.entry xgr).flags) }
    else s.goto i { c with pc := .test (t.entry xgr).flags }
  | .domid =>
    s.store i c .frame
      (s.base.setTable (t.setEntry c.ref { t.entry xgr with domid := domidInvalid }))
  | .frame =>
    s.store i c .pfns (s.base.setTable (t.setEntry c.ref { t.entry xgr with frame := xgr }))
  | .pfns =>
    s.store i c .domids (s.base.setTable { t with pfns := update t.pfns xgr 0 })
  | .domids =>
    s.store i c .put
      (s.base.setTable { t with domids := update t.domids xgr domidInvalid })
  | .put => s.store i c .success (s.base.putBack c.ref c.cache)
  | .busy | .success => { s with calls := update s.calls i none }

/-- A caller does not grant a reference that is being revoked, nor revoke it twice. -/
def allows : Act → Bool
  | .endAccess _ _ | .endAccessCache _ _ _ => false
  | .grantRef ref _ _ _ => s.free ref
  | .getGrantRef | .grant _ _ _ | .allocCache _ _ | .freeCache _ | .grantCache _ _ _ _
  | .remote _ _ => true

def step (env : Nat → FrameAnswer) : DomainAct n → Option (Domain n)
  | .other a =>
    if s.allows a then
      (Gnttab.step env s.base a).map fun b =>
        { s with base := b, live := fun x => decide (x ∈ granted s.base a b) || s.live x }
    else none
  | .revoke i ref cache =>
    if s.calls i = none ∧ (ref, cache) ∈ s.base.outstanding ∧ s.free ref = true then
      some (s.goto i ⟨ref, cache, .read, false⟩)
    else none
  | .run i => (s.calls i).map (s.runCall i)

end Domain

def domainMachine (env : Nat → FrameAnswer) (n : Nat) : Machine (Domain n) (DomainAct n) where
  init := ⟨init env, fun _ => none, fun _ => false⟩
  step s := s.step env

/-! ## What callers hold -/

section Outstanding
variable {env : Nat → FrameAnswer} {s b : State} {a : Act} {ref : GrantRef} {cache : Option Nat}

/-- The references in callers' hands, as indices of the table. -/
def State.handed (s : State) : List Nat := s.outstanding.map (xenGrantRef ·.1)

theorem Conserved.distinct (h : Conserved s) : s.handed.Nodup := by
  obtain ⟨-, free, chain, h⟩ := h
  exact (List.nodup_append.mp (List.nodup_append.mp h.own.nodup).2.1).2.1

theorem Conserved.eq_of_index (h : Conserved s) {o o' : GrantRef × Option Nat}
    (ho : o ∈ s.outstanding) (ho' : o' ∈ s.outstanding)
    (he : xenGrantRef o.1 = xenGrantRef o'.1) : o = o' :=
  List.inj_on_of_nodup_map h.distinct ho ho' he

theorem hold_append (ref : GrantRef) (cache : Option Nat) (l : List (GrantRef × Option Nat)) :
    ∃ l', hold ref cache l = l' ++ l := by
  unfold hold
  split
  · exact ⟨[], rfl⟩
  · exact ⟨[(ref, cache)], rfl⟩

theorem step_outstanding (hend : ∀ ref raced, a ≠ .endAccess ref raced)
    (hend' : ∀ addr ref raced, a ≠ .endAccessCache addr ref raced) (hs : step env s a = some b) :
    ∃ l, b.outstanding = l ++ s.outstanding := by
  cases step_cases hs with
  | failed | grantRef _ _ | noReference _ | noMemory | notFilled _ _ | allocCache _ _ | freeCache _
  | cacheEmpty _ _ | remote => exact ⟨[], rfl⟩
  | getGrantRef _ => exact hold_append _ _ _
  | grant _ _ _ | grantCache _ _ _ _ => exact ⟨[_], rfl⟩
  | endAccess _ _ _ => exact absurd rfl (hend _ _)
  | endAccessCache _ _ _ _ => exact absurd rfl (hend' _ _ _)

/-- The reference that a call is made with. -/
def Act.ref? : Act → Option Nat
  | .grantRef ref _ _ _ | .endAccess ref _ | .endAccessCache _ ref _ => some (xenGrantRef ref)
  | .getGrantRef | .grant _ _ _ | .allocCache _ _ | .freeCache _ | .grantCache _ _ _ _
  | .remote _ _ => none

theorem granted_new {x : Nat} (hb : Conserved b) (hs : step env s a = some b)
    (hx : x ∈ granted s a b) : x ∈ b.handed ∧ (x ∈ s.handed → a.ref? = some x) := by
  have htake : (∃ l, b.outstanding = l ++ s.outstanding) →
      x ∈ (b.outstanding.take (b.outstanding.length - s.outstanding.length)).map (xenGrantRef ·.1) →
      x ∈ b.handed ∧ (x ∈ s.handed → a.ref? = some x) := by
    rintro ⟨l, hl⟩ hm
    have hd := hb.distinct
    rw [State.handed, hl, List.map_append] at hd ⊢
    rw [hl, List.length_append, Nat.add_sub_cancel, List.take_left] at hm
    exact ⟨List.mem_append_left _ hm, fun hh => absurd hh (List.disjoint_of_nodup_append hd hm)⟩
  cases a with
  | grantRef ref domid frame mode =>
    obtain ⟨hc, hs⟩ := Option.ite_none_right_eq_some.mp hs
    obtain rfl := Option.some.inj hs
    obtain ⟨o, ho, rfl⟩ := List.mem_map.mp hc.1
    rw [granted, List.mem_singleton] at hx
    refine ⟨?_, fun _ => congrArg some hx.symm⟩
    rw [hx]
    refine List.mem_map.mpr ⟨o, ?_, rfl⟩
    cases gnttabGrantForeignAccessRef s.table domid frame mode o.1 <;> exact ho
  | grant domid frame mode => exact htake (step_outstanding (by simp) (by simp) hs) hx
  | grantCache addr domid frame mode => exact htake (step_outstanding (by simp) (by simp) hs) hx
  | getGrantRef | endAccess ref raced | allocCache addr minPopulation | freeCache addr
  | endAccessCache addr ref raced | remote y flags => exact absurd hx List.not_mem_nil

theorem Conserved.setTable {t : Table} (h : Conserved s) (hs : SameLists s.table t) :
    Conserved (s.setTable t) := by
  obtain ⟨hf, free, chain, h⟩ := h
  exact ⟨hf, free, chain, h.same hs⟩

theorem Conserved.putBack (h : Conserved s) (ho : (ref, cache) ∈ s.outstanding) :
    Conserved (s.putBack ref cache) ∧
      (s.putBack ref cache).outstanding = s.outstanding.erase (ref, cache) := by
  obtain ⟨hf, free, chain, h⟩ := h
  cases cache with
  | none =>
    obtain ⟨t, free', h1, h'⟩ := h.putFree ho false
    simp only [State.putBack, h1, State.orAssert]
    exact ⟨⟨hf, free', chain, h'⟩, trivial⟩
  | some addr =>
    have hmem := (h.held _ ho).live addr rfl
    cases hfind : s.caches.find? (·.addr = addr) with
    | none =>
      obtain ⟨gc, hg, rfl⟩ := List.mem_map.mp hmem
      exact absurd (List.find?_eq_none.mp hfind gc hg) (by simp)
    | some gc =>
      obtain ⟨rfl, pre, post, hsplit⟩ := split_of_find? GrantCache.addr hfind
      rw [hsplit] at h
      obtain ⟨t, gc', free', chain', h1, ha, h'⟩ := h.giveBackCache ho
      simp only [State.putBack, hfind, h1, State.orAssert]
      refine ⟨⟨hf, free', chain', ?_⟩, trivial⟩
      simp only [setCache_split _ hsplit h.nodup ha]
      exact h'

theorem Conserved.assertRef {n : Nat} {s : Domain n} {c : Revocation} (h : Conserved s.base)
    (ho : (c.ref, c.cache) ∈ s.base.outstanding) : s.assertRef c = some () := by
  obtain ⟨-, free, chain, h⟩ := h
  have hheld := h.held _ ho
  have hsm := (h.own.small (List.mem_append_right _ (elsewhere_mem ho))).2
  have hid : ∃ id, c.ref = wrapGrantRef (xenGrantRef c.ref) id ∧ (c.cache = none → id = 0) := by
    cases hc : c.cache with
    | none => exact ⟨0, hheld.pool hc, fun _ => rfl⟩
    | some addr =>
      obtain ⟨gc, hg, ha⟩ := List.mem_map.mp (hheld.live addr hc)
      exact ⟨gc.id, hheld.cache gc hg (by rw [ha]; exact hc), fun e => nomatch e⟩
  obtain ⟨id, href, h0⟩ := hid
  have hcache : c.cache = none → grantRefCache c.ref = 0 := by
    intro e
    rw [href, grantRefCache_wrap hsm, h0 e]
  simp only [Domain.assertRef, xmAssert_pos hcache, xmAssert_pos (h.valid ho href),
    Option.bind_eq_bind, Option.bind_some]

end Outstanding

/-! ## The invariant -/

/-- The swap has taken place. -/
def RevokePc.swapped : RevokePc → Bool
  | .read | .test _ | .swap _ | .busy => false
  | .domid | .frame | .pfns | .domids | .put | .success => true

/-- What is known of a call. -/
structure Revoking (b : State) (live : Nat → Bool) (c : Revocation) : Prop where
  held : c.pc ≠ .success → (c.ref, c.cache) ∈ b.outstanding
  /-- the swap is for flags without `GTF_reading` and `GTF_writing` -/
  tested : ∀ flags, c.pc = .swap flags → inUse flags = false
  cleared : c.pc.swapped = true → c.pc ≠ .success → live (xenGrantRef c.ref) = false
  stored : c.stored = c.pc.swapped

structure Revoked {n : Nat} (s : Domain n) : Prop where
  conserved : Conserved s.base
  /-- A granted entry that was not cleared belongs to a caller. -/
  live : ∀ x, s.live x = true → x ∈ s.base.handed
  calls : ∀ i c, s.calls i = some c → Revoking s.base s.live c
  once : ∀ i j c d, s.calls i = some c → s.calls j = some d → c.pc ≠ .success → d.pc ≠ .success →
    c.ref = d.ref → i = j

section Revoked
variable {n : Nat} {env : Nat → FrameAnswer} {s s' : Domain n} {i : Fin n} {c c' : Revocation}
  {b : State} {live : Nat → Bool}

theorem revoked_init : Revoked (domainMachine env n).init where
  conserved := conserved_init
  live _ hx := nomatch hx
  calls _ _ hi := nomatch hi
  once _ _ _ _ hi := nomatch hi

theorem calls_update {calls : Fin n → Option Revocation} {v : Option Revocation} {j : Fin n}
    {d : Revocation} (h : update calls i v j = some d) :
    (j = i ∧ v = some d) ∨ (j ≠ i ∧ calls j = some d) := by
  by_cases e : j = i
  · rw [e, update_self] at h
    exact .inl ⟨e, h⟩
  · rw [update_of_ne e] at h
    exact .inr ⟨e, h⟩

theorem Revoked.move (h : Revoked s) (hb : Conserved b)
    (hlive : ∀ x, live x = true → x ∈ b.handed) (hc : Revoking b live c')
    (hothers : ∀ j d, j ≠ i → s.calls j = some d → Revoking b live d)
    (hfree : ∀ j d, j ≠ i → s.calls j = some d → d.pc ≠ .success → d.ref ≠ c'.ref) :
    Revoked ⟨b, update s.calls i (some c'), live⟩ where
  conserved := hb
  live := hlive
  calls j d hj := by
    obtain ⟨-, hj⟩ | ⟨e, hj⟩ := calls_update hj
    · exact Option.some.inj hj ▸ hc
    · exact hothers j d e hj
  once j k d d' hj hk hd hd' he := by
    obtain ⟨ej, hj⟩ | ⟨ej, hj⟩ := calls_update hj <;> obtain ⟨ek, hk⟩ | ⟨ek, hk⟩ := calls_update hk
    · rw [ej, ek]
    · exact absurd (Option.some.inj hj ▸ he.symm) (hfree k d' ek hk hd')
    · exact absurd (Option.some.inj hk ▸ he) (hfree j d ej hj hd)
    · exact h.once j k d d' hj hk hd hd' he

theorem Revoked.ref_ne (h : Revoked s) (hi : s.calls i = some c) (hpc : c.pc ≠ .success)
    {j : Fin n} {d : Revocation} (hj : j ≠ i) (hd : s.calls j = some d) (hdpc : d.pc ≠ .success) :
    d.ref ≠ c.ref :=
  fun e => hj (h.once j i d c hd hi hdpc hpc e)

theorem Revoked.goto (h : Revoked s) (hi : s.calls i = some c) (hpc : c.pc ≠ .success)
    {pc : RevokePc} (hc : Revoking s.base s.live { c with pc }) :
    Revoked (s.goto i { c with pc }) :=
  h.move h.conserved h.live hc (fun j d _ hd => h.calls j d hd)
    fun _ _ hj hd hdpc => h.ref_ne hi hpc hj hd hdpc

theorem Revoked.store (h : Revoked s) (hi : s.calls i = some c) (hsw : c.pc.swapped = true)
    (hpc : c.pc ≠ .success) {pc : RevokePc} (hsw' : pc.swapped = true)
    {t : Table} (ht : SameLists s.base.table t) :
    Revoked (s.store i c pc (s.base.setTable t)) := by
  have hc := h.calls i c hi
  refine h.move (h.conserved.setTable ht) h.live ?_ (fun j d _ hd => ?_)
    fun _ _ hj hd hdpc => h.ref_ne hi hpc hj hd hdpc
  · refine ⟨fun _ => hc.held hpc, fun flags e => ?_, fun _ _ => hc.cleared hsw hpc, hsw'.symm⟩
    simp only at e
    rw [e] at hsw'
    cases hsw'
  · obtain ⟨hheld, htested, hcleared, hstored⟩ := h.calls j d hd
    exact ⟨hheld, htested, hcleared, hstored⟩

theorem Revoked.swap (h : Revoked s) (hi : s.calls i = some c) {flags : Nat}
    (hpc : c.pc = .swap flags) (hflags : (s.base.table.entry (xenGrantRef c.ref)).flags = flags)
    {t : Table} (ht : SameLists s.base.table t) :
    Revoked { s.store i c .domid (s.base.setTable t) with
      live := update s.live (xenGrantRef c.ref)
        (inUse (s.base.table.entry (xenGrantRef c.ref)).flags) } := by
  have hc := h.calls i c hi
  have hne : c.pc ≠ .success := by simp [hpc]
  have hidle : inUse (s.base.table.entry (xenGrantRef c.ref)).flags = false := by
    rw [hflags]; exact hc.tested flags hpc
  rw [hidle]
  refine h.move (h.conserved.setTable ht) (fun x hx => ?_) ?_ (fun j d hj hd => ?_)
    fun _ _ hj hd hdpc => h.ref_ne hi hne hj hd hdpc
  · by_cases e : x = xenGrantRef c.ref
    · rw [e, update_self] at hx
      cases hx
    · rw [update_of_ne e] at hx
      exact h.live x hx
  · exact ⟨fun _ => hc.held hne, (fun _ e => nomatch e), fun _ _ => update_self .., rfl⟩
  · obtain ⟨hheld, htested, hcleared, hstored⟩ := h.calls j d hd
    refine ⟨hheld, htested, fun hsw hd' => ?_, hstored⟩
    by_cases e : xenGrantRef d.ref = xenGrantRef c.ref
    · rw [e, update_self]
    · rw [update_of_ne e]
      exact hcleared hsw hd'

theorem Revoked.put (h : Revoked s) (hi : s.calls i = some c) (hpc : c.pc = .put) :
    Revoked (s.store i c .success (s.base.putBack c.ref c.cache)) := by
  have hc := h.calls i c hi
  have hne : c.pc ≠ .success := by simp [hpc]
  have hdead := hc.cleared (by rw [hpc]; rfl) hne
  have ho := hc.held hne
  obtain ⟨hb, hout⟩ := h.conserved.putBack ho
  have hkeep : ∀ o ∈ s.base.outstanding, o ≠ (c.ref, c.cache) →
      o ∈ (s.base.putBack c.ref c.cache).outstanding := by
    intro o hm hx
    rw [hout]
    exact (List.mem_erase_of_ne hx).mpr hm
  refine h.move hb (fun x hx => ?_) ?_ (fun j d hj hd => ?_)
    fun _ _ hj hd hdpc => h.ref_ne hi hne hj hd hdpc
  · obtain ⟨o, hm, rfl⟩ := List.mem_map.mp (h.live x hx)
    refine List.mem_map.mpr ⟨o, hkeep o hm fun e => ?_, rfl⟩
    rw [e, hdead] at hx
    cases hx
  · exact ⟨fun e => absurd rfl e, (fun _ e => nomatch e), fun _ e => absurd rfl e, rfl⟩
  · obtain ⟨hheld, htested, hcleared, hstored⟩ := h.calls j d hd
    refine ⟨fun hdpc => hkeep _ (hheld hdpc) fun e => ?_, htested, hcleared, hstored⟩
    exact h.ref_ne hi hne hj hd hdpc (congrArg Prod.fst e)

theorem Revoked.return (h : Revoked s) :
    Revoked { s with calls := update s.calls i none } where
  conserved := h.conserved
  live := h.live
  calls j d hj := by
    obtain ⟨-, hj⟩ | ⟨-, hj⟩ := calls_update hj
    · cases hj
    · exact h.calls j d hj
  once j k d d' hj hk := by
    obtain ⟨-, hj⟩ | ⟨-, hj⟩ := calls_update hj
    · cases hj
    · obtain ⟨-, hk⟩ | ⟨-, hk⟩ := calls_update hk
      · cases hk
      · exact h.once j k d d' hj hk

theorem Revoked.runCall (h : Revoked s) (hi : s.calls i = some c) : Revoked (s.runCall i c) := by
  have hc := h.calls i c hi
  have hstored := hc.stored
  unfold Domain.runCall
  simp only
  split
  · next hpc =>
    have hne : c.pc ≠ .success := by simp [hpc]
    rw [h.conserved.assertRef (hc.held hne)]
    rw [hpc] at hstored
    exact h.goto hi hne ⟨fun _ => hc.held hne, (fun _ e => nomatch e), (fun e => nomatch e), hstored⟩
  · next flags hpc =>
    have hne : c.pc ≠ .success := by simp [hpc]
    rw [hpc] at hstored
    apply h.goto hi hne
    split
    · exact ⟨fun _ => hc.held hne, (fun _ e => nomatch e), (fun e => nomatch e), hstored⟩
    · next hidle =>
      refine ⟨fun _ => hc.held hne, fun flags' e => ?_, (fun e => nomatch e), hstored⟩
      cases e
      simpa using hidle
  · next flags hpc =>
    have hne : c.pc ≠ .success := by simp [hpc]
    split
    · next hflags => exact h.swap hi hpc hflags ⟨rfl, rfl, rfl, rfl⟩
    · rw [hpc] at hstored
      exact h.goto hi hne ⟨fun _ => hc.held hne, (fun _ e => nomatch e), (fun e => nomatch e), hstored⟩
  · next hpc =>
    exact h.store hi (by rw [hpc]; rfl) (by simp [hpc]) rfl ⟨rfl, rfl, rfl, rfl⟩
  · next hpc =>
    exact h.store hi (by rw [hpc]; rfl) (by simp [hpc]) rfl ⟨rfl, rfl, rfl, rfl⟩
  · next hpc =>
    exact h.store hi (by rw [hpc]; rfl) (by simp [hpc]) rfl ⟨rfl, rfl, rfl, rfl⟩
  · next hpc =>
    exact h.store hi (by rw [hpc]; rfl) (by simp [hpc]) rfl ⟨rfl, rfl, rfl, rfl⟩
  · next hpc => exact h.put hi hpc
  · exact h.return
  · exact h.return

theorem Domain.free_iff {ref : GrantRef} : s.free ref = true ↔
    ∀ i c, s.calls i = some c → c.pc ≠ .success → c.ref ≠ ref := by
  rw [Domain.free, decide_eq_true_iff]
  refine forall_congr' fun i => ?_
  cases s.calls i with
  | none => simp
  | some c => simp [or_iff_not_imp_left]

theorem Revoked.revoke (h : Revoked s) {ref : GrantRef} {cache : Option Nat}
    (ho : (ref, cache) ∈ s.base.outstanding) (hfree : s.free ref = true) :
    Revoked (s.goto i ⟨ref, cache, .read, false⟩) :=
  h.move h.conserved h.live ⟨fun _ => ho, (fun _ e => nomatch e), (fun e => nomatch e), rfl⟩
    (fun j d _ hd => h.calls j d hd) fun j d _ hd hdpc => Domain.free_iff.mp hfree j d hd hdpc

theorem Revoked.granted (h : Revoked s) {a : Act} (ha : s.allows a = true)
    (hb : Conserved b) (hs : Gnttab.step env s.base a = some b) : ∀ x ∈ granted s.base a b,
    x ∈ b.handed ∧ ∀ i c, s.calls i = some c → c.pc ≠ .success → xenGrantRef c.ref ≠ x := by
  intro x hx
  obtain ⟨hm, hnew⟩ := granted_new hb hs hx
  refine ⟨hm, fun i c hi hpc e => ?_⟩
  have hc := (h.calls i c hi).held hpc
  have hr := hnew (List.mem_map.mpr ⟨_, hc, e⟩)
  cases a with
  | grantRef ref domid frame mode =>
    obtain ⟨hg, hs⟩ := Option.ite_none_right_eq_some.mp hs
    obtain ⟨o, ho, rfl⟩ := List.mem_map.mp hg.1
    have he := h.conserved.eq_of_index hc ho (e.trans (Option.some.inj hr).symm)
    exact Domain.free_iff.mp ha i c hi hpc (congrArg Prod.fst he)
  | endAccess ref raced | endAccessCache addr ref raced => exact absurd ha Bool.false_ne_true
  | grant domid frame mode | grantCache addr domid frame mode | getGrantRef
  | allocCache addr minPopulation | freeCache addr | remote x flags => cases hr

theorem Revoked.other (h : Revoked s) {a : Act} (ha : s.allows a = true)
    (hs : Gnttab.step env s.base a = some b) :
    Revoked { s with
      base := b
      live := fun x => decide (x ∈ Gnttab.granted s.base a b) || s.live x } := by
  have hb := h.conserved.step hs
  obtain ⟨l, hl⟩ : ∃ l, b.outstanding = l ++ s.base.outstanding := by
    refine step_outstanding (fun ref raced e => ?_) (fun addr ref raced e => ?_) hs
    · rw [e] at ha; cases ha
    · rw [e] at ha; cases ha
  have hg := h.granted ha hb hs
  constructor
  case conserved => exact hb
  case live =>
    intro x hx
    rcases Bool.or_eq_true_iff.mp hx with hx | hx
    · exact (hg x (of_decide_eq_true hx)).1
    · obtain ⟨o, hm, rfl⟩ := List.mem_map.mp (h.live x hx)
      rw [State.handed, hl]
      exact List.mem_map.mpr ⟨o, List.mem_append_right _ hm, rfl⟩
  case calls =>
    intro i c hi
    obtain ⟨hheld, htested, hcleared, hstored⟩ := h.calls i c hi
    refine ⟨fun hpc => ?_, htested, fun hsw hpc => ?_, hstored⟩
    · rw [hl]
      exact List.mem_append_right _ (hheld hpc)
    · simp only [hcleared hsw hpc, Bool.or_false, decide_eq_false_iff_not]
      exact fun hx => (hg _ hx).2 i c hi hpc rfl
  case once => exact h.once

theorem Revoked.step {a : DomainAct n} (h : Revoked s) (hs : s.step env a = some s') :
    Revoked s' := by
  cases a with
  | other a =>
    obtain ⟨ha, hs⟩ := Option.ite_none_right_eq_some.mp hs
    obtain ⟨b, hb, rfl⟩ := Option.map_eq_some_iff.mp hs
    exact h.other ha hb
  | revoke i ref cache =>
    obtain ⟨hr, hs⟩ := Option.ite_none_right_eq_some.mp hs
    obtain rfl := Option.some.inj hs
    exact h.revoke hr.2.1 hr.2.2
  | run i =>
    obtain ⟨c, hi, rfl⟩ := Option.map_eq_some_iff.mp hs
    exact h.runCall hi

theorem revoked_of_reach (h : (domainMachine env n).Reach Machine.Any s) : Revoked s :=
  h.inv revoked_init fun _ _ _ hi _ hs => hi.step hs

/-! ## The two promises -/

theorem Revoked.runCall_cases (h : Revoked s) (hi : s.calls i = some c) :
    (∃ pc, s.runCall i c = s.goto i { c with pc := pc }) ∨
    (∃ pc b, s.runCall i c = s.store i c pc b) ∨
    (∃ b, (b.table.entry (xenGrantRef c.ref)).flags = 0 ∧
      s.runCall i c = { s.store i c .domid b with
        live := update s.live (xenGrantRef c.ref)
          (inUse (s.base.table.entry (xenGrantRef c.ref)).flags) }) ∨
    s.runCall i c = { s with calls := update s.calls i none } := by
  unfold Domain.runCall
  simp only
  split
  · next hpc =>
    rw [h.conserved.assertRef ((h.calls i c hi).held (by simp [hpc]))]
    exact .inl ⟨_, rfl⟩
  · exact .inl ⟨_, rfl⟩
  · split
    · refine .inr (.inr (.inl ⟨_, ?_, rfl⟩))
      simp only [State.setTable, Table.setEntry, update_self]
    · exact .inl ⟨_, rfl⟩
  · exact .inr (.inl ⟨_, _, rfl⟩)
  · exact .inr (.inl ⟨_, _, rfl⟩)
  · exact .inr (.inl ⟨_, _, rfl⟩)
  · exact .inr (.inl ⟨_, _, rfl⟩)
  · exact .inr (.inl ⟨_, _, rfl⟩)
  · exact .inr (.inr (.inr rfl))
  · exact .inr (.inr (.inr rfl))

theorem Revoked.live_cleared (h : Revoked s) {a : DomainAct n} {x : Nat}
    (hs : s.step env a = some s') (hx : s.live x = true) (hx' : s'.live x = false) :
    inUse (s.base.table.entry x).flags = false ∧ (s'.base.table.entry x).flags = 0 := by
  have hkeep : s'.live x ≠ s.live x := by simp [hx, hx']
  cases a with
  | other a =>
    obtain ⟨-, hs⟩ := Option.ite_none_right_eq_some.mp hs
    obtain ⟨b, -, rfl⟩ := Option.map_eq_some_iff.mp hs
    simp [hx] at hx'
  | revoke i ref cache =>
    obtain ⟨-, hs⟩ := Option.ite_none_right_eq_some.mp hs
    obtain rfl := Option.some.inj hs
    exact absurd rfl hkeep
  | run i =>
    obtain ⟨c, hi, rfl⟩ := Option.map_eq_some_iff.mp hs
    obtain ⟨pc, e⟩ | ⟨pc, b, e⟩ | ⟨b, hb, e⟩ | e := h.runCall_cases hi <;> rw [e] at hkeep hx' ⊢
    · exact absurd rfl hkeep
    · exact absurd rfl hkeep
    · simp only at hkeep hx'
      by_cases hc : x = xenGrantRef c.ref
      · rw [hc, update_self] at hx'
        rw [hc]
        exact ⟨hx', hb⟩
      · rw [update_of_ne hc] at hkeep
        exact absurd rfl hkeep
    · exact absurd rfl hkeep

theorem Revoked.run_base (h : Revoked s) (hs : s.step env (.run i) = some s') :
    s'.base = s.base ∨ ∃ c, s'.calls i = some c ∧ c.stored = true := by
  obtain ⟨c, hi, rfl⟩ := Option.map_eq_some_iff.mp hs
  obtain ⟨pc, e⟩ | ⟨pc, b, e⟩ | ⟨b, hb, e⟩ | e := h.runCall_cases hi <;> rw [e]
  · exact .inl rfl
  · exact .inr ⟨_, update_self .., rfl⟩
  · exact .inr ⟨_, update_self .., rfl⟩
  · exact .inl rfl

theorem Revoked.stored_kept (h : Revoked s) {a : DomainAct n} (hs : s.step env a = some s')
    (hi : s.calls i = some c) (hc : c.stored = true) (hi' : s'.calls i = some c') :
    c'.stored = true := by
  have hsame : s'.calls i = s.calls i → c'.stored = true := by
    intro e
    rw [e, hi] at hi'
    exact Option.some.inj hi' ▸ hc
  cases a with
  | other a =>
    obtain ⟨-, hs⟩ := Option.ite_none_right_eq_some.mp hs
    obtain ⟨b, -, rfl⟩ := Option.map_eq_some_iff.mp hs
    exact hsame rfl
  | revoke j ref cache =>
    obtain ⟨hr, hs⟩ := Option.ite_none_right_eq_some.mp hs
    obtain rfl := Option.some.inj hs
    refine hsame (update_of_ne (fun e => ?_) _ _)
    rw [e, hr.1] at hi
    cases hi
  | run j =>
    obtain ⟨d, hj, rfl⟩ := Option.map_eq_some_iff.mp hs
    have hd : j = i → d.stored = true := by
      intro e
      rw [e, hi] at hj
      exact Option.some.inj hj ▸ hc
    obtain ⟨pc, e⟩ | ⟨pc, b, e⟩ | ⟨b, hb, e⟩ | e := h.runCall_cases hj <;> rw [e] at hi' hsame
    · obtain ⟨ei, hv⟩ | ⟨ei, -⟩ := calls_update hi'
      · rw [← Option.some.inj hv]
        exact hd ei.symm
      · exact hsame (update_of_ne ei _ _)
    · obtain ⟨-, hv⟩ | ⟨ei, -⟩ := calls_update hi'
      · rw [← Option.some.inj hv]
      · exact hsame (update_of_ne ei _ _)
    · obtain ⟨-, hv⟩ | ⟨ei, -⟩ := calls_update hi'
      · rw [← Option.some.inj hv]
      · exact hsame (update_of_ne ei _ _)
    · obtain ⟨-, hv⟩ | ⟨ei, -⟩ := calls_update hi'
      · cases hv
      · exact hsame (update_of_ne ei _ _)

/-- However the remote domains set and clear the flags of entries while threads revoke them: what
the pool and the caches have was cleared since it was last granted, at a moment at which neither
`GTF_reading` nor `GTF_writing` was set, and a call that finds the grant busy has left the table, the
lists and the counters alone. -/
theorem grant_revocation_safe (h : (domainMachine env n).Reach Machine.Any s) :
    s.base.assertFailed = false ∧
    (∃ (free : List Nat) (chain : Nat → List Nat),
      Chain s.base.table.gnttabList 0 s.base.table.freeHead free ∧
      (∀ gc ∈ s.base.caches, Chain s.base.table.gnttabList gc.id gc.headFree (chain gc.addr)) ∧
      ∀ x ∈ free ++ s.base.caches.flatMap (fun gc => chain gc.addr), s.live x = false) ∧
    (∀ a s' x, s.step env a = some s' → s.live x = true → s'.live x = false →
      inUse (s.base.table.entry x).flags = false ∧ (s'.base.table.entry x).flags = 0) ∧
    (∀ i c, s.calls i = some c → c.pc = .busy → c.stored = false) ∧
    (∀ i s', s.step env (.run i) = some s' →
      s'.base = s.base ∨ ∃ c, s'.calls i = some c ∧ c.stored = true) ∧
    ∀ i a s' c c', s.step env a = some s' → s.calls i = some c → s'.calls i = some c' →
      c.stored = true → c'.stored = true := by
  have hr := revoked_of_reach h
  obtain ⟨hf, free, chain, hacc⟩ := hr.conserved
  refine ⟨hf, ⟨free, chain, hacc.own.chain, fun gc hg => (hacc.cached gc hg).1.chain, ?_⟩,
    fun a s' x hs hx hx' => hr.live_cleared hs hx hx', fun i c hi hpc => ?_,
    fun i s' hs => hr.run_base hs, fun i a s' c c' hs hi hi' hc => hr.stored_kept hs hi hc hi'⟩
  · intro x hx
    by_contra hlive
    -- a live reference is in a caller's hands, and so in no list
    have hout := hr.live x (by simpa using hlive)
    have hd := hacc.own.nodup
    rw [elsewhere, ← List.append_assoc] at hd
    exact List.disjoint_of_nodup_append hd hx hout
  · rw [(hr.calls i c hi).stored, hpc]
    rfl

/-- One thread revokes a reference that the remote domain begins to write between the load and the
swap, and finds it busy; another has given one back to its cache. -/
theorem grant_revocation_safe_run :
    ∃ s, (domainMachine (n := 2) fun n => if n = 0 then .mapped else .rejected).Reach
        Machine.Any s ∧
      ((s.calls 0).map (·.pc) = some .busy ∧ (s.calls 1).map (·.pc) = some .success ∧
        s.live 509 = true ∧ s.base.caches.map (·.population) = [2]) ∧
      (∃ (free : List Nat) (chain : Nat → List Nat),
        Chain s.base.table.gnttabList 0 s.base.table.freeHead free ∧
        (∀ gc ∈ s.base.caches, Chain s.base.table.gnttabList gc.id gc.headFree (chain gc.addr)) ∧
        ∀ x ∈ free ++ s.base.caches.flatMap (fun gc => chain gc.addr), s.live x = false) ∧
      ∀ i c, s.calls i = some c → c.pc = .busy → c.stored = false := by
  obtain ⟨s, hr, hp⟩ := Machine.exists_reach
    (domainMachine (n := 2) fun n => if n = 0 then .mapped else .rejected) Machine.Any
    (fun s => (s.calls 0).map (·.pc) = some .busy ∧ (s.calls 1).map (·.pc) = some .success ∧
      s.live 509 = true ∧ s.base.caches.map (·.population) = [2])
    [.other (.allocCache (some 100) 2), .other (.grantCache 100 0 7 .rw), .other (.grant 0 9 .rw),
      .revoke 0 (wrapGrantRef 509 0) none, .run 0, .run 0,
      .other (.remote 509 (gtfPermitAccess ||| gtfWriting)), .run 0, .run 0,
      .revoke 1 (wrapGrantRef 510 1) (some 100), .run 1, .run 1, .run 1, .run 1, .run 1, .run 1,
      .run 1, .run 1] (by simp only [domainMachine, init_oneFrame]; decide +kernel)
  obtain ⟨-, hlists, -, hbusy, -⟩ := grant_revocation_safe hr
  exact ⟨s, hr, by simpa using hp, hlists, hbusy⟩

end Revoked

end XcWindows.Gnttab
