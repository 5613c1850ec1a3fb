import Mathlib.Data.List.Nodup
import XcWindows.Gnttab.Table

/-!
# Who owns a grant reference

`Own t free rest`: the pool's chain is `free`, its counter is the length of `free`, and `free` with
`rest` are the usable references of the mapped frames. `Cached t gc l`: the chain of cache `gc` is
`l`. Each function of the table is specified by how it moves references between the three, and by
`Keeps`: what the others' links are afterwards.
-/

namespace XcWindows.Gnttab

open XcWindows.Lib
open Function (update_of_ne update_self)

/-! ## References -/

section Ref
variable {x c : Nat}

theorem wrapGrantRef_eq (hx : x < 16384) : wrapGrantRef x c = (x + 1) * 1024 + c % 4 := by
  have hlt : (x + 1) <<< 10 < 4294967296 := by rw [Nat.shiftLeft_eq]; omega
  rw [wrapGrantRef, u32, Nat.mod_eq_of_lt hlt,
    ← Nat.shiftLeft_add_eq_or_of_lt (show c % 4 < 2 ^ 10 by omega), Nat.shiftLeft_eq]

theorem xenGrantRef_wrap (hx : x < 16384) : xenGrantRef (wrapGrantRef x c) = x := by
  rw [wrapGrantRef_eq hx, xenGrantRef, Nat.shiftRight_eq_div_pow]
  simp only [u32]; omega

theorem grantRefCache_wrap (hx : x < 16384) : grantRefCache (wrapGrantRef x c) = c % 4 := by
  rw [wrapGrantRef_eq hx, grantRefCache]; omega

theorem wrapGrantRef_ne_null (hx : x < 16384) : wrapGrantRef x c ≠ nullGrantRef := by
  rw [wrapGrantRef_eq hx]; simp

theorem changeGrantCache_wrap {d : Nat} (hx : x < 16384) :
    changeGrantCache (wrapGrantRef x c) d = wrapGrantRef x d := by
  rw [changeGrantCache, xenGrantRef_wrap hx]

end Ref

theorem xmAssert_pos {p : Prop} [Decidable p] (h : p) : xmAssert p = some () := if_pos h

theorem xmAssert_bind {α : Type} {p : Prop} [Decidable p] {k : Unit → Option α} {a : α}
    (h : (xmAssert p).bind k = some a) : k () = some a := by
  unfold xmAssert at h
  split at h
  · exact h
  · cases h

/-! ## Chains -/

/-- The chain from `h` through `next` is `l`, of references of cache id `c`. -/
def Chain (next : Nat → GrantRef) (c : Nat) : GrantRef → List Nat → Prop
  | h, [] => h = nullGrantRef
  | h, x :: l => h = wrapGrantRef x c ∧ Chain next c (next x) l

theorem Chain.congr {next next' : Nat → GrantRef} {c : Nat} {h : GrantRef} {l : List Nat}
    (hc : Chain next c h l) (he : ∀ x ∈ l, next' x = next x) : Chain next' c h l := by
  induction l generalizing h with
  | nil => exact hc
  | cons x l ih =>
    refine ⟨hc.1, ?_⟩
    rw [he x List.mem_cons_self]
    exact ih hc.2 fun y hy => he y (List.mem_cons_of_mem _ hy)

theorem Chain.update {next : Nat → GrantRef} {c : Nat} {h v : GrantRef} {l : List Nat} {x : Nat}
    (hc : Chain next c h l) (hx : x ∉ l) : Chain (Function.update next x v) c h l :=
  hc.congr fun _ hy => update_of_ne (ne_of_mem_of_not_mem hy hx) v next

theorem Chain.null_iff {next : Nat → GrantRef} {c : Nat} {h : GrantRef} {l : List Nat}
    (hc : Chain next c h l) (hl : ∀ x ∈ l, x < 16384) : l.length = 0 ↔ h = nullGrantRef := by
  cases l with
  | nil => exact ⟨fun _ => hc, fun _ => rfl⟩
  | cons x l => simpa [hc.1] using wrapGrantRef_ne_null (hl x List.mem_cons_self)

/-! ## Ownership -/

/-- The references of `n` mapped frames that are not reserved. -/
abbrev usable (n : Nat) : List Nat :=
  List.range' nrReservedEntries (grantEntriesPerPage * n - nrReservedEntries)

structure Own (t : Table) (free rest : List Nat) : Prop where
  chain : Chain t.gnttabList 0 t.freeHead free
  count : t.freeCount = free.length
  frames : t.nrGrantFrames ≤ maxNrGrantFrames
  /-- Every usable reference is in exactly one of the two. -/
  perm : (free ++ rest).Perm (usable t.nrGrantFrames)
  /-- The frames to come are not linked. -/
  fresh : ∀ y, grantEntriesPerPage * t.nrGrantFrames ≤ y → t.gnttabList y = nullGrantRef

structure Cached (t : Table) (gc : GrantCache) (l : List Nat) : Prop where
  chain : Chain t.gnttabList gc.id gc.headFree l
  count : gc.population = l.length

/-- The links of `rest` are the same in both tables. -/
def Keeps (rest : List Nat) (t t' : Table) : Prop := ∀ y ∈ rest, t'.gnttabList y = t.gnttabList y

/-- Nothing moves between the two tables. -/
structure SameLists (t t' : Table) : Prop where
  gnttabList : t'.gnttabList = t.gnttabList
  freeHead : t'.freeHead = t.freeHead
  freeCount : t'.freeCount = t.freeCount
  nrGrantFrames : t'.nrGrantFrames = t.nrGrantFrames

section Own
variable {t t' t'' : Table} {gc : GrantCache} {free rest rest' l : List Nat} {x : Nat}

theorem Keeps.trans (h : Keeps rest t t') (h' : Keeps rest t' t'') : Keeps rest t t'' :=
  fun y hy => (h' y hy).trans (h y hy)

theorem Keeps.sub (h : Keeps rest t t') (hs : ∀ y ∈ rest', y ∈ rest) : Keeps rest' t t' :=
  fun y hy => h y (hs y hy)

theorem Cached.keep (h : Cached t gc l) (hk : Keeps l t t') : Cached t' gc l :=
  ⟨h.chain.congr hk, h.count⟩

theorem Own.swap (h : Own t free rest) (hp : rest.Perm rest') : Own t free rest' :=
  ⟨h.chain, h.count, h.frames, ((List.Perm.append_left free hp).symm).trans h.perm, h.fresh⟩

theorem Own.nodup (h : Own t free rest) : (free ++ rest).Nodup :=
  h.perm.nodup_iff.mpr List.nodup_range'

theorem Own.small (h : Own t free rest) (hx : x ∈ free ++ rest) :
    x < grantEntriesPerPage * t.nrGrantFrames ∧ x < 16384 := by
  have := h.perm.mem_iff.mp hx
  have hf := h.frames
  simp only [List.mem_range'_1, nrReservedEntries, grantEntriesPerPage, maxNrGrantFrames] at *
  omega

theorem Own.valid (h : Own t free rest) (hx : x ∈ free ++ rest) (c : Nat) :
    t.Valid (wrapGrantRef x c) := by
  obtain ⟨h1, h2⟩ := h.small hx
  exact ⟨wrapGrantRef_ne_null h2, by rw [xenGrantRef_wrap h2]; exact h1⟩

theorem Own.notMem (h : Own t free (x :: rest)) : x ∉ free ∧ x ∉ rest := by
  have := h.nodup
  simp only [List.nodup_append, List.nodup_cons] at this
  exact ⟨fun hm => this.2.2 x hm x List.mem_cons_self rfl, this.2.1.1⟩

/-- Relinking a reference that is not in the pool. -/
theorem Own.relink (h : Own t free rest) (hx : x ∈ rest) (v : GrantRef) :
    Own { t with gnttabList := Function.update t.gnttabList x v } free rest := by
  have hd := (List.nodup_append.mp h.nodup).2.2
  refine ⟨h.chain.update fun hm => hd x hm x hx rfl, h.count, h.frames, h.perm, fun y hy => ?_⟩
  have hs := (h.small (List.mem_append_right free hx)).1
  rw [← h.fresh y hy]
  exact update_of_ne (fun e => by simp only at hy; omega) _ _

theorem Own.congr (h : Own t free rest) (hs : SameLists t t') : Own t' free rest := by
  obtain ⟨h1, h2, h3, h4⟩ := hs
  refine ⟨?_, ?_, ?_, ?_, ?_⟩
  · rw [h1, h2]; exact h.chain
  · rw [h3]; exact h.count
  · rw [h4]; exact h.frames
  · rw [h4]; exact h.perm
  · rw [h1, h4]; exact h.fresh

end Own

/-! ## The pool -/

section Pool
variable {t : Table} {free rest : List Nat} {x : Nat}

theorem putFreeEntry_eq {ref : GrantRef} (hv : t.Valid ref) (hn : t.next ref = nullGrantRef)
    (locked : Bool) : ∃ lock, putFreeEntry t ref locked =
      some { t.setNext ref t.freeHead with
             freeHead := ref, freeCount := t.freeCount + 1, lock := lock } := by
  have hv' : (t.lockUnless locked).Valid ref := by cases locked <;> exact hv
  have hn' : (t.lockUnless locked).next ref = nullGrantRef := by cases locked <;> exact hn
  simp only [putFreeEntry, xmAssert_pos hv', xmAssert_pos hn', Option.bind_eq_bind,
    Option.bind_some]
  cases locked
  · exact ⟨t.lock.acquire.release t.lock.irql, by simp [Table.lockUnless, Table.unlockUnless, Table.setNext]⟩
  · exact ⟨t.lock, by simp [Table.lockUnless, Table.unlockUnless, Table.setNext]⟩

theorem putFreeEntry_spec (h : Own t free (x :: rest)) (hn : t.gnttabList x = nullGrantRef)
    (locked : Bool) : ∃ t', putFreeEntry t (wrapGrantRef x 0) locked = some t' ∧
      Own t' (x :: free) rest ∧ Keeps rest t t' := by
  have hx : x ∈ free ++ x :: rest := by simp
  have hsm := (h.small hx).2
  have hn' : t.next (wrapGrantRef x 0) = nullGrantRef := by rw [Table.next, xenGrantRef_wrap hsm, hn]
  obtain ⟨lock, he⟩ := putFreeEntry_eq (h.valid hx 0) hn' locked
  refine ⟨_, he, ⟨⟨rfl, ?_⟩, ?_, h.frames, ?_, ?_⟩, ?_⟩
  · simp only [Table.setNext, xenGrantRef_wrap hsm, update_self]
    exact h.chain.update h.notMem.1
  · simp [h.count]
  · exact List.perm_middle.symm.trans h.perm
  · have := (h.relink (x := x) (by simp) t.freeHead).fresh
    simpa only [Table.setNext, xenGrantRef_wrap hsm] using this
  · intro y hy
    simp only [Table.setNext, xenGrantRef_wrap hsm]
    exact update_of_ne (ne_of_mem_of_not_mem hy h.notMem.2) _ _

/-- Mapping a frame puts its references in the hands of `ExpandGrantTable`. -/
theorem Own.extend (h : Own t free rest) (hf : t.nrGrantFrames < maxNrGrantFrames) (n : Nat) :
    Own { t with asked := n, nrGrantFrames := t.nrGrantFrames + 1 } free
      ((List.range' (t.nrGrantFrames * grantEntriesPerPage) grantEntriesPerPage).filter
        (nrReservedEntries ≤ ·) ++ rest) := by
  refine ⟨h.chain, h.count, hf, ?_, fun y hy => h.fresh y (by simp only [grantEntriesPerPage] at *; omega)⟩
  have hnew : ((List.range' (t.nrGrantFrames * grantEntriesPerPage) grantEntriesPerPage).filter
      (nrReservedEntries ≤ ·) ++ usable t.nrGrantFrames).Perm (usable (t.nrGrantFrames + 1)) := by
    rw [List.perm_ext_iff_of_nodup _ List.nodup_range']
    · intro a
      simp only [List.mem_append, List.mem_filter, List.mem_range'_1, decide_eq_true_eq,
        grantEntriesPerPage, nrReservedEntries]
      omega
    · refine List.nodup_append.mpr ⟨List.Nodup.filter _ List.nodup_range', List.nodup_range', ?_⟩
      rintro a ha _ hb rfl
      simp only [List.mem_filter, List.mem_range'_1, grantEntriesPerPage, nrReservedEntries] at ha hb
      omega
  refine List.Perm.trans ?_ hnew
  refine List.Perm.trans ?_ (List.Perm.append_left _ h.perm)
  rw [← List.append_assoc, ← List.append_assoc]
  exact List.Perm.append_right _ List.perm_append_comm

theorem hookUp_spec (xs : List Nat) : ∀ {t : Table} {free : List Nat},
    Own t free (xs.filter (nrReservedEntries ≤ ·) ++ rest) → (∀ x ∈ xs, x < 16384) →
    (∀ x ∈ xs, nrReservedEntries ≤ x → t.gnttabList x = nullGrantRef) →
    ∃ t' free', hookUp xs t = some t' ∧ Own t' free' rest ∧ Keeps rest t t' := by
  induction xs with
  | nil => exact fun {t free} h _ _ => ⟨t, free, rfl, h, fun _ _ => rfl⟩
  | cons x xs ih =>
    intro t free h hsm hn
    have hx := hsm x List.mem_cons_self
    have hsm' : ∀ y ∈ xs, y < 16384 := fun y hy => hsm y (List.mem_cons_of_mem _ hy)
    unfold hookUp
    simp only [xenGrantRef_wrap hx]
    by_cases hres : x < nrReservedEntries
    · rw [List.filter_cons_of_neg (by simpa using hres)] at h
      rw [if_pos hres]
      exact ih h hsm' fun y hy => hn y (List.mem_cons_of_mem _ hy)
    · rw [List.filter_cons_of_pos (by simpa using hres)] at h
      rw [if_neg hres]
      have he : Own (t.setEntry (wrapGrantRef x 0) ⟨0, domidInvalid, x⟩) free
          (x :: (xs.filter (nrReservedEntries ≤ ·) ++ rest)) := h.congr ⟨rfl, rfl, rfl, rfl⟩
      obtain ⟨t1, h1, ho1, hk1⟩ :=
        putFreeEntry_spec he (hn x List.mem_cons_self (Nat.le_of_not_lt hres)) true
      have hn1 : ∀ y ∈ xs, nrReservedEntries ≤ y → t1.gnttabList y = nullGrantRef := by
        intro y hy hle
        rw [hk1 y (List.mem_append_left _ (List.mem_filter.mpr ⟨hy, by simpa using hle⟩))]
        exact hn y (List.mem_cons_of_mem _ hy) hle
      obtain ⟨t2, free2, h2, ho2, hk2⟩ := ih ho1 hsm' hn1
      have hk1' : Keeps rest t t1 := hk1.sub fun y hy => List.mem_append_right _ hy
      refine ⟨t2, free2, ?_, ho2, hk1'.trans hk2⟩
      rw [h1]; exact h2

variable (env : Nat → FrameAnswer)

theorem expandGrantTable_spec (h : Own t free rest) :
    ∃ t' free', expandGrantTable env t = some t' ∧ Own t' free' rest ∧ Keeps rest t t' := by
  unfold expandGrantTable
  split
  · exact ⟨t, free, rfl, h, fun _ _ => rfl⟩
  · next hmax =>
    have hlt : t.nrGrantFrames < maxNrGrantFrames := by have := h.frames; omega
    split
    · exact ⟨_, free, rfl, h.congr ⟨rfl, rfl, rfl, rfl⟩, fun _ _ => rfl⟩
    · exact ⟨_, free, rfl, h.congr ⟨rfl, rfl, rfl, rfl⟩, fun _ _ => rfl⟩
    · refine hookUp_spec _ (h.extend hlt _) ?_ ?_
      · intro x hx
        simp only [List.mem_range'_1, grantEntriesPerPage, maxNrGrantFrames] at *
        omega
      · intro x hx _
        apply h.fresh x
        simp only [List.mem_range'_1, grantEntriesPerPage] at *
        omega

/-- What `get_free_entry` gives: nothing, of an empty pool, or a reference that is then the
caller's. -/
def Taken (rest : List Nat) (t' : Table) (ref : GrantRef) : Prop :=
  (ref = nullGrantRef ∧ Own t' [] rest) ∨
  ∃ x free', ref = wrapGrantRef x 0 ∧ Own t' free' (x :: rest) ∧ t'.gnttabList x = nullGrantRef

theorem ensureFree_spec (h : Own t free rest) :
    ∃ t' free', ensureFree env t = some t' ∧ Own t' free' rest ∧ Keeps rest t t' := by
  unfold ensureFree
  split
  · exact expandGrantTable_spec env h
  · exact ⟨t, free, rfl, h, fun _ _ => rfl⟩

theorem popFreeEntry_spec (h : Own t (x :: free) rest) :
    ∃ t', popFreeEntry t = some (wrapGrantRef x 0, t') ∧ Keeps rest t t' ∧
      Own t' free (x :: rest) ∧ t'.gnttabList x = nullGrantRef := by
  have hx : x ∈ x :: free ++ rest := by simp
  have hsm := (h.small hx).2
  have hhead : t.freeHead = wrapGrantRef x 0 := h.chain.1
  have hnext : t.next (wrapGrantRef x 0) = t.gnttabList x := by rw [Table.next, xenGrantRef_wrap hsm]
  have hnull : t.freeCount - 1 = 0 ↔ t.gnttabList x = nullGrantRef := by
    rw [h.count, List.length_cons, Nat.add_sub_cancel]
    exact h.chain.2.null_iff fun y hy => (h.small (by simp [hy])).2
  have hnd := h.nodup
  rw [List.cons_append, List.nodup_cons, List.mem_append, not_or] at hnd
  simp only [popFreeEntry, hhead, hnext, xmAssert_pos (h.valid hx 0), xmAssert_pos hnull,
    xmAssert_pos (grantRefCache_wrap (c := 0) hsm), Option.bind_eq_bind, Option.bind_some]
  refine ⟨_, rfl, fun y hy => ?_, ⟨?_, ?_, h.frames, List.perm_middle.trans h.perm, ?_⟩, ?_⟩
  · simp only [Table.setNext, xenGrantRef_wrap hsm]
    exact update_of_ne (ne_of_mem_of_not_mem hy hnd.1.2) _ _
  · simp only [Table.setNext, xenGrantRef_wrap hsm]
    exact h.chain.2.update hnd.1.1
  · simp [Table.setNext, h.count]
  · intro y hy
    have hlt := (h.small hx).1
    simp only [Table.setNext, xenGrantRef_wrap hsm] at hy ⊢
    rw [update_of_ne (by omega), h.fresh y hy]
  · simp [Table.setNext, xenGrantRef_wrap hsm]

theorem getFreeEntry_spec (h : Own t free rest) (locked : Bool) :
    ∃ ref t', getFreeEntry env t locked = some (ref, t') ∧ Keeps rest t t' ∧ Taken rest t' ref := by
  have h0 : Own (t.lockUnless locked) free rest := by
    cases locked <;> exact h.congr ⟨rfl, rfl, rfl, rfl⟩
  have hk0 : Keeps rest t (t.lockUnless locked) := by cases locked <;> exact fun _ _ => rfl
  obtain ⟨t1, free1, ht1, h1, hk1⟩ := ensureFree_spec env h0
  simp only [getFreeEntry, ht1, Option.bind_eq_bind, Option.bind_some]
  cases free1 with
  | nil =>
    rw [if_pos (show t1.freeCount = 0 from h1.count)]
    exact ⟨_, _, rfl, hk0.trans hk1, .inl ⟨rfl, h1.congr ⟨rfl, rfl, rfl, rfl⟩⟩⟩
  | cons x free1 =>
    obtain ⟨t2, ht2, hk2, h2, hn2⟩ := popFreeEntry_spec h1
    rw [if_neg (by rw [h1.count]; simp), ht2, Option.bind_some]
    refine ⟨_, _, rfl, ?_, .inr ⟨x, free1, rfl, ?_, ?_⟩⟩
    · exact (hk0.trans hk1).trans (hk2.trans (by cases locked <;> exact fun _ _ => rfl))
    · cases locked <;> exact h2.congr ⟨rfl, rfl, rfl, rfl⟩
    · cases locked <;> exact hn2

end Pool

/-! ## The caches -/

/-- The two agree but for the chain. -/
structure SameCache (gc gc' : GrantCache) : Prop where
  addr : gc'.addr = gc.addr
  id : gc'.id = gc.id
  nrOutstanding : gc'.nrOutstanding = gc.nrOutstanding
  minPopulation : gc'.minPopulation = gc.minPopulation

theorem SameCache.trans {a b c : GrantCache} (h : SameCache a b) (h' : SameCache b c) :
    SameCache a c :=
  ⟨h'.1.trans h.1, h'.2.trans h.2, h'.3.trans h.3, h'.4.trans h.4⟩

/-- A cache with chain `l`, beside a pool and the `rest`. -/
structure CacheOwn (t : Table) (gc : GrantCache) (free l rest : List Nat) : Prop where
  own : Own t free (l ++ rest)
  cached : Cached t gc l
  id : 0 < gc.id ∧ gc.id < 4

section Cache
variable {t : Table} {gc : GrantCache} {free l rest : List Nat} {x : Nat}

theorem putCacheEntry_spec (gc : GrantCache) (h : Own t free (x :: (l ++ rest))) (hc : Cached t gc l)
    (hid : 0 < gc.id ∧ gc.id < 4) (hn : t.gnttabList x = nullGrantRef) :
    ∃ t', putCacheEntry t gc (wrapGrantRef x gc.id) =
        some (t', { gc with headFree := wrapGrantRef x gc.id, population := gc.population + 1 }) ∧
      CacheOwn t' { gc with headFree := wrapGrantRef x gc.id, population := gc.population + 1 }
        free (x :: l) rest ∧ Keeps rest t t' := by
  have hx : x ∈ free ++ x :: (l ++ rest) := by simp
  have hsm := (h.small hx).2
  have hni := h.notMem.2
  rw [List.mem_append, not_or] at hni
  have hn' : t.next (wrapGrantRef x gc.id) = nullGrantRef := by
    rw [Table.next, xenGrantRef_wrap hsm, hn]
  have hcid : grantRefCache (wrapGrantRef x gc.id) = gc.id := by
    rw [grantRefCache_wrap hsm, Nat.mod_eq_of_lt hid.2]
  simp only [putCacheEntry, xmAssert_pos hcid, xmAssert_pos hn', Option.bind_eq_bind,
    Option.bind_some, Table.setNext, xenGrantRef_wrap hsm]
  refine ⟨_, rfl, ⟨h.relink (by simp) _, ⟨⟨rfl, ?_⟩, ?_⟩, hid⟩, fun y hy => ?_⟩
  · simp only [update_self]
    exact hc.chain.update hni.1
  · simp [hc.count]
  · exact update_of_ne (ne_of_mem_of_not_mem hy hni.2) _ _

theorem getCacheEntry_empty (h : CacheOwn t gc free [] rest) :
    getCacheEntry t gc = some (nullGrantRef, t, gc) := if_pos h.cached.count

theorem getCacheEntry_spec (h : CacheOwn t gc free (x :: l) rest) :
    ∃ t' gc', getCacheEntry t gc = some (wrapGrantRef x gc.id, t', gc') ∧
      CacheOwn t' gc' free l (x :: rest) ∧ SameCache gc gc' ∧
      t'.gnttabList x = nullGrantRef ∧ Keeps rest t t' := by
  have hx : x ∈ free ++ (x :: l ++ rest) := by simp
  have hsm := (h.own.small hx).2
  have hhead : gc.headFree = wrapGrantRef x gc.id := h.cached.chain.1
  have hnext : t.next (wrapGrantRef x gc.id) = t.gnttabList x := by
    rw [Table.next, xenGrantRef_wrap hsm]
  have hnull : gc.population - 1 = 0 ↔ t.gnttabList x = nullGrantRef := by
    rw [h.cached.count, List.length_cons, Nat.add_sub_cancel]
    exact h.cached.chain.2.null_iff fun y hy => (h.own.small (by simp [hy])).2
  have hni : x ∉ l ++ rest := h.own.notMem.2
  rw [List.mem_append, not_or] at hni
  have hcid : grantRefCache (wrapGrantRef x gc.id) = gc.id := by
    rw [grantRefCache_wrap hsm, Nat.mod_eq_of_lt h.id.2]
  have hpop : gc.population ≠ 0 := by rw [h.cached.count]; simp
  simp only [getCacheEntry, if_neg hpop, hhead, hnext, xmAssert_pos (h.own.valid hx gc.id),
    xmAssert_pos hnull, xmAssert_pos hcid, Option.bind_eq_bind, Option.bind_some, Table.setNext,
    xenGrantRef_wrap hsm]
  have hown := (h.own.swap (@List.perm_middle _ x l rest).symm).relink
    (x := x) (by simp) nullGrantRef
  refine ⟨_, _, rfl, ⟨hown, ⟨?_, ?_⟩, h.id⟩, ⟨rfl, rfl, rfl, rfl⟩, update_self .., ?_⟩
  · exact h.cached.chain.2.update hni.1
  · simp [h.cached.count]
  · exact fun y hy => update_of_ne (ne_of_mem_of_not_mem hy hni.2) _ _

theorem CacheOwn.lock (h : CacheOwn t gc free l rest) (lock : IrqLock) :
    CacheOwn { t with lock := lock } gc free l rest :=
  ⟨h.own.congr ⟨rfl, rfl, rfl, rfl⟩, h.cached.keep fun _ _ => rfl, h.id⟩

theorem replenishLoop_spec (env : Nat → FrameAnswer) (target n : Nat) : ∀ {t : Table}
    {gc : GrantCache} {free l : List Nat}, CacheOwn t gc free l rest →
    ∃ t' gc' free' l', replenishLoop env target n t gc = some (t', gc') ∧
      CacheOwn t' gc' free' l' rest ∧ SameCache gc gc' ∧ Keeps rest t t' := by
  induction n with
  | zero => exact fun {t gc free l} h => ⟨t, gc, free, l, rfl, h, ⟨rfl, rfl, rfl, rfl⟩, fun _ _ => rfl⟩
  | succ n ih =>
    intro t gc free l h
    unfold replenishLoop
    split
    · obtain ⟨ref, t1, h1, hk1, ht⟩ := getFreeEntry_spec env h.own true
      simp only [h1, Option.bind_eq_bind, Option.bind_some]
      have hk1' : Keeps rest t t1 := hk1.sub fun y hy => List.mem_append_right _ hy
      have hc1 : Cached t1 gc l := h.cached.keep (hk1.sub fun y hy => List.mem_append_left _ hy)
      rcases ht with ⟨rfl, ho⟩ | ⟨x, free1, rfl, ho, hn⟩
      · exact ⟨t1, gc, [], l, by rw [if_pos rfl], ⟨ho, hc1, h.id⟩, ⟨rfl, rfl, rfl, rfl⟩, hk1'⟩
      · have hsm := (ho.small (x := x) (by simp)).2
        obtain ⟨t2, h2, ho2, hk2⟩ := putCacheEntry_spec _ ho hc1 h.id hn
        obtain ⟨t3, gc3, free3, l3, h3, ho3, hs3, hk3⟩ := ih ho2
        refine ⟨t3, gc3, free3, l3, ?_, ho3, ⟨hs3.1, hs3.2, hs3.3, hs3.4⟩,
          (hk1'.trans hk2).trans hk3⟩
        rw [if_neg (wrapGrantRef_ne_null hsm), changeGrantCache_wrap hsm, h2, Option.bind_some]
        exact h3
    · exact ⟨t, gc, free, l, rfl, h, ⟨rfl, rfl, rfl, rfl⟩, fun _ _ => rfl⟩

theorem replenishCache_spec (env : Nat → FrameAnswer) (h : CacheOwn t gc free l rest)
    (target : Nat) (hlt : gc.population < target) :
    ∃ t' gc' free' l', replenishCache env t gc target = some (t', gc') ∧
      CacheOwn t' gc' free' l' rest ∧ SameCache gc gc' ∧ Keeps rest t t' := by
  obtain ⟨t1, gc1, free1, l1, h1, ho1, hs1, hk1⟩ :=
    replenishLoop_spec env target (target - gc.population) (h.lock t.lock.acquire)
  simp only [replenishCache, xmAssert_pos hlt, h1, Option.bind_eq_bind, Option.bind_some]
  exact ⟨_, gc1, free1, l1, rfl, ho1.lock _, hs1, hk1⟩

theorem trimLoop_spec (target n : Nat) : ∀ {t : Table} {gc : GrantCache} {free l : List Nat},
    CacheOwn t gc free l rest → l.length = target + n →
    ∃ t' gc' free' l', trimLoop target n t gc = some (t', gc') ∧
      CacheOwn t' gc' free' l' rest ∧ l'.length = target ∧ SameCache gc gc' ∧ Keeps rest t t' := by
  induction n with
  | zero =>
    exact fun {t gc free l} h hl => ⟨t, gc, free, l, rfl, h, hl, ⟨rfl, rfl, rfl, rfl⟩, fun _ _ => rfl⟩
  | succ n ih =>
    intro t gc free l h hl
    cases l with
    | nil => simp at hl
    | cons x l =>
      have hsm := (h.own.small (x := x) (by simp)).2
      obtain ⟨t1, gc1, h1, ho1, hs1, hn1, hk1⟩ := getCacheEntry_spec h
      have hown : Own t1 free (x :: (l ++ rest)) := ho1.own.swap List.perm_middle
      obtain ⟨t2, h2, ho2, hk2⟩ := putFreeEntry_spec hown hn1 true
      have hc2 : CacheOwn t2 gc1 (x :: free) l rest :=
        ⟨ho2, ho1.cached.keep (hk2.sub fun y hy => List.mem_append_left _ hy), ho1.id⟩
      obtain ⟨t3, gc3, free3, l3, h3, ho3, hl3, hs3, hk3⟩ := ih hc2 (by simp at hl; omega)
      refine ⟨t3, gc3, free3, l3, ?_, ho3, hl3, hs1.trans hs3,
        hk1.trans ((hk2.sub fun y hy => List.mem_append_right _ hy).trans hk3)⟩
      have hlt : target < gc.population := by rw [h.cached.count]; omega
      rw [trimLoop, if_pos hlt]
      simp only [h1, Option.bind_eq_bind, Option.bind_some,
        xmAssert_pos (wrapGrantRef_ne_null (c := gc.id) hsm), changeGrantCache_wrap hsm, h2, h3]

theorem trimCache_spec (h : CacheOwn t gc free l rest) (target : Nat) (hle : target ≤ l.length) :
    ∃ t' gc' free' l', trimCache t gc target = some (t', gc') ∧
      CacheOwn t' gc' free' l' rest ∧ l'.length = target ∧ SameCache gc gc' ∧ Keeps rest t t' := by
  have hpop := h.cached.count
  obtain ⟨t1, gc1, free1, l1, h1, ho1, hl1, hs1, hk1⟩ :=
    trimLoop_spec target (gc.population - target) (h.lock t.lock.acquire) (by omega)
  simp only [trimCache, xmAssert_pos (show target ≤ gc.population by omega), h1,
    Option.bind_eq_bind, Option.bind_some]
  exact ⟨_, gc1, free1, l1, rfl, ho1.lock _, hl1, hs1, hk1⟩

/-- What a cache gives: nothing, or a reference of its id that is then the caller's. -/
def CacheTaken (rest : List Nat) (t' : Table) (gc' : GrantCache) (ref : GrantRef) : Prop :=
  (ref = nullGrantRef ∧ ∃ free l, CacheOwn t' gc' free l rest) ∨
  ∃ x free l, ref = wrapGrantRef x gc'.id ∧ CacheOwn t' gc' free l (x :: rest) ∧
    t'.gnttabList x = nullGrantRef

theorem getCacheEntry_taken (h : CacheOwn t gc free l rest) :
    ∃ ref t' gc', getCacheEntry t gc = some (ref, t', gc') ∧ SameCache gc gc' ∧
      Keeps rest t t' ∧ CacheTaken rest t' gc' ref := by
  cases l with
  | nil =>
    exact ⟨_, t, gc, getCacheEntry_empty h, ⟨rfl, rfl, rfl, rfl⟩, fun _ _ => rfl,
      .inl ⟨rfl, free, [], h⟩⟩
  | cons x l =>
    obtain ⟨t', gc', h1, ho, hs, hn, hk⟩ := getCacheEntry_spec h
    exact ⟨_, t', gc', h1, hs, hk, .inr ⟨x, free, l, by rw [hs.id], ho, hn⟩⟩

theorem getCacheEntryReplenish_spec (env : Nat → FrameAnswer) (h : CacheOwn t gc free l rest) :
    ∃ ref t' gc', getCacheEntryReplenish env t gc = some (ref, t', gc') ∧ SameCache gc gc' ∧
      Keeps rest t t' ∧ CacheTaken rest t' gc' ref := by
  obtain ⟨ref, t1, gc1, h1, hs1, hk1, ht1⟩ := getCacheEntry_taken h
  simp only [getCacheEntryReplenish, h1, Option.bind_eq_bind, Option.bind_some]
  split
  · next hnull =>
    rcases ht1 with ⟨-, free1, l1, ho1⟩ | ⟨x, free1, l1, rfl, ho1, -⟩
    · obtain ⟨t2, gc2, free2, l2, h2, ho2, hs2, hk2⟩ := replenishCache_spec env ho1
        (gc1.population + gnttabCacheThreshold) (by simp)
      obtain ⟨ref3, t3, gc3, h3, hs3, hk3, ht3⟩ := getCacheEntry_taken ho2
      simp only [h2, Option.bind_some, h3]
      exact ⟨ref3, t3, gc3, rfl, (hs1.trans hs2).trans hs3, (hk1.trans hk2).trans hk3, ht3⟩
    · exact absurd hnull (wrapGrantRef_ne_null (ho1.own.small (by simp)).2)
  · exact ⟨ref, t1, gc1, rfl, hs1, hk1, ht1⟩

theorem gnttabGrantForeignAccessRef_spec (t : Table) (domid : Nat) {frame : Nat} (mode : GrantMode)
    (ref : GrantRef) (hf : frame < 4294967296) :
    ∃ t', gnttabGrantForeignAccessRef t domid frame mode ref = some t' ∧ SameLists t t' := by
  simp only [gnttabGrantForeignAccessRef, xmAssert_pos hf, Option.bind_eq_bind, Option.bind_some]
  exact ⟨_, rfl, rfl, rfl, rfl, rfl⟩

theorem gnttabEndForeignAccessRef_spec {ref : GrantRef} (hv : t.Valid ref) (raced : List Nat) :
    ∃ done t', gnttabEndForeignAccessRef t ref raced = some (done, t') ∧ SameLists t t' := by
  simp only [gnttabEndForeignAccessRef, xmAssert_pos hv, Option.bind_eq_bind, Option.bind_some]
  split
  · exact ⟨_, _, rfl, rfl, rfl, rfl, rfl⟩
  · exact ⟨_, _, rfl, rfl, rfl, rfl, rfl⟩

/-- A freed cache gives all it has to the pool. -/
theorem emptyCache_spec (h : CacheOwn t gc free l rest) (h0 : gc.nrOutstanding = 0) :
    ∃ t' gc' free', emptyCache t gc = some (t', gc') ∧ Own t' free' rest ∧ Keeps rest t t' := by
  have h' : CacheOwn t { gc with minPopulation := 0 } free l rest := ⟨h.own, ⟨h.cached.1, h.cached.2⟩, h.id⟩
  obtain ⟨t1, gc1, free1, l1, h1, ho1, hl1, -, hk1⟩ := trimCache_spec h' 0 (Nat.zero_le _)
  obtain rfl := List.length_eq_zero_iff.mp hl1
  simp only [emptyCache, xmAssert_pos h0, Option.bind_eq_bind, Option.bind_some, h1]
  exact ⟨t1, gc1, free1, rfl, ho1.own, hk1⟩

theorem drawId_lt (n : Nat) : 0 < (drawId n).1 ∧ (drawId n).1 < 4 := by
  unfold drawId; split <;> simp only <;> omega

/-- A new cache has what it took from the pool; one that could not be filled gives it back. -/
theorem fillCache_spec (env : Nat → FrameAnswer) (h : Own t free rest) (addr minPop : Nat)
    {id : Nat} (hid : 0 < id ∧ id < 4) :
    ∃ gc? t' free', fillCache env t addr id minPop = some (gc?, t') ∧ Keeps rest t t' ∧
      match gc? with
      | none => Own t' free' rest
      | some gc => gc.addr = addr ∧ gc.nrOutstanding = 0 ∧ ∃ l, CacheOwn t' gc free' l rest := by
  have h0 : CacheOwn t ⟨addr, id, 0, 0, minPop, nullGrantRef⟩ free [] rest := ⟨h, ⟨rfl, rfl⟩, hid⟩
  unfold fillCache
  simp only
  split
  · next hlt =>
    obtain ⟨t1, gc1, free1, l1, h1, ho1, hs1, hk1⟩ := replenishCache_spec env h0 minPop hlt
    simp only [h1, Option.bind_eq_bind, Option.bind_some]
    split
    · exact ⟨_, t1, free1, rfl, hk1, hs1.addr, hs1.nrOutstanding, l1, ho1⟩
    · obtain ⟨t2, gc2, free2, h2, ho2, hk2⟩ := emptyCache_spec ho1 hs1.nrOutstanding
      simp only [h2, Option.bind_some]
      exact ⟨none, t2, free2, rfl, hk1.trans hk2, ho2⟩
  · exact ⟨_, t, free, rfl, fun _ _ => rfl, rfl, rfl, [], h0⟩

end Cache

end XcWindows.Gnttab
