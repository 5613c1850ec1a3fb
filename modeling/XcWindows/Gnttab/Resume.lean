import XcWindows.Gnttab.Revoke
import XcWindows.Gnttab.Guarantee

/-!
# Resuming the grant table

After a migration or a hibernation the hypervisor's grant frames are blank. `_GnttabResume` maps them
again and rebuilds the entries from the copies in `gnttab_pfns`, `gnttab_domids` and
`gnttab_readonly_flags`, in which a frame of zero means that nothing is granted.

A bit of `gnttab_readonly_flags` is written without a lock, by a load and a store of the byte that it
shares with seven other references (`load`, `store`); what else a granting call writes is its caller's.
`grants` remembers what was granted and not ended. `Recorded` is the invariant: as long as no store
takes back the bit of a grant, the copies say exactly that.
-/

namespace XcWindows.Gnttab

open XcWindows.Lib
open Function (update update_of_ne update_self)

/-! ## The code -/

/-- The bit of a reference. -/
def Table.readonly (t : Table) (x : Nat) : Bool := (t.readonlyFlags (x / 8)).getLsbD (x % 8)

/-- The body of the loop of `_GnttabResume`. -/
def restoreEntry (t : Table) (x : Nat) : Table :=
  if t.pfns x ≠ 0 then
    let gref := wrapGrantRef x 0
    let readonly := if t.readonly x then gtfReadonly else 0
    t.setEntry gref ⟨gtfPermitAccess ||| readonly, t.domids x, t.pfns x⟩
  else t

/-- `_GnttabResume`; `ret` is what `AddPageToPhysmap` answers for each frame, and the frames it maps
are blank. -/
def gnttabResume (ret : Nat → Nat) (t : Table) : Option Table := do
  xmAssert (∀ x < t.nrGrantFrames, ret x = 0)
  let blanked := { t with entry := fun _ => ⟨0, 0, 0⟩ }
  some ((List.range (t.nrGrantFrames * grantEntriesPerPage)).foldl restoreEntry blanked)

/-! ## What is granted -/

structure Grant where
  domid : Nat
  frame : Nat
  mode : GrantMode
deriving DecidableEq

/-- A granting call that has loaded the byte of its reference `x`. -/
structure Loaded where
  x : Nat
  grant : Grant
  byte : BitVec 8
deriving DecidableEq

structure Granted where
  base : State
  /-- what was granted and not ended, by reference -/
  grants : Nat → Option Grant
  loaded : List Loaded

inductive GrantedAct where
  | call (a : Act)
  /-- a granting call, up to the load of the byte -/
  | load (a : Act)
  /-- the rest of that call -/
  | store (p : Loaded)
  /-- the domain comes back on a blank grant table -/
  | resume

/-- What a call grants. -/
def Act.grant? : Act → Option Grant
  | .grantRef _ domid frame mode | .grant domid frame mode | .grantCache _ domid frame mode =>
    some ⟨domid, frame, mode⟩
  | .getGrantRef | .endAccess _ _ | .allocCache _ _ | .freeCache _ | .endAccessCache _ _ _
  | .remote _ _ => none

/-- The references a call has ended the access to. -/
def ended (s : State) (a : Act) (s' : State) : List Nat :=
  match a with
  | .endAccess ref _ | .endAccessCache _ ref _ =>
    if s'.outstanding.length < s.outstanding.length then [xenGrantRef ref] else []
  | .grantRef _ _ _ _ | .grant _ _ _ | .grantCache _ _ _ _ | .getGrantRef | .allocCache _ _
  | .freeCache _ | .remote _ _ => []

/-- The remote domains have the entries of the mapped frames only. -/
def Act.mapped (t : Table) : Act → Bool
  | .remote x _ => x < grantEntriesPerPage * t.nrGrantFrames
  | .grantRef _ _ _ _ | .grant _ _ _ | .grantCache _ _ _ _ | .getGrantRef | .endAccess _ _
  | .allocCache _ _ | .freeCache _ | .endAccessCache _ _ _ => true

namespace Granted

/-- The call is not made with a reference that another call is about to grant. -/
def free (s : Granted) (a : Act) : Bool := s.loaded.all fun p => a.ref? ≠ some p.x

/-- Before its store, a granting call has written no flags. -/
def unstored (s b : State) (x : Nat) : Table :=
  { b.table with
    entry := update b.table.entry x { b.table.entry x with
      flags := if x < grantEntriesPerPage * s.table.nrGrantFrames then (s.table.entry x).flags
        else 0 }
    readonlyFlags := s.table.readonlyFlags }

/-- The end of `GnttabGrantForeignAccessRef`, from the store on. -/
def stored (t : Table) (p : Loaded) : Table :=
  let readonly := p.grant.mode = .ro
  let t := t.storeReadonly p.x p.byte readonly
  { t with entry := update t.entry p.x { t.entry p.x with
      flags := gtfPermitAccess ||| if readonly then gtfReadonly else 0 } }

def step (env : Nat → FrameAnswer) (s : Granted) : GrantedAct → Option Granted
  | .call a =>
    if a.mapped s.base.table ∧ s.free a then
      (Gnttab.step env s.base a).map fun b =>
        { s with
          base := b
          grants := fun x =>
            if x ∈ granted s.base a b then a.grant?
            else if x ∈ ended s.base a b then none
            else s.grants x }
    else none
  | .load a =>
    match a.grant? with
    | none => none
    | some g =>
      if s.free a then
        (Gnttab.step env s.base a).map fun b =>
          match granted s.base a b with
          | [] => { s with base := b }
          | x :: _ =>
            { base := b.setTable (unstored s.base b x)
              grants := update s.grants x none
              loaded := ⟨x, g, s.base.table.readonlyFlags (x / 8)⟩ :: s.loaded }
      else none
  | .store p =>
    if p ∈ s.loaded then
      some { base := s.base.setTable (stored s.base.table p)
             grants := update s.grants p.x (some p.grant)
             loaded := s.loaded.erase p }
    else none
  | .resume =>
    some { s with base := s.base.orAssert (gnttabResume (fun _ => 0) s.base.table) s.base.setTable }

end Granted

/-- A store has the bits of the other grants as they are. -/
def KeepsBits (s : Granted) : GrantedAct → Prop
  | .store p => ∀ k < 8, p.x / 8 * 8 + k ≠ p.x → (s.grants (p.x / 8 * 8 + k)).isSome →
      p.byte.getLsbD k = s.base.table.readonly (p.x / 8 * 8 + k)
  | _ => True

instance (s : Granted) (a : GrantedAct) : Decidable (KeepsBits s a) := by
  unfold KeepsBits
  split <;> infer_instance

/-! ## The copies -/

/-- The lists move without the entries in use and without the copies. -/
structure SameCopies (t t' : Table) : Prop where
  pfns : t'.pfns = t.pfns
  domids : t'.domids = t.domids
  readonlyFlags : t'.readonlyFlags = t.readonlyFlags
  frames : t.nrGrantFrames ≤ t'.nrGrantFrames
  bound : t.nrGrantFrames ≤ maxNrGrantFrames → t'.nrGrantFrames ≤ maxNrGrantFrames
  entry : t.nrGrantFrames ≤ maxNrGrantFrames →
    ∀ x < grantEntriesPerPage * t.nrGrantFrames, t'.entry x = t.entry x

section Copies
variable {env : Nat → FrameAnswer} {t t' t'' : Table} {gc gc' : GrantCache} {ref : GrantRef}

theorem SameCopies.of_eq (h1 : t'.pfns = t.pfns) (h2 : t'.domids = t.domids)
    (h3 : t'.readonlyFlags = t.readonlyFlags) (h4 : t'.nrGrantFrames = t.nrGrantFrames)
    (h5 : t'.entry = t.entry) : SameCopies t t' :=
  ⟨h1, h2, h3, Nat.le_of_eq h4.symm, fun h => h4 ▸ h, fun _ _ _ => by rw [h5]⟩

theorem SameCopies.trans (h : SameCopies t t') (h' : SameCopies t' t'') : SameCopies t t'' := by
  refine ⟨h'.pfns.trans h.pfns, h'.domids.trans h.domids,
    h'.readonlyFlags.trans h.readonlyFlags, Nat.le_trans h.frames h'.frames,
    fun hb => h'.bound (h.bound hb), fun hb x hx => ?_⟩
  have hf := Nat.mul_le_mul_left grantEntriesPerPage h.frames
  rw [h'.entry (h.bound hb) x (Nat.lt_of_lt_of_le hx hf), h.entry hb x hx]

theorem copies_lock (t : Table) (lock : IrqLock) : SameCopies t { t with lock := lock } :=
  .of_eq rfl rfl rfl rfl rfl

theorem copies_lockUnless (t : Table) (locked : Bool) : SameCopies t (t.lockUnless locked) := by
  unfold Table.lockUnless
  split <;> exact .of_eq rfl rfl rfl rfl rfl

theorem copies_unlockUnless (t : Table) (locked : Bool) (irql : Nat) :
    SameCopies t (t.unlockUnless locked irql) := by
  unfold Table.unlockUnless
  split <;> exact .of_eq rfl rfl rfl rfl rfl

theorem putFreeEntry_entry {locked : Bool} (h : putFreeEntry t ref locked = some t') :
    t'.entry = t.entry := by
  unfold putFreeEntry at h
  cases xmAssert_bind (xmAssert_bind h)
  cases locked <;> rfl

theorem putFreeEntry_copies {locked : Bool} (h : putFreeEntry t ref locked = some t') :
    SameCopies t t' := by
  unfold putFreeEntry at h
  cases xmAssert_bind (xmAssert_bind h)
  refine (copies_lockUnless t locked).trans (.trans ?_ (copies_unlockUnless _ locked _))
  exact .of_eq rfl rfl rfl rfl rfl

theorem hookUp_copies {xs : List Nat} (h : hookUp xs t = some t') :
    t'.pfns = t.pfns ∧ t'.domids = t.domids ∧ t'.readonlyFlags = t.readonlyFlags ∧
      t'.nrGrantFrames = t.nrGrantFrames := by
  induction xs generalizing t with
  | nil => cases h; exact ⟨rfl, rfl, rfl, rfl⟩
  | cons x xs ih =>
    unfold hookUp at h
    simp only at h
    split at h
    · exact ih h
    · obtain ⟨t1, h1, h⟩ := Option.bind_eq_some_iff.mp h
      unfold putFreeEntry at h1
      cases xmAssert_bind (xmAssert_bind h1)
      obtain ⟨hp, hd, hr, hn⟩ := ih h
      exact ⟨hp, hd, hr, hn⟩

/-- A new frame is hooked up beside the entries that are there. -/
theorem hookUp_entry {xs : List Nat} {m : Nat} (hxs : ∀ x ∈ xs, m ≤ x ∧ x < 16384)
    (h : hookUp xs t = some t') : ∀ x < m, t'.entry x = t.entry x := by
  induction xs generalizing t with
  | nil => cases h; exact fun _ _ => rfl
  | cons x xs ih =>
    obtain ⟨hle, hlt⟩ := hxs x List.mem_cons_self
    have hxs' := fun y hy => hxs y (List.mem_cons_of_mem x hy)
    unfold hookUp at h
    simp only at h
    split at h
    · exact ih hxs' h
    · obtain ⟨t1, h1, h⟩ := Option.bind_eq_some_iff.mp h
      intro y hy
      rw [ih hxs' h y hy, putFreeEntry_entry h1]
      simp only [Table.setEntry, xenGrantRef_wrap hlt]
      exact update_of_ne (by omega) _ _

theorem expandGrantTable_copies (h : expandGrantTable env t = some t') : SameCopies t t' := by
  unfold expandGrantTable at h
  split at h
  · cases h; exact .of_eq rfl rfl rfl rfl rfl
  · next hmax =>
    split at h
    · cases h; exact .of_eq rfl rfl rfl rfl rfl
    · cases h; exact .of_eq rfl rfl rfl rfl rfl
    · obtain ⟨hp, hd, hr, hn⟩ := hookUp_copies h
      have hlt : t.nrGrantFrames ≤ maxNrGrantFrames → t.nrGrantFrames < maxNrGrantFrames :=
        fun hb => Nat.lt_of_le_of_ne hb fun e => hmax (.inl e)
      refine ⟨hp, hd, hr, by rw [hn]; exact Nat.le_succ _, fun hb => by rw [hn]; exact hlt hb,
        fun hb x hx => ?_⟩
      refine hookUp_entry (m := grantEntriesPerPage * t.nrGrantFrames) (fun y hy => ?_) h x hx
      have hb := hlt hb
      simp only [List.mem_range'_1, grantEntriesPerPage, maxNrGrantFrames] at hy hb ⊢
      omega

theorem getFreeEntry_copies {locked : Bool} (h : getFreeEntry env t locked = some (ref, t')) :
    SameCopies t t' := by
  unfold getFreeEntry at h
  obtain ⟨t1, h1, h⟩ := Option.bind_eq_some_iff.mp h
  have hs1 : SameCopies t t1 := by
    refine (copies_lockUnless t locked).trans ?_
    unfold ensureFree at h1
    split at h1
    · exact expandGrantTable_copies h1
    · cases h1; exact .of_eq rfl rfl rfl rfl rfl
  simp only at h
  split at h
  · cases h; exact hs1.trans (.of_eq rfl rfl rfl rfl rfl)
  · obtain ⟨⟨ref2, t2⟩, h2, h⟩ := Option.bind_eq_some_iff.mp h
    cases h
    unfold popFreeEntry at h2
    cases xmAssert_bind (xmAssert_bind (xmAssert_bind h2))
    refine hs1.trans (.trans ?_ (copies_unlockUnless _ locked _))
    exact .of_eq rfl rfl rfl rfl rfl

theorem putCacheEntry_copies (h : putCacheEntry t gc ref = some (t', gc')) : SameCopies t t' := by
  unfold putCacheEntry at h
  cases xmAssert_bind (xmAssert_bind h)
  exact .of_eq rfl rfl rfl rfl rfl

theorem getCacheEntry_copies (h : getCacheEntry t gc = some (ref, t', gc')) : SameCopies t t' := by
  unfold getCacheEntry at h
  split at h
  · cases h; exact .of_eq rfl rfl rfl rfl rfl
  · cases xmAssert_bind (xmAssert_bind (xmAssert_bind h))
    exact .of_eq rfl rfl rfl rfl rfl

theorem replenishLoop_copies {target n : Nat}
    (h : replenishLoop env target n t gc = some (t', gc')) : SameCopies t t' := by
  induction n generalizing t gc with
  | zero => cases h; exact .of_eq rfl rfl rfl rfl rfl
  | succ n ih =>
    unfold replenishLoop at h
    split at h
    · obtain ⟨⟨ref, t1⟩, h1, h⟩ := Option.bind_eq_some_iff.mp h
      have hs1 := getFreeEntry_copies h1
      simp only at h
      split at h
      · cases h; exact hs1
      · obtain ⟨⟨t2, gc2⟩, h2, h⟩ := Option.bind_eq_some_iff.mp h
        exact hs1.trans ((putCacheEntry_copies h2).trans (ih h))
    · cases h; exact .of_eq rfl rfl rfl rfl rfl

theorem replenishCache_copies {target : Nat}
    (h : replenishCache env t gc target = some (t', gc')) : SameCopies t t' := by
  unfold replenishCache at h
  obtain ⟨⟨t1, gc1⟩, hloop, h⟩ := Option.bind_eq_some_iff.mp (xmAssert_bind h)
  cases h
  exact (copies_lock t _).trans ((replenishLoop_copies hloop).trans (copies_lock t1 _))

theorem trimLoop_copies {target n : Nat} (h : trimLoop target n t gc = some (t', gc')) :
    SameCopies t t' := by
  induction n generalizing t gc with
  | zero => cases h; exact .of_eq rfl rfl rfl rfl rfl
  | succ n ih =>
    unfold trimLoop at h
    split at h
    · obtain ⟨⟨ref, t1, gc1⟩, h1, h⟩ := Option.bind_eq_some_iff.mp h
      obtain ⟨t2, h2, h⟩ := Option.bind_eq_some_iff.mp (xmAssert_bind h)
      exact (getCacheEntry_copies h1).trans ((putFreeEntry_copies h2).trans (ih h))
    · cases h; exact .of_eq rfl rfl rfl rfl rfl

theorem trimCache_copies {target : Nat} (h : trimCache t gc target = some (t', gc')) :
    SameCopies t t' := by
  unfold trimCache at h
  obtain ⟨⟨t1, gc1⟩, hloop, h⟩ := Option.bind_eq_some_iff.mp (xmAssert_bind h)
  cases h
  exact (copies_lock t _).trans ((trimLoop_copies hloop).trans (copies_lock t1 _))

theorem emptyCache_copies (h : emptyCache t gc = some (t', gc')) : SameCopies t t' := by
  unfold emptyCache at h
  exact trimCache_copies (xmAssert_bind h)

theorem giveBackCache_copies (h : giveBackCache t ref gc = some (t', gc')) : SameCopies t t' := by
  unfold giveBackCache at h
  obtain ⟨⟨t1, gc1⟩, h1, h⟩ := Option.bind_eq_some_iff.mp h
  simp only at h
  split at h
  · exact (putCacheEntry_copies h1).trans (trimCache_copies h)
  · cases h; exact putCacheEntry_copies h1

theorem getCacheEntryReplenish_copies
    (h : getCacheEntryReplenish env t gc = some (ref, t', gc')) : SameCopies t t' := by
  unfold getCacheEntryReplenish at h
  obtain ⟨⟨ref1, t1, gc1⟩, h1, h⟩ := Option.bind_eq_some_iff.mp h
  simp only at h
  split at h
  · obtain ⟨⟨t2, gc2⟩, h2, h⟩ := Option.bind_eq_some_iff.mp h
    exact (getCacheEntry_copies h1).trans
      ((replenishCache_copies h2).trans (getCacheEntry_copies h))
  · cases h; exact getCacheEntry_copies h1

theorem fillCache_copies {addr id minPop : Nat} {gc? : Option GrantCache}
    (h : fillCache env t addr id minPop = some (gc?, t')) : SameCopies t t' := by
  unfold fillCache at h
  simp only at h
  split at h
  · obtain ⟨⟨t1, gc1⟩, h1, h⟩ := Option.bind_eq_some_iff.mp h
    simp only at h
    split at h
    · cases h; exact replenishCache_copies h1
    · obtain ⟨⟨t2, gc2⟩, h2, h⟩ := Option.bind_eq_some_iff.mp h
      cases h
      exact (replenishCache_copies h1).trans (emptyCache_copies h2)
  · cases h; exact .of_eq rfl rfl rfl rfl rfl

end Copies

/-! ## One reference -/

/-- The copies of frame and domain, and the entry unless its frame is zero, are those of `g`. -/
structure Copied (t : Table) (x : Nat) (g : Grant) : Prop where
  pfn : t.pfns x = g.frame
  domid : t.domids x = g.domid
  entry : g.frame ≠ 0 → (t.entry x).frame = g.frame ∧ (t.entry x).domid = g.domid

/-- They say that `g` is granted. -/
structure Shadows (t : Table) (x : Nat) (g : Grant) : Prop extends Copied t x g where
  readonly : t.readonly x = decide (g.mode = .ro)

/-- The two tables agree on what is granted by a reference. -/
structure SameAt (t t' : Table) (x : Nat) : Prop where
  pfn : t'.pfns x = t.pfns x
  domid : t'.domids x = t.domids x
  readonly : t'.readonly x = t.readonly x
  frame : (t'.entry x).frame = (t.entry x).frame
  entryDomid : (t'.entry x).domid = (t.entry x).domid

section At
variable {env : Nat → FrameAnswer} {t t' t'' : Table} {ref : GrantRef} {x : Nat} {g : Grant}

theorem SameAt.trans (h : SameAt t t' x) (h' : SameAt t' t'' x) : SameAt t t'' x :=
  ⟨h'.1.trans h.1, h'.2.trans h.2, h'.3.trans h.3, h'.4.trans h.4, h'.5.trans h.5⟩

theorem SameCopies.at (h : SameCopies t t') (hb : t.nrGrantFrames ≤ maxNrGrantFrames)
    (hx : x < grantEntriesPerPage * t.nrGrantFrames) : SameAt t t' x := by
  have he := h.entry hb x hx
  refine ⟨by rw [h.pfns], by rw [h.domids], ?_, by rw [he], by rw [he]⟩
  rw [Table.readonly, Table.readonly, h.readonlyFlags]

theorem Copied.keep (h : Copied t x g) (hs : SameAt t t' x) : Copied t' x g := by
  refine ⟨hs.pfn.trans h.pfn, hs.domid.trans h.domid, fun hg => ?_⟩
  rw [hs.frame, hs.entryDomid]
  exact h.entry hg

theorem Shadows.keep (h : Shadows t x g) (hs : SameAt t t' x) : Shadows t' x g :=
  ⟨h.toCopied.keep hs, hs.readonly.trans h.readonly⟩

theorem update_flags (e : Nat → GrantEntry) (x flags y : Nat) :
    (update e x { e x with flags } y).frame = (e y).frame ∧
      (update e x { e x with flags } y).domid = (e y).domid := by
  by_cases h : y = x
  · rw [h, update_self]
    exact ⟨rfl, rfl⟩
  · rw [update_of_ne h]
    exact ⟨rfl, rfl⟩

/-- Flags and read-only bits are not in the copies. -/
theorem Copied.flags {flags y : Nat} {bits : Nat → BitVec 8} (h : Copied t y g) (x : Nat) :
    Copied { t with entry := update t.entry x { t.entry x with flags }
                    readonlyFlags := bits } y g := by
  refine ⟨h.pfn, h.domid, fun hg => ?_⟩
  obtain ⟨hf, hd⟩ := update_flags t.entry x flags y
  exact ⟨hf.trans (h.entry hg).1, hd.trans (h.entry hg).2⟩

theorem getLsbD_setReadonly (b : BitVec 8) {j k : Nat} (hj : j < 8) (readonly : Bool) :
    (setReadonly b k readonly).getLsbD j = if j = k then readonly else b.getLsbD j := by
  have hone : (1#8 <<< k).getLsbD j = decide (j = k) := by
    rw [BitVec.getLsbD_shiftLeft, BitVec.getLsbD_one]
    simp only [hj, decide_true, Bool.true_and]
    grind
  unfold setReadonly
  split
  · rw [BitVec.getLsbD_or, hone]
    split <;> simp [*]
  · rw [BitVec.getLsbD_and, BitVec.getLsbD_not, hone]
    split <;> simp [*]

/-- A store writes the bit of its reference, and those in the byte as they were loaded. -/
theorem readonly_storeReadonly (t : Table) (x y : Nat) (b : BitVec 8) (readonly : Bool) :
    (t.storeReadonly x b readonly).readonly y =
      if y = x then readonly else if y / 8 = x / 8 then b.getLsbD (y % 8) else t.readonly y := by
  simp only [Table.readonly, Table.storeReadonly]
  by_cases hd : y / 8 = x / 8
  · rw [hd, update_self, getLsbD_setReadonly b (Nat.mod_lt _ (by decide)), if_pos rfl]
    simp only [show y % 8 = x % 8 ↔ y = x by omega]
  · rw [update_of_ne hd, if_neg hd, if_neg fun e => hd (by rw [e])]

theorem gnttabGrantForeignAccessRef_copies {domid frame : Nat} {mode : GrantMode}
    (h : gnttabGrantForeignAccessRef t domid frame mode ref = some t') :
    Shadows t' (xenGrantRef ref) ⟨domid, frame, mode⟩ ∧
      ∀ x ≠ xenGrantRef ref, SameAt t t' x := by
  unfold gnttabGrantForeignAccessRef at h
  cases xmAssert_bind h
  have hbit := fun y => readonly_storeReadonly t (xenGrantRef ref) y
    (t.readonlyFlags (xenGrantRef ref / 8)) (decide (mode = .ro))
  refine ⟨⟨⟨?_, ?_, fun _ => ?_⟩, (hbit _).trans (if_pos rfl)⟩, fun x hx => ⟨?_, ?_, ?_, ?_, ?_⟩⟩
  · simp only [update_self]
  · simp only [update_self]
  · simp only [Table.setEntry, update_self, and_self]
  · simp only [Table.storeReadonly, update_of_ne hx]
  · simp only [Table.storeReadonly, update_of_ne hx]
  · refine (hbit x).trans ((if_neg hx).trans ?_)
    split
    · next hd => rw [Table.readonly, hd]
    · rfl
  · simp only [Table.storeReadonly, Table.setEntry, update_of_ne hx]
  · simp only [Table.storeReadonly, Table.setEntry, update_of_ne hx]

theorem gnttabEndForeignAccessRef_copies {raced : List Nat} {done : Bool}
    (h : gnttabEndForeignAccessRef t ref raced = some (done, t')) :
    t'.nrGrantFrames = t.nrGrantFrames ∧ (done = true → t'.pfns (xenGrantRef ref) = 0) ∧
      ∀ x, (done = true → x ≠ xenGrantRef ref) → SameAt t t' x := by
  unfold gnttabEndForeignAccessRef at h
  have h := xmAssert_bind h
  simp only at h
  split at h
  · cases h
    refine ⟨rfl, fun _ => by simp only [update_self], fun x hx => ?_⟩
    have hx := hx rfl
    refine ⟨?_, ?_, rfl, ?_, ?_⟩ <;> simp only [Table.setEntry, update_of_ne hx]
  · cases h
    refine ⟨rfl, (fun e => absurd e Bool.false_ne_true), fun x _ => ?_⟩
    -- only the flags are stored to
    by_cases hx : x = xenGrantRef ref
    · rw [hx]
      refine ⟨rfl, rfl, rfl, ?_, ?_⟩ <;> simp only [Table.setEntry, update_self]
    · refine ⟨rfl, rfl, rfl, ?_, ?_⟩ <;>
        simp only [Table.setEntry, update_of_ne hx]

end At

/-! ## One call -/

/-- What a call does to the copies at `x`: it grants, ends a grant, or leaves them. -/
def CopyStep (s : State) (a : Act) (b : State) (x : Nat) : Prop :=
  (x ∈ granted s a b ∧ ∃ g, a.grant? = some g ∧ Shadows b.table x g) ∨
  (x ∉ granted s a b ∧ x ∈ ended s a b ∧ b.table.pfns x = 0) ∨
  (x ∉ granted s a b ∧ x ∉ ended s a b ∧ b.table.pfns x = s.table.pfns x ∧
    (x < grantEntriesPerPage * s.table.nrGrantFrames → SameAt s.table b.table x))

section Calls
variable {env : Nat → FrameAnswer} {s b : State} {a : Act} {x : Nat}

theorem Conserved.frames (h : Conserved s) : s.table.nrGrantFrames ≤ maxNrGrantFrames := by
  obtain ⟨-, free, chain, h⟩ := h
  exact h.own.frames

/-- A call that only moves references. -/
theorem CopyStep.lists (h : Conserved s) (hg : x ∉ granted s a b) (he : x ∉ ended s a b)
    (hc : SameCopies s.table b.table) : CopyStep s a b x :=
  .inr (.inr ⟨hg, he, by rw [hc.pfns], hc.at h.frames⟩)

/-- A call that takes a reference and grants it. -/
theorem CopyStep.grant {t : Table} {ref : GrantRef} {g : Grant} (h : Conserved s)
    (hg : granted s a b = [xenGrantRef ref]) (he : x ∉ ended s a b) (ha : a.grant? = some g)
    (hc : SameCopies s.table t)
    (hr : gnttabGrantForeignAccessRef t g.domid g.frame g.mode ref = some b.table) :
    CopyStep s a b x := by
  obtain ⟨hnew, hold⟩ := gnttabGrantForeignAccessRef_copies hr
  by_cases hx : x = xenGrantRef ref
  · rw [hx]
    exact .inl ⟨by rw [hg]; exact List.mem_singleton_self _, g, ha, hnew⟩
  · refine .inr (.inr ⟨by rw [hg, List.mem_singleton]; exact hx, he, ?_, fun hlt => ?_⟩)
    · rw [(hold x hx).pfn, hc.pfns]
    · exact (hc.at h.frames hlt).trans (hold x hx)

/-- A call that ends a grant, or finds it busy. -/
theorem CopyStep.end {t : Table} {ref : GrantRef} {raced : List Nat} {done : Bool}
    (h : Conserved s) (hg : x ∉ granted s a b)
    (he : ended s a b = if done then [xenGrantRef ref] else [])
    (hr : gnttabEndForeignAccessRef s.table ref raced = some (done, t))
    (hc : SameCopies t b.table) : CopyStep s a b x := by
  obtain ⟨hn, hzero, hold⟩ := gnttabEndForeignAccessRef_copies hr
  by_cases hx : done = true ∧ x = xenGrantRef ref
  · refine .inr (.inl ⟨hg, ?_, ?_⟩)
    · rw [he, if_pos hx.1, hx.2]
      exact List.mem_singleton_self _
    · rw [hx.2, hc.pfns]
      exact hzero hx.1
  · have hsame := hold x fun hd e => hx ⟨hd, e⟩
    refine .inr (.inr ⟨hg, ?_, by rw [hc.pfns]; exact hsame.pfn, fun hlt => ?_⟩)
    · rw [he]
      split
      · next hd => rw [List.mem_singleton]; exact fun e => hx ⟨hd, e⟩
      · exact List.not_mem_nil
    · exact hsame.trans (hc.at (hn ▸ h.frames) (by rw [hn]; exact hlt))

theorem granted_none (out : List (GrantRef × Option Nat)) :
    (out.take (out.length - out.length)).map (xenGrantRef ·.1) = [] := by
  rw [Nat.sub_self]
  rfl

theorem granted_cons (o : GrantRef × Option Nat) (out : List (GrantRef × Option Nat)) :
    ((o :: out).take ((o :: out).length - out.length)).map (xenGrantRef ·.1) =
      [xenGrantRef o.1] := by
  rw [List.length_cons, Nat.add_sub_cancel_left]
  rfl

theorem ended_erase {o : GrantRef × Option Nat} {out : List (GrantRef × Option Nat)} {y : Nat}
    (ho : o ∈ out) (done : Bool) :
    (if (if done then out.erase o else out).length < out.length then [y] else []) =
      if done then [y] else [] := by
  have hlen := List.length_erase_of_mem ho
  have hpos := List.length_pos_of_mem ho
  cases done with
  | true => simp only [if_true]; rw [if_pos (by omega)]
  | false => simp

theorem copyStep (h : Conserved s) (hm : a.mapped s.table = true) (hs : step env s a = some b) :
    CopyStep s a b x := by
  have hfail := (h.step hs).1
  have hnil : x ∉ ([] : List Nat) := List.not_mem_nil
  cases step_cases hs with
  | failed => cases hfail
  | getGrantRef h1 => exact .lists h hnil hnil (getFreeEntry_copies h1)
  | @grantRef ref domid frame mode _ _ h1 =>
    exact .grant (g := ⟨domid, frame, mode⟩) h rfl hnil rfl (.of_eq rfl rfl rfl rfl rfl) h1
  | noReference h1 =>
    refine .lists h ?_ hnil (getFreeEntry_copies h1)
    simp only [granted, granted_none]
    exact hnil
  | @grant ref domid frame mode _ _ h1 _ h2 =>
    exact .grant (g := ⟨domid, frame, mode⟩) h (granted_cons _ _) hnil rfl (getFreeEntry_copies h1) h2
  | @endAccess ref raced done _ _ ho h1 h2 =>
    refine .end h hnil (ended_erase ho done) h1 ?_
    cases done with
    | false => rw [h2]; exact .of_eq rfl rfl rfl rfl rfl
    | true => exact putFreeEntry_copies h2
  | noMemory => exact .lists h hnil hnil (.of_eq rfl rfl rfl rfl rfl)
  | notFilled _ h1 | allocCache _ h1 => exact .lists h hnil hnil (fillCache_copies h1)
  | freeCache h1 => exact .lists h hnil hnil (emptyCache_copies h1)
  | cacheEmpty _ h1 =>
    refine .lists h ?_ hnil (getCacheEntryReplenish_copies h1)
    simp only [granted, granted_none]
    exact hnil
  | @grantCache _ domid frame mode _ _ _ _ _ _ h1 _ h2 =>
    exact .grant (g := ⟨domid, frame, mode⟩) h (granted_cons _ _) hnil rfl
      (getCacheEntryReplenish_copies h1) h2
  | @endAccessCache _ ref raced done _ _ _ _ _ ho h1 h2 =>
    refine .end h hnil (ended_erase ho done) h1 ?_
    cases done with
    | false => rw [h2.1]; exact .of_eq rfl rfl rfl rfl rfl
    | true => exact giveBackCache_copies h2
  | @remote y flags =>
    have hlt := of_decide_eq_true hm
    have hf := h.frames
    have hy : xenGrantRef (wrapGrantRef y 0) = y := by
      apply xenGrantRef_wrap
      simp only [grantEntriesPerPage, maxNrGrantFrames] at hlt hf
      omega
    refine .inr (.inr ⟨List.not_mem_nil, List.not_mem_nil, rfl, fun _ => ?_⟩)
    by_cases hx : x = y
    · rw [hx]
      refine ⟨rfl, rfl, rfl, ?_, ?_⟩ <;> simp only [Table.setEntry, hy, update_self]
    · refine ⟨rfl, rfl, rfl, ?_, ?_⟩ <;>
        simp only [Table.setEntry, hy, update_of_ne hx]

end Calls

/-! ## The loop -/

section Loop
variable {t t' : Table} {x : Nat} {g : Grant}

/-- The entry the loop writes. -/
def restored (t : Table) (x : Nat) : GrantEntry :=
  ⟨gtfPermitAccess ||| (if t.readonly x then gtfReadonly else 0), t.domids x, t.pfns x⟩

theorem restoreLoop_spec (t : Table) {n : Nat} (hn : n ≤ 16384) :
    ∃ e, (List.range n).foldl restoreEntry t = { t with entry := e } ∧
      ∀ x, e x = if x < n ∧ t.pfns x ≠ 0 then restored t x else t.entry x := by
  induction n with
  | zero => exact ⟨t.entry, rfl, fun x => by simp⟩
  | succ n ih =>
    obtain ⟨e, he, hx⟩ := ih (by omega)
    rw [List.range_succ, List.foldl_append, he, List.foldl_cons, List.foldl_nil]
    by_cases hp : t.pfns n ≠ 0
    · refine ⟨update e n (restored t n), ?_, fun x => ?_⟩
      · simp only [restoreEntry, if_pos hp, Table.setEntry, xenGrantRef_wrap (show n < 16384 by omega)]
        rfl
      · by_cases h : x = n
        · rw [h, update_self, if_pos ⟨Nat.lt_succ_self n, hp⟩]
        · rw [update_of_ne h, hx]
          simp only [show x < n + 1 ↔ x < n by omega]
    · refine ⟨e, by simp only [restoreEntry, if_neg hp], fun x => ?_⟩
      rw [hx]
      by_cases h : x = n
      · rw [h, if_neg (by simp), if_neg fun h' => hp h'.2]
      · simp only [show x < n + 1 ↔ x < n by omega]

theorem gnttabResume_spec (hb : t.nrGrantFrames ≤ maxNrGrantFrames) :
    ∃ e, gnttabResume (fun _ => 0) t = some { t with entry := e } ∧
      ∀ x, e x = if x < grantEntriesPerPage * t.nrGrantFrames ∧ t.pfns x ≠ 0 then restored t x
        else ⟨0, 0, 0⟩ := by
  have hn : t.nrGrantFrames * grantEntriesPerPage ≤ 16384 := by
    simp only [maxNrGrantFrames, grantEntriesPerPage] at hb ⊢
    omega
  obtain ⟨e, he, hx⟩ := restoreLoop_spec { t with entry := fun _ => ⟨0, 0, 0⟩ } hn
  refine ⟨e, ?_, fun x => ?_⟩
  · simp only [gnttabResume, he, Option.bind_eq_bind]
    rw [xmAssert_pos fun _ _ => trivial, Option.bind_some]
  · rw [hx, Nat.mul_comm]
    rfl

end Loop

/-! ## The invariant -/

structure Recorded (s : Granted) : Prop where
  conserved : Conserved s.base
  handed : ∀ x g, s.grants x = some g → x ∈ s.base.handed
  shadows : ∀ x g, s.grants x = some g → Shadows s.base.table x g
  blank : ∀ x, s.grants x = none → (∀ p ∈ s.loaded, p.x ≠ x) → s.base.table.pfns x = 0
  loaded : ∀ p ∈ s.loaded, p.x ∈ s.base.handed ∧ s.grants p.x = none ∧
    Copied s.base.table p.x p.grant
  once : (s.loaded.map (·.x)).Nodup

section Recorded
variable {env : Nat → FrameAnswer} {s s' : Granted} {b : State} {a : Act} {x : Nat}

theorem ended_ref {s : State} (hx : x ∈ ended s a b) : a.ref? = some x := by
  cases a with
  | endAccess ref raced | endAccessCache addr ref raced =>
    rw [ended] at hx
    split at hx
    · exact congrArg some (List.mem_singleton.mp hx).symm
    · cases hx
  | grantRef _ _ _ _ | grant _ _ _ | grantCache _ _ _ _ | getGrantRef | allocCache _ _ | freeCache _
  | remote _ _ => cases hx

/-- A call grants one reference at most, and a granting call ends no access. -/
theorem granted_single {s : State} {g : Grant} (ha : a.grant? = some g)
    (hs : step env s a = some b) :
    (granted s a b = [] ∨ ∃ y, granted s a b = [y]) ∧ ended s a b = [] := by
  cases step_cases hs with
  | failed =>
    cases a with
    | grantRef => exact ⟨.inr ⟨_, rfl⟩, rfl⟩
    | grant | grantCache => exact ⟨.inl (granted_none _), rfl⟩
    | _ => cases ha
  | grantRef _ _ => exact ⟨.inr ⟨_, rfl⟩, rfl⟩
  | noReference _ | cacheEmpty _ _ => exact ⟨.inl (granted_none _), rfl⟩
  | grant _ _ _ | grantCache _ _ _ _ => exact ⟨.inr ⟨_, granted_cons _ _⟩, rfl⟩
  | _ => cases ha

theorem handed_erase {o : GrantRef × Option Nat} {out : List (GrantRef × Option Nat)} {done : Bool}
    (ho : o ∈ out) (hx : x ∈ out.map (xenGrantRef ·.1))
    (he : x ∉ (if (if done then out.erase o else out).length < out.length then [xenGrantRef o.1]
      else [])) : x ∈ (if done then out.erase o else out).map (xenGrantRef ·.1) := by
  rw [ended_erase ho] at he
  cases done with
  | false => exact hx
  | true =>
    obtain ⟨o', hm, rfl⟩ := List.mem_map.mp hx
    refine List.mem_map.mpr ⟨o', (List.mem_erase_of_ne fun e => he ?_).mpr hm, rfl⟩
    rw [e]
    exact List.mem_singleton_self _

/-- A reference leaves its caller's hands only when the access is ended. -/
theorem handed_kept {s : State} (hs : step env s a = some b) (hx : x ∈ s.handed)
    (he : x ∉ ended s a b) : x ∈ b.handed := by
  have hgrow : (∃ l, b.outstanding = l ++ s.outstanding) → x ∈ b.handed := by
    rintro ⟨l, hl⟩
    rw [State.handed, hl, List.map_append]
    exact List.mem_append_right _ hx
  cases step_cases hs with
  | failed => exact hx
  | endAccess ho _ _ | endAccessCache _ ho _ _ => exact handed_erase ho hx he
  | _ => exact hgrow (step_outstanding (by simp) (by simp) hs)

theorem Conserved.handed_lt {s : State} (h : Conserved s) (hx : x ∈ s.handed) :
    x < grantEntriesPerPage * s.table.nrGrantFrames := by
  obtain ⟨-, free, chain, h⟩ := h
  obtain ⟨o, ho, rfl⟩ := List.mem_map.mp hx
  exact (h.own.small (List.mem_append_right _ (elsewhere_mem ho))).1

theorem Granted.free_iff : s.free a = true ↔ ∀ p ∈ s.loaded, a.ref? ≠ some p.x := by
  simp only [Granted.free, List.all_eq_true, decide_eq_true_eq]

theorem Recorded.call (h : Recorded s) (hm : a.mapped s.base.table = true) (hf : s.free a = true)
    (hs : step env s.base a = some b) :
    Recorded { s with
      base := b
      grants := fun x => if x ∈ granted s.base a b then a.grant?
        else if x ∈ ended s.base a b then none else s.grants x } := by
  have hb := h.conserved.step hs
  have hcopy := fun x => copyStep (x := x) h.conserved hm hs
  refine ⟨hb, fun x g hg => ?_, fun x g hg => ?_, fun x hg hl => ?_, fun p hp => ?_, h.once⟩
  · simp only at hg
    split at hg
    · next hx => exact (granted_new hb hs hx).1
    · split at hg
      · cases hg
      · next he => exact handed_kept hs (h.handed x g hg) he
  · obtain ⟨hx, g', ha, hsh⟩ | ⟨hx, he, -⟩ | ⟨hx, he, -, hsame⟩ := hcopy x
    · simp only [if_pos hx, ha] at hg
      exact Option.some.inj hg ▸ hsh
    · simp only [if_neg hx, if_pos he] at hg
      cases hg
    · simp only [if_neg hx, if_neg he] at hg
      exact (h.shadows x g hg).keep (hsame (h.conserved.handed_lt (h.handed x g hg)))
  · obtain ⟨hx, g', ha, hsh⟩ | ⟨hx, he, hz⟩ | ⟨hx, he, hp, -⟩ := hcopy x
    · simp only [if_pos hx, ha] at hg
      cases hg
    · exact hz
    · simp only [if_neg hx, if_neg he] at hg
      exact hp.trans (h.blank x hg hl)
  · obtain ⟨hh, hg, hc⟩ := h.loaded p hp
    have href := Granted.free_iff.mp hf p hp
    have hx : p.x ∉ granted s.base a b := fun hx => href ((granted_new hb hs hx).2 hh)
    have he : p.x ∉ ended s.base a b := fun he => href (ended_ref he)
    refine ⟨handed_kept hs hh he, by simp only [if_neg hx, if_neg he, hg], ?_⟩
    obtain ⟨hx', -⟩ | ⟨-, he', -⟩ | ⟨-, -, -, hsame⟩ := hcopy p.x
    · exact absurd hx' hx
    · exact absurd he' he
    · exact hc.keep (hsame (h.conserved.handed_lt hh))

theorem update_none_some {f : Nat → Option Grant} {x y : Nat} {g : Grant}
    (h : update f x none y = some g) : y ≠ x ∧ f y = some g := by
  have hne : y ≠ x := by
    rintro rfl
    rw [update_self] at h
    cases h
  exact ⟨hne, (update_of_ne hne ..).symm.trans h⟩

theorem update_some_none {f : Nat → Option Grant} {x y : Nat} {g : Grant}
    (h : update f x (some g) y = none) : y ≠ x ∧ f y = none := by
  have hne : y ≠ x := by
    rintro rfl
    rw [update_self] at h
    cases h
  exact ⟨hne, (update_of_ne hne ..).symm.trans h⟩

/-- The load takes the byte as it is, and leaves it and the flags of the reference. -/
theorem Recorded.load (h : Recorded s) {g : Grant} (ha : a.grant? = some g) (hf : s.free a = true)
    (hs : step env s.base a = some b) (hg : granted s.base a b = [x]) :
    Recorded { base := b.setTable (Granted.unstored s.base b x)
               grants := update s.grants x none
               loaded := ⟨x, g, s.base.table.readonlyFlags (x / 8)⟩ :: s.loaded } := by
  have hm : a.mapped s.base.table = true := by
    cases a with
    | remote y flags => cases ha
    | _ => rfl
  have hc := h.call hm hf hs
  rw [hg, (granted_single ha hs).2, ha] at hc
  have hgrants : ∀ y ≠ x, (if y ∈ [x] then some g else if y ∈ [] then none else s.grants y)
      = s.grants y := fun y hy => by
    rw [if_neg (by simpa using hy), if_neg List.not_mem_nil]
  have hself : (if x ∈ [x] then some g else if x ∈ [] then none else s.grants x) = some g :=
    if_pos (List.mem_singleton_self x)
  have hnew : ∀ p ∈ s.loaded, p.x ≠ x := fun p hp e =>
    Granted.free_iff.mp hf p hp (e ▸ (granted_new (hc.conserved) hs
      (hg ▸ List.mem_singleton_self x)).2 (e ▸ (h.loaded p hp).1))
  refine ⟨hc.conserved.setTable ⟨rfl, rfl, rfl, rfl⟩, fun y g' hy => ?_, fun y g' hy => ?_,
    fun y hy hl => ?_, fun p hp => ?_, ?_⟩
  · obtain ⟨hne, hy⟩ := update_none_some hy
    exact hc.handed y g' ((hgrants y hne).trans hy)
  · obtain ⟨hne, hy⟩ := update_none_some hy
    exact ⟨(hc.shadows y g' ((hgrants y hne).trans hy)).toCopied.flags x, (h.shadows y g' hy).readonly⟩
  · have hne : y ≠ x := fun e => hl _ List.mem_cons_self e.symm
    have hy : s.grants y = none := (update_of_ne hne ..).symm.trans hy
    exact hc.blank y ((hgrants y hne).trans hy) fun p hp => hl p (List.mem_cons_of_mem _ hp)
  · rcases List.mem_cons.mp hp with rfl | hp
    · exact ⟨hc.handed x g hself, update_self .., (hc.shadows x g hself).toCopied.flags x⟩
    · obtain ⟨hh, hgr, hcp⟩ := hc.loaded p hp
      exact ⟨hh, (update_of_ne (hnew p hp) ..).trans (h.loaded p hp).2.1, hcp.flags x⟩
  · rw [List.map_cons, List.nodup_cons]
    refine ⟨fun hx => ?_, h.once⟩
    obtain ⟨p, hp, e⟩ := List.mem_map.mp hx
    exact hnew p hp e

/-- A store that keeps the bits of the other grants records its own. -/
theorem Recorded.store (h : Recorded s) {p : Loaded} (hp : p ∈ s.loaded)
    (hk : KeepsBits s (.store p)) :
    Recorded { base := s.base.setTable (Granted.stored s.base.table p)
               grants := update s.grants p.x (some p.grant)
               loaded := s.loaded.erase p } := by
  have hbit := fun y => readonly_storeReadonly s.base.table p.x y p.byte (decide (p.grant.mode = .ro))
  have hx : ∀ q ∈ s.loaded.erase p, q.x ≠ p.x := fun q hq e => by
    have hperm := (List.perm_cons_erase hp).map (·.x)
    have hn := hperm.nodup_iff.mp h.once
    rw [List.map_cons, List.nodup_cons] at hn
    exact hn.1 (e ▸ List.mem_map_of_mem hq)
  refine ⟨h.conserved.setTable ⟨rfl, rfl, rfl, rfl⟩, fun y g hy => ?_, fun y g hy => ?_,
    fun y hy hl => ?_, fun q hq => ?_, h.once.sublist (List.erase_sublist.map _)⟩
  · by_cases hne : y = p.x
    · rw [hne]
      exact (h.loaded p hp).1
    · exact h.handed y g ((update_of_ne hne ..).symm.trans hy)
  · by_cases hne : y = p.x
    · rw [hne] at hy ⊢
      simp only [update_self, Option.some.injEq] at hy
      rw [← hy]
      exact ⟨(h.loaded p hp).2.2.flags p.x, (hbit p.x).trans (if_pos rfl)⟩
    · have hy : s.grants y = some g := (update_of_ne hne ..).symm.trans hy
      have hsh := h.shadows y g hy
      refine ⟨hsh.toCopied.flags p.x, ((hbit y).trans (if_neg hne)).trans ?_⟩
      rw [← hsh.readonly]
      split
      · next hd =>
        have hy' : p.x / 8 * 8 + y % 8 = y := by omega
        have := hk (y % 8) (Nat.mod_lt _ (by decide)) (by rw [hy']; exact hne)
          (by rw [hy', hy]; rfl)
        rwa [hy'] at this
      · rfl
  · obtain ⟨hne, hy⟩ := update_some_none hy
    refine h.blank y hy fun q hq => ?_
    by_cases hqp : q = p
    · rw [hqp]
      exact hne.symm
    · exact hl q ((List.mem_erase_of_ne hqp).mpr hq)
  · obtain ⟨hh, hg, hc⟩ := h.loaded q (List.mem_of_mem_erase hq)
    exact ⟨hh, (update_of_ne (hx q hq) ..).trans hg, hc.flags p.x⟩

/-- The entries after the loop are those of the grants. -/
theorem Recorded.resume (h : Recorded s) :
    ∃ e, gnttabResume (fun _ => 0) s.base.table = some { s.base.table with entry := e } ∧
      (∀ x g, s.grants x = some g → g.frame ≠ 0 →
        e x = ⟨gtfPermitAccess ||| (if g.mode = .ro then gtfReadonly else 0), g.domid, g.frame⟩) ∧
      (∀ x, (s.grants x = none ∧ (∀ p ∈ s.loaded, p.x ≠ x)) → e x = ⟨0, 0, 0⟩) ∧
      ∀ p ∈ s.loaded, p.grant.frame ≠ 0 →
        (e p.x).frame = p.grant.frame ∧ (e p.x).domid = p.grant.domid := by
  obtain ⟨e, he, hx⟩ := gnttabResume_spec h.conserved.frames
  have hrestored : ∀ x g, x ∈ s.base.handed → Copied s.base.table x g → g.frame ≠ 0 →
      e x = restored s.base.table x := fun x g hh hc hf => by
    rw [hx, if_pos ⟨h.conserved.handed_lt hh, hc.pfn ▸ hf⟩]
  refine ⟨e, he, fun x g hg hf => ?_, fun x hg => ?_, fun p hp hf => ?_⟩
  · have hsh := h.shadows x g hg
    rw [hrestored x g (h.handed x g hg) hsh.toCopied hf, restored, hsh.pfn, hsh.domid, hsh.readonly]
    simp only [decide_eq_true_eq]
  · rw [hx, if_neg]
    exact fun hp => hp.2 (h.blank x hg.1 hg.2)
  · obtain ⟨hh, -, hc⟩ := h.loaded p hp
    rw [hrestored p.x p.grant hh hc hf]
    exact ⟨hc.pfn, hc.domid⟩

theorem Recorded.step {a : GrantedAct} (h : Recorded s) (hok : KeepsBits s a)
    (hs : s.step env a = some s') : Recorded s' := by
  cases a with
  | call a =>
    simp only [Granted.step] at hs
    split at hs
    · next hm =>
      obtain ⟨b, hb, rfl⟩ := Option.map_eq_some_iff.mp hs
      exact h.call hm.1 hm.2 hb
    · cases hs
  | load a =>
    simp only [Granted.step] at hs
    split at hs
    · cases hs
    · next g hg =>
      split at hs
      · next hf =>
        obtain ⟨b, hb, rfl⟩ := Option.map_eq_some_iff.mp hs
        obtain ⟨hone, hend⟩ := granted_single hg hb
        rcases hone with hnil | ⟨x, hx⟩
        · have hm : a.mapped s.base.table = true := by cases a <;> first | rfl | cases hg
          have hc := h.call hm hf hb
          simp only [hnil, hend, List.not_mem_nil, if_false] at hc ⊢
          exact hc
        · rw [hx]
          exact h.load hg hf hb hx
      · cases hs
  | store p =>
    simp only [Granted.step] at hs
    split at hs
    · next hp =>
      obtain rfl := Option.some.inj hs
      exact h.store hp hok
    · cases hs
  | resume =>
    obtain ⟨e, he, hlive, -, hload⟩ := h.resume
    simp only [Granted.step, he, State.orAssert, Option.some.injEq] at hs
    subst hs
    refine ⟨h.conserved.setTable ⟨rfl, rfl, rfl, rfl⟩, h.handed, fun x g hg => ?_, h.blank,
      fun p hp => ?_, h.once⟩
    · obtain ⟨⟨hp, hd, -⟩, hr⟩ := h.shadows x g hg
      refine ⟨⟨hp, hd, fun hf => ?_⟩, hr⟩
      simp only [State.setTable, hlive x g hg hf, and_self]
    · obtain ⟨hh, hg, hc⟩ := h.loaded p hp
      exact ⟨hh, hg, hc.pfn, hc.domid, hload p hp⟩

end Recorded

end XcWindows.Gnttab
