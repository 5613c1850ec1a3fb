import XcWindows.Xennet6.Receiver

/-!
# The receive buffers are conserved

`Pool` says where the shadow ids are: on the free list, in use for a request, or just taken off the
list. `Rfds` says where the RFDs are: under a shadow, in the cache, in a net buffer list, or in the
hands of the routine that runs. Each routine of `net/receiver_common.c` has one lemma that says what
it moves; the steps are put together from these.
-/

namespace XcWindows.Xennet6.Rx

open XcWindows.Lib
open Function (update update_of_ne update_self)

/-- The ids: `free` on the free list, `used` with a request, `hand` in the hands of the caller. With
`torn`, `NrFreeIds` was set beforehand. -/
structure Pool (s : State) (torn : Bool) (free used hand : List Id) : Prop where
  chain : Seg (fun x => (s.shadow x).next) s.nextFreeId free none
  parts : (used ++ hand ++ free).Perm (List.finRange maxRxFrags)
  onFree : ∀ x ∈ free, (s.shadow x).inUse = false ∧ (s.shadow x).rfd = none
  onUsed : ∀ x ∈ used, (s.shadow x).inUse = true ∧ (s.shadow x).next = none
  onHand : ∀ x ∈ hand, s.shadow x = ⟨none, true, none⟩
  nrFree : s.nrFreeIds = if torn then maxRxFrags else free.length
  pending : s.pendingRfds = used.length
  grants : s.grantCache + used.length = maxRxFrags

/-- The net buffer lists of the driver and of NDIS. -/
def State.lists (s : State) : List (List RfdId) := s.made ++ s.inNdis ++ s.returnList

/-- A whole RFD that nobody has a grant for. -/
def Idle (s : State) (r : RfdId) : Prop := s.rfd r = ⟨true, true, false⟩ ∧ r < s.allocated

/-- A whole RFD the back end has a grant for. -/
def Granted (s : State) (r : RfdId) : Prop := s.rfd r = ⟨true, true, true⟩ ∧ r < s.allocated

/-- The RFDs: `hand` are in the hands of the caller. -/
structure Rfds (s : State) (used : List Id) (hand : List RfdId) : Prop where
  pending : ∀ x ∈ used, ∃ r, (s.shadow x).rfd = some r ∧ Granted s r
  inj : ∀ x ∈ used, ∀ y ∈ used, (s.shadow x).rfd = (s.shadow y).rfd → x = y
  idle : ∀ r ∈ hand ++ s.rfdCache ++ s.lists.flatten, Idle s r
  nodup : (hand ++ s.rfdCache ++ s.lists.flatten).Nodup
  cached : s.numCachedRfds = s.rfdCache.length
  lt : s.currNumRfd < 4294967296
  count : u32 (s.currNumRfd + s.pageFailures) =
    u32 (used.length + (hand ++ s.rfdCache ++ s.lists.flatten).length)

/-- The receiver with `x` off the free list. -/
def State.tookShadow (s : State) (x : Id) : State :=
  { s.setShadow x ⟨none, true, none⟩ with
    nrFreeIds := s.nrFreeIds - 1, nextFreeId := (s.shadow x).next }

/-- The receiver with `x` on the free list. -/
def State.freedShadow (s : State) (x : Id) : State :=
  { s.setShadow x ⟨none, false, s.nextFreeId⟩ with
    nextFreeId := some x
    nrFreeIds := if s.nrFreeIds < maxRxFrags then s.nrFreeIds + 1 else s.nrFreeIds }

section Shadows

variable {s : State} {torn : Bool} {free used hand : List Id} {x : Id}

theorem Pool.nodup (h : Pool s torn free used hand) : (used ++ hand ++ free).Nodup :=
  h.parts.nodup_iff.mpr (List.nodup_finRange _)

theorem Pool.length (h : Pool s torn free used hand) :
    used.length + hand.length + free.length = maxRxFrags := by
  have := h.parts.length_eq
  simp only [List.length_append, List.length_finRange] at this
  exact this

/-- Every id is somewhere. -/
theorem Pool.mem (h : Pool s torn free used hand) (x : Id) : x ∈ used ∨ x ∈ hand ∨ x ∈ free := by
  have := h.parts.mem_iff.mpr (List.mem_finRange x)
  simpa [or_assoc] using this

theorem Pool.took_eq (h : Pool s false (x :: free) used []) :
    s.allocateShadow = .ok (x, s.tookShadow x) := by
  obtain ⟨hhead, htail⟩ := h.chain
  obtain ⟨hin, hrfd⟩ := h.onFree x List.mem_cons_self
  have hlen : s.nrFreeIds = free.length + 1 := h.nrFree
  have hnext : s.nrFreeIds - 1 = 0 ∨ (s.shadow x).next ≠ none := by
    cases free with
    | nil => exact .inl (by rw [hlen]; rfl)
    | cons y ys =>
      have hy : (s.shadow x).next = some y := htail.1
      exact .inr (by rw [hy]; exact Option.some_ne_none y)
  have hsh : { s.shadow x with inUse := true, next := none } = (⟨none, true, none⟩ : RxShadow) := by
    simp only [hrfd]
  unfold State.allocateShadow
  rw [if_neg (by omega), hhead]
  simp only
  rw [xmAssert_pos hin, ok_bind, xmAssert_pos hrfd, ok_bind, xmAssert_pos hnext, ok_bind, hsh]
  rfl

theorem Pool.took (h : Pool s false (x :: free) used []) :
    Pool (s.tookShadow x) false free used [x] := by
  obtain ⟨-, htail⟩ := h.chain
  have hnd := h.nodup
  rw [List.append_nil, List.nodup_append] at hnd
  obtain ⟨-, hnd, hdis⟩ := hnd
  have hx : x ∉ free := (List.nodup_cons.mp hnd).1
  have hu : x ∉ used := fun hm => hdis x hm x List.mem_cons_self rfl
  have hne : ∀ {y}, y ≠ x → (s.tookShadow x).shadow y = s.shadow y :=
    fun hy => update_of_ne hy _ _
  constructor
  case chain =>
    refine htail.congr fun y hy => ?_
    rw [hne fun e => hx (e ▸ hy)]
  case parts => simpa using h.parts
  case onFree =>
    intro y hy
    rw [hne fun e => hx (e ▸ hy)]
    exact h.onFree y (List.mem_cons_of_mem _ hy)
  case onUsed =>
    intro y hy
    rw [hne fun e => hu (e ▸ hy)]
    exact h.onUsed y hy
  case onHand =>
    intro y hy
    rw [List.mem_singleton.mp hy]
    exact update_self _ _ _
  case nrFree =>
    have : s.nrFreeIds = free.length + 1 := h.nrFree
    simp only [State.tookShadow, Bool.false_eq_true, if_false]
    omega
  case pending => exact h.pending
  case grants => exact h.grants

/-- An id goes from the hand to the free list. -/
theorem Pool.freed_eq (h : Pool s torn free used [x]) :
    s.freeShadow x true = .ok (s.freedShadow x) := by
  have hx := h.onHand x (List.mem_singleton_self x)
  unfold State.freeShadow
  simp only [hx]
  rfl

theorem Pool.freed (h : Pool s torn free used [x]) :
    Pool (s.freedShadow x) torn (x :: free) used [] := by
  have hnd := h.nodup
  rw [List.nodup_append] at hnd
  obtain ⟨hnd1, -, hdis⟩ := hnd
  have hx : x ∉ free := fun hm => hdis x (by simp) x hm rfl
  have hu : x ∉ used := by
    rw [List.nodup_append] at hnd1
    exact fun hm => hnd1.2.2 x hm x (List.mem_singleton_self x) rfl
  have hne : ∀ {y}, y ≠ x → (s.freedShadow x).shadow y = s.shadow y :=
    fun hy => update_of_ne hy _ _
  have hself : (s.freedShadow x).shadow x = ⟨none, false, s.nextFreeId⟩ := update_self _ _ _
  constructor
  case chain =>
    refine ⟨rfl, ?_⟩
    simp only [hself]
    refine h.chain.congr fun y hy => ?_
    rw [hne fun e => hx (e ▸ hy)]
  case parts => simpa using h.parts
  case onFree =>
    intro y hy
    rcases List.mem_cons.mp hy with rfl | hy
    · rw [hself]
      exact ⟨rfl, rfl⟩
    · rw [hne fun e => hx (e ▸ hy)]
      exact h.onFree y hy
  case onUsed =>
    intro y hy
    rw [hne fun e => hu (e ▸ hy)]
    exact h.onUsed y hy
  case onHand => simp
  case nrFree =>
    have h1 := h.nrFree
    have h2 := h.length
    simp only [List.length_singleton] at h2
    simp only [State.freedShadow]
    cases torn
    · simp only [Bool.false_eq_true, if_false] at h1 ⊢
      rw [if_pos (by omega), h1, List.length_cons]
    · simp only [if_true] at h1 ⊢
      rw [if_neg (by omega), h1]
  case pending => exact h.pending
  case grants => exact h.grants

end Shadows

/-! ## RFDs -/

/-- What the routines for RFDs that nobody has a grant for leave alone. -/
def State.frame (s : State) :=
  (s.shadow, s.nextFreeId, s.nrFreeIds, s.pendingRfds, s.grantCache, s.ring, s.made, s.inNdis,
    s.returnList, s.nRxInNdis, s.phase, s.crashed)

/-- The receiver with RFD `r` taken back from under `x`. -/
def State.receivedRfd (s : State) (x : Id) (r : RfdId) : State :=
  { (s.freedShadow x).setRfd r { s.rfd r with gref := false } with
    grantCache := s.grantCache + 1, pendingRfds := s.pendingRfds - 1 }

/-- The receiver with RFD `r` in the cache or freed. -/
def State.releasedRfd (s : State) (r : RfdId) (toCache : Bool) : State :=
  if toCache && s.numCachedRfds < 64 then
    { s with numCachedRfds := s.numCachedRfds + 1, rfdCache := r :: s.rfdCache }
  else { s with currNumRfd := sub32 s.currNumRfd 1 }

/-- The receiver with RFD `r` offered under `x`. -/
def State.returnedRfd (s : State) (x : Id) (r : RfdId) : State :=
  { (s.setShadow x ⟨some r, true, none⟩).setRfd r { s.rfd r with gref := true } with
    grantCache := s.grantCache - 1
    pendingRfds := s.pendingRfds + 1
    ring := s.ring.put x }

section Moves

variable {s t : State} {torn : Bool} {free used : List Id} {x : Id} {r : RfdId} {hand : List RfdId}

theorem Pool.congr {idHand : List Id} (h : Pool s torn free used idHand) (h1 : t.shadow = s.shadow)
    (h2 : t.nextFreeId = s.nextFreeId) (h3 : t.nrFreeIds = s.nrFreeIds)
    (h4 : t.pendingRfds = s.pendingRfds) (h5 : t.grantCache = s.grantCache) :
    Pool t torn free used idHand := by
  obtain ⟨c1, c2, c3, c4, c5, c6, c7, c8⟩ := h
  rw [← h1] at c1 c3 c4 c5
  rw [← h2] at c1
  exact ⟨c1, c2, c3, c4, c5, h3.trans c6, h4.trans c7, h5 ▸ c8⟩

theorem Pool.used_nodup {idHand : List Id} (h : Pool s torn free used idHand) : used.Nodup := by
  have := h.nodup
  rw [List.append_assoc, List.nodup_append] at this
  exact this.1

/-- The id of a request that has been answered goes to the free list. -/
theorem Pool.received (h : Pool s torn free used []) (hx : x ∈ used) (r : RfdId) :
    Pool (s.receivedRfd x r) torn (x :: free) (used.erase x) [] := by
  have hlen := List.length_erase_of_mem hx
  have hpos := List.length_pos_of_mem hx
  have hnd := h.nodup
  rw [List.append_nil, List.nodup_append] at hnd
  obtain ⟨hu, -, hdis⟩ := hnd
  have hfree : x ∉ free := fun hm => hdis x hx x hm rfl
  set t : State := { s.setShadow x ⟨none, true, none⟩ with
    grantCache := s.grantCache + 1, pendingRfds := s.pendingRfds - 1 } with ht
  have hne : ∀ {y}, y ≠ x → t.shadow y = s.shadow y := fun hy => update_of_ne hy _ _
  have hself : t.shadow x = ⟨none, true, none⟩ := update_self _ _ _
  have hp : Pool t torn free (used.erase x) [x] := by
    constructor
    case chain =>
      refine h.chain.congr fun y hy => ?_
      rw [hne fun e => hfree (e ▸ hy)]
    case parts =>
      refine List.Perm.trans ?_ h.parts
      rw [List.append_nil]
      exact ((List.perm_append_comm.trans (List.perm_cons_erase hx).symm)).append_right free
    case onFree =>
      intro y hy
      rw [hne fun e => hfree (e ▸ hy)]
      exact h.onFree y hy
    case onUsed =>
      intro y hy
      obtain ⟨hyx, hy⟩ := (List.Nodup.mem_erase_iff hu).mp hy
      rw [hne hyx]
      exact h.onUsed y hy
    case onHand =>
      intro y hy
      rw [List.mem_singleton.mp hy]
      exact hself
    case nrFree => exact h.nrFree
    case pending =>
      rw [ht, hlen]
      exact congrArg (· - 1) h.pending
    case grants =>
      have := h.grants
      simp only [ht, State.setShadow]
      omega
  refine hp.freed.congr ?_ rfl rfl rfl rfl
  simp only [State.receivedRfd, State.setRfd, State.freedShadow, State.setShadow, ht,
    Function.update_idem]

theorem receiveRfd_eq (h : Pool s torn free used []) (hx : x ∈ used)
    (hr : (s.shadow x).rfd = some r) : s.receiveRfd x = .ok (r, s.receivedRfd x r) := by
  obtain ⟨hin, hnext⟩ := h.onUsed x hx
  have hfree : (s.setShadow x { s.shadow x with rfd := none }).freeShadow x true =
      .ok (s.freedShadow x) := by
    have hself : (s.setShadow x { s.shadow x with rfd := none }).shadow x = ⟨none, true, none⟩ := by
      simp only [State.setShadow, update_self, hin, hnext]
    unfold State.freeShadow
    simp only [hself]
    simp only [State.setShadow, Function.update_idem, State.freedShadow]
    rfl
  unfold State.receiveRfd
  simp only [hr, hfree, ok_bind]
  rfl

theorem Rfds.received (h : Rfds s used hand) (hu : used.Nodup) (hx : x ∈ used)
    (hr : (s.shadow x).rfd = some r) : Rfds (s.receivedRfd x r) (used.erase x) (r :: hand) := by
  obtain ⟨r', hr', hg⟩ := h.pending x hx
  obtain rfl := Option.some.inj (hr.symm.trans hr')
  have hshadow : ∀ {y}, y ≠ x → (s.receivedRfd x r).shadow y = s.shadow y :=
    fun hy => update_of_ne hy _ _
  have hrfd : ∀ {q}, q ≠ r → (s.receivedRfd x r).rfd q = s.rfd q :=
    fun hq => update_of_ne hq _ _
  have hnot : r ∉ hand ++ s.rfdCache ++ s.lists.flatten := by
    intro hm
    have := (h.idle r hm).1
    rw [hg.1] at this
    simp at this
  have hlen := List.length_erase_of_mem hx
  have hpos := List.length_pos_of_mem hx
  constructor
  case pending =>
    intro y hy
    obtain ⟨hyx, hy⟩ := (List.Nodup.mem_erase_iff hu).mp hy
    obtain ⟨q, hq, hgq⟩ := h.pending y hy
    refine ⟨q, by rw [hshadow hyx, hq], ?_, hgq.2⟩
    rw [hrfd, hgq.1]
    rintro rfl
    exact hyx (h.inj y hy x hx (hq.trans hr.symm))
  case inj =>
    intro y hy z hz e
    obtain ⟨hyx, hy⟩ := (List.Nodup.mem_erase_iff hu).mp hy
    obtain ⟨hzx, hz⟩ := (List.Nodup.mem_erase_iff hu).mp hz
    rw [hshadow hyx, hshadow hzx] at e
    exact h.inj y hy z hz e
  case idle =>
    intro q hq
    rcases List.mem_cons.mp hq with rfl | hq
    · refine ⟨?_, hg.2⟩
      simp only [State.receivedRfd, State.setRfd, update_self, hg.1]
    · have hi := h.idle q hq
      refine ⟨?_, hi.2⟩
      rw [hrfd, hi.1]
      rintro rfl
      exact hnot hq
  case nodup => exact List.nodup_cons.mpr ⟨hnot, h.nodup⟩
  case cached => exact h.cached
  case lt => exact h.lt
  case count =>
    refine h.count.trans (congrArg u32 ?_)
    have e : (r :: hand ++ s.rfdCache ++ s.lists.flatten).length =
        (hand ++ s.rfdCache ++ s.lists.flatten).length + 1 := rfl
    rw [hlen]
    exact (show _ = used.length - 1 + ((hand ++ s.rfdCache ++ s.lists.flatten).length + 1) by omega)

theorem releaseRfd_eq (h : Rfds s used (r :: hand)) (toCache : Bool) :
    s.releaseRfd r toCache = .ok (s.releasedRfd r toCache) := by
  have hi := (h.idle r List.mem_cons_self).1
  have hva : (s.rfd r).startVa = (s.rfd r).receiveBufferVirt := by rw [hi]
  have hgref : (s.rfd r).gref = false := by rw [hi]
  have hc : s.rfdCache = [] ↔ s.numCachedRfds = 0 := by
    rw [h.cached, List.length_eq_zero_iff]
  unfold State.releaseRfd State.releasedRfd
  rw [xmAssert_pos hva, ok_bind, xmAssert_pos hgref, ok_bind]
  split
  · rw [xmAssert_pos hc, ok_bind]
  · rfl

theorem frame_currNumRfd (s : State) (n : Nat) : { s with currNumRfd := n }.frame = s.frame := rfl

theorem lists_currNumRfd (s : State) (n : Nat) : { s with currNumRfd := n }.lists = s.lists := rfl

theorem releasedRfd_frame (s : State) (r : RfdId) (toCache : Bool) :
    (s.releasedRfd r toCache).frame = s.frame := by
  unfold State.releasedRfd
  split
  · rfl
  · exact frame_currNumRfd s _

theorem releasedRfd_pageFailures (s : State) (r : RfdId) (toCache : Bool) :
    (s.releasedRfd r toCache).pageFailures = s.pageFailures := by
  unfold State.releasedRfd
  split <;> rfl

/-- An RFD of the hand is no longer counted. -/
theorem Rfds.uncount {n : Nat} (h : Rfds s used (r :: hand)) (hlt : n < 4294967296)
    (hn : n = sub32 s.currNumRfd 1) : Rfds { s with currNumRfd := n } used hand := by
  refine ⟨h.pending, h.inj, fun q hq => h.idle q (List.mem_cons_of_mem _ hq),
    (List.nodup_cons.mp h.nodup).2, h.cached, hlt, ?_⟩
  have hc := h.count
  have hl := h.lt
  have e : (r :: hand ++ s.rfdCache ++ s.lists.flatten).length =
      (hand ++ s.rfdCache ++ s.lists.flatten).length + 1 := rfl
  rw [e] at hc
  rw [lists_currNumRfd]
  simp only [u32, sub32] at hc hn ⊢
  omega

/-- An RFD goes from the hand to the cache, or away. -/
theorem Rfds.released (h : Rfds s used (r :: hand)) (toCache : Bool) :
    Rfds (s.releasedRfd r toCache) used hand := by
  unfold State.releasedRfd
  split
  · have hperm : (hand ++ (r :: s.rfdCache) ++ s.lists.flatten).Perm
        (r :: hand ++ s.rfdCache ++ s.lists.flatten) :=
      List.perm_middle.append_right _
    exact ⟨h.pending, h.inj, fun q hq => h.idle q (hperm.mem_iff.mp hq), hperm.nodup_iff.mpr h.nodup,
      congrArg (· + 1) h.cached, h.lt, h.count.trans (congrArg _ (congrArg _ hperm.length_eq.symm))⟩
  · exact h.uncount (Nat.mod_lt _ (by decide)) rfl

/-- An RFD comes out of the cache, or from the allocator, or there is none. -/
theorem Rfds.allocate (h : Rfds s used hand) (memory : Memory) :
    ∃ o t, s.allocateRfd memory = .ok (o, t) ∧ t.frame = s.frame ∧ Rfds t used (o.toList ++ hand) ∧
      (memory ≠ .noPage → t.pageFailures = s.pageFailures) := by
  unfold State.allocateRfd
  cases hcache : s.rfdCache with
  | cons q rest =>
    have hc := h.cached
    rw [hcache, List.length_cons] at hc
    have hq : rest = [] ↔ s.numCachedRfds - 1 = 0 := by
      rw [hc, Nat.add_sub_cancel, List.length_eq_zero_iff]
    simp only [xmAssert_pos hq, ok_bind]
    refine ⟨some q, _, rfl, rfl, ?_, fun _ => rfl⟩
    have hperm : (hand ++ (q :: rest) ++ s.lists.flatten).Perm
        (q :: hand ++ rest ++ s.lists.flatten) :=
      List.perm_middle.append_right _
    have hidle := h.idle
    have hnd := h.nodup
    have hcount := h.count
    rw [hcache] at hidle hnd hcount
    refine ⟨h.pending, h.inj, fun p hp => hidle p (hperm.mem_iff.mpr hp), hperm.nodup_iff.mp hnd,
      by rw [hc]; rfl, h.lt, hcount.trans (congrArg _ (congrArg _ hperm.length_eq))⟩
  | nil =>
    -- a number that no RFD has yet
    have hfresh : ∀ q, q < s.allocated → q ≠ s.allocated := fun q hq => Nat.ne_of_lt hq
    have hold : ∀ d q, q < s.allocated → (s.setRfd s.allocated d).rfd q = s.rfd q :=
      fun d q hq => update_of_ne (hfresh q hq) _ _
    have hidle := h.idle
    have hnd := h.nodup
    have hcount := h.count
    rw [hcache] at hidle hnd hcount
    cases memory with
    | noRfd => exact ⟨none, s, rfl, rfl, h, fun _ => rfl⟩
    | noPage =>
      simp only [State.releaseRfd, State.setRfd, update_self, Bool.false_and,
        Bool.false_eq_true, if_false]
      refine ⟨none, _, rfl, rfl, ?_, fun hne => absurd rfl hne⟩
      refine ⟨fun x hx => ?_, h.inj, fun q hq => ?_, h.nodup, h.cached, Nat.mod_lt _ (by decide), ?_⟩
      · obtain ⟨q, hq, hg⟩ := h.pending x hx
        exact ⟨q, hq, (hold _ q hg.2).trans hg.1, Nat.lt_succ_of_lt hg.2⟩
      · have hi := h.idle q hq
        exact ⟨(hold _ q hi.2).trans hi.1, Nat.lt_succ_of_lt hi.2⟩
      · have hc := h.count
        have hl := h.lt
        simp only [State.lists, u32, sub32, Option.toList, List.nil_append] at hc ⊢
        omega
    | both =>
      refine ⟨some s.allocated, _, rfl, rfl, ?_, fun _ => rfl⟩
      refine ⟨fun x hx => ?_, h.inj, fun q hq => ?_, ?_, h.cached, Nat.mod_lt _ (by decide), ?_⟩
      · obtain ⟨q, hq, hg⟩ := h.pending x hx
        exact ⟨q, hq, (hold _ q hg.2).trans hg.1, Nat.lt_succ_of_lt hg.2⟩
      · rcases List.mem_cons.mp hq with rfl | hq
        · exact ⟨update_self _ _ _, Nat.lt_succ_self _⟩
        · have hi := h.idle q hq
          exact ⟨(hold _ q hi.2).trans hi.1, Nat.lt_succ_of_lt hi.2⟩
      · exact List.nodup_cons.mpr ⟨fun hm => hfresh _ (h.idle _ hm).2 rfl, h.nodup⟩
      · have hc := h.count
        have hl := h.lt
        have e : (s.allocated :: hand ++ s.rfdCache ++ s.lists.flatten).length =
            (hand ++ s.rfdCache ++ s.lists.flatten).length + 1 := rfl
        have e' : u32 (u32 (s.currNumRfd + 1) + s.pageFailures) =
            u32 (used.length + ((hand ++ s.rfdCache ++ s.lists.flatten).length + 1)) := by
          simp only [u32] at hc ⊢
          omega
        exact e'

theorem returnRfd_eq (h : Pool s false free used [x]) (hr : Rfds s used (r :: hand)) :
    (s.setShadow x { s.shadow x with rfd := some r }).returnRfd r x = .ok (s.returnedRfd x r) := by
  have hx := h.onHand x (List.mem_singleton_self x)
  have hi := (hr.idle r List.mem_cons_self).1
  have hgref : (s.rfd r).gref = false := by rw [hi]
  have hlen := h.length
  have hgrants := h.grants
  have hc : s.grantCache ≠ 0 := by
    simp only [List.length_singleton] at hlen
    omega
  unfold State.returnRfd
  simp only [State.setShadow, hx]
  rw [xmAssert_pos hgref, ok_bind, xmAssert_pos hc, ok_bind]
  rfl

theorem Pool.returned (h : Pool s false free used [x]) (r : RfdId) :
    Pool (s.returnedRfd x r) false free (x :: used) [] := by
  have hnd := h.nodup
  rw [List.nodup_append, List.nodup_append] at hnd
  obtain ⟨⟨-, -, hu⟩, -, hdis⟩ := hnd
  have hfree : x ∉ free := fun hm => hdis x (by simp) x hm rfl
  have hused : x ∉ used := fun hm => hu x hm x (List.mem_singleton_self x) rfl
  have hne : ∀ {y}, y ≠ x → (s.returnedRfd x r).shadow y = s.shadow y :=
    fun hy => update_of_ne hy _ _
  have hself : (s.returnedRfd x r).shadow x = ⟨some r, true, none⟩ := update_self _ _ _
  constructor
  case chain =>
    refine h.chain.congr fun y hy => ?_
    rw [hne fun e => hfree (e ▸ hy)]
  case parts =>
    refine List.Perm.trans ?_ h.parts
    rw [List.append_nil]
    exact (List.perm_append_singleton x used).symm.append_right free
  case onFree =>
    intro y hy
    rw [hne fun e => hfree (e ▸ hy)]
    exact h.onFree y hy
  case onUsed =>
    intro y hy
    rcases List.mem_cons.mp hy with rfl | hy
    · rw [hself]
      exact ⟨rfl, rfl⟩
    · rw [hne fun e => hused (e ▸ hy)]
      exact h.onUsed y hy
  case onHand => simp
  case nrFree => exact h.nrFree
  case pending => exact congrArg (· + 1) h.pending
  case grants =>
    have hg := h.grants
    have hl := h.length
    simp only [List.length_singleton] at hl
    simp only [State.returnedRfd, List.length_cons]
    omega

theorem Rfds.returned (hr : Rfds s used (r :: hand)) (h : Pool s false free used [x]) :
    Rfds (s.returnedRfd x r) (x :: used) hand := by
  obtain ⟨hi, hlt⟩ := hr.idle r List.mem_cons_self
  have hnd := h.nodup
  rw [List.nodup_append, List.nodup_append] at hnd
  obtain ⟨⟨-, -, hu⟩, -, -⟩ := hnd
  have hused : x ∉ used := fun hm => hu x hm x (List.mem_singleton_self x) rfl
  have hne : ∀ {y}, y ∈ used → (s.returnedRfd x r).shadow y = s.shadow y := by
    intro y hy
    have hyx : y ≠ x := fun e => hused (e ▸ hy)
    exact update_of_ne hyx _ _
  have hself : (s.returnedRfd x r).shadow x = ⟨some r, true, none⟩ := update_self _ _ _
  have hrfd : ∀ {q}, q ≠ r → (s.returnedRfd x r).rfd q = s.rfd q :=
    fun hq => update_of_ne hq _ _
  obtain ⟨hnot, hnd⟩ := List.nodup_cons.mp hr.nodup
  -- the RFDs under the other shadows are granted already
  have hother : ∀ y ∈ used, (s.shadow y).rfd ≠ some r := by
    intro y hy e
    obtain ⟨q, hq, hg⟩ := hr.pending y hy
    obtain rfl := Option.some.inj (e.symm.trans hq)
    have := hg.1
    rw [hi] at this
    simp at this
  constructor
  case pending =>
    intro y hy
    rcases List.mem_cons.mp hy with rfl | hy
    · refine ⟨r, by rw [hself], ?_, hlt⟩
      simp only [State.returnedRfd, State.setRfd, update_self, hi]
    · obtain ⟨q, hq, hg⟩ := hr.pending y hy
      refine ⟨q, by rw [hne hy, hq], ?_, hg.2⟩
      rw [hrfd, hg.1]
      rintro rfl
      exact hother y hy hq
  case inj =>
    intro y hy z hz e
    rcases List.mem_cons.mp hy with hyx | hyu <;> rcases List.mem_cons.mp hz with hzx | hzu
    · rw [hyx, hzx]
    · rw [hyx, hself, hne hzu] at e
      exact absurd e.symm (hother z hzu)
    · rw [hzx, hself, hne hyu] at e
      exact absurd e (hother y hyu)
    · rw [hne hyu, hne hzu] at e
      exact hr.inj y hyu z hzu e
  case idle =>
    intro q hq
    obtain ⟨hq1, hq2⟩ := hr.idle q (List.mem_cons_of_mem _ hq)
    refine ⟨?_, hq2⟩
    rw [hrfd, hq1]
    rintro rfl
    exact hnot hq
  case nodup => exact hnd
  case cached => exact hr.cached
  case lt => exact hr.lt
  case count =>
    refine hr.count.trans (congrArg u32 ?_)
    have e : (r :: hand ++ s.rfdCache ++ s.lists.flatten).length =
        (hand ++ s.rfdCache ++ s.lists.flatten).length + 1 := rfl
    rw [e, List.length_cons]
    exact (show _ = used.length + 1 + (hand ++ s.rfdCache ++ s.lists.flatten).length by omega)

/-- The RFDs in the hand and in the lists, in any order. -/
theorem Rfds.perm {hand' : List RfdId} (h : Rfds s used hand)
    (h1 : ∀ x ∈ used, t.shadow x = s.shadow x) (h2 : t.rfd = s.rfd)
    (h3 : t.allocated = s.allocated) (h4 : t.rfdCache = s.rfdCache)
    (h5 : t.numCachedRfds = s.numCachedRfds) (h6 : t.currNumRfd = s.currNumRfd)
    (h7 : t.pageFailures = s.pageFailures)
    (hp : (hand' ++ s.rfdCache ++ t.lists.flatten).Perm (hand ++ s.rfdCache ++ s.lists.flatten)) :
    Rfds t used hand' := by
  rw [← h4] at hp
  constructor
  case pending =>
    intro x hx
    obtain ⟨r, hr, hg⟩ := h.pending x hx
    exact ⟨r, by rw [h1 x hx, hr], by rw [h2]; exact hg.1, by rw [h3]; exact hg.2⟩
  case inj =>
    intro x hx y hy e
    rw [h1 x hx, h1 y hy] at e
    exact h.inj x hx y hy e
  case idle =>
    intro q hq
    obtain ⟨hi1, hi2⟩ := h.idle q (h4 ▸ hp.mem_iff.mp hq)
    exact ⟨by rw [h2, hi1], by rw [h3]; exact hi2⟩
  case nodup => exact hp.nodup_iff.mpr (h4 ▸ h.nodup)
  case cached => rw [h5, h4, h.cached]
  case lt => rw [h6]; exact h.lt
  case count => rw [h6, h7, h.count, hp.length_eq, h4]

end Moves

/-! ## The ring -/

/-- The ids in use are those of the requests on the ring. -/
structure OnRing (ring : SharedRing Id RxResponse) (a : Nat) (unread : List RxResponse)
    (taken queued pvt used : List Id) : Prop where
  holds : ring.Holds a unread taken queued pvt
  ids : (unread.map (·.id) ++ taken ++ queued ++ pvt).Perm used
  size : ring.nrEnts = maxRxFrags

section Ring

variable {ring : SharedRing Id RxResponse} {a : Nat} {unread : List RxResponse} {y : RxResponse}
  {taken queued pvt used : List Id} {x : Id}

theorem OnRing.length (h : OnRing ring a unread taken queued pvt used) :
    unread.length + taken.length + queued.length + pvt.length = used.length := by
  rw [← h.ids.length_eq]
  simp only [List.length_append, List.length_map]

theorem OnRing.put (h : OnRing ring a unread taken queued pvt used) (hu : used.length < maxRxFrags) :
    OnRing (ring.put x) a unread taken queued (pvt ++ [x]) (x :: used) := by
  refine ⟨h.holds.put (by rw [h.length, h.size]; exact hu) x, ?_, h.size⟩
  rw [← List.append_assoc]
  exact List.perm_append_comm.trans (h.ids.cons x)

theorem OnRing.push (h : OnRing ring a unread taken queued pvt used) :
    OnRing ring.pushRequests a unread taken (queued ++ pvt) [] used := by
  refine ⟨h.holds.pushRequests, ?_, h.size⟩
  rw [List.append_nil, ← List.append_assoc]
  exact h.ids

theorem OnRing.consume (h : OnRing ring a (y :: unread) taken queued pvt used) :
    OnRing ring.consume (a + 1) unread taken queued pvt (used.erase y.id) := by
  refine ⟨h.holds.consume, ?_, h.size⟩
  have := h.ids.erase y.id
  rwa [List.map_cons, List.cons_append, List.cons_append, List.cons_append, List.erase_cons_head] at this

theorem OnRing.mem (h : OnRing ring a (y :: unread) taken queued pvt used) : y.id ∈ used :=
  h.ids.mem_iff.mp List.mem_cons_self

theorem OnRing.take {ring' : SharedRing Id RxResponse}
    (h : OnRing ring a unread taken queued pvt used) (ht : ring.take = some ring') :
    ∃ x rest, queued = x :: rest ∧ OnRing ring' a unread (taken ++ [x]) rest pvt used := by
  obtain ⟨x, rest, rfl, hh⟩ := h.holds.take_some ht
  refine ⟨x, rest, rfl, hh, ?_, ?_⟩
  · simpa using h.ids
  · unfold SharedRing.take at ht
    split at ht
    · cases ht
    · obtain ⟨z, -, rfl⟩ := Option.map_eq_some_iff.mp ht
      exact h.size

theorem OnRing.answer (h : OnRing ring a unread taken queued pvt used) (hy : y.id ∈ taken) :
    OnRing (ring.answer y.id y) a (unread ++ [y]) (taken.erase y.id) queued pvt used := by
  refine ⟨h.holds.answer hy y, ?_, h.size⟩
  refine List.Perm.trans ?_ h.ids
  rw [List.map_append, List.map_singleton, List.append_assoc (unread.map _)]
  exact (((List.perm_cons_erase hy).symm.append_left _).append_right _).append_right _

/-- A packet of answers. -/
theorem OnRing.answers {ys : List RxResponse} (h : OnRing ring a unread taken queued pvt used)
    (hnd : (ys.map (·.id)).Nodup) (hy : ∀ y ∈ ys, y.id ∈ taken) :
    ∃ taken', OnRing (ys.foldl (fun ring y => ring.answer y.id y) ring) a (unread ++ ys) taken'
      queued pvt used := by
  induction ys generalizing ring unread taken with
  | nil => exact ⟨taken, by simpa using h⟩
  | cons y ys ih =>
    rw [List.map_cons, List.nodup_cons] at hnd
    have h1 := h.answer (hy y List.mem_cons_self)
    obtain ⟨taken', h2⟩ := ih h1 hnd.2 fun z hz => by
      have hne : z.id ≠ y.id := by
        intro e
        exact hnd.1 (e ▸ List.mem_map_of_mem hz)
      rw [List.mem_erase_of_ne hne]
      exact hy z (List.mem_cons_of_mem _ hz)
    exact ⟨taken', by simpa using h2⟩

end Ring

/-! ## The routines -/

/-- What the routines for shadows and RFDs leave alone. -/
def State.rest (s : State) := (s.made, s.inNdis, s.returnList, s.nRxInNdis, s.phase, s.crashed)

section Routines

variable {s : State} {torn : Bool} {free used : List Id} {a : Nat} {unread : List RxResponse}
  {taken queued pvt : List Id}

/-- The loop ends with an RFD under every id, or without memory. -/
theorem replenishLoop_ok (memory : Nat → Memory) {fuel : Nat} (hp : Pool s false free used []) (hr : Rfds s used [])
    (ho : OnRing s.ring a unread taken queued pvt used) (hf : fuel = free.length) :
    ∃ t free' used' pvt', State.replenishLoop memory fuel s = .ok t ∧ Pool t false free' used' [] ∧
      Rfds t used' [] ∧ OnRing t.ring a unread taken queued pvt' used' ∧ t.rest = s.rest ∧
      ((∀ i, memory i ≠ .noPage) → t.pageFailures = s.pageFailures) := by
  induction fuel generalizing s free used pvt with
  | zero =>
    have h0 : s.nrFreeIds = 0 := hp.nrFree.trans hf.symm
    refine ⟨s, free, used, pvt, ?_, hp, hr, ho, rfl, fun _ => rfl⟩
    simp only [State.replenishLoop, h0, if_true]
  | succ fuel ih =>
    cases free with
    | nil => cases hf
    | cons x free =>
      have hne : s.nrFreeIds ≠ 0 := by
        have : s.nrFreeIds = free.length + 1 := hp.nrFree
        omega
      have hp1 := hp.took
      have hx : ∀ y ∈ used, y ≠ x := by
        intro y hy e
        have hnd := hp.nodup
        rw [List.append_nil, List.nodup_append] at hnd
        exact hnd.2.2 y hy x List.mem_cons_self e
      have hr1 : Rfds (s.tookShadow x) used [] :=
        hr.perm (fun y hy => update_of_ne (hx y hy) _ _) rfl rfl rfl rfl rfl rfl (.refl _)
      obtain ⟨o, t, ht, hframe, hrt, hpf⟩ := hr1.allocate (memory fuel)
      simp only [State.frame, Prod.mk.injEq] at hframe
      obtain ⟨f1, f2, f3, f4, f5, f6, f7, f8, f9, f10, f11, f12⟩ := hframe
      have hp2 : Pool t false free used [x] := hp1.congr f1 f2 f3 f4 f5
      have ho2 : OnRing t.ring a unread taken queued pvt used := f6 ▸ ho
      have hrest : t.rest = s.rest := by
        simp only [State.rest, f7, f8, f9, f10, f11, f12]
        rfl
      cases o with
      | none =>
        refine ⟨t.freedShadow x, x :: free, used, pvt, ?_, hp2.freed, ?_, ho2, hrest,
          fun hm => hpf (hm fuel)⟩
        · simp only [State.replenishLoop, if_neg hne, hp.took_eq, ok_bind, ht]
          exact hp2.freed_eq
        · exact Rfds.perm hrt (fun y hy => update_of_ne (hx y hy) _ _) rfl rfl rfl rfl rfl rfl
            (.refl _)
      | some r =>
        have hlen := hp2.length
        simp only [List.length_singleton] at hlen
        obtain ⟨u, free', used', pvt', hu, c1, c2, c3, c4, c5⟩ := ih (hp2.returned r)
          (hrt.returned hp2) (ho2.put (x := x) (by omega)) (by simpa using hf)
        refine ⟨u, free', used', pvt', ?_, c1, c2, c3, c4.trans hrest, fun hm =>
          (c5 hm).trans (hpf (hm fuel))⟩
        simp only [State.replenishLoop, if_neg hne, hp.took_eq, ok_bind, ht, returnRfd_eq hp2 hrt]
        exact hu

theorem replenishRxRing_ok (memory : Nat → Memory) (hp : Pool s false free used []) (hr : Rfds s used [])
    (ho : OnRing s.ring a unread taken queued [] used) :
    ∃ t free' used' queued', s.replenishRxRing memory = .ok t ∧ Pool t false free' used' [] ∧
      Rfds t used' [] ∧ OnRing t.ring a unread taken queued' [] used' ∧ t.rest = s.rest ∧
      ((∀ i, memory i ≠ .noPage) → t.pageFailures = s.pageFailures) := by
  obtain ⟨t, free', used', pvt', ht, c1, c2, c3, c4, c5⟩ := replenishLoop_ok memory hp hr ho rfl
  have hn : s.nrFreeIds = free.length := hp.nrFree
  refine ⟨{ t with ring := t.ring.pushRequests }, free', used', queued ++ pvt', ?_,
    c1.congr rfl rfl rfl rfl rfl, c2.perm (fun _ _ => rfl) rfl rfl rfl rfl rfl rfl (.refl _), c3.push,
    c4, c5⟩
  unfold State.replenishRxRing
  rw [hn, ht, ok_bind]

/-- Releasing RFDs to the cache. -/
theorem releaseMdlChain_ok {rs hand : List RfdId} (hr : Rfds s used (rs ++ hand)) :
    ∃ t, State.releaseMdlChain rs s = .ok t ∧ Rfds t used hand ∧ t.frame = s.frame ∧
      t.pageFailures = s.pageFailures := by
  induction rs generalizing s with
  | nil => exact ⟨s, rfl, hr, rfl, rfl⟩
  | cons r rs ih =>
    obtain ⟨t, ht, h1, h2, h3⟩ := ih (hr.released true)
    refine ⟨t, ?_, h1, h2.trans ?_, h3.trans ?_⟩
    · unfold State.releaseMdlChain at ht ⊢
      rw [List.foldlM_cons, releaseRfd_eq hr true, ok_bind]
      exact ht
    · exact releasedRfd_frame s r true
    · exact releasedRfd_pageFailures s r true

theorem Pool.frame {t : State} {idHand : List Id} (h : Pool s torn free used idHand)
    (hf : t.frame = s.frame) : Pool t torn free used idHand := by
  simp only [State.frame, Prod.mk.injEq] at hf
  obtain ⟨f1, f2, f3, f4, f5, -⟩ := hf
  exact h.congr f1 f2 f3 f4 f5

theorem rest_of_frame {s t : State} (hf : t.frame = s.frame) : t.rest = s.rest ∧ t.ring = s.ring := by
  simp only [State.frame, Prod.mk.injEq] at hf
  obtain ⟨-, -, -, -, -, f6, f7, f8, f9, f10, f11, f12⟩ := hf
  simp only [State.rest, f6, f7, f8, f9, f10, f11, f12, and_self]

theorem Pool.inUse_iff (h : Pool s torn free used []) (x : Id) :
    (s.shadow x).inUse = true ↔ x ∈ used := by
  constructor
  · intro hin
    rcases h.mem x with hu | hh | hf
    · exact hu
    · cases hh
    · rw [(h.onFree x hf).1] at hin
      cases hin
  · exact fun hu => (h.onUsed x hu).1

/-- The loop over the ids takes back what is pending. -/
theorem dropPending_ok {xs : List Id} (hp : Pool s torn free used []) (hr : Rfds s used [])
    (hxs : ∀ x ∈ used, x ∈ xs) :
    ∃ t free', xs.foldlM State.dropPending s = .ok t ∧ Pool t torn free' [] [] ∧ Rfds t [] [] ∧
      t.rest = s.rest ∧ t.ring = s.ring ∧ t.pageFailures = s.pageFailures := by
  induction xs generalizing s free used with
  | nil =>
    have : used = [] := List.eq_nil_iff_forall_not_mem.mpr fun x hx => nomatch hxs x hx
    subst this
    exact ⟨s, free, rfl, hp, hr, rfl, rfl, rfl⟩
  | cons x xs ih =>
    by_cases hx : x ∈ used
    · obtain ⟨r, hrx, -⟩ := hr.pending x hx
      have hr1 := hr.received hp.used_nodup hx hrx
      have hframe := releasedRfd_frame (s.receivedRfd x r) r false
      have hd : State.dropPending s x = .ok ((s.receivedRfd x r).releasedRfd r false) := by
        unfold State.dropPending
        rw [if_pos ((hp.inUse_iff x).mpr hx), receiveRfd_eq hp hx hrx]
        exact releaseRfd_eq hr1 false
      obtain ⟨t, free', ht, c1, c2, c3, c4, c5⟩ := ih ((hp.received hx r).frame hframe)
        (hr1.released false) fun y hy => by
          obtain ⟨hyx, hy⟩ := (List.Nodup.mem_erase_iff hp.used_nodup).mp hy
          exact (List.mem_cons.mp (hxs y hy)).resolve_left hyx
      refine ⟨t, free', ?_, c1, c2, c3.trans (rest_of_frame hframe).1, c4.trans (rest_of_frame hframe).2,
        c5.trans (releasedRfd_pageFailures _ _ _)⟩
      rw [List.foldlM_cons, hd, ok_bind]
      exact ht
    · have hd : State.dropPending s x = .ok s := by
        unfold State.dropPending
        rw [if_neg fun hin => hx ((hp.inUse_iff x).mp hin)]
      obtain ⟨t, free', ht, c⟩ := ih hp hr fun y hy =>
        (List.mem_cons.mp (hxs y hy)).resolve_left fun e => hx (e ▸ hy)
      refine ⟨t, free', ?_, c⟩
      rw [List.foldlM_cons, hd, ok_bind]
      exact ht

theorem dropAll_ok (hp : Pool s torn free used []) (hr : Rfds s used []) :
    ∃ t free', s.dropAll = .ok t ∧ Pool t false free' [] [] ∧ Rfds t [] [] ∧ t.rest = s.rest ∧
      t.ring = s.ring ∧ t.pageFailures = s.pageFailures := by
  obtain ⟨t, free', ht, c1, c2, c3, c4, c5⟩ := dropPending_ok hp hr fun x _ => List.mem_finRange x
  have hlen : free'.length = maxRxFrags := by simpa using c1.length
  have hn : t.nrFreeIds = maxRxFrags := by
    rw [c1.nrFree]
    split
    · rfl
    · exact hlen
  refine ⟨t, free', ?_, ⟨c1.chain, c1.parts, c1.onFree, c1.onUsed, c1.onHand, hn.trans hlen.symm,
    c1.pending, c1.grants⟩, c2, c3, c4, c5⟩
  have hpend : t.pendingRfds = 0 := c1.pending
  unfold State.dropAll
  rw [ht, ok_bind, xmAssert_pos hpend, ok_bind, xmAssert_pos hn, ok_bind]

/-- The loop over the cache frees what is in it. -/
theorem dropCached_ok {rs : List RfdId} (hr : Rfds s used []) (hc : s.rfdCache = rs) :
    ∃ t, State.dropCached rs s = .ok t ∧ Rfds t used [] ∧ t.rfdCache = [] ∧ t.frame = s.frame ∧
      t.pageFailures = s.pageFailures := by
  induction rs generalizing s with
  | nil =>
    have h0 : s.numCachedRfds = 0 := by rw [hr.cached, hc]; rfl
    refine ⟨s, ?_, hr, hc, rfl, rfl⟩
    simp only [State.dropCached, xmAssert_pos h0, ok_bind]
  | cons r rs ih =>
    have hn : s.numCachedRfds = rs.length + 1 := by rw [hr.cached, hc]; rfl
    have hr1 : Rfds { s with rfdCache := rs, numCachedRfds := s.numCachedRfds - 1 } used [r] := by
      have hcount := hr.count
      have hidle := hr.idle
      have hnd := hr.nodup
      rw [hc] at hcount hidle hnd
      exact ⟨hr.pending, hr.inj, hidle, hnd, by simp only [hn]; rfl, hr.lt, hcount⟩
    have hframe := releasedRfd_frame { s with rfdCache := rs, numCachedRfds := s.numCachedRfds - 1 } r false
    obtain ⟨t, ht, c1, c2, c3, c4⟩ := ih (hr1.released false) rfl
    refine ⟨t, ?_, c1, c2, c3.trans hframe, c4⟩
    simp only [State.dropCached]
    rw [if_neg (by omega), releaseRfd_eq hr1 false, ok_bind]
    exact ht

end Routines

/-! ## Packets -/

section Packets

variable {s : State} {free used : List Id} {a : Nat} {unread ys : List RxResponse}
  {taken queued : List Id}

/-- The RFDs of a packet. -/
def State.Packet.rfds (p : State.Packet) : List RfdId := p.prefixRfd.toList ++ p.chain

/-- One response: its RFD goes from under its id into the hand. -/
theorem receiveRfdChain_step {y : RxResponse} {p : State.Packet} (fuel : Nat)
    (hp : Pool s false free used []) (hr : Rfds s used p.rfds)
    (ho : OnRing s.ring a (y :: unread) taken queued [] used)
    (hgso : y.gsoPrefix = true → y.moreData = true ∧ p.prefixRfd = none)
    (hother : y.gsoPrefix = false → y.otherFlags = false) :
    ∃ p' t, State.receiveRfdChain (fuel + 1) p s =
        (if y.moreData then State.receiveRfdChain fuel p' t else .ok (p', t)) ∧
      Pool t false (y.id :: free) (used.erase y.id) [] ∧ Rfds t (used.erase y.id) p'.rfds ∧
      OnRing t.ring (a + 1) unread taken queued [] (used.erase y.id) ∧ t.rest = s.rest ∧
      t.pageFailures = s.pageFailures := by
  obtain ⟨r, hrx, -⟩ := hr.pending y.id ho.mem
  have hp1 := hp.received ho.mem r
  have hr1 := hr.received hp.used_nodup ho.mem hrx
  set t : State := { s.receivedRfd y.id r with ring := s.ring.consume } with ht
  have hr2 : ∀ hand' : List RfdId, hand'.Perm (r :: p.rfds) → Rfds t (used.erase y.id) hand' :=
    fun hand' hperm => hr1.perm (fun _ _ => rfl) rfl rfl rfl rfl rfl rfl
      ((hperm.append_right _).append_right _)
  have hp2 : Pool t false (y.id :: free) (used.erase y.id) [] := hp1.congr rfl rfl rfl rfl rfl
  simp only [State.receiveRfdChain, ho.holds.getResponse, receiveRfd_eq hp ho.mem hrx, ok_bind]
  cases hg : y.gsoPrefix with
  | true =>
    obtain ⟨hmore, hnone⟩ := hgso hg
    simp only [if_true, xmAssert_pos hmore, ok_bind]
    refine ⟨_, t, rfl, hp2, hr2 _ ?_, ho.consume, rfl, rfl⟩
    simp only [State.Packet.rfds, hnone]
    exact .refl _
  | false =>
    simp only [Bool.false_eq_true, if_false, xmAssert_pos (hother hg), ok_bind]
    refine ⟨_, t, rfl, hp2, hr2 _ ?_, ho.consume, rfl, rfl⟩
    simp only [State.Packet.rfds, ← List.append_assoc]
    exact List.perm_append_singleton r _

/-- Receiving a packet takes its RFDs off the ring and into the hand. -/
theorem receiveRfdChain_ok {fuel : Nat} {first : Bool} {p : State.Packet}
    (hp : Pool s false free used []) (hr : Rfds s used p.rfds)
    (ho : OnRing s.ring a (ys ++ unread) taken queued [] used) (hy : isPacket RxResponse.toRxFlags first ys = true)
    (hfirst : first = true → p.prefixRfd = none) (hf : ys.length ≤ fuel) :
    ∃ p' t free' used' a', State.receiveRfdChain fuel p s = .ok (p', t) ∧ Pool t false free' used' [] ∧
      Rfds t used' p'.rfds ∧ OnRing t.ring a' unread taken queued [] used' ∧ t.rest = s.rest ∧
      t.pageFailures = s.pageFailures := by
  induction ys generalizing fuel first p s free used a with
  | nil => simp [isPacket] at hy
  | cons y ys ih =>
    obtain ⟨fuel, rfl⟩ : ∃ n, fuel = n + 1 := ⟨fuel - 1, by simp at hf; omega⟩
    cases ys with
    | nil =>
      simp only [isPacket, Bool.and_eq_true, Bool.not_eq_true'] at hy
      obtain ⟨⟨hmore, hgso⟩, hother⟩ := hy
      obtain ⟨p', t, he, c⟩ := receiveRfdChain_step fuel hp hr ho
        (fun h => by rw [hgso] at h; cases h) (fun _ => hother)
      rw [hmore] at he
      exact ⟨p', t, _, _, _, he, c⟩
    | cons z zs =>
      simp only [isPacket, Bool.and_eq_true] at hy
      obtain ⟨⟨hmore, hflags⟩, hrest⟩ := hy
      obtain ⟨p', t, he, c1, c2, c3, c4, c5⟩ := receiveRfdChain_step fuel hp hr ho
        (fun h => ⟨hmore, hfirst (by rw [h] at hflags; exact hflags)⟩)
        (fun h => by rw [h] at hflags; simpa using hflags)
      obtain ⟨p'', u, free', used', a', hu, d1, d2, d3, d4, d5⟩ := ih c1 c2 c3 hrest
        (fun h => nomatch h) (Nat.le_of_succ_le_succ hf)
      rw [hmore, if_pos rfl, hu] at he
      exact ⟨p'', u, free', used', a', he, d1, d2, d3, d4.trans c4, d5.trans c5⟩

/-- The receiver between two routines. -/
structure Settled (s : State) (free used : List Id) (a : Nat) (unread : List RxResponse)
    (taken queued : List Id) : Prop where
  pool : Pool s false free used []
  rfds : Rfds s used []
  onRing : OnRing s.ring a unread taken queued [] used

theorem discard_ok {o : Option RfdId} {chain : List RfdId} (hr : Rfds s used (o.toList ++ chain)) :
    ∃ t, State.discard o chain s = .ok t ∧ Rfds t used [] ∧ t.frame = s.frame ∧
      t.pageFailures = s.pageFailures := by
  obtain ⟨t, ht, h1, h2, h3⟩ := releaseMdlChain_ok hr
  rw [← List.append_nil chain] at h1
  obtain ⟨u, hu, h4, h5, h6⟩ := releaseMdlChain_ok h1
  refine ⟨u, ?_, h4, h5.trans h2, h6.trans h3⟩
  unfold State.discard
  rw [ht, ok_bind]
  exact hu

/-- The hand goes into new net buffer lists. -/
theorem Rfds.make {nbls : List (List RfdId)} (hr : Rfds s used nbls.flatten) :
    Rfds { s with made := s.made ++ nbls } used [] := by
  refine hr.perm (fun _ _ => rfl) rfl rfl rfl rfl rfl rfl (List.perm_iff_count.mpr fun r => ?_)
  simp only [State.lists, List.flatten_append, List.count_append, List.count_nil]
  omega

/-- The return list goes into the hand. -/
theorem Rfds.unreturn (hr : Rfds s used []) :
    Rfds { s with returnList := [] } used s.returnList.flatten := by
  refine hr.perm (fun _ _ => rfl) rfl rfl rfl rfl rfl rfl (List.perm_iff_count.mpr fun r => ?_)
  simp only [State.lists, List.flatten_append, List.flatten_nil, List.count_append, List.count_nil]
  omega

/-- Receiving keeps all but the lists made. -/
theorem receiveBufferList_ok (how : State.Reception)
    (h : Settled s free used a (ys ++ unread) taken queued)
    (hy : isPacket RxResponse.toRxFlags true ys = true) :
    ∃ t free' used' a' made, s.receiveBufferList how = .ok t ∧
      Settled t free' used' a' unread taken queued ∧
      t.rest = (made, s.inNdis, s.returnList, s.nRxInNdis, s.phase, s.crashed) ∧
      t.pageFailures = s.pageFailures := by
  have hlen : ys.length ≤ maxRxFrags := by
    have h1 := h.onRing.length
    have h2 := h.pool.length
    simp only [List.length_append] at h1
    omega
  obtain ⟨p, t, free', used', a', ht, c1, c2, c3, c4, c5⟩ := receiveRfdChain_ok h.pool h.rfds
    h.onRing hy (p := ⟨none, [], false⟩) (fun _ => rfl) hlen
  -- a discarded packet
  have hdiscard : ∀ {o : Option RfdId} {u : State}, Rfds u used' (o.toList ++ p.chain) →
      u.frame = t.frame → u.pageFailures = t.pageFailures → ∃ v, State.discard o p.chain u = .ok v ∧
        Settled v free' used' a' unread taken queued ∧ v.rest = s.rest ∧
        v.pageFailures = s.pageFailures := by
    intro o u hu hf hpf
    obtain ⟨v, hv, d1, d2, d3⟩ := discard_ok hu
    have hvt := d2.trans hf
    exact ⟨v, hv, ⟨c1.frame hvt, d1, (rest_of_frame hvt).2 ▸ c3⟩,
      (rest_of_frame hvt).1.trans c4, d3.trans (hpf.trans c5)⟩
  -- a packet that is made into lists
  have hmake : ∀ {u : State} {nbls : List (List RfdId)}, Rfds u used' nbls.flatten →
      u.frame = t.frame → u.pageFailures = t.pageFailures →
        Settled { u with made := u.made ++ nbls } free' used' a' unread taken queued ∧
        ({ u with made := u.made ++ nbls } : State).rest =
          (u.made ++ nbls, s.inNdis, s.returnList, s.nRxInNdis, s.phase, s.crashed) ∧
        u.pageFailures = s.pageFailures := by
    intro u nbls hu hf hpf
    refine ⟨⟨(c1.frame hf).congr rfl rfl rfl rfl rfl, hu.make, (rest_of_frame hf).2 ▸ c3⟩, ?_,
      hpf.trans c5⟩
    have e := (rest_of_frame hf).1.trans c4
    simp only [State.rest, Prod.mk.injEq, true_and] at e ⊢
    exact e.2
  -- the packet with its prefix RFD, if that is kept
  have hlists : ∀ (o : Option RfdId) (u : State), Rfds u used' (o.toList ++ p.chain) →
      u.frame = t.frame → u.pageFailures = t.pageFailures → ∃ v made,
        (if (!how.list) = true then State.discard o p.chain u
        else o.elim (.ok { u with made := u.made ++ [p.chain] }) fun r =>
          if (!how.prefixList) = true then State.discard (some r) p.chain u
          else .ok { u with made := u.made ++ [[r], p.chain] }) = Except.ok v ∧
        Settled v free' used' a' unread taken queued ∧
        v.rest = (made, s.inNdis, s.returnList, s.nRxInNdis, s.phase, s.crashed) ∧
        v.pageFailures = s.pageFailures := by
    intro o u e1 e2 e3
    split
    · obtain ⟨v, hv, d1, d2, d3⟩ := hdiscard e1 e2 e3
      exact ⟨v, s.made, hv, d1, d2, d3⟩
    · cases o with
      | none =>
        have hc : Rfds u used' [p.chain].flatten := by simpa using e1
        exact ⟨_, _, rfl, hmake hc e2 e3⟩
      | some r =>
        rw [Option.elim_some]
        split
        · obtain ⟨v, hv, d1, d2, d3⟩ := hdiscard e1 e2 e3
          exact ⟨v, s.made, hv, d1, d2, d3⟩
        · have hc : Rfds u used' [[r], p.chain].flatten := by simpa using e1
          exact ⟨_, _, rfl, hmake hc e2 e3⟩
  unfold State.receiveBufferList
  simp only [ht, ok_bind]
  split
  · obtain ⟨v, hv, d1, d2, d3⟩ := hdiscard c2 rfl rfl
    exact ⟨v, free', used', a', s.made, hv, d1, d2, d3⟩
  · split
    · obtain ⟨v, made, hv, hrest⟩ := hlists p.prefixRfd t c2 rfl rfl
      refine ⟨v, free', used', a', made, ?_, hrest⟩
      rw [← hv]
      cases p.prefixRfd <;> rfl
    · obtain ⟨u, hu, e1, e2, e3⟩ := releaseMdlChain_ok c2
      obtain ⟨v, made, hv⟩ := hlists none u e1 e2 e3
      rw [hu]
      exact ⟨v, free', used', a', made, hv⟩

/-- Releasing the net buffer lists that have come back. -/
theorem releaseNetBufferLists_ok {nbls : List (List RfdId)} (hr : Rfds s used nbls.flatten)
    (hn : nbls.length ≤ s.nRxInNdis) :
    ∃ t, nbls.foldlM State.releaseNetBufferList s = .ok t ∧ Rfds t used [] ∧
      t.frame = { s with nRxInNdis := s.nRxInNdis - nbls.length }.frame ∧
      t.pageFailures = s.pageFailures := by
  induction nbls generalizing s with
  | nil => exact ⟨s, rfl, hr, rfl, rfl⟩
  | cons nbl nbls ih =>
    rw [List.length_cons] at hn
    obtain ⟨t, ht, h1, h2, h3⟩ := releaseMdlChain_ok (show Rfds s used (nbl ++ nbls.flatten) from hr)
    have h10 : t.nRxInNdis = s.nRxInNdis := by
      have := (rest_of_frame h2).1
      simp only [State.rest, Prod.mk.injEq] at this
      exact this.2.2.2.1
    have hne : t.nRxInNdis ≠ 0 := by omega
    have hr1 : Rfds { t with nRxInNdis := t.nRxInNdis - 1 } used nbls.flatten :=
      h1.perm (fun _ _ => rfl) rfl rfl rfl rfl rfl rfl (.refl _)
    obtain ⟨u, hu, d1, d2, d3⟩ := ih hr1 (by simp only; omega)
    refine ⟨u, ?_, d1, d2.trans ?_, d3.trans h3⟩
    · rw [List.foldlM_cons]
      simp only [State.releaseNetBufferList, ht, ok_bind, xmAssert_pos hne]
      exact hu
    · simp only [State.frame, Prod.mk.injEq] at h2 ⊢
      obtain ⟨f1, f2, f3, f4, f5, f6, f7, f8, f9, f10, f11, f12⟩ := h2
      refine ⟨f1, f2, f3, f4, f5, f6, f7, f8, f9, ?_, f11, f12⟩
      rw [List.length_cons]
      omega

theorem swizzle_ok (memory : Nat → Memory) (h : Settled s free used a unread taken queued)
    (hn : s.returnList.length ≤ s.nRxInNdis) :
    ∃ t free' used' queued', s.swizzle memory = .ok t ∧
      Settled t free' used' a unread taken queued' ∧
      t.rest = (s.made, s.inNdis, [], s.nRxInNdis - s.returnList.length, s.phase, s.crashed) ∧
      ((∀ i, memory i ≠ .noPage) → t.pageFailures = s.pageFailures) := by
  obtain ⟨t, ht, c1, c2, c3⟩ := releaseNetBufferLists_ok h.rfds.unreturn hn
  have hf := rest_of_frame c2
  have hp : Pool t false free used [] :=
    Pool.frame (h.pool.congr (t := { s with returnList := [], nRxInNdis := _ }) rfl rfl rfl rfl rfl) c2
  have ho : OnRing t.ring a unread taken queued [] used := hf.2 ▸ h.onRing
  obtain ⟨u, free', used', queued', hu, d1, d2, d3, d4, d5⟩ := replenishRxRing_ok memory hp c1 ho
  refine ⟨u, free', used', queued', ?_, ⟨d1, d2, d3⟩, d4.trans hf.1, fun hm => (d5 hm).trans c3⟩
  unfold State.swizzle
  rw [ht, ok_bind]
  exact hu

end Packets

/-! ## The start -/

section Start

/-- The free list of `fresh n`. -/
def freshIds : (n : Nat) → n ≤ maxRxFrags → List Id
  | 0, _ => []
  | n + 1, h => ⟨n, h⟩ :: freshIds n (Nat.le_of_succ_le h)

theorem mem_freshIds {n : Nat} (h : n ≤ maxRxFrags) (x : Id) : x ∈ freshIds n h ↔ x.val < n := by
  induction n with
  | zero => simp [freshIds]
  | succ n ih =>
    simp only [freshIds, List.mem_cons, Fin.ext_iff, ih (Nat.le_of_succ_le h)]
    omega

theorem freshIds_nodup {n : Nat} (h : n ≤ maxRxFrags) : (freshIds n h).Nodup := by
  induction n with
  | zero => exact List.nodup_nil
  | succ n ih =>
    refine List.nodup_cons.mpr ⟨fun hm => ?_, ih _⟩
    exact Nat.lt_irrefl n ((mem_freshIds _ _).mp hm)

theorem length_freshIds {n : Nat} (h : n ≤ maxRxFrags) : (freshIds n h).length = n := by
  induction n with
  | zero => rfl
  | succ n ih => rw [freshIds, List.length_cons, ih]

/-- The links of `fresh m` from `n` down. -/
theorem freshIds_seg {m n : Nat} (hm : m ≤ maxRxFrags) (hn : n ≤ m) :
    Seg (fun x => ((fresh m).shadow x).next) (fresh n).nextFreeId (freshIds n (hn.trans hm)) none := by
  induction n with
  | zero => rfl
  | succ n ih =>
    have hlt : n < m := hn
    refine ⟨dif_pos ⟨Nat.succ_pos n, hn.trans hm⟩, ?_⟩
    have e : ((fresh m).shadow ⟨n, hn.trans hm⟩).next = (fresh n).nextFreeId := by
      simp only [fresh, if_pos hlt]
      by_cases h0 : 0 < n
      · rw [dif_pos h0, dif_pos ⟨h0, (Nat.le_of_lt hlt).trans hm⟩]
      · rw [dif_neg h0, dif_neg fun h => h0 h.1]
    simp only [e]
    exact ih (Nat.le_of_lt hlt)

theorem settled_fresh :
    Settled (fresh maxRxFrags) (freshIds maxRxFrags (Nat.le_refl _)) [] 0 [] [] [] := by
  constructor
  case pool =>
    constructor
    case chain => exact freshIds_seg (Nat.le_refl _) (Nat.le_refl _)
    case parts =>
      refine (List.perm_ext_iff_of_nodup (freshIds_nodup _) (List.nodup_finRange _)).mpr fun x => ?_
      exact ⟨fun _ => List.mem_finRange x, fun _ => (mem_freshIds _ x).mpr x.isLt⟩
    case onFree => exact fun _ _ => ⟨rfl, rfl⟩
    case onUsed => exact fun _ h => nomatch h
    case onHand => exact fun _ h => nomatch h
    case nrFree => exact (length_freshIds (Nat.le_refl maxRxFrags)).symm
    case pending => rfl
    case grants => rfl
  case rfds =>
    constructor
    case pending => exact fun _ h => nomatch h
    case inj => exact fun _ h => nomatch h
    case idle => exact fun _ h => nomatch h
    case nodup => exact List.nodup_nil
    case cached => rfl
    case lt => exact Nat.zero_lt_succ _
    case count => rfl
  case onRing =>
    exact ⟨SharedRing.holds_fresh (by decide) (by decide) (by decide), .refl _, rfl⟩

/-- One turn of the loop of `ReceiverCommonInitializeBuffers` over the shadows. -/
theorem freeShadow_fresh {n : Nat} (h : n < maxRxFrags) :
    (fresh n).freeShadow ⟨n, h⟩ false = .ok (fresh (n + 1)) := by
  have hsh : (fresh n).shadow ⟨n, h⟩ = ⟨none, false, some 0⟩ := by simp [fresh]
  have hnr : (fresh n).nrFreeIds < maxRxFrags := h
  unfold State.freeShadow
  simp only [hsh, if_pos hnr, xmAssert_pos, true_or, ok_bind, Except.ok.injEq]
  have e : update (fresh n).shadow ⟨n, h⟩ ⟨none, false, (fresh n).nextFreeId⟩ =
      (fresh (n + 1)).shadow := by
    funext x
    by_cases hx : x = ⟨n, h⟩
    · subst hx
      rw [update_self]
      simp only [fresh, Nat.lt_succ_self, if_true, RxShadow.mk.injEq, true_and]
      by_cases h0 : 0 < n
      · rw [dif_pos h0, dif_pos ⟨h0, Nat.le_of_lt h⟩]
      · rw [dif_neg h0, dif_neg fun h => h0 h.1]
    · have hne : x.val ≠ n := fun e => hx (Fin.ext e)
      have hiff : x.val < n ↔ x.val < n + 1 := by omega
      rw [update_of_ne hx]
      simp only [fresh, hiff]
  have e' : some (⟨n, h⟩ : Id) = (fresh (n + 1)).nextFreeId := by
    rw [fresh, dif_pos (show 0 < n + 1 ∧ n + 1 ≤ maxRxFrags from ⟨Nat.succ_pos n, h⟩)]
    rfl
  simp only [State.setShadow, e, e']
  rfl

/-- The loop sets up the free list. -/
theorem initializeShadows :
    (List.finRange maxRxFrags).foldlM (fun s id => State.freeShadow s id false) (fresh 0) =
      .ok (fresh maxRxFrags) := by
  have hloop : ∀ n, n ≤ maxRxFrags → ((List.finRange maxRxFrags).take n).foldlM
      (fun s id => State.freeShadow s id false) (fresh 0) = .ok (fresh n) := by
    intro n
    induction n with
    | zero => exact fun _ => rfl
    | succ n ih =>
      intro hn
      have hlen : n < (List.finRange maxRxFrags).length := by rw [List.length_finRange]; exact hn
      rw [List.take_succ_eq_append_getElem hlen, List.foldlM_append, ih (Nat.le_of_succ_le hn),
        List.getElem_finRange]
      exact freeShadow_fresh hn
  have h := hloop maxRxFrags (Nat.le_refl _)
  rwa [List.take_of_length_le (by rw [List.length_finRange])] at h

end Start

/-! ## Runs -/

/-- The receiver at work: whole packets are unread, and `nRxInNdis` counts the lists NDIS has or has
given back. -/
structure Working (s : State) (free used : List Id) (a : Nat) (packets : List (List RxResponse))
    (taken queued : List Id) : Prop where
  settled : Settled s free used a packets.flatten taken queued
  whole : ∀ ys ∈ packets, isPacket RxResponse.toRxFlags true ys = true
  inNdis : s.nRxInNdis = s.inNdis.length + s.returnList.length
  alive : s.crashed = none
  pages : s.pageFailures = 0

/-- The receiver after its buffers are gone. -/
structure Cleaned (s : State) (free : List Id) : Prop where
  pool : Pool s false free [] []
  rfds : Rfds s [] []
  ring : sub32 s.ring.reqProdPvt s.ring.rspCons ≤ maxRxFrags
  alive : s.crashed = none
  pages : s.pageFailures = 0

def Inv (s : State) : Prop :=
  match s.phase with
  | .fresh => ∃ free, Working s free [] 0 [] [] []
  | .running => ∃ free used a packets taken queued, Working s free used a packets taken queued
  | .cleaned => ∃ free, Cleaned s free

/-- What a step asks the allocator for. -/
def Act.memory : Act → Nat → Memory
  | .initializeBuffers memory => memory
  | .swizzle memory => memory
  | .restartLate memory => memory
  | _ => fun _ => .both

/-- There is memory for the page of every RFD there is memory for. -/
def PagesThere (_ : State) (a : Act) : Prop := ∀ i, a.memory i ≠ .noPage

section Runs

variable {s t : State} {free used : List Id} {a : Nat} {packets : List (List RxResponse)}
  {taken queued : List Id}

/-- The routine that runs keeps the phase. -/
theorem inv_running (packets : List (List RxResponse)) (hphase : t.phase = .running)
    (h : Working t free used a packets taken queued) : Inv t := by
  unfold Inv
  rw [hphase]
  exact ⟨free, used, a, packets, taken, queued, h⟩

theorem inv_initializeBuffers {memory : Nat → Memory} (h : Working s free [] 0 [] [] [])
    (hm : ∀ i, memory i ≠ .noPage) : ∃ t, s.initializeBuffers memory = .ok t ∧ Inv t := by
  obtain ⟨t, free', used', queued', ht, c1, c2, c3, c4, c5⟩ :=
    replenishRxRing_ok memory h.settled.pool h.settled.rfds h.settled.onRing
  simp only [State.rest, Prod.mk.injEq] at c4
  obtain ⟨r1, r2, r3, r4, r5, r6⟩ := c4
  have hprod : t.ring.reqProd = t.pendingRfds := by
    have hlen := c3.length
    have hle := c3.holds.fits
    have hlt := c3.holds.lt
    simp only [List.flatten_nil, List.length_nil] at hlen hle
    rw [c3.holds.reqProd, c1.pending]
    simp only [List.flatten_nil, List.length_nil, u32]
    omega
  have hw : Working { t with phase := .running } free' used' 0 [] [] queued' :=
    ⟨⟨c1.congr rfl rfl rfl rfl rfl, c2.perm (fun _ _ => rfl) rfl rfl rfl rfl rfl rfl (.refl _), c3⟩,
      (fun _ h => nomatch h), by simp only [r2, r3, r4, h.inNdis], r6.trans h.alive,
      (c5 hm).trans h.pages⟩
  refine ⟨{ t with phase := .running }, ?_, inv_running [] rfl hw⟩
  unfold State.initializeBuffers
  rw [ht, ok_bind, xmAssert_pos hprod, ok_bind]

theorem inv_receive {how : State.Reception} (hphase : s.phase = .running)
    (h : Working s free used a packets taken queued) (hu : s.ring.hasUnconsumedResponses) :
    ∃ t, s.receiveBufferList how = .ok t ∧ Inv t := by
  have hne : packets.flatten ≠ [] := h.settled.onRing.holds.unread_iff.mp hu
  cases packets with
  | nil => exact absurd rfl hne
  | cons ys packets =>
    obtain ⟨t, free', used', a', made, ht, c1, c2, c3⟩ :=
      receiveBufferList_ok how h.settled (h.whole ys List.mem_cons_self)
    simp only [State.rest, Prod.mk.injEq] at c2
    obtain ⟨-, r2, r3, r4, r5, r6⟩ := c2
    refine ⟨t, ht, inv_running packets (r5.trans hphase) ⟨c1, fun zs hz => h.whole zs (.tail _ hz), ?_,
      r6.trans h.alive, c3.trans h.pages⟩⟩
    rw [r2, r3, r4, h.inNdis]

theorem inv_swizzle {memory : Nat → Memory} (hphase : s.phase = .running)
    (h : Working s free used a packets taken queued) (hm : ∀ i, memory i ≠ .noPage) :
    ∃ t, s.swizzle memory = .ok t ∧ Inv t := by
  have hn := h.inNdis
  obtain ⟨t, free', used', queued', ht, c1, c2, c3⟩ := swizzle_ok memory h.settled (by omega)
  simp only [State.rest, Prod.mk.injEq] at c2
  obtain ⟨-, r2, r3, r4, r5, r6⟩ := c2
  refine ⟨t, ht, inv_running packets (r5.trans hphase) ⟨c1, h.whole, ?_, r6.trans h.alive,
    (c3 hm).trans h.pages⟩⟩
  rw [r2, r3, r4, List.length_nil]
  omega

theorem inv_restartEarly (hphase : s.phase = .running)
    (h : Working s free used a packets taken queued) : ∃ t, s.restartEarly = .ok t ∧ Inv t := by
  obtain ⟨t, free', ht, c1, c2, c3, c4, c5⟩ := dropAll_ok
    (s := { s with ring := .fresh maxRxFrags }) (h.settled.pool.congr rfl rfl rfl rfl rfl)
    (h.settled.rfds.perm (fun _ _ => rfl) rfl rfl rfl rfl rfl rfl (.refl _))
  simp only [State.rest, Prod.mk.injEq] at c3
  obtain ⟨-, r2, r3, r4, r5, r6⟩ := c3
  have ho : OnRing t.ring 0 [] [] [] [] [] := by
    rw [c4]
    exact settled_fresh.onRing
  refine ⟨t, ht, inv_running [] (r5.trans hphase) ⟨⟨c1, c2, ho⟩, (fun _ h => nomatch h), ?_,
    r6.trans h.alive, c5.trans h.pages⟩⟩
  rw [r2, r3, r4]
  exact h.inNdis

theorem inv_restartLate {memory : Nat → Memory} (hphase : s.phase = .running)
    (h : Working s free used a packets taken queued) (hm : ∀ i, memory i ≠ .noPage) :
    ∃ t, s.replenishRxRing memory = .ok t ∧ Inv t := by
  obtain ⟨t, free', used', queued', ht, c1, c2, c3, c4, c5⟩ :=
    replenishRxRing_ok memory h.settled.pool h.settled.rfds h.settled.onRing
  simp only [State.rest, Prod.mk.injEq] at c4
  obtain ⟨-, r2, r3, r4, r5, r6⟩ := c4
  refine ⟨t, ht, inv_running packets (r5.trans hphase) ⟨⟨c1, c2, c3⟩, h.whole, ?_, r6.trans h.alive,
    (c5 hm).trans h.pages⟩⟩
  rw [r2, r3, r4, h.inNdis]

/-- With everything back from NDIS, cleaning up finds every RFD. -/
theorem inv_cleanupBuffers {tearDown : Bool} (h : Working s free used a packets taken queued)
    (hn : s.nRxInNdis = 0) (hmade : s.made = []) :
    ∃ t, s.cleanupBuffers tearDown = .ok t ∧ Inv t := by
  have hring : sub32 s.ring.reqProdPvt s.ring.rspCons ≤ maxRxFrags := by
    rw [h.settled.onRing.holds.prod_sub_cons, ← h.settled.onRing.size]
    exact h.settled.onRing.holds.fits
  obtain ⟨p1, p2, p3, p4, p5, p6, p7, p8⟩ := h.settled.pool
  obtain ⟨t, free', ht, c1, c2, c3, c4, c5⟩ : ∃ t free',
      State.dropAll (if tearDown then { s with nrFreeIds := maxRxFrags } else s) = .ok t ∧
      Pool t false free' [] [] ∧ Rfds t [] [] ∧ t.rest = s.rest ∧ t.ring = s.ring ∧
      t.pageFailures = s.pageFailures := by
    cases tearDown with
    | false => exact dropAll_ok h.settled.pool h.settled.rfds
    | true =>
      have hp : Pool { s with nrFreeIds := maxRxFrags } true free used [] :=
        ⟨p1, p2, p3, p4, p5, rfl, p7, p8⟩
      exact dropAll_ok hp (h.settled.rfds.perm (fun _ _ => rfl) rfl rfl rfl rfl rfl rfl (.refl _))
  obtain ⟨u, hu, d1, d2, d3, d4⟩ := dropCached_ok c2 rfl
  have hur : u.rest = s.rest := (rest_of_frame d3).1.trans c3
  simp only [State.rest, Prod.mk.injEq] at hur
  obtain ⟨r1, r2, r3, r4, r5, r6⟩ := hur
  have hlists : u.lists = [] := by
    have hin := h.inNdis
    have h1 : s.inNdis = [] := List.length_eq_zero_iff.mp (by omega)
    have h2 : s.returnList = [] := List.length_eq_zero_iff.mp (by omega)
    rw [State.lists, r1, r2, r3, hmade, h1, h2]
    rfl
  have hzero : u.currNumRfd = 0 := by
    have hc := d1.count
    have hl := d1.lt
    rw [d2, hlists, d4, c5, h.pages, Nat.add_zero] at hc
    rw [u32, Nat.mod_eq_of_lt hl] at hc
    exact hc
  have halive : u.crashed = none := r6.trans h.alive
  refine ⟨{ u with phase := .cleaned }, ?_, ?_⟩
  · unfold State.cleanupBuffers
    rw [ht, ok_bind, hu, ok_bind, xmAssert_pos hzero, ok_bind]
  · refine ⟨free', (c1.frame d3).congr rfl rfl rfl rfl rfl,
      d1.perm (fun _ _ => rfl) rfl rfl rfl rfl rfl rfl (.refl _), ?_, halive,
      d4.trans (c5.trans h.pages)⟩
    simp only [(rest_of_frame d3).2, c4]
    exact hring

/-- NDIS returns some of its lists. -/
theorem Rfds.returnLists {nbls : List (List RfdId)} (hr : Rfds s used [])
    (hsub : nbls.Subperm s.inNdis) :
    Rfds { s with inNdis := s.inNdis.diff nbls, returnList := nbls ++ s.returnList } used [] := by
  have hperm := (List.subperm_append_diff_self_of_count_le
    (List.subperm_ext_iff.mp hsub)).flatten
  refine hr.perm (fun _ _ => rfl) rfl rfl rfl rfl rfl rfl (List.perm_iff_count.mpr fun r => ?_)
  have hc := hperm.count_eq r
  simp only [State.lists, List.flatten_append, List.count_append] at hc ⊢
  omega

theorem inv_returnLists {nbls : List (List RfdId)} (hphase : s.phase = .running)
    (h : Working s free used a packets taken queued) (hsub : nbls.Subperm s.inNdis) :
    Inv { s with inNdis := s.inNdis.diff nbls, returnList := nbls ++ s.returnList } := by
  refine inv_running packets hphase ⟨⟨h.settled.pool.congr rfl rfl rfl rfl rfl,
    h.settled.rfds.returnLists hsub, h.settled.onRing⟩, h.whole, ?_, h.alive, h.pages⟩
  have hlen := (List.subperm_append_diff_self_of_count_le
    (List.subperm_ext_iff.mp hsub)).length_eq
  have hn := h.inNdis
  simp only [List.length_append] at hlen ⊢
  omega

theorem inv_indicate (hphase : s.phase = .running)
    (h : Working s free used a packets taken queued) : Inv s.indicate := by
  have hr : Rfds s.indicate used [] := by
    refine h.settled.rfds.perm (fun _ _ => rfl) rfl rfl rfl rfl rfl rfl
      (List.perm_iff_count.mpr fun r => ?_)
    simp only [State.lists, State.indicate, List.flatten_append, List.count_append, List.flatten_nil,
      List.count_nil]
    omega
  refine inv_running packets hphase ⟨⟨h.settled.pool.congr rfl rfl rfl rfl rfl, hr,
    h.settled.onRing⟩, h.whole, ?_, h.alive, h.pages⟩
  have hn := h.inNdis
  simp only [State.indicate, List.length_append]
  omega

/-- The back end only touches the ring. -/
theorem inv_ring {ring : SharedRing Id RxResponse} (hphase : s.phase = .running)
    (h : Working s free used a packets taken queued) {a' : Nat} {packets' : List (List RxResponse)}
    {taken' queued' : List Id} (ho : OnRing ring a' packets'.flatten taken' queued' [] used)
    (hw : ∀ ys ∈ packets', isPacket RxResponse.toRxFlags true ys = true) : Inv { s with ring } :=
  inv_running packets' hphase ⟨⟨h.settled.pool.congr rfl rfl rfl rfl rfl,
    h.settled.rfds.perm (fun _ _ => rfl) rfl rfl rfl rfl rfl rfl (.refl _), ho⟩, hw, h.inNdis, h.alive,
    h.pages⟩

theorem inv_act {x : Act} {r : Except Crash State} (h : Inv s) (hok : PagesThere s x)
    (hx : act s x = some r) : ∃ t, r = .ok t ∧ Inv t := by
  by_cases hrun : s.phase = .running
  · obtain ⟨free, used, a, packets, taken, queued, hw⟩ : ∃ free used a packets taken queued,
        Working s free used a packets taken queued := by
      unfold Inv at h
      rw [hrun] at h
      exact h
    have hne : ¬ s.phase ≠ .running := fun hp => hp hrun
    cases x with
    | initializeBuffers memory => simp [act, hrun] at hx
    | backTake =>
      simp only [act, if_neg hne, Option.map_eq_some_iff] at hx
      obtain ⟨ring, htake, rfl⟩ := hx
      obtain ⟨y, rest, -, ho⟩ := hw.settled.onRing.take htake
      exact ⟨_, rfl, inv_ring hrun hw ho hw.whole⟩
    | backPacket ys =>
      simp only [act, if_neg hne] at hx
      split at hx
      · next hc =>
        cases hx
        obtain ⟨taken', ho⟩ := hw.settled.onRing.answers hc.2.1
          (fun y hy => hw.settled.onRing.holds.has ▸ hc.2.2 y hy)
        have hflat : (packets ++ [ys]).flatten = packets.flatten ++ ys := by simp
        rw [← hflat] at ho
        refine ⟨_, rfl, inv_ring hrun hw ho fun zs hz => ?_⟩
        rcases List.mem_append.mp hz with hz | hz
        · exact hw.whole zs hz
        · rw [List.mem_singleton.mp hz]
          exact hc.1
      · cases hx
    | receive how =>
      simp only [act, if_neg hne] at hx
      split at hx
      · next hu =>
        cases hx
        exact inv_receive hrun hw hu
      · cases hx
    | swizzle memory =>
      simp only [act, if_neg hne, Option.some.injEq] at hx
      subst hx
      exact inv_swizzle hrun hw hok
    | indicate =>
      simp only [act, if_neg hne, Option.some.injEq] at hx
      subst hx
      exact ⟨_, rfl, inv_indicate hrun hw⟩
    | returnLists nbls =>
      simp only [act, if_neg hne] at hx
      split at hx
      · next hc =>
        cases hx
        exact ⟨_, rfl, inv_returnLists hrun hw hc.2⟩
      · cases hx
    | restartEarly =>
      simp only [act, if_neg hne, Option.some.injEq] at hx
      subst hx
      exact inv_restartEarly hrun hw
    | restartLate memory =>
      simp only [act, if_neg hne, Option.some.injEq] at hx
      subst hx
      exact inv_restartLate hrun hw hok
    | cleanupBuffers tearDown =>
      simp only [act, if_neg hne] at hx
      split at hx
      · next hc =>
        cases hx
        exact inv_cleanupBuffers hw hc.1 hc.2
      · cases hx
  · cases x with
    | initializeBuffers memory =>
      obtain ⟨hf, hx⟩ := Option.ite_none_right_eq_some.mp hx
      cases hx
      unfold Inv at h
      rw [hf] at h
      obtain ⟨free, hw⟩ := h
      exact inv_initializeBuffers hw hok
    | _ => simp [act, hrun] at hx

theorem inv_step {x : Act} (h : Inv s) (hok : PagesThere s x) (hst : step s x = some t) : Inv t := by
  unfold step at hst
  split at hst
  · cases hst
  · obtain ⟨r, hr, rfl⟩ := Option.map_eq_some_iff.mp hst
    obtain ⟨t, rfl, ht⟩ := inv_act h hok hr
    exact ht

theorem inv_fresh : Inv machine.init :=
  ⟨_, settled_fresh, (fun _ h => nomatch h), rfl, rfl, rfl⟩

/-- Where the ids and the RFDs are, and what counts them. -/
structure Conserved (s : State) : Prop where
  freeList : ∃ free, Seg (fun x => (s.shadow x).next) s.nextFreeId free none ∧ free.Nodup ∧
    (∀ x, x ∈ free ↔ (s.shadow x).inUse = false) ∧ s.nrFreeIds = free.length
  pending : s.pendingRfds = (List.finRange maxRxFrags).countP fun x => (s.shadow x).inUse
  ring : sub32 s.ring.reqProdPvt s.ring.rspCons ≤ maxRxFrags
  cached : s.numCachedRfds = s.rfdCache.length
  count : s.currNumRfd = u32 (s.pendingRfds + s.numCachedRfds +
    (s.made.flatten ++ s.inNdis.flatten ++ s.returnList.flatten).length)
  alive : s.crashed = none

theorem Pool.countP_inUse (h : Pool s false free used []) :
    (List.finRange maxRxFrags).countP (fun x => (s.shadow x).inUse) = used.length := by
  rw [← h.parts.countP_eq, List.append_nil, List.countP_append,
    List.countP_eq_length.mpr fun x hx => (h.onUsed x hx).1,
    List.countP_eq_zero.mpr fun x hx => by rw [(h.onFree x hx).1]; exact Bool.false_ne_true]
  rfl

theorem Pool.conserved (hp : Pool s false free used []) (hr : Rfds s used [])
    (hring : sub32 s.ring.reqProdPvt s.ring.rspCons ≤ maxRxFrags) (halive : s.crashed = none)
    (hpages : s.pageFailures = 0) : Conserved s := by
  have hnd := hp.nodup
  rw [List.nodup_append] at hnd
  constructor
  case freeList =>
    refine ⟨free, hp.chain, hnd.2.1, fun x => ⟨fun hx => (hp.onFree x hx).1, fun hx => ?_⟩, hp.nrFree⟩
    rcases hp.mem x with hu | hh | hf
    · rw [(hp.onUsed x hu).1] at hx
      cases hx
    · cases hh
    · exact hf
  case pending => rw [hp.pending, hp.countP_inUse]
  case ring => exact hring
  case cached => exact hr.cached
  case count =>
    have hc := hr.count
    have hl := hr.lt
    rw [hpages, Nat.add_zero, u32, Nat.mod_eq_of_lt hl] at hc
    rw [hc, hp.pending, hr.cached]
    congr 1
    simp only [State.lists, List.nil_append, List.length_append, List.flatten_append]
    omega
  case alive => exact halive

theorem Inv.conserved (h : Inv s) : Conserved s := by
  have hworking : ∀ {free used a packets taken queued},
      Working s free used a packets taken queued → Conserved s := by
    intro free used a packets taken queued hw
    refine hw.settled.pool.conserved hw.settled.rfds ?_ hw.alive hw.pages
    rw [hw.settled.onRing.holds.prod_sub_cons, ← hw.settled.onRing.size]
    exact hw.settled.onRing.holds.fits
  unfold Inv at h
  split at h
  · obtain ⟨free, hw⟩ := h
    exact hworking hw
  · obtain ⟨free, used, a, packets, taken, queued, hw⟩ := h
    exact hworking hw
  · obtain ⟨free, hc⟩ := h
    exact hc.pool.conserved hc.rfds hc.ring hc.alive hc.pages

/-- As long as no page of an RFD fails to be allocated, shadows and RFDs are conserved. -/
theorem rfds_conserved (h : machine.Reach PagesThere s) : Conserved s :=
  (h.inv inv_fresh fun _ _ _ => inv_step).conserved

end Runs

section Witness

/-- Memory for the first `n` RFDs of a ring with all its ids free. -/
def memoryFor (n : Nat) : Nat → Memory := fun i => if maxRxFrags ≤ i + n then .both else .noRfd

/-- A packet of two fragments goes up to NDIS and comes back through the cache. -/
def roundTrip : List Act :=
  [.initializeBuffers (memoryFor 3), .backTake, .backTake,
    .backPacket [⟨⟨false, true, false⟩, Fin.last 255, false⟩,
      ⟨⟨false, false, false⟩, (Fin.last 254).castSucc, false⟩],
    .receive ⟨true, true, true, true⟩, .indicate, .returnLists [[0, 1]], .swizzle (fun _ => .noRfd)]

theorem pagesThere_roundTrip : ∀ a ∈ roundTrip, ∀ s, PagesThere s a := by
  intro a ha s i
  simp only [roundTrip, List.mem_cons, List.not_mem_nil, or_false] at ha
  rcases ha with rfl | rfl | rfl | rfl | rfl | rfl | rfl | rfl <;>
    simp only [Act.memory, memoryFor, ne_eq, reduceCtorEq, not_false_eq_true]
  split <;> simp

theorem rfds_conserved_roundTrip :
    ∃ s, machine.Reach PagesThere s ∧ s.pendingRfds = 3 ∧ s.currNumRfd = 3 ∧ Conserved s := by
  obtain ⟨s, hr, hp⟩ := Machine.exists_reach_of_forall machine PagesThere
    (fun s => s.pendingRfds = 3 ∧ s.currNumRfd = 3) roundTrip pagesThere_roundTrip (by decide +kernel)
  simp only [decide_eq_true_eq] at hp
  exact ⟨s, hr, hp.1, hp.2, rfds_conserved hr⟩

/-- A page that cannot be allocated is counted down all the same, and the clean-up stops the
system. -/
theorem page_failure_uncounted :
    ∃ s t, machine.Reach Machine.Any s ∧ s.pendingRfds = 0 ∧ s.rfdCache = [] ∧ s.lists = [] ∧
      s.currNumRfd = 4294967295 ∧ machine.step s (.cleanupBuffers false) = some t ∧
      t.crashed = some .bugCheck := by
  obtain ⟨s, hr, hp⟩ := Machine.exists_reach machine Machine.Any
    (fun s => s.pendingRfds = 0 ∧ s.rfdCache = [] ∧ s.lists = [] ∧ s.currNumRfd = 4294967295 ∧
      (machine.step s (.cleanupBuffers false)).any fun t => t.crashed = some .bugCheck)
    [.initializeBuffers fun _ => .noPage] (by decide +kernel)
  simp only [decide_eq_true_eq, Option.any_eq_true] at hp
  obtain ⟨h1, h2, h3, h4, t, ht, hc⟩ := hp
  exact ⟨s, t, hr, h1, h2, h3, h4, ht, hc⟩

end Witness

end XcWindows.Xennet6.Rx
