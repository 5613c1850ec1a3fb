import Mathlib.Data.Fintype.Card
import Mathlib.Data.List.Perm.Basic
import XcWindows.Xennet6.Transmitter

/-!
# Chains of TX shadows

An id is the index of a shadow with its generation, so a chain of ids holds together as long as the
generations of its shadows do not change. `Chain` is a chain as the list of its shadows, and `Pool`
says that the free list is the chain of the shadows that are not in use. Every loop over a chain has
one lemma that says what it does to the shadows.
-/

namespace XcWindows.Xennet6

open XcWindows.Lib

/-! ## Ids -/

section Ids
variable (x : Fin maxTxFrags) {g : Nat}

theorem wrapTxId_eq (hg : g < 128) : wrapTxId x g = x + g * 256 := by
  have : x.val < 256 := x.isLt
  exact Nat.mod_eq_of_lt (by omega)

theorem txIdValid_wrapTxId (hg : g < 128) : txIdValid (wrapTxId x g) := by
  have : x.val < 256 := x.isLt
  rw [wrapTxId_eq x hg]
  change (x.val + g * 256) / 0x8000 % 2 = 0
  omega

theorem txIdIndex_wrapTxId (hg : g < 128) : txIdIndex (wrapTxId x g) = x := by
  have : x.val < 256 := x.isLt
  apply Fin.ext
  simp only [txIdIndex, wrapTxId_eq x hg]
  omega

theorem txIdGeneration_wrapTxId (hg : g < 128) : txIdGeneration (wrapTxId x g) = g := by
  have : x.val < 256 := x.isLt
  rw [wrapTxId_eq x hg, txIdGeneration]
  omega

theorem not_txIdValid_invalid : ¬txIdValid invalidTxShadowId := by decide

end Ids

/-! ## Chains -/

/-- The id of a shadow. -/
def idOf (sh : Fin maxTxFrags → TxShadow) (x : Fin maxTxFrags) : TxId :=
  wrapTxId x (sh x).generation

/-- The chain of ids from `id` on, as the list of its shadows. -/
def Chain (sh : Fin maxTxFrags → TxShadow) : TxId → List (Fin maxTxFrags) → Prop
  | id, [] => id = invalidTxShadowId
  | id, x :: xs => id = idOf sh x ∧ Chain sh (sh x).next xs

variable {sh sh' : Fin maxTxFrags → TxShadow} {p : TxShadowInfo} {x : Fin maxTxFrags}
  {xs free : List (Fin maxTxFrags)} {id : TxId}

/-- A chain reads the links and generations of its own shadows. -/
theorem Chain.congr (h : Chain sh id xs)
    (hs : ∀ x ∈ xs, (sh' x).next = (sh x).next ∧ (sh' x).generation = (sh x).generation) :
    Chain sh' id xs := by
  induction xs generalizing id with
  | nil => exact h
  | cons x xs ih =>
    obtain ⟨hn, hg⟩ := hs x List.mem_cons_self
    refine ⟨?_, ?_⟩
    · rw [h.1, idOf, idOf, hg]
    · rw [hn]
      exact ih h.2 fun y hy => hs y (List.mem_cons_of_mem _ hy)

theorem Chain.valid_iff (h : Chain sh id xs) (hg : ∀ x, (sh x).generation < 128) :
    txIdValid id ↔ xs ≠ [] := by
  cases xs with
  | nil =>
    rw [show id = invalidTxShadowId from h]
    simp [not_txIdValid_invalid]
  | cons x xs =>
    rw [h.1, idOf]
    simp [txIdValid_wrapTxId x (hg x)]

/-- Link a shadow in after the last. -/
theorem Chain.snoc {y z : Fin maxTxFrags} {ys : List (Fin maxTxFrags)}
    (h : Chain sh id (ys ++ [y]))
    (hs : ∀ x ∈ ys, (sh' x).next = (sh x).next ∧ (sh' x).generation = (sh x).generation)
    (hg : (sh' y).generation = (sh y).generation) (hy : (sh' y).next = idOf sh' z)
    (hz : (sh' z).next = invalidTxShadowId) : Chain sh' id (ys ++ [y] ++ [z]) := by
  induction ys generalizing id with
  | nil =>
    refine ⟨?_, ?_⟩
    · rw [h.1, idOf, idOf, hg]
    · exact ⟨hy, hz⟩
  | cons x ys ih =>
    obtain ⟨hn, hgx⟩ := hs x List.mem_cons_self
    refine ⟨?_, ?_⟩
    · rw [h.1, idOf, idOf, hgx]
    · rw [hn]
      exact ih h.2 fun w hw => hs w (List.mem_cons_of_mem _ hw)

/-- At most all of the shadows are in a list without repetitions. -/
theorem length_le_of_nodup (h : xs.Nodup) : xs.length ≤ maxTxFrags := by
  have := h.length_le_card
  rwa [Fintype.card_fin] at this

/-! ## The pool -/

/-- A shadow that has nothing. -/
structure Clean (t : TxShadow) : Prop where
  grantRef : t.grantRef = none
  isExtra : t.isExtra = false
  isFakeArp : t.isFakeArp = false
  ownedByBackend : t.ownedByBackend = false
  buffer : t.buffer = none

/-- The free list is the chain of the shadows that are not in use. -/
structure Pool (p : TxShadowInfo) (free : List (Fin maxTxFrags)) : Prop where
  generation : ∀ x, (p.shadow x).generation < 128
  chain : Chain p.shadow p.headFreeId free
  nodup : free.Nodup
  available : p.availableShadows = free.length
  mem_iff : ∀ x, x ∈ free ↔ (p.shadow x).inUse = false
  clean : ∀ x ∈ free, Clean (p.shadow x)

theorem Pool.mem_of_not (h : Pool p free) (hx : x ∉ free) : (p.shadow x).inUse = true := by
  by_contra hc
  exact hx ((h.mem_iff x).mpr (by simpa using hc))

theorem Pool.getTxShadow (h : Pool p free) (x : Fin maxTxFrags) :
    p.getTxShadow (idOf p.shadow x) = .ok x := by
  have hg := h.generation x
  unfold TxShadowInfo.getTxShadow idOf
  rw [xmAssert_pos (txIdValid_wrapTxId x hg), ok_bind, txIdIndex_wrapTxId x hg,
    txIdGeneration_wrapTxId x hg, xmAssert_pos rfl]
  rfl

theorem Pool.chainIds (h : Pool p free) {n : Nat} (hc : Chain p.shadow id xs)
    (hn : xs.length ≤ n) : p.chainIds n id = .ok (xs.map (idOf p.shadow)) := by
  induction xs generalizing id n with
  | nil =>
    have hv : ¬txIdValid id := by
      rw [show id = invalidTxShadowId from hc]
      exact not_txIdValid_invalid
    cases n with
    | zero => rw [TxShadowInfo.chainIds, if_neg hv]; rfl
    | succ n => rw [TxShadowInfo.chainIds, if_neg hv]; rfl
  | cons x xs ih =>
    obtain ⟨n, rfl⟩ : ∃ m, n = m + 1 := ⟨n - 1, by rw [List.length_cons] at hn; omega⟩
    have hv := (hc.valid_iff h.generation).mpr (List.cons_ne_nil _ _)
    rw [TxShadowInfo.chainIds, if_pos hv, hc.1, h.getTxShadow x, ok_bind,
      ih hc.2 (Nat.le_of_succ_le_succ hn)]
    rfl

/-! ## Allocating and freeing -/

namespace TxShadowInfo

/-- What `TransmitterAllocateTxShadowId` leaves when it gives out `x`. -/
def allocated (p : TxShadowInfo) (x : Fin maxTxFrags) : TxShadowInfo :=
  { p.set x { p.shadow x with
      inUse := true, generation := ((p.shadow x).generation + 1) % 128
      next := invalidTxShadowId } with
    headFreeId := (p.shadow x).next, availableShadows := p.availableShadows - 1 }

/-- What `TransmitterFreeTxShadowId` leaves when it takes `x` back. -/
def freed (p : TxShadowInfo) (x : Fin maxTxFrags) : TxShadowInfo :=
  { p.set x { p.shadow x with inUse := false, next := p.headFreeId } with
    headFreeId := idOf p.shadow x, availableShadows := p.availableShadows + 1 }

theorem set_self (p : TxShadowInfo) (x : Fin maxTxFrags) (t : TxShadow) :
    (p.set x t).shadow x = t := Function.update_self ..

theorem set_of_ne (p : TxShadowInfo) {x y : Fin maxTxFrags} (t : TxShadow) (h : y ≠ x) :
    (p.set x t).shadow y = p.shadow y := Function.update_of_ne h ..

theorem allocated_self (p : TxShadowInfo) (x : Fin maxTxFrags) : (p.allocated x).shadow x =
    { p.shadow x with
      inUse := true, generation := ((p.shadow x).generation + 1) % 128
      next := invalidTxShadowId } := p.set_self x _

theorem allocated_of_ne (p : TxShadowInfo) {x y : Fin maxTxFrags} (h : y ≠ x) :
    (p.allocated x).shadow y = p.shadow y := p.set_of_ne _ h

theorem freed_self (p : TxShadowInfo) (x : Fin maxTxFrags) : (p.freed x).shadow x =
    { p.shadow x with inUse := false, next := p.headFreeId } := p.set_self x _

theorem freed_of_ne (p : TxShadowInfo) {x y : Fin maxTxFrags} (h : y ≠ x) :
    (p.freed x).shadow y = p.shadow y := p.set_of_ne _ h

end TxShadowInfo

theorem Pool.allocate_nil (h : Pool p []) : p.allocateTxShadowId = .error .bugCheck := by
  have hh : p.headFreeId = invalidTxShadowId := h.chain
  unfold TxShadowInfo.allocateTxShadowId TxShadowInfo.getTxShadow
  rw [hh, xmAssert_neg not_txIdValid_invalid]
  rfl

theorem Pool.allocate_cons (h : Pool p (x :: free)) : p.allocateTxShadowId =
    .ok (idOf (p.allocated x).shadow x, p.allocated x) := by
  have hu := (h.mem_iff x).mp List.mem_cons_self
  have hav := h.available
  rw [List.length_cons] at hav
  have hn : txIdValid (p.shadow x).next ∨ p.availableShadows - 1 = 0 := by
    cases free with
    | nil => exact .inr (by simp [hav])
    | cons y free =>
      have hc : Chain p.shadow (p.shadow x).next (y :: free) := h.chain.2
      exact .inl ((hc.valid_iff h.generation).mpr (List.cons_ne_nil _ _))
  unfold TxShadowInfo.allocateTxShadowId
  rw [h.chain.1, h.getTxShadow x, ok_bind, xmAssert_pos (by omega), ok_bind,
    xmAssert_pos (by simp [hu]), ok_bind]
  dsimp only
  rw [xmAssert_pos hn, ok_bind, idOf, p.allocated_self x]
  rfl

theorem Pool.allocated (h : Pool p (x :: free)) : Pool (p.allocated x) free := by
  obtain ⟨hx, hnd⟩ := List.nodup_cons.mp h.nodup
  have hne : ∀ y ∈ free, y ≠ x := fun y hy e => hx (e ▸ hy)
  have hav := h.available
  constructor
  case generation =>
    intro y
    by_cases hy : y = x
    · rw [hy, p.allocated_self x]
      exact Nat.mod_lt _ (by decide)
    · rw [p.allocated_of_ne hy]
      exact h.generation y
  case chain =>
    have hc : Chain p.shadow (p.shadow x).next free := h.chain.2
    refine hc.congr fun y hy => ?_
    rw [p.allocated_of_ne (hne y hy)]
    exact ⟨rfl, rfl⟩
  case nodup => exact hnd
  case available =>
    rw [List.length_cons] at hav
    simp only [TxShadowInfo.allocated]
    omega
  case mem_iff =>
    intro y
    by_cases hy : y = x
    · rw [hy, p.allocated_self x]
      simp [hx]
    · rw [p.allocated_of_ne hy, ← h.mem_iff y]
      simp [hy]
  case clean =>
    intro y hy
    rw [p.allocated_of_ne (hne y hy)]
    exact h.clean y (List.mem_cons_of_mem _ hy)

/-- Shadows that are not free can be changed. -/
theorem Pool.frame (h : Pool p free) {p' : TxShadowInfo} (hh : p'.headFreeId = p.headFreeId)
    (ha : p'.availableShadows = p.availableShadows)
    (hf : ∀ x ∈ free, p'.shadow x = p.shadow x)
    (hu : ∀ x, (p'.shadow x).inUse = (p.shadow x).inUse)
    (hg : ∀ x, (p'.shadow x).generation = (p.shadow x).generation) : Pool p' free where
  generation x := hg x ▸ h.generation x
  chain := by
    rw [hh]
    exact h.chain.congr fun x hx => by rw [hf x hx]; exact ⟨rfl, rfl⟩
  nodup := h.nodup
  available := ha.trans h.available
  mem_iff x := hu x ▸ h.mem_iff x
  clean x hx := hf x hx ▸ h.clean x hx

theorem Pool.set (h : Pool p free) (hx : x ∉ free) {t : TxShadow} (hu : t.inUse = true)
    (hg : t.generation = (p.shadow x).generation) : Pool (p.set x t) free := by
  refine h.frame rfl rfl (fun y hy => p.set_of_ne t fun e => hx (e ▸ hy)) (fun y => ?_) fun y => ?_
  all_goals by_cases hy : y = x
  · rw [hy, p.set_self, hu, h.mem_of_not hx]
  · rw [p.set_of_ne t hy]
  · rw [hy, p.set_self, hg]
  · rw [p.set_of_ne t hy]

theorem Pool.free_ok (h : Pool p free) (hx : x ∉ free) (hc : Clean (p.shadow x)) :
    p.freeTxShadowId (idOf p.shadow x) false = .ok (p.freed x) := by
  have hlen := length_le_of_nodup (List.nodup_cons.mpr ⟨hx, h.nodup⟩)
  have hu := h.mem_of_not hx
  rw [List.length_cons] at hlen
  unfold TxShadowInfo.freeTxShadowId
  rw [h.getTxShadow x, ok_bind, xmAssert_pos (by rw [h.available]; omega), ok_bind,
    xmAssert_pos (.inr hu), ok_bind, xmAssert_pos (by simp [hc.ownedByBackend]), ok_bind,
    xmAssert_pos hc.grantRef, ok_bind, xmAssert_pos (by simp [hc.isExtra]), ok_bind,
    xmAssert_pos (by simp [hc.isFakeArp]), ok_bind, xmAssert_pos hc.buffer]
  rfl

theorem Pool.freed (h : Pool p free) (hx : x ∉ free) (hc : Clean (p.shadow x)) :
    Pool (p.freed x) (x :: free) := by
  have hne : ∀ y ∈ free, y ≠ x := fun y hy e => hx (e ▸ hy)
  constructor
  case generation =>
    intro y
    by_cases hy : y = x
    · rw [hy, p.freed_self]
      exact h.generation x
    · rw [p.freed_of_ne hy]
      exact h.generation y
  case chain =>
    refine ⟨?_, ?_⟩
    · rw [idOf, p.freed_self]
      rfl
    · rw [p.freed_self]
      refine h.chain.congr fun y hy => ?_
      rw [p.freed_of_ne (hne y hy)]
      exact ⟨rfl, rfl⟩
  case nodup => exact List.nodup_cons.mpr ⟨hx, h.nodup⟩
  case available =>
    rw [List.length_cons, ← h.available]
    rfl
  case mem_iff =>
    intro y
    by_cases hy : y = x
    · rw [hy, p.freed_self]
      simp
    · rw [p.freed_of_ne hy, ← h.mem_iff y]
      simp [hy]
  case clean =>
    intro y hy
    rcases List.mem_cons.mp hy with rfl | hy
    · rw [p.freed_self]
      exact ⟨hc.grantRef, hc.isExtra, hc.isFakeArp, hc.ownedByBackend, hc.buffer⟩
    · rw [p.freed_of_ne (hne y hy)]
      exact h.clean y hy

/-! ## Loops over a chain -/

namespace TxShadowInfo

/-- Change the shadows of a list. -/
def mapOn (p : TxShadowInfo) (xs : List (Fin maxTxFrags)) (f : TxShadow → TxShadow) :
    TxShadowInfo :=
  { p with shadow := fun x => if x ∈ xs then f (p.shadow x) else p.shadow x }

theorem mapOn_of_not_mem {f : TxShadow → TxShadow} (hx : x ∉ xs) :
    (p.mapOn xs f).shadow x = p.shadow x := if_neg hx

theorem mapOn_nil (p : TxShadowInfo) (f : TxShadow → TxShadow) : p.mapOn [] f = p := by
  simp [mapOn]

theorem mapOn_cons (p : TxShadowInfo) (f : TxShadow → TxShadow) (hx : x ∉ xs) :
    (p.set x (f (p.shadow x))).mapOn xs f = p.mapOn (x :: xs) f := by
  unfold mapOn
  congr 1
  funext y
  by_cases hy : y = x
  · subst hy
    simp [hx, p.set_self]
  · simp [hy, p.set_of_ne]

end TxShadowInfo

theorem Pool.mapOn (h : Pool p free) {f : TxShadow → TxShadow} (hd : ∀ x ∈ xs, x ∉ free)
    (hu : ∀ t, (f t).inUse = t.inUse) (hg : ∀ t, (f t).generation = t.generation) :
    Pool (p.mapOn xs f) free := by
  refine h.frame rfl rfl (fun x hx => TxShadowInfo.mapOn_of_not_mem fun hm => hd x hm hx) ?_ ?_ <;>
  · intro x
    simp only [TxShadowInfo.mapOn]
    split
    · simp only [hu, hg]
    · rfl

theorem idOf_set {t : TxShadow} (hg : t.generation = (p.shadow x).generation) :
    idOf (p.set x t).shadow = idOf p.shadow := by
  funext y
  by_cases hy : y = x
  · rw [hy, idOf, idOf, p.set_self, hg]
  · rw [idOf, idOf, p.set_of_ne t hy]

/-- A shadow in use is cleaned and freed. -/
theorem Pool.free_set (h : Pool p free) (hx : x ∉ free) {t : TxShadow} (hu : t.inUse = true)
    (hg : t.generation = (p.shadow x).generation) (hc : Clean t) :
    (p.set x t).freeTxShadowId (idOf p.shadow x) false = .ok ((p.set x t).freed x) ∧
      Pool ((p.set x t).freed x) (x :: free) := by
  have hp := h.set hx hu hg
  have hc' : Clean ((p.set x t).shadow x) := by rwa [p.set_self]
  refine ⟨?_, hp.freed hx hc'⟩
  rw [← idOf_set hg]
  exact hp.free_ok hx hc'

/-- Taken back from the old back end. -/
def TxShadow.return (t : TxShadow) : TxShadow :=
  if t.ownedByBackend ∧ ¬t.isExtra then t.unown else t

theorem TxShadow.return_inUse (t : TxShadow) : t.return.inUse = t.inUse := by
  unfold TxShadow.return
  split <;> rfl

theorem TxShadow.return_generation (t : TxShadow) : t.return.generation = t.generation := by
  unfold TxShadow.return
  split <;> rfl

/-- How many fragments of a chain the back end has. -/
def ownedData (sh : Fin maxTxFrags → TxShadow) (xs : List (Fin maxTxFrags)) : Nat :=
  xs.countP fun x => (sh x).ownedByBackend && !(sh x).isExtra

section Loops
variable {s : State} {b : BufferId}

/-- The loop of `TransmitterSendNetBuffer`. -/
theorem sendShadows (h : Pool s.info free) (hnd : xs.Nodup) (hd : ∀ x ∈ xs, x ∉ free)
    (ho : ∀ x ∈ xs, (s.info.shadow x).ownedByBackend = false) :
    ∃ ring puts, (xs.map (idOf s.info.shadow)).foldlM (State.sendShadow b) s =
      .ok { s with info := s.info.mapOn xs TxShadow.give, ring, puts } := by
  induction xs generalizing s with
  | nil => exact ⟨s.ring, s.puts, by rw [TxShadowInfo.mapOn_nil]; rfl⟩
  | cons x xs ih =>
    obtain ⟨hx, hnd⟩ := List.nodup_cons.mp hnd
    have hxf := hd x List.mem_cons_self
    have hne : ∀ y ∈ xs, (s.info.set x (s.info.shadow x).give).shadow y = s.info.shadow y :=
      fun y hy => s.info.set_of_ne _ fun e => hx (e ▸ hy)
    have h1 : State.sendShadow b s (idOf s.info.shadow x) = .ok { s with
        info := s.info.set x (s.info.shadow x).give
        ring := s.ring.put (s.info.shadow x).request
        puts := s.puts ++ [(some b, (s.info.shadow x).request)] } := by
      unfold State.sendShadow
      rw [h.getTxShadow x, ok_bind, xmAssert_pos (h.mem_of_not hxf), ok_bind,
        xmAssert_pos (by simp [ho x List.mem_cons_self])]
      rfl
    have hp : Pool (s.info.set x (s.info.shadow x).give) free :=
      h.set hxf (h.mem_of_not hxf) rfl
    obtain ⟨ring, puts, e⟩ := ih (s := { s with
        info := s.info.set x (s.info.shadow x).give
        ring := s.ring.put (s.info.shadow x).request
        puts := s.puts ++ [(some b, (s.info.shadow x).request)] }) hp hnd
      (fun y hy => hd y (List.mem_cons_of_mem _ hy))
      (fun y hy => by
        rw [hne y hy]
        exact ho y (List.mem_cons_of_mem _ hy))
    refine ⟨ring, puts, ?_⟩
    rw [List.map_cons, List.foldlM_cons, h1, ok_bind, ← idOf_set (p := s.info)
      (t := (s.info.shadow x).give) rfl, e, s.info.mapOn_cons TxShadow.give hx]

/-- The loop of `TransmitterResumeLate` over the fragments. -/
theorem returnShadows {n : Nat} (h : Pool s.info free) (hnd : xs.Nodup)
    (hd : ∀ x ∈ xs, x ∉ free) (ha : ∀ x ∈ xs, (s.info.shadow x).isFakeArp = false) :
    (xs.map (idOf s.info.shadow)).foldlM State.returnShadow
      (s, ownedData s.info.shadow xs + n) =
        .ok ({ s with info := s.info.mapOn xs TxShadow.return }, n) := by
  induction xs generalizing s with
  | nil => simp [TxShadowInfo.mapOn_nil, ownedData]; rfl
  | cons x xs ih =>
    obtain ⟨hx, hnd⟩ := List.nodup_cons.mp hnd
    have hxf := hd x List.mem_cons_self
    have hne : ∀ y ∈ xs, (s.info.set x (s.info.shadow x).return).shadow y = s.info.shadow y :=
      fun y hy => s.info.set_of_ne _ fun e => hx (e ▸ hy)
    have ho : ownedData (s.info.set x (s.info.shadow x).return).shadow xs =
        ownedData s.info.shadow xs :=
      List.countP_congr fun y hy => by rw [hne y hy]
    have h1 : State.returnShadow (s, ownedData s.info.shadow (x :: xs) + n)
        (idOf s.info.shadow x) = .ok ({ s with info := s.info.set x (s.info.shadow x).return },
          ownedData s.info.shadow xs + n) := by
      unfold State.returnShadow
      simp only
      rw [h.getTxShadow x, ok_bind, xmAssert_pos (by simp [ha x List.mem_cons_self]), ok_bind,
        ownedData, List.countP_cons]
      split
      · next hc =>
        rw [if_pos (by simpa using hc), xmAssert_pos (by omega), ok_bind]
        simp only [State.setShadow, TxShadow.return, if_pos hc, ownedData]
        congr 2
        omega
      · next hc =>
        rw [if_neg (by simpa using hc)]
        simp only [TxShadow.return, if_neg hc, TxShadowInfo.set, Function.update_eq_self, ownedData,
          Nat.add_zero]
    have hp : Pool (s.info.set x (s.info.shadow x).return) free :=
      h.set hxf ((TxShadow.return_inUse _).trans (h.mem_of_not hxf)) (TxShadow.return_generation _)
    rw [List.map_cons, List.foldlM_cons, h1, ok_bind, ← idOf_set (p := s.info)
      (TxShadow.return_generation (s.info.shadow x)), ← ho,
      ih (s := { s with info := s.info.set x (s.info.shadow x).return }) hp hnd
        (fun y hy => hd y (List.mem_cons_of_mem _ hy))
        (fun y hy => by
          rw [hne y hy]
          exact ha y (List.mem_cons_of_mem _ hy)),
      s.info.mapOn_cons TxShadow.return hx]

/-- A shadow that `TransmitterCleanupNetBuffer` can free. -/
def Done (b : BufferId) (t : TxShadow) : Prop :=
  t.isFakeArp = false ∧ (t.isExtra = true ∧ t.buffer = none ∧ t.grantRef = none ∨
    t.isExtra = false ∧ t.buffer = some b ∧ t.ownedByBackend = false)

theorem cleanupShadow_ok (h : Pool s.info free) (hx : x ∉ free) (hd : Done b (s.info.shadow x)) :
    ∃ p', State.cleanupShadow b s (idOf s.info.shadow x) = .ok { s with info := p' } ∧
      Pool p' (x :: free) ∧ ∀ y, y ≠ x → p'.shadow y = s.info.shadow y := by
  obtain ⟨ha, hd⟩ := hd
  have hu := h.mem_of_not hx
  unfold State.cleanupShadow
  rw [h.getTxShadow x, ok_bind]
  rcases hd with ⟨he, hb, hg⟩ | ⟨he, hb, ho⟩
  · obtain ⟨h1, h2⟩ := h.free_set hx (t := { s.info.shadow x with isExtra := false, ownedByBackend := false }) hu rfl
      ⟨hg, rfl, ha, rfl, hb⟩
    refine ⟨_, ?_, h2, fun y hy => ?_⟩
    · simp only
      rw [xmAssert_pos (.inl he), ok_bind, if_pos he, h1]
      rfl
    · rw [TxShadowInfo.freed_of_ne _ hy, TxShadowInfo.set_of_ne _ _ hy]
  · obtain ⟨h1, h2⟩ := h.free_set hx (t := { s.info.shadow x with buffer := none, grantRef := none }) hu rfl
      ⟨rfl, he, ha, ho, rfl⟩
    refine ⟨_, ?_, h2, fun y hy => ?_⟩
    · simp only
      rw [xmAssert_pos (.inr hb), ok_bind, if_neg (by simp [he]), h1]
      rfl
    · rw [TxShadowInfo.freed_of_ne _ hy, TxShadowInfo.set_of_ne _ _ hy]

/-- The loop of `TransmitterCleanupNetBuffer`. -/
theorem cleanupShadows (h : Pool s.info free) (hnd : xs.Nodup) (hd : ∀ x ∈ xs, x ∉ free)
    (hdone : ∀ x ∈ xs, Done b (s.info.shadow x)) :
    ∃ p', (xs.map (idOf s.info.shadow)).foldlM (State.cleanupShadow b) s =
      .ok { s with info := p' } ∧ Pool p' (xs.reverse ++ free) ∧
        ∀ y ∉ xs, p'.shadow y = s.info.shadow y := by
  induction xs generalizing s free with
  | nil => exact ⟨s.info, rfl, h, fun _ _ => rfl⟩
  | cons x xs ih =>
    obtain ⟨hx, hnd⟩ := List.nodup_cons.mp hnd
    obtain ⟨p1, h1, hp1, hs1⟩ := cleanupShadow_ok h (hd x List.mem_cons_self)
      (hdone x List.mem_cons_self)
    have hne : ∀ y ∈ xs, p1.shadow y = s.info.shadow y := fun y hy => hs1 y fun e => hx (e ▸ hy)
    obtain ⟨p', h2, hp', hs'⟩ := ih (s := { s with info := p1 }) hp1 hnd
      (fun y hy hm => by
        rcases List.mem_cons.mp hm with rfl | hm
        · exact hx hy
        · exact hd y (List.mem_cons_of_mem _ hy) hm)
      (fun y hy => by
        rw [show ({ s with info := p1 } : State).info.shadow y = _ from hne y hy]
        exact hdone y (List.mem_cons_of_mem _ hy))
    refine ⟨p', ?_, ?_, fun y hy => ?_⟩
    · have hids : xs.map (idOf s.info.shadow) = xs.map (idOf p1.shadow) :=
        List.map_congr_left fun y hy => by rw [idOf, idOf, hne y hy]
      rw [List.map_cons, List.foldlM_cons, h1, ok_bind, hids]
      exact h2
    · rw [List.reverse_cons, List.append_assoc]
      exact hp'
    · rw [hs' y fun hm => hy (List.mem_cons_of_mem _ hm)]
      exact hs1 y fun e => hy (e ▸ List.mem_cons_self)

end Loops

/-! ## The chain of a net buffer -/

/-- A shadow in the chain of a net buffer. -/
structure Has (b : BufferId) (sh : Fin maxTxFrags → TxShadow) (x : Fin maxTxFrags) : Prop where
  inUse : (sh x).inUse = true
  isFakeArp : (sh x).isFakeArp = false
  extra : (sh x).isExtra = true →
    (sh x).buffer = none ∧ (sh x).grantRef = none ∧ ∃ n, (sh x).request = .extra n
  data : (sh x).isExtra = false →
    (sh x).buffer = some b ∧ ∃ q, (sh x).request = .request q ∧ q.id = idOf sh x

/-- A shadow that is ready to be sent. -/
structure Ready (b : BufferId) (sh : Fin maxTxFrags → TxShadow) (x : Fin maxTxFrags) : Prop
    extends Has b sh x where
  ownedByBackend : (sh x).ownedByBackend = false

theorem Has.congr {b : BufferId} (h : Has b sh x) (e : sh' x = sh x) : Has b sh' x := by
  obtain ⟨h1, h2, h3, h4⟩ := h
  rw [← e] at h1 h2 h3 h4
  exact ⟨h1, h2, h3, by rwa [show idOf sh' x = idOf sh x by rw [idOf, idOf, e]]⟩

/-- Only the link changes. -/
theorem Ready.relink {b : BufferId} (h : Ready b sh x)
    (e : sh' x = (sh x).link (sh' x).next) : Ready b sh' x := by
  have hid : idOf sh' x = idOf sh x := by
    rw [idOf, idOf, e]
    rfl
  refine ⟨⟨?_, ?_, ?_, ?_⟩, ?_⟩
  · rw [e]; exact h.inUse
  · rw [e]; exact h.isFakeArp
  · rw [e]; exact h.extra
  · rw [hid, e]; exact h.data
  · rw [e]; exact h.ownedByBackend

theorem idOf_link (p : TxShadowInfo) (x : Fin maxTxFrags) (id : TxId) :
    idOf (p.set x ((p.shadow x).link id)).shadow = idOf p.shadow := idOf_set rfl

namespace TxShadowInfo

/-- Allocate `x`, link it in after `y` and fill it in. -/
def linked (p : TxShadowInfo) (y x : Fin maxTxFrags) (fill : TxShadow → TxShadow) :
    TxShadowInfo :=
  ((p.allocated x).set y
      (((p.allocated x).shadow y).link (idOf (p.allocated x).shadow x))).set x
    (fill ((p.allocated x).shadow x))

variable {y : Fin maxTxFrags} {fill : TxShadow → TxShadow}

theorem linked_self (p : TxShadowInfo) (y x : Fin maxTxFrags) (fill : TxShadow → TxShadow) :
    (p.linked y x fill).shadow x = fill ((p.allocated x).shadow x) := set_self ..

theorem linked_last (p : TxShadowInfo) (fill : TxShadow → TxShadow) (h : y ≠ x) :
    (p.linked y x fill).shadow y =
      (p.shadow y).link (idOf (p.allocated x).shadow x) := by
  unfold linked
  rw [set_of_ne _ _ h, set_self, p.allocated_of_ne h]

theorem linked_of_ne (p : TxShadowInfo) (fill : TxShadow → TxShadow) {z : Fin maxTxFrags}
    (hx : z ≠ x) (hy : z ≠ y) : (p.linked y x fill).shadow z = p.shadow z := by
  unfold linked
  rw [set_of_ne _ _ hx, set_of_ne _ _ hy, p.allocated_of_ne hx]

theorem linked_relink (p : TxShadowInfo) (y : Fin maxTxFrags) (fill : TxShadow → TxShadow)
    {z : Fin maxTxFrags} (hx : z ≠ x) : (p.linked y x fill).shadow z =
      (p.shadow z).link ((p.linked y x fill).shadow z).next := by
  by_cases hy : z = y
  · subst hy
    rw [p.linked_last fill hx]
    rfl
  · rw [p.linked_of_ne fill hx hy]
    rfl

end TxShadowInfo

section Linked
variable {y : Fin maxTxFrags} {ys : List (Fin maxTxFrags)} {fill : TxShadow → TxShadow}

/-- The shadow before the new one gets its link. -/
theorem Pool.link (h : Pool p (x :: free)) (hy : y ∉ x :: free) :
    Pool ((p.allocated x).set y
      (((p.allocated x).shadow y).link (idOf (p.allocated x).shadow x))) free := by
  have hyx : y ≠ x := fun e => hy (e ▸ List.mem_cons_self)
  refine h.allocated.set (fun hm => hy (List.mem_cons_of_mem _ hm)) ?_ rfl
  rw [p.allocated_of_ne hyx]
  exact h.mem_of_not hy

theorem Pool.getTxShadow_link (h : Pool p (x :: free)) (hy : y ∉ x :: free) :
    ((p.allocated x).set y (((p.allocated x).shadow y).link
      (idOf (p.allocated x).shadow x))).getTxShadow (idOf (p.allocated x).shadow x) = .ok x := by
  have hget := (h.link hy).getTxShadow x
  rwa [idOf_link] at hget

theorem Pool.linked (h : Pool p (x :: free)) (hy : y ∉ x :: free)
    (hu : ∀ t, (fill t).inUse = t.inUse) (hg : ∀ t, (fill t).generation = t.generation) :
    Pool (p.linked y x fill) free := by
  have hyx : y ≠ x := fun e => hy (e ▸ List.mem_cons_self)
  refine (h.link hy).set (List.nodup_cons.mp h.nodup).1 ?_ ?_
  · rw [hu, p.allocated_self]
  · rw [hg, TxShadowInfo.set_of_ne _ _ hyx.symm]

theorem Chain.linked (hc : Chain p.shadow id (ys ++ [y])) (hnd : (ys ++ [y]).Nodup)
    (hx : x ∉ ys ++ [y]) (hg : ∀ t, (fill t).generation = t.generation)
    (hn : ∀ t, (fill t).next = invalidTxShadowId) :
    Chain (p.linked y x fill).shadow id (ys ++ [y] ++ [x]) := by
  have hyx : y ≠ x := fun e => hx (by simp [e])
  have hy : y ∉ ys := by
    rw [List.nodup_append] at hnd
    exact fun hm => hnd.2.2 y hm y (List.mem_singleton_self y) rfl
  refine hc.snoc (fun z hz => ?_) ?_ ?_ ?_
  · have hzx : z ≠ x := fun e => hx (e ▸ List.mem_append_left _ hz)
    have hzy : z ≠ y := fun e => hy (e ▸ hz)
    rw [p.linked_of_ne fill hzx hzy]
    exact ⟨rfl, rfl⟩
  · rw [p.linked_last fill hyx]
    rfl
  · rw [p.linked_last fill hyx]
    simp only [idOf, p.linked_self, hg]
    rfl
  · rw [p.linked_self, hn]

end Linked

section Fragments
variable {s : State} {b : BufferId} {answers : Answers} {mss dataSize : Nat}

/-- A shadow that was free has its buffer and its request once both are filled in. -/
theorem ready_filled {b : BufferId} {q : TxRequest} (h : Pool p (x :: free))
    (e : sh' x = ((p.allocated x).shadow x).filled b q)
    (hq : q.id = idOf (p.allocated x).shadow x) : Ready b sh' x := by
  have hc := h.clean x List.mem_cons_self
  rw [p.allocated_self] at e
  refine ⟨⟨?_, ?_, ?_, ?_⟩, ?_⟩
  · rw [e]; rfl
  · rw [e]; exact hc.isFakeArp
  · rw [e]; exact fun hx => absurd hc.isExtra (by simp only [TxShadow.filled] at hx; simp [hx])
  · intro _
    refine ⟨by rw [e]; rfl, q, by rw [e]; rfl, ?_⟩
    rw [hq, idOf, idOf, e, p.allocated_self]
    rfl
  · rw [e]; exact hc.ownedByBackend

/-- What the fragments after the first do. -/
theorem allocateFragments_cons (answers : Answers) (b : BufferId) (mss dataSize : Nat)
    (f : Fragment) (fs : List Fragment) {y : Fin maxTxFrags}
    (h : Pool s.info (x :: free)) (hy : y ∉ x :: free) :
    ∃ q : TxRequest, q.id = idOf (s.info.allocated x).shadow x ∧
      State.allocateFragments answers b mss dataSize (f :: fs) (some y) s =
        State.allocateFragments answers b mss dataSize fs (some x)
          { s with info := s.info.linked y x (·.filled b q) } := by
  have hyx : y ≠ x := fun e => hy (e ▸ List.mem_cons_self)
  have hx : ((s.info.allocated x).set y (((s.info.allocated x).shadow y).link
      (idOf (s.info.allocated x).shadow x))).shadow x = (s.info.allocated x).shadow x :=
    TxShadowInfo.set_of_ne _ _ hyx.symm
  refine ⟨⟨idOf (s.info.allocated x).shadow x,
    answers.grant (idOf (s.info.allocated x).shadow x), u16 f.size, u16 f.offset, !fs.isEmpty,
    false⟩, rfl, ?_⟩
  rw [State.allocateFragments, h.allocate_cons]
  simp only [ok_bind, State.setShadow]
  rw [h.getTxShadow_link hy, ok_bind, hx, xmAssert_pos (by rw [s.info.allocated_self]), ok_bind,
    if_neg (by simp)]
  rfl

/-- The shadows `xs` were taken from the free list for a net buffer and linked, `k` of them for
fragments. -/
structure Taken (b : BufferId) (p : TxShadowInfo) (xs rest : List (Fin maxTxFrags)) (k : Nat)
    (p' : TxShadowInfo) (head : TxId) : Prop where
  pool : Pool p' rest
  nodup : (xs ++ rest).Nodup
  chain : Chain p'.shadow head xs
  same : ∀ x ∉ xs, p'.shadow x = p.shadow x
  ready : ∀ x ∈ xs, Ready b p'.shadow x
  data : xs.countP (fun x => !(p'.shadow x).isExtra) = k

theorem Taken.linked {y : Fin maxTxFrags} {ys rest : List (Fin maxTxFrags)} {k : Nat}
    {p' : TxShadowInfo} (fill : TxShadow → TxShadow)
    (h : Taken b p (ys ++ [y]) (x :: rest) k p' id) (hu : ∀ t, (fill t).inUse = t.inUse)
    (hg : ∀ t, (fill t).generation = t.generation) (hn : ∀ t, (fill t).next = invalidTxShadowId)
    (hr : Ready b (p'.linked y x fill).shadow x) : Taken b p (ys ++ [y] ++ [x]) rest
      (k + if ((p'.linked y x fill).shadow x).isExtra then 0 else 1) (p'.linked y x fill) id := by
  have hnd := h.nodup
  rw [List.nodup_append] at hnd
  obtain ⟨hndy, -, hdis⟩ := hnd
  have hx : x ∉ ys ++ [y] := fun hm => hdis x hm x List.mem_cons_self rfl
  have hyf : y ∉ x :: rest := fun hm => hdis y (by simp) y hm rfl
  have hre : ∀ z ∈ ys ++ [y], (p'.linked y x fill).shadow z =
      (p'.shadow z).link ((p'.linked y x fill).shadow z).next :=
    fun z hz => p'.linked_relink y fill fun e => hx (e ▸ hz)
  constructor
  case pool => exact h.pool.linked hyf hu hg
  case nodup =>
    rw [List.append_assoc, List.singleton_append]
    exact h.nodup
  case chain => exact h.chain.linked hndy hx hg hn
  case same =>
    intro z hz
    rw [List.mem_append, not_or, List.mem_singleton] at hz
    rw [p'.linked_of_ne fill hz.2 fun e => hz.1 (by simp [e])]
    exact h.same z hz.1
  case ready =>
    intro z hz
    rcases List.mem_append.mp hz with hz | hz
    · exact (h.ready z hz).relink (hre z hz)
    · rwa [List.mem_singleton.mp hz]
  case data =>
    rw [List.countP_append, List.countP_singleton, ← h.data]
    congr 1
    · refine List.countP_congr fun z hz => ?_
      rw [hre z hz]
      rfl
    · cases ((p'.linked y x fill).shadow x).isExtra <;> rfl

/-- The fragments after the first take the next free shadows, or there are too few. -/
theorem allocateFragments_some (answers : Answers) (mss dataSize : Nat) (fs : List Fragment)
    {y : Fin maxTxFrags} {ys rest : List (Fin maxTxFrags)} {k : Nat} (h : Taken b p (ys ++ [y]) rest k s.info id) :
    (rest.length < fs.length ∧
      ∃ c, State.allocateFragments answers b mss dataSize fs (some y) s = .error c) ∨
    ∃ zs rest' p', rest = zs ++ rest' ∧ zs.length = fs.length ∧
      State.allocateFragments answers b mss dataSize fs (some y) s = .ok { s with info := p' } ∧
      Taken b p (ys ++ [y] ++ zs) rest' (k + fs.length) p' id := by
  induction fs generalizing s y ys rest k with
  | nil =>
    refine .inr ⟨[], rest, s.info, rfl, rfl, rfl, ?_⟩
    rwa [List.append_nil]
  | cons f fs ih =>
    cases rest with
    | nil =>
      refine .inl ⟨Nat.succ_pos _, .bugCheck, ?_⟩
      rw [State.allocateFragments, h.pool.allocate_nil]
      rfl
    | cons x rest =>
      have hyf : y ∉ x :: rest := by
        have hnd := h.nodup
        rw [List.nodup_append] at hnd
        exact fun hm => hnd.2.2 y (by simp) y hm rfl
      obtain ⟨q, hq, e⟩ := allocateFragments_cons answers b mss dataSize f fs h.pool hyf
      have hx : ((s.info.linked y x (·.filled b q)).shadow x).isExtra = false := by
        rw [s.info.linked_self, s.info.allocated_self]
        exact (h.pool.clean x List.mem_cons_self).isExtra
      have h1 := h.linked (·.filled b q) (fun _ => rfl) (fun _ => rfl) (fun _ => rfl)
        (ready_filled h.pool (TxShadowInfo.linked_self ..) hq)
      rw [hx] at h1
      rw [e]
      rcases ih (s := { s with info := s.info.linked y x (·.filled b q) }) h1 with
        ⟨hl, hc⟩ | ⟨zs, rest', p', rfl, hl, hok, h2⟩
      · exact .inl ⟨Nat.succ_lt_succ hl, hc⟩
      · refine .inr ⟨x :: zs, rest', p', rfl, by rw [List.length_cons, hl, List.length_cons], hok,
          ?_⟩
        rw [List.append_assoc, List.singleton_append] at h2
        rw [List.length_cons, Nat.add_comm fs.length, ← Nat.add_assoc]
        exact h2

/-- The shadow of the first fragment. -/
def TxShadowInfo.first (p : TxShadowInfo) (x : Fin maxTxFrags) (b : BufferId) (q : TxRequest) :
    TxShadowInfo :=
  (p.allocated x).set x (((p.allocated x).shadow x).filled b q)

theorem TxShadowInfo.first_self (p : TxShadowInfo) (x : Fin maxTxFrags) (b : BufferId)
    (q : TxRequest) : (p.first x b q).shadow x = ((p.allocated x).shadow x).filled b q :=
  set_self ..

theorem TxShadowInfo.first_of_ne (p : TxShadowInfo) {y : Fin maxTxFrags} (b : BufferId)
    (q : TxRequest) (h : y ≠ x) : (p.first x b q).shadow y = p.shadow y := by
  unfold first
  rw [set_of_ne _ _ h, p.allocated_of_ne h]

theorem Pool.first (h : Pool p (x :: free)) (b : BufferId) (q : TxRequest) :
    Pool (p.first x b q) free :=
  h.allocated.set (List.nodup_cons.mp h.nodup).1 (by rw [p.allocated_self]; rfl) rfl

theorem chain_first {q : TxRequest} :
    Chain (p.first x b q).shadow (idOf (p.allocated x).shadow x) [x] := by
  refine ⟨?_, ?_⟩
  · rw [idOf, idOf, p.first_self]
    rfl
  · rw [p.first_self]
    rfl

/-- What the first fragment does; a large send goes on to its extra slot. -/
theorem allocateFragments_first (answers : Answers) (mss dataSize : Nat) (f : Fragment)
    (fs : List Fragment) {r : Reserved} (h : Pool s.info (x :: free)) (hr : s.reserved b = some r) :
    ∃ q : TxRequest, q.id = idOf (s.info.allocated x).shadow x ∧
      State.allocateFragments answers b mss dataSize (f :: fs) none s =
        let s1 := { s with info := s.info.first x b q }.setReserved b
          { r with txShadowHeadId := idOf (s.info.allocated x).shadow x }
        if mss ≠ 0 then do
          let (id', info) ← s1.info.allocateTxShadowId
          let s2 := { s1 with info := info.set x ((info.shadow x).link id') }
          let y ← s2.info.getTxShadow id'
          State.allocateFragments answers b mss dataSize fs (some y)
            (s2.setShadow y ((s2.info.shadow y).filledExtra mss))
        else State.allocateFragments answers b mss dataSize fs (some x) s1 := by
  refine ⟨⟨idOf (s.info.allocated x).shadow x,
    answers.grant (idOf (s.info.allocated x).shadow x), u16 dataSize, u16 f.offset, !fs.isEmpty,
    decide (mss ≠ 0)⟩, rfl, ?_⟩
  rw [State.allocateFragments, h.allocate_cons]
  simp only [ok_bind, State.getReserved, hr, State.setReserved]
  rw [h.allocated.getTxShadow x, ok_bind, xmAssert_pos (by rw [s.info.allocated_self]), ok_bind]
  by_cases hm : mss ≠ 0
  · rw [if_pos ⟨rfl, hm⟩, if_pos hm]
    rfl
  · rw [if_neg (fun hc => hm hc.2), if_neg hm]
    rfl

/-- The extra slot is linked in after the first fragment. -/
theorem allocateFragments_extra (answers : Answers) (mss dataSize : Nat) (fs : List Fragment)
    {y : Fin maxTxFrags} (h : Pool s.info (x :: free)) (hy : y ∉ x :: free) :
    (do
      let (id', info) ← s.info.allocateTxShadowId
      let s2 := { s with info := info.set y ((info.shadow y).link id') }
      let z ← s2.info.getTxShadow id'
      State.allocateFragments answers b mss dataSize fs (some z)
        (s2.setShadow z ((s2.info.shadow z).filledExtra mss))) =
      State.allocateFragments answers b mss dataSize fs (some x)
        { s with info := s.info.linked y x (·.filledExtra mss) } := by
  have hyx : y ≠ x := fun e => hy (e ▸ List.mem_cons_self)
  have hx : ((s.info.allocated x).set y (((s.info.allocated x).shadow y).link
      (idOf (s.info.allocated x).shadow x))).shadow x = (s.info.allocated x).shadow x :=
    TxShadowInfo.set_of_ne _ _ hyx.symm
  rw [h.allocate_cons, ok_bind]
  simp only [State.setShadow]
  rw [h.getTxShadow_link hy, ok_bind, hx]
  rfl

theorem taken_first {q : TxRequest} (h : Pool p (x :: free))
    (hq : q.id = idOf (p.allocated x).shadow x) :
    Taken b p ([] ++ [x]) free 1 (p.first x b q) (idOf (p.allocated x).shadow x) where
  pool := h.first b q
  nodup := h.nodup
  chain := chain_first
  same y hy := p.first_of_ne b q (by simpa using hy)
  ready y hy := by
    rw [List.mem_singleton.mp hy]
    exact ready_filled h (TxShadowInfo.first_self ..) hq
  data := by
    simp only [List.nil_append, List.countP_singleton]
    rw [p.first_self, p.allocated_self]
    simp [TxShadow.filled, (h.clean x List.mem_cons_self).isExtra]

theorem ready_extra (b : BufferId) (mss : Nat) (y : Fin maxTxFrags) (h : Pool p (x :: free)) :
    Ready b (p.linked y x (·.filledExtra mss)).shadow x ∧
      ((p.linked y x (·.filledExtra mss)).shadow x).isExtra = true := by
  have hc := h.clean x List.mem_cons_self
  have e := p.linked_self y x (·.filledExtra mss)
  rw [p.allocated_self] at e
  rw [e]
  refine ⟨⟨⟨?_, ?_, fun _ => ⟨?_, ?_, u16 mss, ?_⟩, fun hx => ?_⟩, ?_⟩, rfl⟩
  · rw [e]; rfl
  · rw [e]; exact hc.isFakeArp
  · rw [e]; exact hc.buffer
  · rw [e]; exact hc.grantRef
  · rw [e]; rfl
  · rw [e] at hx; cases hx
  · rw [e]; exact hc.ownedByBackend

/-- The fragments of a net buffer take the first free shadows, or there are too few. -/
theorem allocateFragments_none {fs : List Fragment} {r : Reserved} (h : Pool s.info free)
    (hr : s.reserved b = some r) (hfs : fs ≠ []) :
    (free.length < fs.length + (if mss ≠ 0 then 1 else 0) ∧
      ∃ c, State.allocateFragments answers b mss dataSize fs none s = .error c) ∨
    ∃ xs rest p' head, free = xs ++ rest ∧ xs.length = fs.length + (if mss ≠ 0 then 1 else 0) ∧
      State.allocateFragments answers b mss dataSize fs none s =
        .ok ({ s with info := p' }.setReserved b { r with txShadowHeadId := head }) ∧
      Taken b s.info xs rest fs.length p' head := by
  obtain ⟨f, fs, rfl⟩ := List.exists_cons_of_ne_nil hfs
  cases free with
  | nil =>
    refine .inl ⟨by rw [List.length_cons, List.length_nil]; omega, .bugCheck, ?_⟩
    rw [State.allocateFragments, h.allocate_nil]
    rfl
  | cons x free =>
    obtain ⟨q, hq, e⟩ := allocateFragments_first answers mss dataSize f fs h hr
    have h1 := taken_first (b := b) h hq
    rw [e]
    by_cases hm : mss ≠ 0
    · simp only [if_pos hm]
      cases free with
      | nil =>
        refine .inl ⟨by simp, .bugCheck, ?_⟩
        rw [show (({ s with info := s.info.first x b q } : State).setReserved b _).info =
          s.info.first x b q from rfl, h1.pool.allocate_nil]
        rfl
      | cons z free =>
        have hxz : x ∉ z :: free := (List.nodup_cons.mp h.nodup).1
        obtain ⟨hr2, hz⟩ := ready_extra b mss x h1.pool
        have h2 := h1.linked (·.filledExtra mss) (fun _ => rfl) (fun _ => rfl)
          (fun _ => rfl) hr2
        rw [if_pos hz] at h2
        have e2 := allocateFragments_extra answers mss dataSize fs (b := b) (y := x)
          (s := { s with info := s.info.first x b q }.setReserved b
            { r with txShadowHeadId := idOf (s.info.allocated x).shadow x }) h1.pool hxz
        rcases allocateFragments_some answers mss dataSize fs
          (s := { { s with info := s.info.first x b q }.setReserved b
            { r with txShadowHeadId := idOf (s.info.allocated x).shadow x } with
              info := (s.info.first x b q).linked x z (·.filledExtra mss) }) h2 with
          ⟨hl, c, hc⟩ | ⟨zs, rest', p', rfl, hl, hok, h3⟩
        · refine .inl ⟨?_, c, e2.trans hc⟩
          simp only [List.length_cons]
          omega
        · refine .inr ⟨[] ++ [x] ++ [z] ++ zs, rest', p', _, rfl, ?_, e2.trans hok, ?_⟩
          · simp only [List.nil_append, List.length_cons, List.cons_append, hl]
          · rw [List.length_cons, Nat.add_comm]
            exact h3
    · simp only [if_neg hm]
      rcases allocateFragments_some answers mss dataSize fs (s := { s with info := s.info.first x b q }.setReserved b
          { r with txShadowHeadId := idOf (s.info.allocated x).shadow x }) h1 with
        ⟨hl, c, hc⟩ | ⟨zs, rest', p', rfl, hl, hok, h3⟩
      · refine .inl ⟨?_, c, hc⟩
        simp only [List.length_cons]
        omega
      · refine .inr ⟨[] ++ [x] ++ zs, rest', p', _, rfl, ?_, hok, ?_⟩
        · simp only [List.nil_append, List.singleton_append, List.length_cons, hl, Nat.add_zero]
        · rw [List.length_cons, Nat.add_comm]
          exact h3

end Fragments

/-! ## A new transmitter -/

theorem freeTxShadowId_fresh (x : Fin maxTxFrags) :
    (TxShadowInfo.fresh x).freeTxShadowId (wrapTxId x 0) true = .ok (.fresh (x + 1)) := by
  have hx : x.val < 256 := x.isLt
  have hget : (TxShadowInfo.fresh x).getTxShadow (wrapTxId x 0) = .ok x := by
    unfold TxShadowInfo.getTxShadow
    rw [xmAssert_pos (txIdValid_wrapTxId x (by decide)), ok_bind,
      txIdIndex_wrapTxId x (by decide), txIdGeneration_wrapTxId x (by decide),
      xmAssert_pos (show ((TxShadowInfo.fresh x).shadow x).generation = 0 from rfl)]
    rfl
  unfold TxShadowInfo.freeTxShadowId
  rw [hget, ok_bind]
  simp only [xmAssert, TxShadowInfo.fresh, TxShadowInfo.zeroed, TxShadowInfo.set]
  simp only [hx, ↓reduceIte, Bool.false_eq_true, or_false, not_false_eq_true, Fin.val_fin_lt,
    Fin.val_eq_zero_iff, Bool.and_false, ok_bind, Nat.add_eq_zero_iff, one_ne_zero, and_false,
    Nat.add_one_sub_one, Except.ok.injEq, TxShadowInfo.mk.injEq, and_self, and_true]
  funext y
  rcases eq_or_ne y x with rfl | hne
  · simp
  · have hle : y < x ↔ y ≤ x := ⟨le_of_lt, fun h => lt_of_le_of_ne h hne⟩
    have hlt : y.val < x.val + 1 ↔ y ≤ x := Nat.lt_succ_iff
    rw [Function.update_of_ne hne]
    simp only [hle, hlt]

/-- `TransmitterInitialize` frees all shadows, which leaves the free list of `fresh`. -/
theorem initializeShadows {n : Nat} (hn : n ≤ maxTxFrags) :
    ((List.finRange maxTxFrags).take n).foldlM
      (fun p x => p.freeTxShadowId (wrapTxId x 0) true) TxShadowInfo.zeroed =
        .ok (TxShadowInfo.fresh n) := by
  induction n with
  | zero => rfl
  | succ n ih =>
    have hlt : n < (List.finRange maxTxFrags).length := by rw [List.length_finRange]; omega
    rw [List.take_succ_eq_append_getElem hlt, List.foldlM_append, ih (by omega), ok_bind,
      List.getElem_finRange]
    exact bind_pure _ |>.trans (freeTxShadowId_fresh ⟨n, hn⟩)

theorem chain_fresh {n : Nat} (hn : n ≤ maxTxFrags) : ∃ xs,
    Chain (TxShadowInfo.fresh maxTxFrags).shadow (TxShadowInfo.fresh n).headFreeId xs ∧
      xs.length = n ∧ xs.Nodup ∧ ∀ x : Fin maxTxFrags, x ∈ xs ↔ x.val < n := by
  induction n with
  | zero => exact ⟨[], rfl, rfl, List.nodup_nil, by simp⟩
  | succ n ih =>
    obtain ⟨xs, hc, hl, hnd, hm⟩ := ih (by omega)
    have hx : (⟨n, hn⟩ : Fin maxTxFrags) ∉ xs := by simp [hm]
    refine ⟨⟨n, hn⟩ :: xs, ⟨?_, ?_⟩, ?_, ?_, ?_⟩
    · rfl
    · simp only [TxShadowInfo.fresh] at hc ⊢
      rw [if_pos (show (⟨n, hn⟩ : Fin maxTxFrags).val < maxTxFrags from hn)]
      exact hc
    · rw [List.length_cons, hl]
    · exact List.nodup_cons.mpr ⟨hx, hnd⟩
    · intro x
      rw [List.mem_cons, hm, Fin.ext_iff]
      exact (Nat.lt_succ_iff_lt_or_eq.trans Or.comm).symm

theorem pool_fresh : ∃ free, Pool (TxShadowInfo.fresh maxTxFrags) free := by
  obtain ⟨xs, hc, hl, hnd, hm⟩ := chain_fresh (Nat.le_refl maxTxFrags)
  refine ⟨xs, fun x => Nat.succ_pos _, hc, hnd, hl.symm, fun x => ?_, fun x _ => ?_⟩
  · rw [hm]
    exact iff_of_true x.isLt rfl
  · exact ⟨rfl, rfl, rfl, rfl, rfl⟩

end XcWindows.Xennet6
