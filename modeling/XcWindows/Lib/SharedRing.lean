import XcWindows.Lib.Circ
import Mathlib.Data.List.Perm.Basic

/-!
# Request and response rings

The ring of `ring.h`: one array of slots, in which a front end puts requests and a back end writes
its responses over them, with 32-bit indices that are never reset while the ring is in use. The
front end has `reqProdPvt` and `rspCons`, the back end `reqCons` and the requests it has `taken` and
not answered, and the shared page has the rest.

`Holds` is the view of a ring as four lists: the responses nobody has read, the requests the back end
has, those it has not seen, and those not published. Each operation has one lemma that says what it
does to the view.
-/

namespace XcWindows.Lib

structure SharedRing (ρ σ : Type) where
  nrEnts : Nat
  slot : Nat → ρ ⊕ σ
  reqProd : Nat
  rspProd : Nat
  rspEvent : Nat
  reqProdPvt : Nat
  rspCons : Nat
  reqCons : Nat
  taken : List ρ

namespace SharedRing

variable {ρ σ : Type}

/-- `SHARED_RING_INIT` and `FRONT_RING_INIT`, on zeroed memory. -/
def fresh [Inhabited ρ] (nrEnts : Nat) : SharedRing ρ σ where
  nrEnts
  slot _ := .inl default
  reqProd := 0
  rspProd := 0
  rspEvent := 1
  reqProdPvt := 0
  rspCons := 0
  reqCons := 0
  taken := []

def prodSlotsAvail (r : SharedRing ρ σ) : Nat := sub32 r.nrEnts (sub32 r.reqProdPvt r.rspCons)

def full (r : SharedRing ρ σ) : Prop := r.prodSlotsAvail = 0

instance (r : SharedRing ρ σ) : Decidable r.full := inferInstanceAs (Decidable (_ = 0))

/-- Fill the slot at `req_prod_pvt` and step over it. -/
def put (r : SharedRing ρ σ) (x : ρ) : SharedRing ρ σ :=
  { r with slot := Function.update r.slot (r.reqProdPvt % r.nrEnts) (.inl x)
           reqProdPvt := u32 (r.reqProdPvt + 1) }

def pushRequests (r : SharedRing ρ σ) : SharedRing ρ σ := { r with reqProd := r.reqProdPvt }

def hasUnconsumedResponses (r : SharedRing ρ σ) : Prop := r.rspCons ≠ r.rspProd

instance (r : SharedRing ρ σ) : Decidable r.hasUnconsumedResponses :=
  inferInstanceAs (Decidable (_ ≠ _))

/-- `RING_GET_RESPONSE` at `rsp_cons`, if a response is there. -/
def getResponse (r : SharedRing ρ σ) : Option σ := (r.slot (r.rspCons % r.nrEnts)).getRight?

def consume (r : SharedRing ρ σ) : SharedRing ρ σ := { r with rspCons := u32 (r.rspCons + 1) }

/-- The back end takes the next request. -/
def take (r : SharedRing ρ σ) : Option (SharedRing ρ σ) :=
  if r.reqCons = r.reqProd then none
  else (r.slot (r.reqCons % r.nrEnts)).getLeft?.map fun x =>
    { r with reqCons := u32 (r.reqCons + 1), taken := r.taken ++ [x] }

/-- The back end answers a request it has. -/
def answer [DecidableEq ρ] (r : SharedRing ρ σ) (x : ρ) (y : σ) : SharedRing ρ σ :=
  { r with slot := Function.update r.slot (r.rspProd % r.nrEnts) (.inr y)
           rspProd := u32 (r.rspProd + 1), taken := r.taken.erase x }

/-- The responses nobody has read. -/
def unread (r : SharedRing ρ σ) : List σ :=
  (window r.slot r.nrEnts r.rspCons (sub32 r.rspProd r.rspCons)).filterMap Sum.getRight?

/-- The requests the back end has not seen. -/
def unseen (r : SharedRing ρ σ) : List ρ :=
  (window r.slot r.nrEnts r.reqCons (sub32 r.reqProd r.reqCons)).filterMap Sum.getLeft?

/-- What is on a ring: unread responses, requests the back end has, requests it has not seen, and
requests not yet published. `a` counts the responses read. -/
structure Holds (r : SharedRing ρ σ) (a : Nat) (unread : List σ) (taken queued pvt : List ρ) :
    Prop where
  pos : 0 < r.nrEnts
  lt : r.nrEnts < 4294967296
  dvd : r.nrEnts ∣ 4294967296
  rspCons : r.rspCons = u32 a
  rspProd : r.rspProd = u32 (a + unread.length)
  reqCons : r.reqCons = u32 (a + unread.length + taken.length)
  reqProd : r.reqProd = u32 (a + unread.length + taken.length + queued.length)
  reqProdPvt : r.reqProdPvt =
    u32 (a + unread.length + taken.length + queued.length + pvt.length)
  has : r.taken = taken
  fits : unread.length + taken.length + queued.length + pvt.length ≤ r.nrEnts
  responses : window r.slot r.nrEnts a unread.length = unread.map .inr
  requests : window r.slot r.nrEnts (a + unread.length + taken.length)
    (queued.length + pvt.length) = (queued ++ pvt).map .inl

section View
variable {r r' : SharedRing ρ σ} {a : Nat} {unread : List σ} {taken queued pvt : List ρ}
  {x : ρ} {y : σ}

theorem holds_fresh [Inhabited ρ] {n : Nat} (h : 0 < n) (hlt : n < 4294967296)
    (hd : n ∣ 4294967296) : Holds (fresh n : SharedRing ρ σ) 0 [] [] [] [] where
  pos := h
  lt := hlt
  dvd := hd
  rspCons := rfl
  rspProd := rfl
  reqCons := rfl
  reqProd := rfl
  reqProdPvt := rfl
  has := rfl
  fits := Nat.zero_le _
  responses := rfl
  requests := rfl

/-- `req_prod_pvt - rsp_cons` is the number of slots in use. -/
theorem Holds.prod_sub_cons (h : Holds r a unread taken queued pvt) :
    sub32 r.reqProdPvt r.rspCons =
      unread.length + taken.length + queued.length + pvt.length := by
  have hf := h.fits
  have hlt := h.lt
  rw [h.reqProdPvt, h.rspCons, sub32_u32 (by omega) (by omega)]
  omega

theorem Holds.rsp_sub_cons (h : Holds r a unread taken queued pvt) :
    sub32 r.rspProd r.rspCons = unread.length := by
  have hf := h.fits
  have hlt := h.lt
  rw [h.rspProd, h.rspCons, sub32_u32 (by omega) (by omega)]
  omega

theorem Holds.prodSlotsAvail_eq (h : Holds r a unread taken queued pvt) : r.prodSlotsAvail =
    r.nrEnts - (unread.length + taken.length + queued.length + pvt.length) := by
  have hf := h.fits
  have hlt := h.lt
  unfold prodSlotsAvail
  rw [h.prod_sub_cons]
  simp only [sub32]
  omega

theorem Holds.full_iff (h : Holds r a unread taken queued pvt) :
    r.full ↔ unread.length + taken.length + queued.length + pvt.length = r.nrEnts := by
  have hf := h.fits
  unfold full
  rw [h.prodSlotsAvail_eq]
  omega

theorem Holds.unread_eq (h : Holds r a unread taken queued pvt) : r.unread = unread := by
  rw [SharedRing.unread, h.rsp_sub_cons, h.rspCons, window_congr_pos (u32_mod h.dvd a), h.responses,
    List.filterMap_map]
  exact List.filterMap_some

theorem Holds.unseen_eq (h : Holds r a unread taken queued pvt) : r.unseen = queued := by
  have hf := h.fits
  have hlt := h.lt
  have hq : window r.slot r.nrEnts (a + unread.length + taken.length) queued.length =
      queued.map .inl := by
    have hw := congrArg (List.take queued.length) h.requests
    rw [take_window (Nat.le_add_right _ _)] at hw
    simpa using hw
  have hl : sub32 r.reqProd r.reqCons = queued.length := by
    rw [h.reqProd, h.reqCons, sub32_u32 (by omega) (by omega)]
    omega
  rw [SharedRing.unseen, hl, h.reqCons, window_congr_pos (u32_mod h.dvd _), hq, List.filterMap_map]
  exact List.filterMap_some

/-- A slot that is written is none of those `n` positions from `p` on. -/
theorem window_update {n p q : Nat} {v : ρ ⊕ σ} (h1 : p + n ≤ q ∧ q < p + r.nrEnts ∨
    q < p ∧ p + n ≤ q + r.nrEnts) :
    window (Function.update r.slot (q % r.nrEnts) v) r.nrEnts p n =
      window r.slot r.nrEnts p n := by
  apply window_congr
  intro i hi
  apply Function.update_of_ne
  intro e
  rcases h1 with h1 | h1
  · have := mod_inj (R := r.nrEnts) (a := p + i) (b := q) (by omega) (by omega) e
    omega
  · have := mod_inj (R := r.nrEnts) (a := q) (b := p + i) (by omega) (by omega) e.symm
    omega

theorem Holds.put (h : Holds r a unread taken queued pvt)
    (hroom : unread.length + taken.length + queued.length + pvt.length < r.nrEnts) (x : ρ) :
    Holds (r.put x) a unread taken queued (pvt ++ [x]) := by
  have hf := h.fits
  have hp : r.reqProdPvt % r.nrEnts =
      (a + unread.length + taken.length + queued.length + pvt.length) % r.nrEnts := by
    rw [h.reqProdPvt, u32_mod h.dvd]
  constructor
  case pos => exact h.pos
  case lt => exact h.lt
  case dvd => exact h.dvd
  case rspCons => exact h.rspCons
  case rspProd => exact h.rspProd
  case reqCons => exact h.reqCons
  case reqProd => exact h.reqProd
  case reqProdPvt =>
    simp only [SharedRing.put, h.reqProdPvt, List.length_append, List.length_singleton, u32_add]
    exact congrArg u32 (by omega)
  case has => exact h.has
  case fits =>
    simp only [SharedRing.put, List.length_append, List.length_singleton]
    omega
  case responses =>
    simp only [SharedRing.put, hp]
    rw [window_update (.inl (by omega))]
    exact h.responses
  case requests =>
    simp only [SharedRing.put, hp, List.length_append, List.length_singleton]
    rw [← Nat.add_assoc queued.length, window_add, window_update (.inl (by omega)), h.requests,
      ← Nat.add_assoc]
    simp [window]

theorem Holds.puts (l : List ρ) (h : Holds r a unread taken queued pvt)
    (hroom : unread.length + taken.length + queued.length + pvt.length + l.length ≤ r.nrEnts) :
    Holds (l.foldl SharedRing.put r) a unread taken queued (pvt ++ l) := by
  induction l generalizing r pvt with
  | nil => rwa [List.append_nil]
  | cons x l ih =>
    rw [List.length_cons] at hroom
    have hl : (pvt ++ [x]).length = pvt.length + 1 := List.length_append
    have hp := ih (h.put (by omega) x) (by
      rw [hl]
      exact Nat.le_trans (by omega) hroom)
    rwa [List.append_assoc] at hp

theorem Holds.pushRequests (h : Holds r a unread taken queued pvt) :
    Holds r.pushRequests a unread taken (queued ++ pvt) [] := by
  obtain ⟨hpos, hlt, hdvd, h1, h2, h3, h4, h5, h6, h7, h8, h9⟩ := h
  refine ⟨hpos, hlt, hdvd, h1, h2, h3, ?_, ?_, h6, ?_, h8, ?_⟩
  · simp only [SharedRing.pushRequests, h5, List.length_append]
    exact congrArg u32 (by omega)
  · simp only [SharedRing.pushRequests, h5, List.length_append, List.length_nil]
    exact congrArg u32 (by omega)
  · simp only [SharedRing.pushRequests, List.length_append, List.length_nil]
    omega
  · simpa [SharedRing.pushRequests] using h9

theorem Holds.unread_iff (h : Holds r a unread taken queued pvt) :
    r.hasUnconsumedResponses ↔ unread ≠ [] := by
  have hf := h.fits
  have hlt := h.lt
  unfold hasUnconsumedResponses
  rw [h.rspCons, h.rspProd, ← List.length_pos_iff]
  constructor
  · intro hne
    by_contra hc
    exact hne (by rw [show unread.length = 0 by omega]; rfl)
  · intro hl e
    have := u32_inj (a := a + unread.length) (b := a) (by omega) (by omega) e.symm
    omega

theorem Holds.getResponse (h : Holds r a (y :: unread) taken queued pvt) :
    r.getResponse = some y := by
  have hw := h.responses
  rw [List.length_cons, Nat.add_comm, window_add] at hw
  have h0 : r.slot ((a + 0) % r.nrEnts) = .inr y := (List.cons.inj hw).1
  unfold SharedRing.getResponse
  rw [h.rspCons, u32_mod h.dvd, ← Nat.add_zero a, h0]
  rfl

theorem Holds.consume (h : Holds r a (y :: unread) taken queued pvt) :
    Holds r.consume (a + 1) unread taken queued pvt := by
  obtain ⟨hpos, hlt, hdvd, h1, h2, h3, h4, h5, h6, h7, h8, h9⟩ := h
  rw [List.length_cons] at h2 h3 h4 h5 h7 h8 h9
  refine ⟨hpos, hlt, hdvd, ?_, ?_, ?_, ?_, ?_, h6, ?_, ?_, ?_⟩
  · simp only [SharedRing.consume, h1, u32_add]
  · rw [SharedRing.consume, h2]
    exact congrArg u32 (by omega)
  · rw [SharedRing.consume, h3]
    exact congrArg u32 (by omega)
  · rw [SharedRing.consume, h4]
    exact congrArg u32 (by omega)
  · rw [SharedRing.consume, h5]
    exact congrArg u32 (by omega)
  · simp only [SharedRing.consume]
    omega
  · rw [Nat.add_comm, window_add] at h8
    exact (List.cons.inj h8).2
  · rw [← h9]
    simp only [SharedRing.consume]
    congr 1
    omega

theorem Holds.take (h : Holds r a unread taken (x :: queued) pvt) :
    ∃ r', r.take = some r' ∧ Holds r' a unread (taken ++ [x]) queued pvt := by
  have hf := h.fits
  have hlt := h.lt
  have hw := h.requests
  rw [List.length_cons] at hf hw
  rw [show queued.length + 1 + pvt.length = 1 + (queued.length + pvt.length) by omega,
    window_add] at hw
  obtain ⟨h0, hrest⟩ := List.cons.inj hw
  simp only [Nat.add_zero] at h0
  refine ⟨{ r with reqCons := u32 (r.reqCons + 1), taken := r.taken ++ [x] }, ?_, ?_⟩
  · unfold SharedRing.take
    rw [if_neg, h.reqCons, u32_mod h.dvd, h0]
    · rfl
    · rw [h.reqCons, h.reqProd, List.length_cons]
      intro e
      have := u32_inj (b := a + unread.length + taken.length)
        (a := a + unread.length + taken.length + (queued.length + 1)) (by omega) (by omega) e.symm
      omega
  · obtain ⟨hpos, hlt, hdvd, h1, h2, h3, h4, h5, h6, h7, h8, h9⟩ := h
    rw [List.length_cons] at h4 h5
    refine ⟨hpos, hlt, hdvd, h1, h2, ?_, ?_, ?_, ?_, ?_, h8, ?_⟩
    · simp only [h3, u32_add, List.length_append, List.length_singleton]
      exact congrArg u32 (by omega)
    · simp only [h4, List.length_append, List.length_singleton]
      exact congrArg u32 (by omega)
    · simp only [h5, List.length_append, List.length_singleton]
      exact congrArg u32 (by omega)
    · simp only [h6]
    · simp only [List.length_append, List.length_singleton]
      omega
    · simp only [List.length_append, List.length_singleton]
      exact hrest

/-- The back end only takes what was published. -/
theorem Holds.take_some (h : Holds r a unread taken queued pvt) (ht : r.take = some r') :
    ∃ x rest, queued = x :: rest ∧ Holds r' a unread (taken ++ [x]) rest pvt := by
  cases queued with
  | nil =>
    unfold SharedRing.take at ht
    rw [if_pos (by rw [h.reqCons, h.reqProd, List.length_nil, Nat.add_zero])] at ht
    cases ht
  | cons x rest =>
    obtain ⟨r1, h1, hh⟩ := h.take
    obtain rfl := Option.some.inj (ht.symm.trans h1)
    exact ⟨x, rest, rfl, hh⟩

/-- The response goes to a slot whose request the back end has taken. -/
theorem Holds.answer [DecidableEq ρ] (h : Holds r a unread taken queued pvt) (hx : x ∈ taken)
    (y : σ) : Holds (r.answer x y) a (unread ++ [y]) (taken.erase x) queued pvt := by
  have hlen := List.length_erase_of_mem hx
  have hpos := List.length_pos_of_mem hx
  have hf := h.fits
  have hp : r.rspProd % r.nrEnts = (a + unread.length) % r.nrEnts := by
    rw [h.rspProd, u32_mod h.dvd]
  have hadd : ∀ k, a + (unread.length + 1) + (taken.length - 1) + k =
      a + unread.length + taken.length + k := by omega
  constructor
  case pos => exact h.pos
  case lt => exact h.lt
  case dvd => exact h.dvd
  case rspCons => exact h.rspCons
  case rspProd =>
    simp only [SharedRing.answer, h.rspProd, List.length_append, List.length_singleton, u32_add]
    rw [Nat.add_assoc]
  case reqCons =>
    simp only [SharedRing.answer, h.reqCons, List.length_append, List.length_singleton, hlen]
    exact congrArg _ (hadd 0).symm
  case reqProd =>
    simp only [SharedRing.answer, h.reqProd, List.length_append, List.length_singleton, hlen, hadd]
  case reqProdPvt =>
    simp only [SharedRing.answer, h.reqProdPvt, List.length_append, List.length_singleton, hlen,
      hadd]
  case has => simp only [SharedRing.answer, h.has]
  case fits =>
    simp only [SharedRing.answer, List.length_append, List.length_singleton, hlen]
    omega
  case responses =>
    simp only [SharedRing.answer, hp, List.length_append, List.length_singleton]
    rw [window_add, window_update (.inl (by omega)), h.responses]
    simp [window]
  case requests =>
    simp only [SharedRing.answer, hp, List.length_append, List.length_singleton, hlen]
    have e := hadd 0
    rw [Nat.add_zero, Nat.add_zero] at e
    rw [e, window_update (.inr (by omega))]
    exact h.requests

end View

end SharedRing

end XcWindows.Lib
