import XcWindows.V2v.Fifo

/-!
# Ring space

What `v2v_nc2_prep_message` does to the producer's indices, for a peer that is only known to publish
consumer indices between its last one and the published producer index (`SendAct.peer`). `Room` reads
the 32-bit indices as residues of counters; it is kept by every call whose message and padding
together fit an `unsigned short` (`no_overrun`). On a drained ring a message is accepted exactly if
the space that is asked for, in an `unsigned short`, is at most the ring (`accepted_iff`).
-/

namespace XcWindows.V2v

open Lib XcWindows.V2v.Ring

/-- The rounded size `v2v_nc2_prep_message` computes. -/
def roundedSize (msgSize : Nat) : Nat := u16 (roundup8 (u16 (sizeT (msgSize + hdrSize))))

/-- The size check of `v2v_nc2_prep_message`. -/
def Ring.tooLarge (r : Ring) (msgSize : Nat) : Prop :=
  sizeT (sizeT (msgSize + hdrSize) + 7) / 8 * 8 > r.payloadBytes

instance (r : Ring) (n : Nat) : Decidable (r.tooLarge n) := inferInstanceAs (Decidable (_ > _))

section Sizes
variable {r : Ring} {msgSize : Nat}

theorem roundedSize_le (hR : RingSize r.payloadBytes) (h : ¬ r.tooLarge msgSize) :
    roundedSize msgSize ≤ r.payloadBytes := by
  have hb := hR.bounds
  unfold Ring.tooLarge at h
  unfold roundedSize roundup8
  simp only [u16, sizeT] at h ⊢
  rcases hR.cases with e | e | e | e | e <;> rw [e] at h ⊢ <;> omega

end Sizes

/-! ## The producer against any honest peer -/

/-- What the producer's client does, steps of a call, and what the peer writes. -/
inductive SendAct where
  | prep (msgSize : Nat) (type flags : UInt8)
  | write (i off : Nat) (xs : List UInt8)
  | send
  | producer
  | peer (k prodEvent : Nat) (active spinning : Bool)

def sendStep (r : Ring) : SendAct → Option Ring
  | .prep msgSize type flags => ringStep r (.prep msgSize type flags)
  | .write i off xs => ringStep r (.write i off xs)
  | .send => ringStep r .send
  | .producer => ringStep r .producer
  | .peer k prodEvent active spinning =>
    if k ≤ sub32 r.prod r.cons then
      some { r with
        cons := u32 (r.cons + k)
        prodEvent := prodEvent
        consumerActive := active
        consumerSpinning := spinning }
    else none

def sendMachine (order : Nat) : Machine Ring SendAct := ⟨attachRings order, sendStep⟩

/-- The private producer index is at most a ring ahead of the peer, and the cached space is there. -/
def NoOverrun (r : Ring) : Prop :=
  sub32 r.localProdPvt r.cons ≤ r.payloadBytes ∧
    r.localProdBytesAvailable ≤ r.payloadBytes - sub32 r.localProdPvt r.cons

/-- The space a message needs, with its padding, survives the conversion to `unsigned short`. -/
def NeedFits (r : Ring) : SendAct → Prop
  | .prep msgSize _ _ => r.tooLarge msgSize ∨ r.need (roundedSize msgSize) < 65536
  | _ => True

instance (r : Ring) (a : SendAct) : Decidable (NeedFits r a) :=
  match a with
  | .prep _ _ _ => inferInstanceAs (Decidable (_ ∨ _))
  | .write _ _ _ | .send | .producer | .peer _ _ _ _ => isTrue trivial

/-- `A`, `Q` and `P` are the counters behind the peer's consumer index and the published and the
private producer index. -/
structure Room (r : Ring) (A Q P : Nat) : Prop where
  size : RingSize r.payloadBytes
  cons : r.cons = u32 A
  prod : r.prod = u32 Q
  prodPvt : r.localProdPvt = u32 P
  consumed : A ≤ Q
  published : Q ≤ P
  room : P + r.localProdBytesAvailable ≤ A + r.payloadBytes

section Room
variable {F : Call → Prop} {r r' : Ring} {A Q P : Nat} {c : Call}

theorem Room.noOverrun (h : Room r A Q P) : NoOverrun r := by
  have h1 := h.consumed
  have h2 := h.published
  have h3 := h.room
  have h4 := h.size.bounds
  unfold NoOverrun
  rw [h.prodPvt, h.cons, sub32_u32 (by omega) (by omega)]
  omega

/-- The fields the reading rests on. -/
def Ring.indices (r : Ring) :=
  (r.payloadBytes, r.cons, r.prod, r.localProdPvt, r.localProdBytesAvailable)

theorem Room.keep (h : Room r A Q P) (e : r'.indices = r.indices) : Room r' A Q P := by
  simp only [Ring.indices, Prod.mk.injEq] at e
  obtain ⟨e1, e2, e3, e4, e5⟩ := e
  refine ⟨?_, ?_, ?_, ?_, h.consumed, h.published, ?_⟩
  · rw [e1]; exact h.size
  · rw [e2]; exact h.cons
  · rw [e3]; exact h.prod
  · rw [e4]; exact h.prodPvt
  · rw [e5, e1]; exact h.room

theorem Room.prodPvt_lt (h : Room r A Q P) : r.localProdPvt < 4294967296 := by
  rw [h.prodPvt]; exact Nat.mod_lt _ (by decide)

theorem Room.space (h : Room r A Q P) : r.space r.cons = A + r.payloadBytes - P := by
  have h1 := h.consumed
  have h2 := h.published
  have h3 := h.room
  have h4 := h.size.bounds
  unfold Ring.space
  rw [h.prodPvt, h.cons, sub32_u32 (by omega) (by omega)]
  simp only [sub32]; omega

theorem putMessage_indices (hR : RingSize r.payloadBytes) (hlt : r.localProdPvt < 4294967296)
    (hc : CallFits F r c) (hav : r.need c.roundedSize ≤ r.localProdBytesAvailable)
    (hsmall : r.localProdBytesAvailable < 4294967296) :
    (r.putMessage c).indices = (r.payloadBytes, r.cons, r.prod,
      u32 (r.localProdPvt + r.need c.roundedSize),
      r.localProdBytesAvailable - r.need c.roundedSize) := by
  have hwrap := ringWouldWrap_iff hR hc.le hlt
  have hneed := hc.need
  unfold Ring.need at hneed hav ⊢
  by_cases hw : r.localProdPvt % r.payloadBytes + c.roundedSize < r.payloadBytes
  · rw [if_pos hw] at hneed hav ⊢
    have hno : ¬ r.ringWouldWrap c.roundedSize = true := by rw [hwrap]; omega
    simp only [Ring.putMessage, Ring.avoidRingWrap, if_neg hno, Ring.putHdr, Ring.indices, sub32,
      Prod.mk.injEq, true_and]
    omega
  · rw [if_neg hw] at hneed hav ⊢
    have hyes : r.ringWouldWrap c.roundedSize = true := hwrap.mpr (by omega)
    have hpad : r.padNeeded = r.payloadBytes - r.localProdPvt % r.payloadBytes := by
      simp only [padNeeded, u16]; omega
    simp only [Ring.putMessage, Ring.avoidRingWrap, if_pos hyes, Ring.putHdr, Ring.sendPad,
      Ring.indices, sub32, hpad, u32, Prod.mk.injEq, true_and]
    constructor <;> omega

theorem Room.putMessage (h : Room r A Q P) (hc : CallFits F r c)
    (hav : r.need c.roundedSize ≤ r.localProdBytesAvailable) {pc : ProdPc} :
    Room { r.putMessage c with ppc := pc } A Q (P + r.need c.roundedSize) := by
  have h1 := h.consumed
  have h2 := h.published
  have h3 := h.room
  have h4 := h.size.bounds
  have e := putMessage_indices h.size h.prodPvt_lt hc hav (by omega)
  simp only [Ring.indices, Prod.mk.injEq] at e
  obtain ⟨e1, e2, e3, e4, e5⟩ := e
  refine ⟨?_, ?_, ?_, ?_, h1, by omega, ?_⟩
  · simp only [e1]; exact h.size
  · simp only [e2]; exact h.cons
  · simp only [e3]; exact h.prod
  · simp only [e4, h.prodPvt]
    exact u32_add P _
  · simp only [e5, e1]
    omega

theorem indices_of_view (e : r'.view = r.view) : r'.indices = r.indices := by
  simp only [Ring.view, Prod.mk.injEq] at e
  simp only [Ring.indices, e]

/-- Nothing has to be known of the calls but that they fit. -/
abbrev SpaceAt (r : Ring) : ProdPc → Prop := ProdAt (fun _ => True) r

theorem Room.prodStep (h : Room r A Q P) (hp : SpaceAt r r.ppc) (hs : r.prodStep = some r') :
    ∃ Q' P', Room r' A Q' P' ∧ SpaceAt r' r'.ppc := by
  obtain ⟨hr, hp'⟩ := prodStep_cases h.size h.prodPvt_lt hp hs
  cases hr with
  | quiet e => exact ⟨Q, P, h.keep (indices_of_view e), hp'⟩
  | publish =>
    exact ⟨P, P, ⟨h.size, h.cons, h.prodPvt, h.prodPvt, Nat.le_trans h.consumed h.published,
      Nat.le_refl P, h.room⟩, hp'⟩
  | learn =>
    refine ⟨Q, P, ⟨h.size, h.cons, h.prod, h.prodPvt, h.consumed, h.published, ?_⟩, hp'⟩
    have hroom := h.room
    simp only [h.space]; omega
  | put hc hn => exact ⟨Q, _, h.putMessage hc hn, hp'⟩

theorem prepMessage_spaceAt {msgSize : Nat} (type flags : UInt8) (hR : RingSize r.payloadBytes)
    (hok : r.tooLarge msgSize ∨ r.need (roundedSize msgSize) < 65536) (hi : r.ppc = .idle) :
    (r.prepMessage msgSize type flags).indices = r.indices ∧
      SpaceAt (r.prepMessage msgSize type flags) (r.prepMessage msgSize type flags).ppc := by
  unfold Ring.prepMessage
  simp only
  split
  · exact ⟨rfl, by simp only [hi]; trivial⟩
  next hle =>
  split
  · exact ⟨rfl, by simp only [hi]; trivial⟩
  exact ⟨rfl, roundedSize_le hR hle, hok.resolve_left hle, trivial⟩

theorem Room.peer {k : Nat} (h : Room r A Q P) (hk : k ≤ sub32 r.prod r.cons) (prodEvent : Nat)
    (active spinning : Bool) :
    Room { r with cons := u32 (r.cons + k), prodEvent := prodEvent, consumerActive := active,
                  consumerSpinning := spinning } (A + k) Q P := by
  have h1 := h.consumed
  have h2 := h.published
  have h3 := h.room
  have h4 := h.size.bounds
  rw [h.prod, h.cons, sub32_u32 h1 (by omega)] at hk
  refine ⟨h.size, ?_, h.prod, h.prodPvt, by omega, h2, ?_⟩
  · simp only [h.cons]
    exact u32_add A k
  · simp only
    omega

theorem Room.step {a : SendAct} (h : Room r A Q P) (hp : SpaceAt r r.ppc) (hok : NeedFits r a)
    (hs : sendStep r a = some r') : ∃ A' Q' P', Room r' A' Q' P' ∧ SpaceAt r' r'.ppc := by
  cases a with
  | prep msgSize type flags =>
    simp only [sendStep, ringStep] at hs
    split at hs
    · next hi =>
      cases hs
      obtain ⟨e, hsp⟩ := prepMessage_spaceAt type flags h.size hok hi
      exact ⟨A, Q, P, h.keep e, hsp⟩
    · cases hs
  | write i off xs =>
    simp only [sendStep, ringStep] at hs
    split at hs
    · next hi =>
      obtain ⟨q, -, hs⟩ := Option.bind_eq_some_iff.mp hs
      split at hs
      · cases hs
        refine ⟨A, Q, P, h.keep rfl, ?_⟩
        simp only [hi]
        trivial
      · cases hs
    · cases hs
  | send =>
    simp only [sendStep, ringStep] at hs
    split at hs
    · cases hs
      exact ⟨A, Q, P, h.keep rfl, fun c hc => absurd hc (Option.not_mem_none c)⟩
    · cases hs
  | producer =>
    obtain ⟨Q', P', h', hp'⟩ := h.prodStep hp hs
    exact ⟨A, Q', P', h', hp'⟩
  | peer k prodEvent active spinning =>
    obtain ⟨hk, hs⟩ := Option.ite_none_right_eq_some.mp hs
    cases hs
    exact ⟨A + k, Q, P, h.peer hk prodEvent active spinning, hp.keep rfl rfl rfl⟩

end Room

theorem room_attach {order : Nat} (ho : order ≤ 4) : Room (attachRings order) 0 0 0 := by
  refine ⟨⟨order, ho, rfl⟩, rfl, rfl, rfl, Nat.le_refl 0, Nat.le_refl 0, ?_⟩
  simp [attachRings]

/-- As long as no message and its padding need `2^16` bytes, the producer never overruns its peer. -/
theorem no_overrun {order : Nat} (ho : order ≤ 4) {r : Ring}
    (h : (sendMachine order).Reach NeedFits r) : NoOverrun r := by
  have hinv : ∃ A Q P, Room r A Q P ∧ SpaceAt r r.ppc := by
    refine Machine.Reach.inv (M := sendMachine order)
      (I := fun r => ∃ A Q P, Room r A Q P ∧ SpaceAt r r.ppc)
      ⟨0, 0, 0, room_attach ho, trivial⟩ ?_ h
    rintro s a t ⟨A, Q, P, hr, hp⟩ hok hs
    exact hr.step hp hok hs
  obtain ⟨A, Q, P, hr, -⟩ := hinv
  exact hr.noOverrun

/-- Almost half a ring of order 4 is sent, consumed, and sent again. -/
theorem no_overrun_run : ∃ r, (sendMachine 4).Reach NeedFits r ∧ r.localProdPvt = 65520 ∧
    r.prepStatus = .success ∧ NoOverrun r := by
  obtain ⟨r, hr, hs⟩ := Machine.exists_reach (sendMachine 4) NeedFits
    (fun r => decide (r.localProdPvt = 65520 ∧ r.prepStatus = .success))
    (List.flatten [[.prep 32756 1 0], .replicate 5 .producer, [.send], .replicate 3 .producer,
      [.peer 32760 0 true false, .prep 32756 1 0], .replicate 8 .producer]) (by decide +kernel)
  simp only [decide_eq_true_eq] at hs
  exact ⟨r, hr, hs.1, hs.2, no_overrun (by decide) hr⟩

/-- The largest message of a ring of order 3 and its padding need `2^16` bytes. -/
theorem overrun_whole_ring : ∃ r, (sendMachine 3).Reach Machine.Any r ∧ r.prepStatus = .success ∧
    sub32 r.localProdPvt r.cons = 65536 ∧ r.payloadBytes = 32768 ∧ ¬ NoOverrun r := by
  obtain ⟨r, hr, hs⟩ := Machine.exists_reach (sendMachine 3) Machine.Any
    (fun r => decide (r.prepStatus = .success ∧ sub32 r.localProdPvt r.cons = 65536 ∧
      r.payloadBytes = 32768))
    (.prep 32764 1 0 :: List.replicate 5 .producer) (by decide +kernel)
  simp only [decide_eq_true_eq] at hs
  obtain ⟨h1, h2, h3⟩ := hs
  refine ⟨r, hr, h1, h2, h3, fun h => ?_⟩
  have := h.1
  omega

/-! ## A drained ring -/

/-- The call that returned, by the producer's own steps. -/
def Returns (r : Ring) (msgSize : Nat) (type flags : UInt8) (t : Ring) : Prop :=
  ∃ n, (ringStep r (.prep msgSize type flags)).bind (prodSteps n) = some t ∧ t.ppc = .idle

section Drained
variable {r : Ring}

/-- A call returns in one way only. -/
theorem prodSteps_idle {n m : Nat} {t u : Ring} (h1 : prodSteps n r = some t) (ht : t.ppc = .idle)
    (h2 : prodSteps m r = some u) (hu : u.ppc = .idle) : t = u := by
  induction n generalizing r m with
  | zero =>
    cases h1
    cases m with
    | zero => exact Option.some.inj h2
    | succ m => simp [prodSteps, Ring.prodStep, ht] at h2
  | succ n ih =>
    cases m with
    | zero =>
      cases h2
      simp [prodSteps, Ring.prodStep, hu] at h1
    | succ m =>
      simp only [prodSteps] at h1 h2
      obtain ⟨s, hs, h1⟩ := Option.bind_eq_some_iff.mp h1
      rw [hs, Option.bind_some] at h2
      exact ih h1 h2

theorem Returns.unique {msgSize : Nat} {type flags : UInt8} {t u : Ring}
    (h1 : Returns r msgSize type flags t) (h2 : Returns r msgSize type flags u) : t = u := by
  obtain ⟨n, h1, ht⟩ := h1
  obtain ⟨m, h2, hu⟩ := h2
  obtain ⟨s, hs, h1⟩ := Option.bind_eq_some_iff.mp h1
  rw [hs, Option.bind_some] at h2
  exact prodSteps_idle h1 ht h2 hu

/-- The peer has consumed everything. -/
structure IsDrained (r : Ring) : Prop where
  size : RingSize r.payloadBytes
  idle : r.ppc = .idle
  drained : r.cons = r.localProdPvt

theorem space_drained (hR : RingSize r.payloadBytes) (h : r.cons = r.localProdPvt) :
    r.space r.cons = r.payloadBytes := by
  have hb := hR.bounds
  unfold Ring.space
  rw [h]
  simp only [sub32]
  omega

theorem fill_succeeds (r : Ring) (c : Call) : ∃ n t, prodSteps n { r with ppc := .fill c } = some t ∧
    t.ppc = .idle ∧ t.prepStatus = .success := by
  refine prodSteps_cons rfl (prodSteps_cons rfl ?_)
  split
  · apply prodSteps_cons rfl
    split
    · exact prodSteps_cons rfl ⟨0, _, rfl, rfl, rfl⟩
    · exact ⟨0, _, rfl, rfl, rfl⟩
  · exact ⟨0, _, rfl, rfl, rfl⟩

theorem readCons_yes (r : Ring) (c : Call) (again : Bool) {nr : Nat} (h : r.space r.cons ≥ nr) :
    ∃ n t, prodSteps n { r with ppc := .readCons c again nr } = some t ∧
      t.ppc = .idle ∧ t.prepStatus = .success := by
  apply prodSteps_cons rfl
  have h' : Ring.space { r with ppc := .readCons c again nr } r.cons ≥ nr := h
  rw [if_pos h']
  exact fill_succeeds
    { r with localProdBytesAvailable := r.space r.cons, sendEvent := r.sendEvent || again } c

theorem canSend_yes (r : Ring) (c : Call) (again : Bool)
    (h : r.localProdBytesAvailable > c.roundedSize * 2 ∨
      r.space r.cons ≥ r.asked c.roundedSize) :
    ∃ n t, prodSteps n { r with ppc := .canSend c again } = some t ∧
      t.ppc = .idle ∧ t.prepStatus = .success := by
  apply prodSteps_cons rfl
  split
  · exact fill_succeeds { r with sendEvent := r.sendEvent || again } c
  next hslow =>
  have h := h.resolve_left hslow
  unfold Ring.asked at h
  split
  · next hw =>
    have hw' : r.ringWouldWrap c.roundedSize = true := hw
    rw [if_pos hw'] at h
    exact readCons_yes r c again h
  · next hw =>
    have hw' : ¬ r.ringWouldWrap c.roundedSize = true := hw
    rw [if_neg hw'] at h
    exact readCons_yes r c again h

/-- Without space the second test answers STATUS_RETRY, and the first is repeated. -/
theorem readCons_no {P : Ring → Prop} (r : Ring) (c : Call) (again : Bool) {nr : Nat}
    (h : ¬ r.space r.cons ≥ nr)
    (hretry : again = true →
      P { r with consEvent := u32 (r.cons + 1), prepStatus := .retry nr, ppc := .idle })
    (hfirst : again = false → ∃ n t, prodSteps n
      { r with consEvent := u32 (r.cons + 1), sendEvent := false, ppc := .canSend c true } =
        some t ∧ P t) :
    ∃ n t, prodSteps n { r with ppc := .readCons c again nr } = some t ∧ P t := by
  have h' : ¬ Ring.space { r with ppc := .readCons c again nr } r.cons ≥ nr := h
  apply prodSteps_cons rfl
  rw [if_neg h']
  refine prodSteps_cons rfl (prodSteps_cons rfl ?_)
  rw [if_neg (by simp)]
  cases again with
  | true => exact ⟨0, _, rfl, hretry rfl⟩
  | false => exact prodSteps_cons rfl (hfirst rfl)

theorem canSend_no {P : Ring → Prop} (r : Ring) (c : Call) (again : Bool)
    (hslow : ¬ r.localProdBytesAvailable > c.roundedSize * 2)
    (h : ¬ r.space r.cons ≥ r.asked c.roundedSize)
    (hretry : again = true → P { r with
      consEvent := u32 (r.cons + 1), prepStatus := .retry (r.asked c.roundedSize), ppc := .idle })
    (hfirst : again = false → ∃ n t, prodSteps n
      { r with consEvent := u32 (r.cons + 1), sendEvent := false, ppc := .canSend c true } =
        some t ∧ P t) :
    ∃ n t, prodSteps n { r with ppc := .canSend c again } = some t ∧ P t := by
  apply prodSteps_cons rfl
  rw [if_neg hslow]
  unfold Ring.asked at h hretry
  split
  · next hw =>
    have hw' : r.ringWouldWrap c.roundedSize = true := hw
    rw [if_pos hw'] at h hretry
    exact readCons_no r c again h hretry hfirst
  · next hw =>
    have hw' : ¬ r.ringWouldWrap c.roundedSize = true := hw
    rw [if_neg hw'] at h hretry
    exact readCons_no r c again h hretry hfirst

/-- The call comes to the space test, with the producer's and the peer's indices as they were. -/
theorem readActive_then {P : Ring → Prop} (r : Ring) (c : Call)
    (h : ∀ r' : Ring, r'.payloadBytes = r.payloadBytes → r'.cons = r.cons →
      r'.localProdPvt = r.localProdPvt → r'.localProdBytesAvailable = r.localProdBytesAvailable →
      ∃ n t, prodSteps n { r' with ppc := .canSend c false } = some t ∧ P t) :
    ∃ n t, prodSteps n { r with ppc := .readActive c } = some t ∧ P t := by
  let flushed : Ring :=
    { r with prod := r.localProdPvt, localProd := r.localProdPvt, published := r.sent.length }
  apply prodSteps_cons rfl
  dsimp only
  split
  · refine prodSteps_cons rfl (prodSteps_cons rfl ?_)
    dsimp only
    split
    · apply prodSteps_cons rfl
      dsimp only
      split
      · apply prodSteps_cons rfl
        exact h { flushed with
          receiveEvent := r.receiveEvent || !r.consumerSpinning, producerActive := false
          localProducerActive := false } rfl rfl rfl rfl
      · exact h { flushed with receiveEvent := r.receiveEvent || !r.consumerSpinning } rfl rfl rfl rfl
    · exact h flushed rfl rfl rfl rfl
  · exact h r rfl rfl rfl rfl

theorem asked_congr {r' : Ring} (e1 : r'.payloadBytes = r.payloadBytes)
    (e2 : r'.localProdPvt = r.localProdPvt) (n : Nat) : r'.asked n = r.asked n := by
  unfold Ring.asked Ring.ringWouldWrap Ring.padNeeded
  rw [e1, e2]

/-- A call that is not rejected starts with these locals. -/
theorem prep_starts {msgSize : Nat} {type : UInt8} (flags : UInt8) (hi : r.ppc = .idle)
    (hsize : ¬ r.tooLarge msgSize) (htype : type < msgPad) :
    ∃ c, c.roundedSize = roundedSize msgSize ∧ ringStep r (.prep msgSize type flags) =
      some { { r with prepStatus := .none } with ppc := .readActive c } := by
  have htype' : ¬ type ≥ msgPad := UInt8.not_le.mpr htype
  unfold Ring.tooLarge at hsize
  refine ⟨⟨msgSize, u16 (sizeT (msgSize + hdrSize)), roundedSize msgSize, type, flags⟩, rfl, ?_⟩
  simp only [ringStep, hi, if_true, Ring.prepMessage, if_neg hsize, if_neg htype']
  rfl

theorem returns_of_steps {msgSize : Nat} {type flags : UInt8} {s : Ring} {P : Ring → Prop}
    (hs : ringStep r (.prep msgSize type flags) = some s)
    (h : ∃ n t, prodSteps n s = some t ∧ t.ppc = .idle ∧ P t) :
    ∃ t, Returns r msgSize type flags t ∧ P t := by
  obtain ⟨n, t, hn, ht, hP⟩ := h
  exact ⟨t, ⟨n, by rw [hs, Option.bind_some]; exact hn, ht⟩, hP⟩

theorem IsDrained.accepts (h : IsDrained r) {msgSize : Nat} {type : UInt8} (flags : UInt8)
    (hsize : ¬ r.tooLarge msgSize) (htype : type < msgPad)
    (hyes : r.localProdBytesAvailable > roundedSize msgSize * 2 ∨
      r.asked (roundedSize msgSize) ≤ r.payloadBytes) :
    ∃ t, Returns r msgSize type flags t ∧ t.prepStatus = .success := by
  obtain ⟨c, hc, hs⟩ := prep_starts flags h.idle hsize htype
  refine returns_of_steps hs (readActive_then _ c fun r' e1 e2 e3 e4 => canSend_yes r' c false ?_)
  rw [hc, asked_congr e1 e3, space_drained (e1 ▸ h.size) (e2.trans (h.drained.trans e3.symm)), e1, e4]
  exact hyes

theorem IsDrained.retries (h : IsDrained r) {msgSize : Nat} {type : UInt8} (flags : UInt8)
    (hsize : ¬ r.tooLarge msgSize) (htype : type < msgPad)
    (hno : ¬ (r.localProdBytesAvailable > roundedSize msgSize * 2 ∨
      r.asked (roundedSize msgSize) ≤ r.payloadBytes)) :
    ∃ t, Returns r msgSize type flags t ∧ (∃ nr, t.prepStatus = .retry nr) ∧ IsDrained t ∧
      t.payloadBytes = r.payloadBytes ∧ t.localProdPvt = r.localProdPvt ∧
      t.localProdBytesAvailable = r.localProdBytesAvailable := by
  obtain ⟨hslow, hask⟩ := not_or.mp hno
  obtain ⟨c, hc, hs⟩ := prep_starts flags h.idle hsize htype
  refine returns_of_steps hs (readActive_then _ c fun r' e1 e2 e3 e4 => ?_)
  have hR : RingSize r'.payloadBytes := e1 ▸ h.size
  have hd : r'.cons = r'.localProdPvt := e2.trans (h.drained.trans e3.symm)
  have hslow' : ¬ r'.localProdBytesAvailable > c.roundedSize * 2 := by
    rw [hc, e4]
    exact hslow
  have hask' : ¬ r'.space r'.cons ≥ r'.asked c.roundedSize := by
    rw [hc, asked_congr e1 e3, space_drained hR hd, e1]
    exact hask
  -- the first test fails, and then the second
  refine canSend_no r' c false hslow' hask' (fun e => nomatch e) fun _ => ?_
  refine canSend_no { r' with consEvent := u32 (r'.cons + 1), sendEvent := false } c true hslow'
    hask' (fun _ => ?_) fun e => nomatch e
  exact ⟨rfl, ⟨_, rfl⟩, ⟨hR, rfl, hd⟩, e1, e3, e4⟩

end Drained

/-- `k` calls, each answered STATUS_RETRY. -/
def Retried (msgSize : Nat) (type flags : UInt8) : Nat → Ring → Prop
  | 0, _ => True
  | k + 1, r => ∃ t nr, Returns r msgSize type flags t ∧ t.prepStatus = .retry nr ∧
      Retried msgSize type flags k t

/-- On a drained ring a message that is not rejected is accepted exactly if twice its size is known
to be free or the space that is asked for is at most the ring; else it is answered STATUS_RETRY
however often it is tried. -/
theorem accepted_iff (r : Ring) (msgSize : Nat) (type flags : UInt8) (h : IsDrained r)
    (hsize : ¬ r.tooLarge msgSize) (htype : type < msgPad) :
    ((∃ t, Returns r msgSize type flags t ∧ t.prepStatus = .success) ↔
      r.localProdBytesAvailable > roundedSize msgSize * 2 ∨
      r.asked (roundedSize msgSize) ≤ r.payloadBytes) ∧
    (¬ (∃ t, Returns r msgSize type flags t ∧ t.prepStatus = .success) →
      ∀ k, Retried msgSize type flags k r) := by
  have hiff : (∃ t, Returns r msgSize type flags t ∧ t.prepStatus = .success) ↔
      r.localProdBytesAvailable > roundedSize msgSize * 2 ∨
      r.asked (roundedSize msgSize) ≤ r.payloadBytes := by
    refine ⟨fun ⟨t, ht, hst⟩ => ?_, h.accepts flags hsize htype⟩
    by_contra hno
    obtain ⟨u, hu, ⟨nr, hr⟩, -⟩ := h.retries flags hsize htype hno
    rw [ht.unique hu, hr] at hst
    cases hst
  refine ⟨hiff, fun hno k => ?_⟩
  rw [hiff] at hno
  -- a retry leaves everything the answer depends on
  clear hiff
  induction k generalizing r with
  | zero => trivial
  | succ k ih =>
    obtain ⟨t, ht, ⟨nr, hr⟩, hd, e1, e2, e3⟩ := h.retries flags hsize htype hno
    refine ⟨t, nr, ht, hr, ih t hd ?_ ?_⟩
    · unfold Ring.tooLarge at hsize ⊢
      rw [e1]
      exact hsize
    · rw [e3, asked_congr e1 e2, e1]
      exact hno

/-- The largest message of a page, on a fresh ring. -/
theorem accepted_iff_page : ∃ t, Returns (attachRings 1) 4092 1 0 t ∧ t.prepStatus = .success :=
  (accepted_iff (attachRings 1) 4092 1 0 ⟨⟨1, by decide, rfl⟩, rfl, rfl⟩ (by decide) (by decide)).1.mpr
    (by decide)

/-- Behind 2048 bytes that were sent and consumed, a message of 2052 bytes is not accepted on an empty
ring of 4096. -/
theorem retried_half_way : ∃ r, (sendMachine 0).Reach Machine.Any r ∧ IsDrained r ∧
    ¬ r.tooLarge 2052 ∧ ∃ t, Returns r 2052 1 0 t ∧ t.prepStatus = .retry 4104 := by
  obtain ⟨r, hr, hs⟩ := Machine.exists_reach (sendMachine 0) Machine.Any
    (fun r => decide (r.payloadBytes = 4096 ∧ r.ppc = .idle ∧ r.cons = r.localProdPvt) &&
      ((ringStep r (.prep 2052 1 0)).bind (prodSteps 10)).any fun t : Ring =>
        decide (t.ppc = .idle ∧ t.prepStatus = .retry 4104))
    (List.flatten [[.prep 2044 1 0], .replicate 5 .producer, [.send], .replicate 3 .producer,
      [.peer 2048 0 false false]]) (by decide +kernel)
  simp only [Bool.and_eq_true, decide_eq_true_eq] at hs
  obtain ⟨⟨h1, h2, h3⟩, h4⟩ := hs
  refine ⟨r, hr, ⟨⟨0, by decide, h1⟩, h2, h3⟩, ?_, ?_⟩
  · unfold Ring.tooLarge
    rw [h1]
    decide
  · cases ht : (ringStep r (.prep 2052 1 0)).bind (prodSteps 10) with
    | none => simp [ht] at h4
    | some t =>
      simp only [ht, Option.any_some, decide_eq_true_eq] at h4
      exact ⟨t, ⟨10, ht, h4.1⟩, h4.2⟩

end XcWindows.V2v
