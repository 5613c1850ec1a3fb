import XcWindows.V2v.Ring

/-!
# No lost wakeup

A consumer that found the ring empty asks for an event when `prod` leaves the index it stands at,
a producer that found the ring full when `cons` leaves the index it read. Each stores its event
index and then looks at the other's index once more; the other stores its index and then looks at
the event. `Parked` and `Waiting` say what holds from then on: either the index has not moved, or
the event was sent, or the other side stands at the test of the event and the test succeeds.
Nothing here depends on what is in the ring or on how far the indices are apart.
-/

namespace XcWindows.V2v

open Lib XcWindows.V2v.Ring

/-- An index that leaves `i` crosses the event set right behind `i`. -/
theorem crosses_of_ne {i new : Nat} (h : new ≠ i) (hi : i < 4294967296) (hn : new < 4294967296) :
    crosses (u32 (i + 1)) i new = true := by
  simp only [crosses, sub32, u32, decide_eq_true_eq]; omega

/-- The consumer has been told of all it was not shown, or is about to be. -/
def ConsumerTold (r : Ring) : Prop :=
  r.prod = r.localConsPvt ∨ r.receiveEvent = true ∨
    (∃ old k, r.ppc = .flushEvent old k ∧ crosses r.prodEvent old r.localProd = true) ∨
    ∃ k, r.ppc = .flushSpinning k

/-- The producer has been told that `cons` left `c`, or is about to be. -/
def ProducerTold (r : Ring) (c : Nat) : Prop :=
  r.cons = c ∨ r.sendEvent = true ∨
    ∃ old, r.cpc = .finishEvent old ∧ crosses r.consEvent old r.localCons = true

/-- The consumer was answered `STATUS_NO_MORE_ENTRIES`. -/
structure Parked (r : Ring) : Prop where
  idle : r.cpc = .idle
  event : r.prodEvent = u32 (r.localConsPvt + 1)
  told : ConsumerTold r

/-- The producer was answered `STATUS_RETRY` when the consumer was at `c`. -/
structure Waiting (r : Ring) (nr c : Nat) : Prop where
  quiet : Quiet r.ppc
  lt : c < 4294967296
  event : r.consEvent = u32 (c + 1)
  short : r.space c < nr
  told : ProducerTold r c

/-- What a producer between its check and its answer knows. -/
def ProdChecks (r : Ring) : ProdPc → Prop
  | .setConsEvent _ _ nr c => c < 4294967296 ∧ r.space c < nr
  | .recheckCons _ _ nr c => c < 4294967296 ∧ r.space c < nr ∧ r.consEvent = u32 (c + 1)
  | _ => True

/-- What a consumer between its check and its answer knows. -/
def ConsChecks (r : Ring) : ConsPc → Prop
  | .readActive _ p | .resetReceive _ p | .finalCheck _ p | .setProdEvent _ p => p = r.localConsPvt
  | .recheckProd _ p => p = r.localConsPvt ∧ r.prodEvent = u32 (p + 1)
  | _ => True

/-- The consumer may have `consumer_spinning` set. -/
def Spins : ConsPc → Prop
  | .spin _ | .clearSpinning _ => True
  | _ => False

structure Wakes (r : Ring) : Prop where
  prodPvt_lt : r.localProdPvt < 4294967296
  consPvt_lt : r.localConsPvt < 4294967296
  prod_lt : r.prod < 4294967296
  cons_lt : r.cons < 4294967296
  localProd : r.localProd = r.prod
  localCons : r.localCons = r.cons
  spins : r.consumerSpinning = true → Spins r.cpc
  prodChecks : ProdChecks r r.ppc
  consChecks : ConsChecks r r.cpc
  parked : r.getStatus = .noMoreEntries → Parked r
  waiting : ∀ nr, r.prepStatus = .retry nr → ∃ c, Waiting r nr c

theorem wakes_attach (order : Nat) : Wakes (attachRings order) := by
  constructor <;> simp [attachRings, ProdChecks, ConsChecks]

section Steps

variable {r r' : Ring}

/-- The producer is not about to tell the consumer. -/
def NotTelling (pc : ProdPc) : Prop := (∀ old k, pc ≠ .flushEvent old k) ∧ ∀ k, pc ≠ .flushSpinning k

theorem ConsumerTold.pass (h : ConsumerTold r) (hpc : NotTelling r.ppc) (e : SameCons r r')
    (hprod : r'.prod = r.prod) (hev : r.receiveEvent = true → r'.receiveEvent = true) :
    ConsumerTold r' := by
  rcases h with h | h | ⟨old, k, h, -⟩ | ⟨k, h⟩
  · exact .inl (by rw [hprod, e.localConsPvt, h])
  · exact .inr (.inl (hev h))
  · exact absurd h (hpc.1 old k)
  · exact absurd h (hpc.2 k)

theorem Waiting.pass {nr c : Nat} (h : Waiting r nr c) (e : SameCons r r') (hq : Quiet r'.ppc)
    (hsize : r'.payloadBytes = r.payloadBytes) (hpvt : r'.localProdPvt = r.localProdPvt)
    (hcons : r'.consEvent = r.consEvent) (hev : r'.sendEvent = r.sendEvent) : Waiting r' nr c := by
  refine ⟨hq, h.lt, hcons.trans h.event, ?_, ?_⟩
  · unfold Ring.space
    rw [hsize, hpvt]
    exact h.short
  · unfold ProducerTold
    rw [e.cons, e.cpc, e.localCons, hcons, hev]
    exact h.told

/-- A step of the producer leaves the consumer's part alone. -/
theorem Wakes.ofProd (h : Wakes r) (e : SameCons r r') (hpvt : r'.localProdPvt < 4294967296)
    (hprod : r'.prod < 4294967296) (hlocal : r'.localProd = r'.prod)
    (hchecks : ProdChecks r' r'.ppc) (htold : Parked r → ConsumerTold r')
    (hwait : ∀ nr, r'.prepStatus = .retry nr → ∃ c, Waiting r' nr c) : Wakes r' where
  prodPvt_lt := hpvt
  consPvt_lt := by rw [e.localConsPvt]; exact h.consPvt_lt
  prod_lt := hprod
  cons_lt := by rw [e.cons]; exact h.cons_lt
  localProd := hlocal
  localCons := by rw [e.localCons, e.cons]; exact h.localCons
  spins := by rw [e.consumerSpinning, e.cpc]; exact h.spins
  prodChecks := hchecks
  consChecks := by
    have := h.consChecks
    rw [e.cpc]
    unfold ConsChecks at this ⊢
    rw [e.localConsPvt, e.prodEvent]
    exact this
  parked := fun hg => by
    have hp := h.parked (e.getStatus ▸ hg)
    exact ⟨e.cpc.trans hp.idle, by rw [e.prodEvent, e.localConsPvt]; exact hp.event, htold hp⟩
  waiting := hwait

theorem Wakes.busy (h : Wakes r) (hq : ¬ Quiet r.ppc) (nr : Nat) : r.prepStatus ≠ .retry nr :=
  fun hr => absurd (h.waiting nr hr).choose_spec.quiet hq

/-- A step of such a call that neither moves the producer's indices nor answers. -/
theorem Wakes.plainProd (h : Wakes r) (e : SameCons r r') (hq : ¬ Quiet r.ppc) (hne : NotTelling r.ppc)
    (hpvt : r'.localProdPvt = r.localProdPvt) (hprod : r'.prod = r.prod)
    (hlocal : r'.localProd = r.localProd) (hev : r'.receiveEvent = r.receiveEvent)
    (hprep : r'.prepStatus = r.prepStatus) (hchecks : ProdChecks r' r'.ppc) : Wakes r' :=
  h.ofProd e (hpvt ▸ h.prodPvt_lt) (hprod ▸ h.prod_lt) (by rw [hlocal, hprod]; exact h.localProd) hchecks
    (fun hp => hp.told.pass hne e hprod (hev.trans ·)) fun nr hr => absurd (hprep ▸ hr) (h.busy hq nr)

/-- The producer still waits after a step of a flush. -/
theorem Wakes.waitOn {nr : Nat} (h : Wakes r) (e : SameCons r r') (hr : r.prepStatus = .retry nr)
    (hq : Quiet r.ppc → Quiet r'.ppc) (hsize : r'.payloadBytes = r.payloadBytes)
    (hpvt : r'.localProdPvt = r.localProdPvt) (hcons : r'.consEvent = r.consEvent)
    (hev : r'.sendEvent = r.sendEvent) : ∃ c, Waiting r' nr c := by
  obtain ⟨c, hw⟩ := h.waiting nr hr
  exact ⟨c, hw.pass e (hq hw.quiet) hsize hpvt hcons hev⟩

/-- Laying a message touches the private index, the payload and nothing else. -/
theorem putMessage_keeps (r : Ring) (c : Call) : (r.putMessage c).prod = r.prod ∧
    (r.putMessage c).localProd = r.localProd ∧ (r.putMessage c).receiveEvent = r.receiveEvent ∧
    (r.putMessage c).prepStatus = r.prepStatus := by
  simp only [Ring.putMessage, avoidRingWrap, putHdr, sendPad]
  split <;> exact ⟨rfl, rfl, rfl, rfl⟩

theorem Wakes.prodStep (h : Wakes r) (hs : r.prodStep = some r') : Wakes r' := by
  have e := prodStep_sameCons hs
  unfold Ring.prodStep at hs
  cases hpc : r.ppc with
  | idle => simp [hpc] at hs
  | readActive c =>
    simp only [hpc, Option.some.injEq] at hs
    subst hs
    refine h.plainProd e (by simp [hpc, Quiet]) (by simp [hpc, NotTelling]) rfl rfl rfl rfl rfl ?_
    split <;> trivial
  | flushProd k =>
    simp only [hpc, Option.some.injEq] at hs
    subst hs
    refine h.ofProd e h.prodPvt_lt h.prodPvt_lt rfl trivial (fun hp => ?_) fun nr hr => ?_
    · rcases hp.told with hd | hd | ⟨old, k', hd, -⟩ | ⟨k', hd⟩
      · by_cases hnew : r.localProdPvt = r.localConsPvt
        · exact .inl hnew
        · -- the index leaves the place the consumer asked about
          refine .inr (.inr (.inl ⟨_, k, rfl, ?_⟩))
          show crosses r.prodEvent r.localProd r.localProdPvt = true
          rw [hp.event, h.localProd, hd]
          exact crosses_of_ne hnew h.consPvt_lt h.prodPvt_lt
      · exact .inr (.inl hd)
      · simp [hpc] at hd
      · simp [hpc] at hd
    · refine h.waitOn e hr (fun hq => ?_) rfl rfl rfl rfl
      rw [hpc] at hq
      cases k <;> exact hq
  | flushEvent old k =>
    simp only [hpc, Option.some.injEq] at hs
    subst hs
    refine h.ofProd e h.prodPvt_lt h.prod_lt h.localProd ?_ (fun hp => ?_) fun nr hr => ?_
    · split
      · trivial
      · cases k <;> trivial
    · rcases hp.told with hd | hd | ⟨old', k', hd, hx⟩ | ⟨k', hd⟩
      · exact .inl hd
      · exact .inr (.inl hd)
      · rw [hpc] at hd
        cases hd
        exact .inr (.inr (.inr ⟨k, if_pos hx⟩))
      · simp [hpc] at hd
    · refine h.waitOn e hr (fun hq => ?_) rfl rfl rfl rfl
      rw [hpc] at hq
      cases k
      · split <;> trivial
      · exact hq.elim
  | flushSpinning k =>
    simp only [hpc, Option.some.injEq] at hs
    subst hs
    refine h.ofProd e h.prodPvt_lt h.prod_lt h.localProd ?_ (fun hp => ?_) fun nr hr => ?_
    · split
      · trivial
      · cases k <;> trivial
    · -- a parked consumer does not spin
      have hspin : r.consumerSpinning = false := by
        cases hsp : r.consumerSpinning
        · rfl
        · have := h.spins hsp
          rw [hp.idle] at this
          exact this.elim
      exact .inr (.inl (by simp [hspin]))
    · refine h.waitOn e hr (fun hq => ?_) rfl rfl rfl rfl
      rw [hpc] at hq
      cases k
      · split <;> trivial
      · exact hq.elim
  | flushClear k =>
    simp only [hpc, Option.some.injEq] at hs
    subst hs
    refine h.ofProd e h.prodPvt_lt h.prod_lt h.localProd ?_ (fun hp => hp.told.pass ?_ e rfl id)
      fun nr hr => ?_
    · cases k <;> trivial
    · simp [hpc, NotTelling]
    · refine h.waitOn e hr (fun hq => ?_) rfl rfl rfl rfl
      rw [hpc] at hq
      cases k <;> trivial
  | canSend c again =>
    simp only [hpc, Option.some.injEq] at hs
    have hne : NotTelling r.ppc := by simp [hpc, NotTelling]
    have hq : ¬ Quiet r.ppc := by simp [hpc, Quiet]
    split at hs
    · subst hs
      exact h.plainProd e hq hne rfl rfl rfl rfl rfl trivial
    · split at hs <;> subst hs <;>
        exact h.plainProd e hq hne rfl rfl rfl rfl rfl trivial
  | readCons c again nr =>
    simp only [hpc, Option.some.injEq] at hs
    have hne : NotTelling r.ppc := by simp [hpc, NotTelling]
    have hq : ¬ Quiet r.ppc := by simp [hpc, Quiet]
    split at hs
    · subst hs
      exact h.plainProd e hq hne rfl rfl rfl rfl rfl trivial
    · next hlt =>
      subst hs
      exact h.plainProd e hq hne rfl rfl rfl rfl rfl ⟨h.cons_lt, Nat.lt_of_not_le hlt⟩
  | setConsEvent c again nr cons =>
    simp only [hpc, Option.some.injEq] at hs
    have hchecks := h.prodChecks
    rw [hpc] at hchecks
    subst hs
    exact h.plainProd e (by simp [hpc, Quiet]) (by simp [hpc, NotTelling]) rfl rfl rfl rfl rfl
      ⟨hchecks.1, hchecks.2, rfl⟩
  | recheckCons c again nr cons =>
    simp only [hpc, Option.some.injEq] at hs
    have hne : NotTelling r.ppc := by simp [hpc, NotTelling]
    have hq : ¬ Quiet r.ppc := by simp [hpc, Quiet]
    have hchecks := h.prodChecks
    rw [hpc] at hchecks
    obtain ⟨h1, h2, h3⟩ := hchecks
    split at hs
    · subst hs
      exact h.plainProd e hq hne rfl rfl rfl rfl rfl trivial
    · next hcons =>
      split at hs
      · subst hs
        refine h.ofProd e h.prodPvt_lt h.prod_lt h.localProd trivial (·.told.pass hne e rfl id)
          fun nr' hr => ?_
        cases hr
        exact ⟨cons, trivial, h1, h3, h2, .inl (not_not.mp hcons).symm⟩
      · subst hs
        exact h.plainProd e hq hne rfl rfl rfl rfl rfl trivial
  | resetSend c =>
    simp only [hpc, Option.some.injEq] at hs
    subst hs
    exact h.plainProd e (by simp [hpc, Quiet]) (by simp [hpc, NotTelling]) rfl rfl rfl rfl rfl trivial
  | fill c =>
    simp only [hpc, Option.some.injEq] at hs
    have hput := putMessage_keeps r c
    subst hs
    obtain ⟨e1, e2, e3, e4⟩ := hput
    refine h.ofProd e (Nat.mod_lt _ (by decide)) (e1 ▸ h.prod_lt) ?_ trivial
      (·.told.pass (by simp [hpc, NotTelling]) e e1 (e3 ▸ id)) fun nr hr => ?_
    · exact e2.trans (h.localProd.trans e1.symm)
    · exact absurd (e4 ▸ hr) (h.busy (by simp [hpc, Quiet]) nr)
  | postActive | postEvent =>
    simp only [hpc, Option.some.injEq] at hs
    have hne : NotTelling r.ppc := by simp [hpc, NotTelling]
    have hq : ¬ Quiet r.ppc := by simp [hpc, Quiet]
    split at hs
    · subst hs
      exact h.plainProd e hq hne rfl rfl rfl rfl rfl trivial
    · subst hs
      exact h.ofProd e h.prodPvt_lt h.prod_lt h.localProd trivial (·.told.pass hne e rfl id)
        fun nr hr => by cases hr
  | postNotify =>
    simp only [hpc, Option.some.injEq] at hs
    subst hs
    exact h.ofProd e h.prodPvt_lt h.prod_lt h.localProd trivial (fun _ => .inr (.inl rfl))
      fun nr hr => by cases hr

theorem Wakes.ofCons (h : Wakes r) (e : SameProd r r') (hpvt : r'.localConsPvt < 4294967296)
    (hcons : r'.cons < 4294967296) (hlocal : r'.localCons = r'.cons)
    (hspins : r'.consumerSpinning = true → Spins r'.cpc) (hchecks : ConsChecks r' r'.cpc)
    (hparked : r'.getStatus = .noMoreEntries → Parked r')
    (htold : ∀ nr c, Waiting r nr c → ProducerTold r' c) : Wakes r' where
  prodPvt_lt := by rw [e.localProdPvt]; exact h.prodPvt_lt
  consPvt_lt := hpvt
  prod_lt := by rw [e.prod]; exact h.prod_lt
  cons_lt := hcons
  localProd := by rw [e.localProd, e.prod]; exact h.localProd
  localCons := hlocal
  spins := hspins
  prodChecks := by
    have := h.prodChecks
    rw [e.ppc]
    unfold ProdChecks Ring.space at this ⊢
    rw [e.payloadBytes, e.localProdPvt, e.consEvent]
    exact this
  consChecks := hchecks
  parked := hparked
  waiting := fun nr hr => by
    obtain ⟨c, hw⟩ := h.waiting nr (e.prepStatus ▸ hr)
    refine ⟨c, e.ppc ▸ hw.quiet, hw.lt, e.consEvent.trans hw.event, ?_, htold nr c hw⟩
    have := hw.short
    unfold Ring.space at this ⊢
    rw [e.payloadBytes, e.localProdPvt]
    exact this

theorem ProducerTold.pass {c : Nat} (h : ProducerTold r c) (hpc : ∀ old, r.cpc ≠ .finishEvent old)
    (hcons : r'.cons = r.cons) (hev : r'.sendEvent = r.sendEvent) : ProducerTold r' c := by
  rcases h with h | h | ⟨old, h, -⟩
  · exact .inl (hcons.trans h)
  · exact .inr (.inl (hev.trans h))
  · exact absurd h (hpc old)

/-- A step of a call that neither moves the consumer's indices nor answers. -/
theorem Wakes.plainCons (h : Wakes r) (e : SameProd r r') (hidle : r.cpc ≠ .idle)
    (hfin : ∀ old, r.cpc ≠ .finishEvent old) (hpvt : r'.localConsPvt = r.localConsPvt)
    (hcons : r'.cons = r.cons) (hlocal : r'.localCons = r.localCons)
    (hev : r'.sendEvent = r.sendEvent) (hget : r'.getStatus = r.getStatus)
    (hspins : r'.consumerSpinning = true → Spins r'.cpc) (hchecks : ConsChecks r' r'.cpc) :
    Wakes r' :=
  h.ofCons e (hpvt ▸ h.consPvt_lt) (hcons ▸ h.cons_lt) (by rw [hlocal, hcons]; exact h.localCons)
    hspins hchecks (fun hg => absurd (h.parked (hget ▸ hg)).idle hidle)
    fun _ _ hw => hw.told.pass hfin hcons hev

/-- Reading a header moves the private index at most. -/
theorem readHdr_keeps (r : Ring) (n : Nat) : (r.readHdr n).cons = r.cons ∧
    (r.readHdr n).localCons = r.localCons ∧ (r.readHdr n).sendEvent = r.sendEvent ∧
    (r.readHdr n).consumerSpinning = r.consumerSpinning ∧
    ((r.readHdr n).localConsPvt = r.localConsPvt ∨ (r.readHdr n).localConsPvt < 4294967296) ∧
    ((r.readHdr n).getStatus = .noMoreEntries → r.getStatus = .noMoreEntries) ∧
    ((r.readHdr n).cpc = .idle ∨ (r.readHdr n).cpc = .held ∨ (r.readHdr n).cpc = .readProd n) := by
  unfold Ring.readHdr
  simp only
  split
  · simp
  · split
    · simp
    · split
      · exact ⟨rfl, rfl, rfl, rfl, .inr (Nat.mod_lt _ (by decide)), id, .inr (.inr rfl)⟩
      · simp

theorem Wakes.consStep (h : Wakes r) (hs : r.consStep = some r') : Wakes r' := by
  have e := consStep_sameProd hs
  have hchecks := h.consChecks
  have hspins := h.spins
  unfold Ring.consStep at hs
  cases hpc : r.cpc with
  | idle | held => simp [hpc] at hs
  | readProd n =>
    simp only [hpc, Option.some.injEq] at hs hspins
    subst hs
    refine h.plainCons e (by simp [hpc]) (by simp [hpc]) rfl rfl rfl rfl rfl
      (fun hsp => (hspins hsp).elim) ?_
    split
    · next heq => exact heq
    · trivial
  | readActive n p =>
    simp only [hpc, Option.some.injEq] at hs hspins hchecks
    subst hs
    refine h.plainCons e (by simp [hpc]) (by simp [hpc]) rfl rfl rfl rfl rfl
      (fun hsp => (hspins hsp).elim) ?_
    split
    · trivial
    · exact hchecks
  | setSpinning n =>
    simp only [hpc, Option.some.injEq] at hs
    subst hs
    exact h.plainCons e (by simp [hpc]) (by simp [hpc]) rfl rfl rfl rfl rfl (fun _ => trivial) trivial
  | spin n =>
    simp only [hpc, Option.some.injEq] at hs
    subst hs
    refine h.plainCons e (by simp [hpc]) (by simp [hpc]) rfl rfl rfl rfl rfl (fun _ => ?_) ?_
    · split
      · trivial
      · split <;> trivial
    · split
      · trivial
      · split <;> trivial
  | clearSpinning n =>
    simp only [hpc, Option.some.injEq] at hs
    subst hs
    exact h.plainCons e (by simp [hpc]) (by simp [hpc]) rfl rfl rfl rfl rfl (fun hsp => by cases hsp)
      trivial
  | resetReceive n p =>
    simp only [hpc, Option.some.injEq] at hs hspins hchecks
    subst hs
    exact h.plainCons e (by simp [hpc]) (by simp [hpc]) rfl rfl rfl rfl rfl
      (fun hsp => (hspins hsp).elim) hchecks
  | finalCheck n p =>
    simp only [hpc, Option.some.injEq] at hs hspins hchecks
    subst hs
    refine h.plainCons e (by simp [hpc]) (by simp [hpc]) rfl rfl rfl rfl rfl
      (fun hsp => (hspins hsp).elim) ?_
    split
    · trivial
    · exact hchecks
  | setProdEvent n p =>
    simp only [hpc, Option.some.injEq] at hs hspins hchecks
    subst hs
    exact h.plainCons e (by simp [hpc]) (by simp [hpc]) rfl rfl rfl rfl rfl
      (fun hsp => (hspins hsp).elim) ⟨hchecks, rfl⟩
  | recheckProd n p =>
    simp only [hpc, Option.some.injEq] at hs hspins hchecks
    obtain ⟨hp, hev⟩ := hchecks
    split at hs
    · subst hs
      exact h.plainCons e (by simp [hpc]) (by simp [hpc]) rfl rfl rfl rfl rfl
        (fun hsp => (hspins hsp).elim) trivial
    · next heq =>
      subst hs
      refine h.ofCons e h.consPvt_lt h.cons_lt h.localCons (fun hsp => (hspins hsp).elim) trivial
        (fun _ => ⟨rfl, by rw [← hp]; exact hev, .inl ?_⟩)
        fun _ _ hw => hw.told.pass (by simp [hpc]) rfl rfl
      show r.prod = r.localConsPvt
      rw [← hp]
      exact (not_not.mp heq).symm
  | setReceive n =>
    simp only [hpc, Option.some.injEq] at hs hspins
    subst hs
    exact h.plainCons e (by simp [hpc]) (by simp [hpc]) rfl rfl rfl rfl rfl
      (fun hsp => (hspins hsp).elim) trivial
  | readHdr n =>
    simp only [hpc, Option.some.injEq] at hs hspins
    subst hs
    obtain ⟨e1, e2, e3, e4, e5, e6, e7⟩ := readHdr_keeps r n
    refine h.ofCons e ?_ (e1 ▸ h.cons_lt) (by rw [e1, e2]; exact h.localCons)
      (fun hsp => (hspins (e4 ▸ hsp)).elim) ?_ (fun hg => ?_)
      fun _ _ hw => hw.told.pass (by simp [hpc]) e1 e3
    · rcases e5 with e5 | e5
      · rw [e5]; exact h.consPvt_lt
      · exact e5
    · rcases e7 with e7 | e7 | e7 <;> rw [e7] <;> trivial
    · have := (h.parked (e6 hg)).idle
      simp [hpc] at this
  | finishCons =>
    simp only [hpc, Option.some.injEq] at hs hspins
    subst hs
    refine h.ofCons e h.consPvt_lt h.consPvt_lt rfl (fun hsp => (hspins hsp).elim) trivial
      (fun hg => ?_) fun nr c hw => ?_
    · have := (h.parked hg).idle
      simp [hpc] at this
    · rcases hw.told with hd | hd | ⟨old, hd, -⟩
      · by_cases hnew : r.localConsPvt = c
        · exact .inl hnew
        · -- the index leaves the place the producer asked about
          refine .inr (.inr ⟨_, rfl, ?_⟩)
          show crosses r.consEvent r.localCons r.localConsPvt = true
          rw [hw.event, h.localCons, hd]
          exact crosses_of_ne hnew hw.lt h.consPvt_lt
      · exact .inr (.inl hd)
      · simp [hpc] at hd
  | finishEvent old =>
    simp only [hpc, Option.some.injEq] at hs hspins
    subst hs
    refine h.ofCons e h.consPvt_lt h.cons_lt h.localCons (fun hsp => (hspins hsp).elim) trivial
      (fun hg => ?_) fun nr c hw => ?_
    · have := (h.parked hg).idle
      simp [hpc] at this
    · rcases hw.told with hd | hd | ⟨old', hd, hx⟩
      · exact .inl hd
      · exact .inr (.inl (by simp [hd]))
      · rw [hpc] at hd
        cases hd
        exact .inr (.inl (by simp [hx]))

theorem Wakes.step {a : RingAct} (h : Wakes r) (hs : ringStep r a = some r') : Wakes r' := by
  cases a with
  | prep msgSize type flags =>
    obtain ⟨hi, hs⟩ := Option.ite_none_right_eq_some.mp hs
    simp only [Option.some.injEq] at hs
    subst hs
    have e := prepMessage_sameCons (r := r) msgSize type flags
    have hne : NotTelling r.ppc := by simp [hi, NotTelling]
    have hk : (r.prepMessage msgSize type flags).localProdPvt = r.localProdPvt ∧
        (r.prepMessage msgSize type flags).prod = r.prod ∧
        (r.prepMessage msgSize type flags).localProd = r.localProd ∧
        (r.prepMessage msgSize type flags).receiveEvent = r.receiveEvent ∧
        ProdChecks (r.prepMessage msgSize type flags) (r.prepMessage msgSize type flags).ppc ∧
        ∀ nr, (r.prepMessage msgSize type flags).prepStatus ≠ .retry nr := by
      unfold Ring.prepMessage
      simp only
      split <;> (try split) <;> simp [ProdChecks, hi]
    obtain ⟨e1, e2, e3, e4, e5, e6⟩ := hk
    exact h.ofProd e (e1 ▸ h.prodPvt_lt) (e2 ▸ h.prod_lt) (by rw [e3, e2]; exact h.localProd) e5
      (·.told.pass hne e e2 (e4 ▸ id)) fun nr hr => absurd hr (e6 nr)
  | write i off xs =>
    obtain ⟨hi, hs⟩ := Option.ite_none_right_eq_some.mp hs
    have e := writePayload_sameCons hs
    obtain ⟨q, -, hs⟩ := Option.bind_eq_some_iff.mp hs
    split at hs
    · simp only [Option.some.injEq] at hs
      subst hs
      refine h.ofProd e h.prodPvt_lt h.prod_lt h.localProd (by simp only [hi]; trivial)
        (·.told.pass (by simp [hi, NotTelling]) e rfl id) fun nr hr => ?_
      obtain ⟨c, hw⟩ := h.waiting nr hr
      exact ⟨c, hw.pass e hw.quiet rfl rfl rfl rfl⟩
    · cases hs
  | send =>
    obtain ⟨hi, hs⟩ := Option.ite_none_right_eq_some.mp hs
    simp only [Option.some.injEq] at hs
    subst hs
    have e : SameCons r { r with ppc := .flushProd none } := by constructor <;> rfl
    refine h.ofProd e h.prodPvt_lt h.prod_lt h.localProd trivial
      (·.told.pass (by simp [hi, NotTelling]) e rfl id) fun nr hr => ?_
    obtain ⟨c, hw⟩ := h.waiting nr hr
    exact ⟨c, hw.pass e trivial rfl rfl rfl rfl⟩
  | producer => exact h.prodStep hs
  | get =>
    obtain ⟨hi, hs⟩ := Option.ite_none_right_eq_some.mp hs
    simp only [Option.some.injEq] at hs
    subst hs
    have hspins := h.spins
    simp only [hi] at hspins
    exact h.ofCons (by constructor <;> rfl) h.consPvt_lt h.cons_lt h.localCons
      (fun hsp => (hspins hsp).elim) trivial (fun hg => by cases hg)
      fun _ _ hw => hw.told.pass (by simp [hi]) rfl rfl
  | finish =>
    obtain ⟨hi, hs⟩ := Option.ite_none_right_eq_some.mp hs
    simp only [Option.some.injEq] at hs
    subst hs
    have hspins := h.spins
    simp only [hi] at hspins
    refine h.ofCons (by constructor <;> rfl) (Nat.mod_lt _ (by decide)) h.cons_lt h.localCons
      (fun hsp => (hspins hsp).elim) trivial (fun hg => ?_)
      fun _ _ hw => hw.told.pass (by simp [hi]) rfl rfl
    have := (h.parked hg).idle
    simp [hi] at this
  | fastReceive on =>
    obtain ⟨hi, hs⟩ := Option.ite_none_right_eq_some.mp hs
    simp only [Option.some.injEq] at hs
    subst hs
    refine h.ofCons (by constructor <;> rfl) h.consPvt_lt h.cons_lt h.localCons h.spins h.consChecks
      (fun hg => ⟨(h.parked hg).idle, (h.parked hg).event, (h.parked hg).told⟩)
      fun _ _ hw => hw.told
  | consumer => exact h.consStep hs

theorem wakes_of_reach {order : Nat} (h : (ringMachine order).Reach Machine.Any r) : Wakes r :=
  h.inv (wakes_attach order) fun _ _ _ hi _ hs => hi.step hs

/-- While a side waits and was not told since it asked, the other side's next move tells it, and
neither side rests before. -/
structure NoLostWakeup (r : Ring) : Prop where
  /-- `nc2_flush_ring` answers 1 and `v2v_nc2_send_messages` does not take it back. -/
  flush : r.getStatus = .noMoreEntries → r.receiveEvent = false → r.prod ≠ r.localConsPvt →
    ∀ old k, r.ppc = .flushEvent old k →
      crosses r.prodEvent old r.localProd = true ∧ r.consumerSpinning = false
  /-- `nc2_finish_messages` answers 1 once `cons` has left the index the producer set its event
  behind. -/
  finish : ∀ nr, r.prepStatus = .retry nr → r.sendEvent = false → r.consEvent ≠ u32 (r.cons + 1) →
    ∀ old, r.cpc = .finishEvent old → crosses r.consEvent old r.localCons = true
  data : r.getStatus = .noMoreEntries → r.prod ≠ r.localConsPvt → r.ppc = .idle →
    r.receiveEvent = true
  space : ∀ nr, r.prepStatus = .retry nr → nr ≤ r.space r.cons → r.ppc = .idle →
    r.cpc = .idle ∨ r.cpc = .held → r.sendEvent = true

theorem Wakes.noLostWakeup (h : Wakes r) : NoLostWakeup r where
  flush hg hev hne old k hpc := by
    have hp := h.parked hg
    have hspin : r.consumerSpinning ≠ true := fun hsp => by
      have := h.spins hsp
      rw [hp.idle] at this
      exact this
    refine ⟨?_, by simpa using hspin⟩
    rcases hp.told with hd | hd | ⟨old', k', hd, hx⟩ | ⟨k', hd⟩
    · exact absurd hd hne
    · simp [hev] at hd
    · rw [hpc] at hd
      cases hd
      exact hx
    · simp [hpc] at hd
  finish nr hr hev hne old hpc := by
    obtain ⟨c, hw⟩ := h.waiting nr hr
    rcases hw.told with hd | hd | ⟨old', hd, hx⟩
    · exact absurd (by rw [hw.event, hd]) hne
    · simp [hev] at hd
    · rw [hpc] at hd
      cases hd
      exact hx
  data hg hne hpc := by
    rcases (h.parked hg).told with hd | hd | ⟨old', k', hd, -⟩ | ⟨k', hd⟩
    · exact absurd hd hne
    · exact hd
    · simp [hpc] at hd
    · simp [hpc] at hd
  space nr hr hle hpc hcpc := by
    obtain ⟨c, hw⟩ := h.waiting nr hr
    rcases hw.told with hd | hd | ⟨old', hd, -⟩
    · have := hw.short
      rw [← hd] at this
      omega
    · exact hd
    · rcases hcpc with hc | hc <;> simp [hc] at hd

end Steps

/-- No interleaving of the two ends loses a wakeup, in either direction. -/
theorem no_lost_wakeup {order : Side → Nat} {s : Side → Ring}
    (h : (channelMachine order).Reach Machine.Any s) (x : Side) : NoLostWakeup (s x) :=
  (wakes_of_reach (h.projAny x)).noLostWakeup

/-- A consumer finds the ring empty, and the producer flushes two messages one after the other. -/
def twoFlushes : List RingAct :=
  List.flatten [[.get], .replicate 6 .consumer, [.prep 4 1 0], .replicate 5 .producer, [.send],
    .replicate 3 .producer, [.prep 4 1 0], .replicate 4 .producer, [.send, .producer]]

/-- A ring with a small and a large message; the producer asks for space for another large one and
the consumer finishes both. -/
def twoFinishes : List RingAct :=
  List.flatten [[.prep 4 1 0], .replicate 5 .producer, [.prep 4000 1 0], .replicate 5 .producer,
    [.send], .replicate 3 .producer, [.prep 4000 1 0], .replicate 10 .producer,
    [.get], .replicate 2 .consumer, [.finish], .replicate 2 .consumer,
    [.get], .replicate 2 .consumer, [.finish, .consumer]]

/-- Only the first flush after `STATUS_NO_MORE_ENTRIES` notifies, and only the first finish after
`STATUS_RETRY`: here the second is the one that leaves the space asked for, and nothing is left to
finish. -/
theorem wakeup_once : (∃ s, (channelMachine fun _ => 0).Reach Machine.Any s ∧
      (s .temple).getStatus = .noMoreEntries ∧ (s .temple).ppc = .flushEvent 8 none ∧
      (s .temple).prod = 16 ∧ crosses (s .temple).prodEvent 8 (s .temple).localProd = false) ∧
    ∃ s, (channelMachine fun _ => 0).Reach Machine.Any s ∧ (s .temple).prepStatus = .retry 4088 ∧
      (s .temple).cpc = .finishEvent 8 ∧ (s .temple).space 8 < 4088 ∧
      4088 ≤ (s .temple).space (s .temple).cons ∧ (s .temple).prod = (s .temple).localConsPvt ∧
      crosses (s .temple).consEvent 8 (s .temple).localCons = false := by
  constructor
  · obtain ⟨s, hr, hs⟩ := Machine.exists_reach (channelMachine fun _ => 0) Machine.Any
      (fun s => (s .temple).getStatus = .noMoreEntries ∧ (s .temple).ppc = .flushEvent 8 none ∧
        (s .temple).prod = 16 ∧ crosses (s .temple).prodEvent 8 (s .temple).localProd = false)
      (twoFlushes.map (Prod.mk .temple)) (by decide +kernel)
    exact ⟨s, hr, by simpa only [decide_eq_true_eq] using hs⟩
  · obtain ⟨s, hr, hs⟩ := Machine.exists_reach (channelMachine fun _ => 0) Machine.Any
      (fun s => (s .temple).prepStatus = .retry 4088 ∧ (s .temple).cpc = .finishEvent 8 ∧
        (s .temple).space 8 < 4088 ∧ 4088 ≤ (s .temple).space (s .temple).cons ∧
        (s .temple).prod = (s .temple).localConsPvt ∧
        crosses (s .temple).consEvent 8 (s .temple).localCons = false)
      (twoFinishes.map (Prod.mk .temple)) (by decide +kernel)
    exact ⟨s, hr, by simpa only [decide_eq_true_eq] using hs⟩

/-- A parked consumer at the first flush. -/
theorem no_lost_wakeup_run : ∃ s, (channelMachine fun _ => 0).Reach Machine.Any s ∧
    ((s .temple).getStatus = .noMoreEntries ∧ (s .temple).prod = 8 ∧ (s .temple).localConsPvt = 0 ∧
      (s .temple).ppc = .flushEvent 0 none) ∧ NoLostWakeup (s .temple) := by
  obtain ⟨s, hr, hs⟩ := Machine.exists_reach (channelMachine fun _ => 0) Machine.Any
    (fun s => (s .temple).getStatus = .noMoreEntries ∧ (s .temple).prod = 8 ∧
      (s .temple).localConsPvt = 0 ∧ (s .temple).ppc = .flushEvent 0 none)
    ((twoFlushes.take 15).map (Prod.mk .temple)) (by decide +kernel)
  exact ⟨s, hr, by simpa only [decide_eq_true_eq] using hs, no_lost_wakeup hr .temple⟩

end XcWindows.V2v
