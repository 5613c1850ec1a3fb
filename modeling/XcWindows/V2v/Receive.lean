import XcWindows.V2v.Fifo

/-!
# Receiving from a peer that can write anything

The consumer of a v2v ring reads a header and the producer's index from memory that the other
domain maps too. `peerMachine` is the consumer beside a peer that rewrites all of it at any time:
the fields of a header are read one by one, each with whatever value the peer has put there by
then. `Out` is what `v2v_nc2_get_message` hands to its caller. The second half fixes the memory
and asks whether the loop over padding comes to an end; `Stuck` is the layout of padding on which
it does not.
-/

namespace XcWindows.V2v

open Lib

/-! ## A peer that rewrites the ring -/

/-- The values `v2v_nc2_get_message` reads from a header, in its order. -/
structure HdrReads where
  size : UInt16
  type : UInt8
  typeAgain : UInt8
  flags : UInt8

/-- What a success returns: `*msg` as an offset of the ring, `*out_size`, `*type` and `*flags`. -/
structure Out where
  msg : Nat
  outSize : Nat
  type : UInt8
  flags : UInt8
deriving DecidableEq

/-- `Ring.readHdr` with a header that changes from one read to the next. -/
def Ring.readHdrFrom (r : Ring) (n : Nat) (h : HdrReads) : Ring × Option Out :=
  let a := r.incomingMessage
  let size := h.size.toNat
  if !r.containedInConsRing a hdrSize then ({ r with getStatus := .dataError, cpc := .idle }, none)
  else if size < hdrSize || !r.containedInConsRing a size then
    ({ r with getStatus := .dataError, cpc := .idle }, none)
  else if h.type = msgPad then
    ({ r with localConsPvt := u32 (r.localConsPvt + size), cpc := .readProd n }, none)
  else
    ({ r with
      currentMessageSize := size - hdrSize
      got := r.got ++ [⟨h.typeAgain, h.flags, bytes r.payload (a + hdrSize) (size - hdrSize)⟩]
      getStatus := .success
      cpc := .held }, some ⟨a + hdrSize, size - hdrSize, h.typeAgain, h.flags⟩)

/-- The consumer's end of a ring, with all that its calls have returned. -/
structure Receiver where
  ring : Ring
  outs : List Out

/-- The consumer calls a function or goes on in it; the peer stores to the control page and the
payload. -/
inductive PeerAct where
  | get
  | finish
  | fastReceive (on : Bool)
  | consumer
  | header (h : HdrReads)
  | peer (prod consEvent : UInt32) (producerActive : Bool) (payload : Nat → UInt8)

def peerStep (s : Receiver) : PeerAct → Option Receiver
  | .get => (ringStep s.ring .get).map fun r => { s with ring := r }
  | .finish => (ringStep s.ring .finish).map fun r => { s with ring := r }
  | .fastReceive on => (ringStep s.ring (.fastReceive on)).map fun r => { s with ring := r }
  | .consumer =>
    match s.ring.cpc with
    | .readHdr _ => none
    | _ => s.ring.consStep.map fun r => { s with ring := r }
  | .header h =>
    match s.ring.cpc with
    | .readHdr n =>
      let (r, o) := s.ring.readHdrFrom n h
      some ⟨r, s.outs ++ o.toList⟩
    | _ => none
  | .peer prod consEvent producerActive payload =>
    some { s with
      ring := { s.ring with
        prod := prod.toNat, consEvent := consEvent.toNat, producerActive, payload } }

def peerMachine (order : Nat) : Machine Receiver PeerAct := ⟨⟨attachRings order, []⟩, peerStep⟩

/-- The region lies in a ring of `R` bytes. -/
def Out.Inside (o : Out) (R : Nat) : Prop := o.msg + o.outSize ≤ R

section Containment

variable {r r' : Ring} {s t : Receiver} {R : Nat}

theorem readHdrFrom_inside {n : Nat} {h : HdrReads} {o : Out}
    (ho : (r.readHdrFrom n h).2 = some o) : o.Inside r.payloadBytes := by
  unfold Ring.readHdrFrom at ho
  simp only at ho
  split at ho
  · cases ho
  split at ho
  · cases ho
  next hsize =>
  split at ho
  · cases ho
  cases ho
  simp only [Ring.containedInConsRing, Bool.or_eq_true, decide_eq_true_eq, Bool.not_eq_true',
    Bool.and_eq_false_iff, decide_eq_false_iff_not, not_or, Nat.not_lt, Nat.not_le] at hsize
  simp only [Out.Inside]
  omega

theorem readHdrFrom_payloadBytes (n : Nat) (h : HdrReads) :
    (r.readHdrFrom n h).1.payloadBytes = r.payloadBytes := by
  unfold Ring.readHdrFrom
  simp only
  split <;> (try split) <;> (try split) <;> rfl

theorem readHdrFrom_got (n : Nat) (h : HdrReads) :
    (r.readHdrFrom n h).1.got.length = r.got.length + (r.readHdrFrom n h).2.toList.length := by
  unfold Ring.readHdrFrom
  simp only
  split
  · rfl
  split
  · rfl
  split
  · rfl
  · simp

theorem consStep_got (hpc : ∀ n, r.cpc ≠ .readHdr n) (h : r.consStep = some r') : r'.got = r.got := by
  unfold Ring.consStep at h
  cases hc : r.cpc with
  | idle | held => simp only [hc, reduceCtorEq] at h
  | readHdr n => exact absurd hc (hpc n)
  | _ =>
    simp only [hc, Option.some.injEq] at h
    (try split at h) <;> subst h <;> rfl

/-- The size of the ring is fixed, every message given out has its region, and all regions lie
inside the ring. -/
structure Contained (R : Nat) (s : Receiver) : Prop where
  size : s.ring.payloadBytes = R
  outs : ∀ o ∈ s.outs, o.Inside R
  got : s.outs.length = s.ring.got.length

theorem Contained.ring (h : Contained R s) (e : r.payloadBytes = s.ring.payloadBytes)
    (eg : r.got = s.ring.got) : Contained R { s with ring := r } :=
  ⟨e.trans h.size, h.outs, h.got.trans (congrArg List.length eg.symm)⟩

theorem Contained.step {a : PeerAct} (h : Contained R s) (hs : peerStep s a = some t) :
    Contained R t := by
  cases a with
  | get | finish | fastReceive on =>
    obtain ⟨r, hr, rfl⟩ := Option.map_eq_some_iff.mp hs
    simp only [ringStep] at hr
    split at hr
    · cases hr; exact h.ring rfl rfl
    · cases hr
  | consumer =>
    simp only [peerStep] at hs
    split at hs
    · cases hs
    · next hpc =>
      obtain ⟨r, hr, rfl⟩ := Option.map_eq_some_iff.mp hs
      exact h.ring (consStep_sameProd hr).payloadBytes (consStep_got hpc hr)
  | header hd =>
    simp only [peerStep] at hs
    split at hs
    · next n hn =>
      cases hs
      refine ⟨(readHdrFrom_payloadBytes n hd).trans h.size, ?_, ?_⟩
      · intro o ho
        rcases List.mem_append.mp ho with ho | ho
        · exact h.outs o ho
        · have := readHdrFrom_inside (Option.mem_toList.mp ho)
          rwa [h.size] at this
      · rw [readHdrFrom_got, List.length_append, h.got]
    · cases hs
  | peer prod consEvent producerActive payload =>
    cases hs
    exact h.ring rfl rfl

end Containment

/-- Whatever the peer writes and whenever, each message given out lies inside the ring. -/
theorem get_message_contained {order : Nat} {s : Receiver}
    (h : (peerMachine order).Reach Machine.Any s) :
    s.outs.length = s.ring.got.length ∧ ∀ o ∈ s.outs, o.msg + o.outSize ≤ ringBytes order := by
  have hc : Contained (ringBytes order) s :=
    h.inv ⟨rfl, (fun _ ho => nomatch ho), rfl⟩ fun _ _ _ hs _ hst => hs.step hst
  exact ⟨hc.got, hc.outs⟩

/-- A peer that publishes a wild index and a message that ends with the ring. -/
def toTheEnd : List PeerAct :=
  [.get, .peer 4000000000 0 false (fun _ => 0), .consumer, .header ⟨4096, 7, 9, 1⟩]

theorem get_message_contained_end : ∃ s, (peerMachine 0).Reach Machine.Any s ∧
    s.outs = [⟨4, 4092, 9, 1⟩] ∧
    (s.outs.length = s.ring.got.length ∧ ∀ o ∈ s.outs, o.msg + o.outSize ≤ ringBytes 0) := by
  obtain ⟨s, hs, ho⟩ := Machine.exists_reach (peerMachine 0) Machine.Any
    (fun s => decide (s.outs = [⟨4, 4092, 9, 1⟩])) toTheEnd (by decide +kernel)
  exact ⟨s, hs, of_decide_eq_true ho, get_message_contained hs⟩

/-! ## The loop over padding -/

/-- The call came back with a message, `STATUS_NO_MORE_ENTRIES` or an error. -/
def Returned (r : Ring) : Prop :=
  r.cpc = .held ∧ r.getStatus = .success ∨
    r.cpc = .idle ∧ (r.getStatus = .noMoreEntries ∨ r.getStatus = .dataError)

/-- With the shared memory left as it is, the call comes back. -/
def GetReturns (r : Ring) : Prop := ∃ n t, consSteps n r = some t ∧ Returned t

/-- A padding message at offset `a` that passes the checks of the loop. -/
structure Pad (mem : Nat → UInt8) (R a : Nat) : Prop where
  header : a + hdrSize ≤ R
  size : hdrSize ≤ Ring.hdrSizeAt mem a
  inside : a + Ring.hdrSizeAt mem a ≤ R
  type : mem a = msgPad

/-- Padding one behind the other from an offset up to the end of the ring; the list has the offset
of each. -/
inductive Pads (mem : Nat → UInt8) (R : Nat) : Nat → List Nat → Prop where
  | nil : Pads mem R R []
  | cons {a : Nat} {l : List Nat} :
    Pad mem R a → Pads mem R (a + Ring.hdrSizeAt mem a) l → Pads mem R a (a :: l)

/-- Padding fills the rest of the consumer's turn and a whole turn, and the producer's index is the
start of none of it. -/
def Stuck (r : Ring) : Prop :=
  ∃ first turn, Pads r.payload r.payloadBytes r.incomingMessage first ∧
    Pads r.payload r.payloadBytes 0 turn ∧
    (∀ a ∈ first, u32 (r.localConsPvt + (a - r.incomingMessage)) ≠ r.prod) ∧
    ∀ a ∈ turn, r.prod % r.payloadBytes ≠ a

section Loop

variable {r r' : Ring} {n : Nat}

theorem GetReturns.of_step (h : r.consStep = some r') (hr : GetReturns r') : GetReturns r := by
  obtain ⟨k, t, hk, ht⟩ := hr
  exact ⟨k + 1, t, by simp only [consSteps, h, Option.bind_some, hk], ht⟩

theorem GetReturns.step (h : r.consStep = some r') (hr : GetReturns r) : GetReturns r' := by
  obtain ⟨k, t, hk, ht⟩ := hr
  cases k with
  | zero =>
    cases hk
    rcases ht with ⟨hc, -⟩ | ⟨hc, -⟩ <;> simp [Ring.consStep, hc] at h
  | succ k =>
    simp only [consSteps, h, Option.bind_some] at hk
    exact ⟨k, t, hk, ht⟩

theorem returns_empty (hp : r.prod = r.localConsPvt) (hc : r.cpc = .readProd n)
    (hs : (r.producerActive && n < consumerSpinLimit) = false) : GetReturns r := by
  refine .of_step (by simp only [Ring.consStep, hc, if_pos hp]; rfl) ?_
  refine .of_step (by simp only [Ring.consStep, hs, Bool.false_eq_true, if_false]; rfl) ?_
  refine .of_step rfl (.of_step rfl ?_)
  simp only [ne_eq, not_true_eq_false, if_false]
  refine .of_step rfl (.of_step rfl ⟨0, _, rfl, ?_⟩)
  simp only [ne_eq, not_true_eq_false, if_false]
  exact .inr ⟨rfl, .inl rfl⟩

theorem returns_spin (hp : r.prod = r.localConsPvt) (ha : r.producerActive = true)
    (hc : r.cpc = .spin n) : GetReturns r := by
  induction hk : consumerSpinLimit - n generalizing r n with
  | zero =>
    have hn : ¬ n < consumerSpinLimit := by omega
    refine .of_step (by simp only [Ring.consStep, hc, ha, hn]; rfl) (.of_step rfl ?_)
    refine returns_empty hp rfl ?_
    have : ¬ n + 1 < consumerSpinLimit := by omega
    simp [this]
  | succ k ih =>
    have hn : n < consumerSpinLimit := by omega
    refine .of_step (by simp only [Ring.consStep, hc, ha, hn]; rfl) ?_
    exact ih hp rfl rfl (by omega)

theorem returns_of_prod (hp : r.prod = r.localConsPvt) (hc : r.cpc = .readProd n) : GetReturns r := by
  cases hs : r.producerActive && decide (n < consumerSpinLimit) with
  | false => exact returns_empty hp hc hs
  | true =>
    have ha : r.producerActive = true := (Bool.and_eq_true_iff.mp hs).1
    refine .of_step (by simp only [Ring.consStep, hc, if_pos hp]; rfl) ?_
    refine .of_step (by simp only [Ring.consStep, hs, if_true]; rfl) (.of_step rfl ?_)
    exact returns_spin hp ha rfl

/-- The consumer at index `p`, about to read the producer's. -/
def Ring.atIndex (r : Ring) (n p : Nat) : Ring := { r with localConsPvt := p, cpc := .readProd n }

theorem Ring.atIndex_self (hc : r.cpc = .readProd n) : r.atIndex n r.localConsPvt = r := by
  cases r; simp only at hc; subst hc; rfl

theorem readHdr_pad (h : Pad r.payload r.payloadBytes r.incomingMessage) :
    r.readHdr n = r.atIndex n (u32 (r.localConsPvt + Ring.hdrSizeAt r.payload r.incomingMessage)) := by
  have hsize := h.size
  have hk : ¬ Ring.hdrSizeAt r.payload r.incomingMessage < hdrSize := by omega
  simp only [Ring.readHdr, contained_of_le h.header, contained_of_le h.inside, hk, h.type,
    Bool.not_true, decide_false, Bool.or_self, Bool.false_eq_true, if_false, if_true, Ring.atIndex]

theorem readHdr_returned (h : ¬ Pad r.payload r.payloadBytes r.incomingMessage) :
    Returned (r.readHdr n) := by
  unfold Ring.readHdr
  simp only
  split
  · exact .inr ⟨rfl, .inr rfl⟩
  next h1 =>
  split
  · exact .inr ⟨rfl, .inr rfl⟩
  next h2 =>
  split
  · next h3 =>
    simp only [Ring.containedInConsRing, Bool.or_eq_true, decide_eq_true_eq, Bool.not_eq_true',
      Bool.and_eq_false_iff, decide_eq_false_iff_not, not_or, Nat.not_lt, Nat.not_le] at h1 h2
    exact absurd ⟨by omega, by omega, by omega, h3⟩ h
  · exact .inl ⟨rfl, rfl⟩

variable {p : Nat}

theorem atIndex_consStep (hp : r.prod ≠ p) :
    (r.atIndex n p).consStep = some { r.atIndex n p with cpc := .readHdr n } := by
  have hc : (r.atIndex n p).cpc = .readProd n := rfl
  have hp' : (r.atIndex n p).prod ≠ (r.atIndex n p).localConsPvt := hp
  simp only [Ring.consStep, hc]
  rw [if_neg hp']

theorem returns_of_not_pad (hp : r.prod ≠ p)
    (h : ¬ Pad r.payload r.payloadBytes (p % r.payloadBytes)) :
    GetReturns (r.atIndex n p) :=
  .of_step (atIndex_consStep hp) (.of_step rfl ⟨0, _, rfl, readHdr_returned h⟩)

theorem returns_pad (hp : r.prod ≠ p) (h : Pad r.payload r.payloadBytes (p % r.payloadBytes)) :
    GetReturns (r.atIndex n p) ↔
      GetReturns (r.atIndex n (u32 (p + Ring.hdrSizeAt r.payload (p % r.payloadBytes)))) := by
  have hs : ({ r.atIndex n p with cpc := .readHdr n } : Ring).consStep =
      some (r.atIndex n (u32 (p + Ring.hdrSizeAt r.payload (p % r.payloadBytes)))) :=
    congrArg some (readHdr_pad h)
  exact ⟨fun hr => (hr.step (atIndex_consStep hp)).step hs,
    fun hr => .of_step (atIndex_consStep hp) (.of_step hs hr)⟩

theorem Pads.unique {mem : Nat → UInt8} {R a : Nat} {l l' : List Nat} (h : Pads mem R a l)
    (h' : Pads mem R a l') : l = l' := by
  induction h generalizing l' with
  | nil =>
    cases h' with
    | nil => rfl
    | cons hp => exact absurd hp.header (by simp [hdrSize])
  | cons hp _ ih =>
    cases h' with
    | nil => exact absurd hp.header (by simp [hdrSize])
    | cons _ h' => rw [ih h']

theorem Pad.next {mem : Nat → UInt8} {R : Nat} (hR : R ∣ 4294967296) (h : Pad mem R (p % R)) :
    u32 (p + Ring.hdrSizeAt mem (p % R)) % R = p % R + Ring.hdrSizeAt mem (p % R) ∨
      p % R + Ring.hdrSizeAt mem (p % R) = R ∧ u32 (p + Ring.hdrSizeAt mem (p % R)) % R = 0 := by
  rw [u32_mod hR]
  rcases Nat.lt_or_ge (p % R + Ring.hdrSizeAt mem (p % R)) R with hlt | hge
  · exact .inl (add_mod_of_lt hlt)
  · have he : p % R + Ring.hdrSizeAt mem (p % R) = R := Nat.le_antisymm h.inside hge
    refine .inr ⟨he, ?_⟩
    rw [← Nat.mod_add_mod, he, Nat.mod_self]

theorem Pads.mem {mem : Nat → UInt8} {R a : Nat} {l : List Nat} (h : Pads mem R a l) :
    ∀ x ∈ l, a ≤ x ∧ x < R := by
  induction h with
  | nil => simp
  | cons hp _ ih =>
    intro x hx
    have hh := hp.header
    simp only [hdrSize] at hh
    rcases List.mem_cons.mp hx with rfl | hx
    · exact ⟨Nat.le_refl _, by omega⟩
    · exact ⟨Nat.le_trans (Nat.le_add_right _ _) (ih x hx).1, (ih x hx).2⟩

theorem u32_shift {p q k a b : Nat} (hq : q = b + k) (ha : q ≤ a) :
    u32 (u32 (p + k) + (a - q)) = u32 (p + (a - b)) := by
  rw [u32_add]
  congr 1
  omega

theorem turn_of_not_returns (hR : r.payloadBytes ∣ 4294967296) (hp : p < 4294967296)
    (h : ¬ GetReturns (r.atIndex n p)) :
    ∃ l, Pads r.payload r.payloadBytes (p % r.payloadBytes) l ∧
      (∀ a ∈ l, u32 (p + (a - p % r.payloadBytes)) ≠ r.prod) ∧
      ¬ GetReturns (r.atIndex n (u32 (p + (r.payloadBytes - p % r.payloadBytes)))) := by
  -- by induction on what is left of the turn; each padding message shortens it
  induction hk : r.payloadBytes - p % r.payloadBytes using Nat.strongRecOn generalizing p with
  | ind k ih =>
    subst hk
    have hne : r.prod ≠ p := fun e => h (returns_of_prod e rfl)
    have hpad : Pad r.payload r.payloadBytes (p % r.payloadBytes) := by
      by_contra hpad
      exact h (returns_of_not_pad hne hpad)
    rw [returns_pad hne hpad] at h
    have hlt : p % r.payloadBytes < r.payloadBytes := by
      have := hpad.header
      simp only [hdrSize] at this
      omega
    have hhead : u32 (p + (p % r.payloadBytes - p % r.payloadBytes)) ≠ r.prod := by
      rw [Nat.sub_self, Nat.add_zero, u32, Nat.mod_eq_of_lt hp]
      exact hne.symm
    rcases hpad.next hR with hnext | ⟨hend, -⟩
    · have hsize := hpad.size
      simp only [hdrSize] at hsize
      obtain ⟨l, hl, hnot, hlast⟩ := ih _ (by rw [hnext]; omega) (Nat.mod_lt _ (by decide)) h rfl
      refine ⟨_, .cons hpad (hnext ▸ hl), ?_, ?_⟩
      · intro a ha
        rcases List.mem_cons.mp ha with rfl | ha
        · exact hhead
        · rw [← u32_shift hnext (hl.mem a ha).1]
          exact hnot a ha
      · rwa [u32_shift hnext (Nat.le_of_lt (Nat.mod_lt _ (by omega)))] at hlast
    · refine ⟨[p % r.payloadBytes], .cons hpad (hend.symm ▸ .nil), ?_, ?_⟩
      · intro a ha
        rw [List.mem_singleton.mp ha]
        exact hhead
      · rwa [show r.payloadBytes - p % r.payloadBytes =
          Ring.hdrSizeAt r.payload (p % r.payloadBytes) by omega]

theorem turns_of_not_returns (hR : r.payloadBytes ∣ 4294967296) (hp : p < 4294967296)
    (h0 : p % r.payloadBytes = 0) (h : ¬ GetReturns (r.atIndex n p)) (j : Nat) :
    ¬ GetReturns (r.atIndex n (u32 (p + j * r.payloadBytes))) := by
  induction j with
  | zero => rwa [Nat.zero_mul, Nat.add_zero, u32, Nat.mod_eq_of_lt hp]
  | succ j ih =>
    obtain ⟨l, -, -, hlast⟩ := turn_of_not_returns hR (Nat.mod_lt _ (by decide)) ih
    rwa [u32_mod hR, Nat.add_mul_mod_self_right, h0, Nat.sub_zero, u32_add, Nat.add_assoc,
      ← Nat.succ_mul] at hlast

theorem stuck_of_not_returns (hR : RingSize r.payloadBytes) (hprod : r.prod < 4294967296)
    (hcons : r.localConsPvt < 4294967296) (h : ¬ GetReturns (r.atIndex n r.localConsPvt)) :
    Stuck r := by
  obtain ⟨first, hfirst, hnot, hlast⟩ := turn_of_not_returns hR.dvd hcons h
  have hpos : 0 < r.payloadBytes := by have := hR.bounds; omega
  set q := u32 (r.localConsPvt + (r.payloadBytes - r.localConsPvt % r.payloadBytes)) with hq
  have hq0 : q % r.payloadBytes = 0 := by
    rw [hq, u32_mod hR.dvd, ← Nat.mod_add_mod,
      Nat.add_sub_cancel' (Nat.le_of_lt (Nat.mod_lt _ hpos)), Nat.mod_self]
  have hqlt : q < 4294967296 := Nat.mod_lt _ (by decide)
  have hturn := turns_of_not_returns hR.dvd hqlt hq0 hlast
  have hmod : ∀ j, u32 (q + j * r.payloadBytes) % r.payloadBytes = 0 := by
    intro j
    rw [u32_mod hR.dvd, Nat.add_mul_mod_self_right, hq0]
  obtain ⟨turn, ht, -, -⟩ := turn_of_not_returns hR.dvd (Nat.mod_lt _ (by decide)) (hturn 0)
  rw [hmod] at ht
  refine ⟨first, turn, hfirst, ht, hnot, ?_⟩
  -- one of the turns passes the producer's index
  rintro a ha rfl
  obtain ⟨c, hc⟩ := hR.dvd
  obtain ⟨j, hj⟩ : ∃ j, q + j * r.payloadBytes + r.prod % r.payloadBytes = r.prod + 4294967296 := by
    obtain ⟨b, hb⟩ := Nat.dvd_of_mod_eq_zero hq0
    have hle : r.payloadBytes * b ≤ r.payloadBytes * c := by omega
    have hbc : b ≤ c := Nat.le_of_mul_le_mul_left hle hpos
    refine ⟨r.prod / r.payloadBytes + (c - b), ?_⟩
    have h1 := Nat.div_add_mod r.prod r.payloadBytes
    have h2 : r.payloadBytes * b + r.payloadBytes * (c - b) = r.payloadBytes * c := by
      rw [← Nat.mul_add, Nat.add_sub_cancel' hbc]
    rw [Nat.mul_comm _ r.payloadBytes, Nat.mul_add]
    omega
  obtain ⟨l, hl, hnot', -⟩ := turn_of_not_returns hR.dvd (Nat.mod_lt _ (by decide)) (hturn j)
  rw [hmod] at hl
  simp only [hmod, Nat.sub_zero] at hnot'
  have := hnot' _ (hl.unique ht ▸ ha)
  rw [u32_add, hj, u32, Nat.add_mod_right, Nat.mod_eq_of_lt hprod] at this
  exact this rfl

/-- Padding leads from index `p` to the end of its turn and past the producer's index. -/
def Going (r : Ring) (p : Nat) : Prop :=
  ∃ l, Pads r.payload r.payloadBytes (p % r.payloadBytes) l ∧
    ∀ a ∈ l, u32 (p + (a - p % r.payloadBytes)) ≠ r.prod

theorem Going.next (hR : RingSize r.payloadBytes) {turn : List Nat}
    (ht : Pads r.payload r.payloadBytes 0 turn) (hturn : ∀ a ∈ turn, r.prod % r.payloadBytes ≠ a)
    (hp : p < 4294967296) (h : Going r p) :
    r.prod ≠ p ∧ Pad r.payload r.payloadBytes (p % r.payloadBytes) ∧
      Going r (u32 (p + Ring.hdrSizeAt r.payload (p % r.payloadBytes))) := by
  obtain ⟨l, hl, hnot⟩ := h
  have hlt : p % r.payloadBytes < r.payloadBytes := Nat.mod_lt _ (by have := hR.bounds; omega)
  generalize ha : p % r.payloadBytes = a at hl
  cases hl with
  | nil => omega
  | @cons a l hpad hl =>
    subst ha
    have hne : r.prod ≠ p := by
      have := hnot _ List.mem_cons_self
      rw [Nat.sub_self, Nat.add_zero, u32, Nat.mod_eq_of_lt hp] at this
      exact this.symm
    refine ⟨hne, hpad, ?_⟩
    rcases hpad.next hR.dvd with hnext | ⟨-, hzero⟩
    · refine ⟨l, hnext.symm ▸ hl, fun x hx => ?_⟩
      rw [u32_shift hnext (hnext.symm ▸ (hl.mem x hx).1)]
      exact hnot x (List.mem_cons_of_mem _ hx)
    · refine ⟨turn, hzero.symm ▸ ht, fun x hx e => ?_⟩
      -- from the start of a turn on, the offset of the producer's index decides
      rw [hzero, Nat.sub_zero] at e
      apply hturn x hx
      rw [← e, u32_mod hR.dvd, add_mod_of_lt (by rw [hzero, Nat.zero_add]; exact (ht.mem x hx).2),
        hzero, Nat.zero_add]

theorem not_returns_of_going (hR : RingSize r.payloadBytes) {turn : List Nat}
    (ht : Pads r.payload r.payloadBytes 0 turn) (hturn : ∀ a ∈ turn, r.prod % r.payloadBytes ≠ a)
    (hp : p < 4294967296) (h : Going r p) : ¬ GetReturns (r.atIndex n p) := by
  rintro ⟨k, t, hk, hret⟩
  induction k using Nat.strongRecOn generalizing p with
  | ind k ih =>
    obtain ⟨hne, hpad, hnext⟩ := h.next hR ht hturn hp
    have hs : ({ r.atIndex n p with cpc := .readHdr n } : Ring).consStep =
        some (r.atIndex n (u32 (p + Ring.hdrSizeAt r.payload (p % r.payloadBytes)))) :=
      congrArg some (readHdr_pad hpad)
    match k with
    | 0 =>
      cases hk
      simp [Returned, Ring.atIndex] at hret
    | 1 =>
      simp only [consSteps, atIndex_consStep hne, Option.bind_some] at hk
      cases hk
      simp [Returned] at hret
    | k + 2 =>
      simp only [consSteps, atIndex_consStep hne, hs, Option.bind_some] at hk
      exact ih k (by omega) (Nat.mod_lt _ (by decide)) hnext hk

theorem returns_atIndex_iff (hR : RingSize r.payloadBytes) (hprod : r.prod < 4294967296)
    (hcons : r.localConsPvt < 4294967296) :
    GetReturns (r.atIndex n r.localConsPvt) ↔ ¬ Stuck r := by
  constructor
  · rintro hret ⟨first, turn, hfirst, ht, hnot, hturn⟩
    exact not_returns_of_going hR ht hturn hcons ⟨first, hfirst, hnot⟩ hret
  · intro hs
    by_contra hret
    exact hs (stuck_of_not_returns hR hprod hcons hret)

end Loop

/-- A call of `v2v_nc2_get_message` comes back exactly when the consumer is not in a ring of padding
that steps over the producer's index. -/
theorem get_message_returns_iff {r r' : Ring} (hR : RingSize r.payloadBytes)
    (hprod : r.prod < 4294967296) (hcons : r.localConsPvt < 4294967296)
    (hg : ringStep r .get = some r') : GetReturns r' ↔ ¬ Stuck r := by
  simp only [ringStep] at hg
  split at hg
  · cases hg
    have h : RingSize ({ r with getStatus := .none, cpc := .readProd 0 } : Ring).payloadBytes := hR
    have := returns_atIndex_iff (n := 0) h hprod hcons
    rwa [Ring.atIndex_self rfl] at this
  · cases hg

theorem get_message_returns_iff_attached : ∃ r', ringStep (attachRings 4) .get = some r' ∧
    (GetReturns r' ↔ ¬ Stuck (attachRings 4)) :=
  ⟨_, rfl, get_message_returns_iff ⟨4, by decide, rfl⟩ (by decide) (by decide) rfl⟩

/-- One padding message as long as the ring, and a producer that claims to be in the middle of it. -/
def padTheRing : PeerAct :=
  .peer 8 0 false (blit (fun _ => 0) 0 (Ring.hdr msgPad 0 4096))

theorem get_message_loops : ∃ s t, (peerMachine 0).Reach Machine.Any s ∧
    peerStep s .get = some t ∧ ¬ GetReturns t.ring := by
  refine ⟨_, _, .step (a := padTheRing) .init trivial rfl, rfl, ?_⟩
  have hR : RingSize (ringBytes 0) := ⟨0, by decide, rfl⟩
  have hpad : Pad (blit (fun _ => 0) 0 (Ring.hdr msgPad 0 4096)) (ringBytes 0) 0 :=
    ⟨by decide, by decide, by decide, by decide⟩
  have ht : Pads (blit (fun _ => 0) 0 (Ring.hdr msgPad 0 4096)) (ringBytes 0) 0 [0] :=
    .cons hpad .nil
  exact not_returns_of_going hR ht (by decide) (by decide) ⟨[0], ht, by decide⟩

end XcWindows.V2v
