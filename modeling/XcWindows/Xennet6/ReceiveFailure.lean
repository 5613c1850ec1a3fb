import Mathlib.Algebra.Ring.Int.Defs
import XcWindows.Lib.Word
import XcWindows.Xennet6.Receiver

/-!
# Packets without a net buffer list

`ReceiverReceiveBufferList` of `net/xennet6/receiver.c`, with `ReceiverCommonReceiveRfdChain` and
`ReceiverCommonReleaseRfdChain` of `net/receiver_common.c`, over the RFDs that a packet holds and the net
buffer lists that are made of them. All ways to give a packet up release its RFDs; none frees a net buffer
list, which matters to one of them, where the prefix has no list but the packet has.
-/

namespace XcWindows.Xennet6.ReceiveFailure

open XcWindows.Lib

abbrev RfdId := Nat

/-- `netif_rx_response_t` -/
structure RxResponse extends Rx.RxFlags where
  id : Nat
  offset : Nat
  status : Int

/-- The slots are those of a packet, behind its first one if `first` is not set. -/
abbrev isPacket (first : Bool) (slots : List RxResponse) : Bool :=
  Rx.isPacket RxResponse.toRxFlags first slots

structure NetBufferList where
  handle : Nat
  mdls : List RfdId
  dataLength : Nat

structure State where
  shadow : Nat → Option RfdId
  rspCons : Nat
  released : List RfdId
  /-- the handles of `NetBufferListPool` that are in use, and the next one -/
  allocated : List Nat
  nextHandle : Nat

/-- What `ReceiverCommonReceiveRfdChain` has got together. -/
structure Packet where
  prefixRfd : Option RfdId
  gsoSize : Nat
  chain : List RfdId
  totOctets : Nat
  status : Int

/-- What is so when a packet is received: whether `ReceiverCreatePrefix` finds urgent data, the length of
the headers it copies, and whether there is memory for each of the net buffer lists. -/
structure Reception where
  stopped : Bool
  interesting : Bool
  urgent : Bool
  headerLength : Nat
  list : Bool
  prefixList : Bool

structure Outcome where
  bufferList : Option NetBufferList
  prefixBufferList : Option NetBufferList
  state : State

def receiveRfd (id : Nat) (s : State) : Except Crash (RfdId × State) :=
  match s.shadow id with
  | none => .error .bugCheck
  | some r => .ok (r, { s with shadow := Function.update s.shadow id none })

/-- `totOctets += response->status` -/
def addOctets (totOctets : Nat) (status : Int) : Nat := ((totOctets + status) % 4294967296).toNat

/-- `ReceiverCommonReceiveRfdChain` over the responses that are on the ring. -/
def receiveRfdChain : List RxResponse → Packet → State → Except Crash (Packet × State)
  | [], _, _ => .error .bugCheck
  | response :: rest, p, s => do
    let status := if response.status < 0 ∧ 0 ≤ p.status then response.status else p.status
    let (r, s) ← receiveRfd response.id s
    let p ←
      if response.gsoPrefix then do
        xmAssert (response.moreData = true) .bugCheck
        .ok { p with prefixRfd := some r, gsoSize := response.offset, status }
      else do
        xmAssert (response.otherFlags = false) .bugCheck
        .ok { p with
          chain := p.chain ++ [r], totOctets := addOctets p.totOctets response.status, status }
    let s := { s with rspCons := u32 (s.rspCons + 1) }
    if response.moreData then receiveRfdChain rest p s else .ok (p, s)

def releaseRfdChain (chain : List RfdId) (s : State) : State := { s with released := s.released ++ chain }

def makeNetBufferList (memory : Bool) (mdls : List RfdId) (totOctets : Nat) (s : State) :
    Option NetBufferList × State :=
  if memory then
    (some ⟨s.nextHandle, mdls, totOctets⟩,
      { s with allocated := s.nextHandle :: s.allocated, nextHandle := s.nextHandle + 1 })
  else (none, s)

/-- `discard:` -/
def discard (prefixRfd : Option RfdId) (chain : List RfdId) (s : State) : Outcome :=
  ⟨none, none, releaseRfdChain chain (releaseRfdChain prefixRfd.toList s)⟩

/-- The packet once its prefix is split off, or released. -/
def splitPrefix (how : Reception) (p : Packet) (s : State) : Option RfdId × Nat × State :=
  match p.prefixRfd with
  | none => (none, p.totOctets, s)
  | some r =>
    if how.urgent then (none, p.totOctets, releaseRfdChain [r] s)
    else (some r, sub32 p.totOctets p.gsoSize, s)

/-- What `ExtractMdl` asserts of a prefix that is split off: the data goes on for `GsoSize` bytes behind the
headers. -/
def Extracts (how : Reception) (p : Packet) : Prop :=
  p.prefixRfd = none ∨ how.urgent = true ∨ p.gsoSize = 0 ∨ how.headerLength + p.gsoSize ≤ p.totOctets

instance (how : Reception) (p : Packet) : Decidable (Extracts how p) := by
  unfold Extracts
  infer_instance

def receiveBufferList (how : Reception) (slots : List RxResponse) (s : State) : Except Crash Outcome := do
  let (p, s) ← receiveRfdChain slots ⟨none, 0, [], 0, 0⟩ s
  if p.status < 0 ∨ how.stopped = true ∨ how.interesting = false then .ok (discard p.prefixRfd p.chain s)
  else do
    xmAssert (Extracts how p) .bugCheck
    let (prefixRfd, totOctets, s) := splitPrefix how p s
    match makeNetBufferList how.list p.chain totOctets s with
    | (none, s) => .ok (discard prefixRfd p.chain s)
    | (some bufferList, s) =>
      match prefixRfd with
      | none => .ok ⟨some bufferList, none, s⟩
      | some r =>
        match makeNetBufferList how.prefixList [r] (how.headerLength + p.gsoSize) s with
        | (none, s) => .ok (discard (some r) p.chain s)
        | (some prefixBufferList, s) => .ok ⟨some bufferList, some prefixBufferList, s⟩

/-! ## Packets -/

/-- The RFDs of the slots. -/
def rfds (s : State) (slots : List RxResponse) : List RfdId := slots.filterMap fun y => s.shadow y.id

/-- The slots with data. -/
def fragments (slots : List RxResponse) : List RxResponse := slots.filter fun y => !y.gsoPrefix

/-- The length of the packet. -/
def octets (slots : List RxResponse) : Nat :=
  (((fragments slots).map (·.status)).sum % 4294967296).toNat

/-- The RFD of the prefix slot, with the size to split off. -/
def prefixOf (s : State) : List RxResponse → Option (RfdId × Nat)
  | [] => none
  | y :: _ => if y.gsoPrefix then (s.shadow y.id).map fun r => (r, y.offset) else none

/-- The prefix that is split off. -/
def splitOff (how : Reception) (s : State) (slots : List RxResponse) : Option (RfdId × Nat) :=
  if how.urgent then none else prefixOf s slots

/-- The packet has the data that its prefix is to be split off with. -/
def HasData (how : Reception) (s : State) (slots : List RxResponse) : Prop :=
  ∀ q ∈ splitOff how s slots, q.2 = 0 ∨ how.headerLength + q.2 ≤ octets slots

/-- A packet is on the ring, under ids that are in use. -/
structure OnRing (s : State) (slots : List RxResponse) : Prop where
  whole : isPacket true slots = true
  ids : (slots.map (·.id)).Nodup
  posted : ∀ y ∈ slots, (s.shadow y.id).isSome
  distinct : (rfds s slots).Nodup

variable (how : Reception) (s : State) (slots : List RxResponse)

/-- The packet goes up with its prefix, if that was split off. -/
structure HandedOver (out : Outcome) : Prop where
  list : out.bufferList.map (fun b => (b.mdls, b.dataLength)) =
    some (rfds s (fragments slots), match splitOff how s slots with
      | none => octets slots
      | some (_, gsoSize) => sub32 (octets slots) gsoSize)
  prefixList : out.prefixBufferList.map (fun b => (b.mdls, b.dataLength)) =
    (splitOff how s slots).map fun q => ([q.1], how.headerLength + q.2)
  /-- a prefix that cannot be split off is released -/
  released : out.state.released =
    s.released ++ if how.urgent then ((prefixOf s slots).map Prod.fst).toList else []
  allocated : out.state.allocated =
    ((out.prefixBufferList.toList ++ out.bufferList.toList).map (·.handle)) ++ s.allocated

/-- The packet is given up, and nothing is held for it. -/
structure Discarded (out : Outcome) : Prop where
  list : out.bufferList = none
  prefixList : out.prefixBufferList = none
  released : ∃ l, out.state.released = s.released ++ l ∧ l.Perm (rfds s slots)
  allocated : out.state.allocated = s.allocated

structure Good (out : Outcome) : Prop where
  lists : HandedOver how s slots out ∨ Discarded s slots out
  rspCons : out.state.rspCons = u32 (s.rspCons + slots.length)

/-- The prefix that was split off gets no net buffer list, when the packet has its own. -/
structure SecondFails : Prop where
  status : ∀ y ∈ slots, 0 ≤ y.status
  running : how.stopped = false
  interesting : how.interesting = true
  splitOff : splitOff how s slots ≠ none
  list : how.list = true
  prefixList : how.prefixList = false

section Chain

variable {how s slots}

theorem addOctets_add (a : Nat) (x y : Int) : addOctets (addOctets a x) y = addOctets a (x + y) := by
  simp only [addOctets]
  omega

/-- The status of the chain is the first that is an error. -/
def nextStatus (status response : Int) : Int := if response < 0 ∧ 0 ≤ status then response else status

theorem nextStatus_neg {status response : Int} :
    nextStatus status response < 0 ↔ status < 0 ∨ response < 0 := by
  unfold nextStatus
  split
  all_goals omega

/-- The receiver behind a slot. -/
def State.behind (s : State) (id : Nat) : State :=
  { s with shadow := Function.update s.shadow id none, rspCons := u32 (s.rspCons + 1) }

/-- The packet with another fragment. -/
def Packet.push (p : Packet) (y : RxResponse) (r : RfdId) : Packet :=
  { p with chain := p.chain ++ [r], totOctets := addOctets p.totOctets y.status,
           status := nextStatus p.status y.status }

theorem receiveRfd_eq {id : Nat} {r : RfdId} (h : s.shadow id = some r) :
    receiveRfd id s = .ok (r, { s with shadow := Function.update s.shadow id none }) := by
  rw [receiveRfd, h]

theorem receiveRfdChain_fragment {y : RxResponse} {r : RfdId} (rest : List RxResponse) (p : Packet)
    (hr : s.shadow y.id = some r) (hg : y.gsoPrefix = false) (ho : y.otherFlags = false) :
    receiveRfdChain (y :: rest) p s =
      if y.moreData then receiveRfdChain rest (p.push y r) (s.behind y.id)
      else .ok (p.push y r, s.behind y.id) := by
  rw [receiveRfdChain, receiveRfd_eq hr, ok_bind]
  simp only [hg, Bool.false_eq_true, if_false]
  rw [xmAssert_pos ho, ok_bind, ok_bind]
  rfl

theorem receiveRfdChain_prefix {y : RxResponse} {r : RfdId} (rest : List RxResponse) (p : Packet)
    (hr : s.shadow y.id = some r) (hg : y.gsoPrefix = true) (hm : y.moreData = true) :
    receiveRfdChain (y :: rest) p s =
      receiveRfdChain rest { p with prefixRfd := some r, gsoSize := y.offset,
                                    status := nextStatus p.status y.status } (s.behind y.id) := by
  rw [receiveRfdChain, receiveRfd_eq hr, ok_bind]
  simp only [hg, if_true]
  rw [xmAssert_pos hm, ok_bind, ok_bind, if_pos hm]
  rfl

theorem shadow_behind {y z : RxResponse} {rest : List RxResponse}
    (hids : ((y :: rest).map (·.id)).Nodup) (hz : z ∈ rest) : (s.behind y.id).shadow z.id = s.shadow z.id := by
  rw [List.map_cons, List.nodup_cons] at hids
  exact Function.update_of_ne (fun e => hids.1 (List.mem_map.mpr ⟨z, hz, e⟩)) _ _

theorem rfds_behind {y : RxResponse} {rest : List RxResponse} (hids : ((y :: rest).map (·.id)).Nodup) :
    rfds (s.behind y.id) rest = rfds s rest :=
  List.filterMap_congr fun _ hz => shadow_behind hids hz

theorem rfds_cons {y : RxResponse} {r : RfdId} (rest : List RxResponse) (h : s.shadow y.id = some r) :
    rfds s (y :: rest) = r :: rfds s rest := List.filterMap_cons_some h

/-- The status of the chain once its slots are read. -/
def chainStatus (slots : List RxResponse) (status : Int) : Int :=
  slots.foldl (fun status y => nextStatus status y.status) status

theorem chainStatus_neg {status : Int} :
    chainStatus slots status < 0 ↔ status < 0 ∨ ∃ y ∈ slots, y.status < 0 := by
  induction slots generalizing status with
  | nil => simp [chainStatus]
  | cons y rest ih =>
    have hstep : chainStatus (y :: rest) status = chainStatus rest (nextStatus status y.status) := rfl
    rw [hstep, ih, nextStatus_neg, or_assoc, List.exists_mem_cons_iff]

theorem isPacket_false {slots : List RxResponse} (h : isPacket false slots = true) :
    fragments slots = slots := by
  induction slots with
  | nil => rfl
  | cons y rest ih =>
    cases rest with
    | nil =>
      simp only [isPacket, Rx.isPacket, Bool.and_eq_true, Bool.not_eq_true'] at h
      simp [fragments, h.1.2]
    | cons z rest =>
      simp only [isPacket, Rx.isPacket, Bool.and_eq_true] at h
      obtain ⟨⟨-, hflags⟩, hrest⟩ := h
      have hg : y.gsoPrefix = false := by
        by_contra hg
        rw [if_pos (Bool.eq_true_of_not_eq_false hg)] at hflags
        exact Bool.false_ne_true hflags
      have := ih hrest
      simp only [fragments] at this ⊢
      rw [List.filter_cons_of_pos (by rw [hg]; rfl), this]

theorem receiveRfdChain_fragments {slots : List RxResponse} (others : List RxResponse) {p : Packet} {s : State}
    (hy : isPacket false slots = true) (hids : (slots.map (·.id)).Nodup)
    (hposted : ∀ y ∈ slots, (s.shadow y.id).isSome) :
    ∃ shadow, receiveRfdChain (slots ++ others) p s =
      .ok ({ p with
        chain := p.chain ++ rfds s slots
        totOctets := addOctets p.totOctets (slots.map (·.status)).sum
        status := chainStatus slots p.status }, { s with shadow, rspCons := u32 (s.rspCons + slots.length) }) := by
  induction slots generalizing p s with
  | nil => exact absurd hy Bool.false_ne_true
  | cons y rest ih =>
    obtain ⟨r, hr⟩ := Option.isSome_iff_exists.mp (hposted y List.mem_cons_self)
    cases rest with
    | nil =>
      simp only [isPacket, Rx.isPacket, Bool.and_eq_true, Bool.not_eq_true'] at hy
      obtain ⟨⟨hm, hg⟩, ho⟩ := hy
      refine ⟨(s.behind y.id).shadow, ?_⟩
      rw [List.cons_append, receiveRfdChain_fragment _ p hr hg ho, if_neg (by rw [hm]; exact Bool.false_ne_true),
        rfds_cons [] hr, List.map_singleton, List.sum_singleton]
      rfl
    | cons z rest =>
      simp only [isPacket, Rx.isPacket, Bool.and_eq_true] at hy
      obtain ⟨⟨hm, hflags⟩, hrest⟩ := hy
      have hg : y.gsoPrefix = false := by
        by_contra hg
        rw [if_pos (Bool.eq_true_of_not_eq_false hg)] at hflags
        exact Bool.false_ne_true hflags
      rw [hg, if_neg Bool.false_ne_true, Bool.not_eq_true'] at hflags
      have hids' := hids
      rw [List.map_cons, List.nodup_cons] at hids'
      have hposted' : ∀ x ∈ z :: rest, ((s.behind y.id).shadow x.id).isSome := by
        intro x hx
        rw [shadow_behind hids hx]
        exact hposted x (List.mem_cons_of_mem _ hx)
      obtain ⟨shadow, ih⟩ := ih (p := p.push y r) hrest hids'.2 hposted'
      refine ⟨shadow, ?_⟩
      rw [List.cons_append, receiveRfdChain_fragment _ p hr hg hflags, if_pos hm, ih, rfds_behind hids,
        rfds_cons _ hr]
      simp only [Packet.push, State.behind, addOctets_add, List.append_assoc, List.singleton_append, u32_add,
        List.map_cons, List.sum_cons, List.length_cons, Nat.add_assoc, Nat.add_comm 1]
      rfl

theorem packet_cases (h : isPacket true slots = true) :
    (∃ y rest, slots = y :: rest ∧ y.gsoPrefix = true ∧ y.moreData = true ∧ isPacket false rest = true) ∨
      isPacket false slots = true := by
  cases slots with
  | nil => exact .inr h
  | cons y rest =>
    cases rest with
    | nil => exact .inr h
    | cons z rest =>
      by_cases hg : y.gsoPrefix = true
      · simp only [isPacket, Rx.isPacket, Bool.and_eq_true] at h
        exact .inl ⟨y, z :: rest, rfl, hg, h.1.1, h.2⟩
      · refine .inr ?_
        rw [Bool.not_eq_true] at hg
        simpa only [isPacket, Rx.isPacket, hg, Bool.false_eq_true, if_false] using h

theorem prefixOf_none (h : isPacket false slots = true) : prefixOf s slots = none := by
  have hfrag := isPacket_false h
  cases slots with
  | nil => rfl
  | cons y rest =>
    have hy : y ∈ fragments (y :: rest) := by
      rw [hfrag]
      exact List.mem_cons_self
    have hg := (List.mem_filter.mp hy).2
    rw [Bool.not_eq_true'] at hg
    rw [prefixOf, if_neg (by rw [hg]; exact Bool.false_ne_true)]

theorem fragments_of_prefixed {y : RxResponse} {rest : List RxResponse} (hg : y.gsoPrefix = true)
    (h : isPacket false rest = true) : fragments (y :: rest) = rest := by
  have hrest := isPacket_false h
  rw [fragments] at hrest ⊢
  rw [List.filter_cons_of_neg (by rw [hg]; decide), hrest]

theorem receiveRfdChain_eq (h : OnRing s slots) (others : List RxResponse) :
    ∃ shadow status, (status < 0 ↔ ∃ y ∈ slots, y.status < 0) ∧
      receiveRfdChain (slots ++ others) ⟨none, 0, [], 0, 0⟩ s =
        .ok (⟨(prefixOf s slots).map Prod.fst, ((prefixOf s slots).map Prod.snd).getD 0,
          rfds s (fragments slots), octets slots, status⟩,
          { s with shadow, rspCons := u32 (s.rspCons + slots.length) }) := by
  have hoctets : addOctets 0 ((fragments slots).map (·.status)).sum = octets slots := by
    rw [addOctets, octets]
    exact congrArg (fun x : Int => (x % 4294967296).toNat) (Int.zero_add _)
  rcases packet_cases h.whole with ⟨y, rest, rfl, hg, hm, hrest⟩ | hfalse
  · obtain ⟨r, hr⟩ := Option.isSome_iff_exists.mp (h.posted y List.mem_cons_self)
    have hids := h.ids
    rw [List.map_cons, List.nodup_cons] at hids
    have hposted : ∀ x ∈ rest, ((s.behind y.id).shadow x.id).isSome := by
      intro x hx
      rw [shadow_behind h.ids hx]
      exact h.posted x (List.mem_cons_of_mem _ hx)
    obtain ⟨shadow, hchain⟩ := receiveRfdChain_fragments others
      (p := ⟨some r, y.offset, [], 0, nextStatus 0 y.status⟩) hrest hids.2 hposted
    refine ⟨shadow, chainStatus rest (nextStatus 0 y.status), ?_, ?_⟩
    · rw [chainStatus_neg, nextStatus_neg, List.exists_mem_cons_iff, or_iff_right (Int.lt_irrefl 0)]
    · rw [List.cons_append, receiveRfdChain_prefix _ _ hr hg hm]
      refine hchain.trans ?_
      rw [rfds_behind h.ids, ← hoctets, fragments_of_prefixed hg hrest]
      simp only [prefixOf, hg, if_true, hr, Option.map_some, Option.getD_some, List.nil_append, State.behind,
        u32_add, List.length_cons, Nat.add_assoc, Nat.add_comm 1]
  · obtain ⟨shadow, hchain⟩ :=
      receiveRfdChain_fragments others (p := ⟨none, 0, [], 0, 0⟩) hfalse h.ids h.posted
    refine ⟨shadow, chainStatus slots 0, ?_, ?_⟩
    · rw [chainStatus_neg, or_iff_right (Int.lt_irrefl 0)]
    · rw [hchain, ← hoctets, isPacket_false hfalse, prefixOf_none hfalse]
      rfl

theorem rfds_parts (h : OnRing s slots) :
    ((prefixOf s slots).map Prod.fst).toList ++ rfds s (fragments slots) = rfds s slots := by
  rcases packet_cases h.whole with ⟨y, rest, rfl, hg, hm, hrest⟩ | hfalse
  · obtain ⟨r, hr⟩ := Option.isSome_iff_exists.mp (h.posted y List.mem_cons_self)
    rw [fragments_of_prefixed hg hrest, rfds_cons rest hr, prefixOf, if_pos hg, hr]
    rfl
  · rw [isPacket_false hfalse, prefixOf_none hfalse]
    rfl

end Chain

/-! ## What becomes of a packet -/

section Outcomes

variable {how s slots}

theorem discarded_discard {prefixRfd : Option RfdId} {chain l : List RfdId} {u : State}
    (hl : u.released = s.released ++ l) (ha : u.allocated = s.allocated)
    (hparts : l ++ (prefixRfd.toList ++ chain) = rfds s slots) :
    Discarded s slots (discard prefixRfd chain u) where
  list := rfl
  prefixList := rfl
  released := ⟨l ++ (prefixRfd.toList ++ chain), by
    simp only [discard, releaseRfdChain, hl, List.append_assoc], by rw [hparts]⟩
  allocated := ha

/-- What `ReceiverReceiveBufferList` does with a packet that is fine. -/
def deliver (how : Reception) (p : Packet) (s : State) : Outcome :=
  match splitPrefix how p s with
  | (prefixRfd, totOctets, s) =>
    match makeNetBufferList how.list p.chain totOctets s with
    | (none, s) => discard prefixRfd p.chain s
    | (some bufferList, s) =>
      match prefixRfd with
      | none => ⟨some bufferList, none, s⟩
      | some r =>
        match makeNetBufferList how.prefixList [r] (how.headerLength + p.gsoSize) s with
        | (none, s) => discard (some r) p.chain s
        | (some prefixBufferList, s) => ⟨some bufferList, some prefixBufferList, s⟩

theorem extracts_of_hasData {chain : List RfdId} {status : Int} (h : HasData how s slots) :
    Extracts how ⟨(prefixOf s slots).map Prod.fst, ((prefixOf s slots).map Prod.snd).getD 0, chain,
      octets slots, status⟩ := by
  cases hurgent : how.urgent with
  | true => exact .inr (.inl hurgent)
  | false =>
    cases hpre : prefixOf s slots with
    | none => exact .inl rfl
    | some q =>
      have hoff : q ∈ splitOff how s slots := by
        rw [splitOff, hurgent, hpre]
        rfl
      exact .inr (.inr (h q hoff))

theorem receiveBufferList_bad {all : List RxResponse} {p : Packet} {u : State}
    (h : receiveRfdChain all ⟨none, 0, [], 0, 0⟩ s = .ok (p, u))
    (hbad : p.status < 0 ∨ how.stopped = true ∨ how.interesting = false) :
    receiveBufferList how all s = .ok (discard p.prefixRfd p.chain u) := by
  rw [receiveBufferList, h, ok_bind]
  exact if_pos hbad

theorem receiveBufferList_fine {all : List RxResponse} {p : Packet} {u : State}
    (h : receiveRfdChain all ⟨none, 0, [], 0, 0⟩ s = .ok (p, u))
    (hfine : ¬(p.status < 0 ∨ how.stopped = true ∨ how.interesting = false)) (hx : Extracts how p) :
    receiveBufferList how all s = .ok (deliver how p u) := by
  rw [receiveBufferList, h, ok_bind]
  refine (if_neg hfine).trans ((xmAssert_bind hx _).trans ?_)
  unfold deliver
  split
  split
  · rfl
  · split
    · rfl
    · split
      · rfl
      · rfl

theorem deliver_none {p : Packet} {u v : State} {octets : Nat} (h : splitPrefix how p u = (none, octets, v)) :
    deliver how p u = if how.list then
      ⟨some ⟨v.nextHandle, p.chain, octets⟩, none,
        { v with allocated := v.nextHandle :: v.allocated, nextHandle := v.nextHandle + 1 }⟩
      else discard none p.chain v := by
  rw [deliver, h]
  cases hlist : how.list
  · rfl
  · rfl

theorem deliver_some {p : Packet} {u v : State} {octets : Nat} {r : RfdId}
    (h : splitPrefix how p u = (some r, octets, v)) :
    deliver how p u = if how.list then
      if how.prefixList then
        ⟨some ⟨v.nextHandle, p.chain, octets⟩, some ⟨v.nextHandle + 1, [r], how.headerLength + p.gsoSize⟩,
          { v with allocated := (v.nextHandle + 1) :: v.nextHandle :: v.allocated,
                   nextHandle := v.nextHandle + 1 + 1 }⟩
      else discard (some r) p.chain
        { v with allocated := v.nextHandle :: v.allocated, nextHandle := v.nextHandle + 1 }
      else discard (some r) p.chain v := by
  rw [deliver, h]
  cases hlist : how.list
  · rfl
  · cases hprefix : how.prefixList
    · simp only [makeNetBufferList, if_true, Bool.false_eq_true, if_false]
    · simp only [makeNetBufferList, if_true]

/-- **A packet goes up whole or is given up with all that is held for it, unless the prefix alone has no net
buffer list; the ring is read to the end of the packet.** -/
theorem good_iff_not_secondFails (h : OnRing s slots) (hdata : HasData how s slots)
    (others : List RxResponse) :
    (∃ out, receiveBufferList how (slots ++ others) s = .ok out ∧ Good how s slots out) ↔
      ¬SecondFails how s slots := by
  obtain ⟨shadow, status, hneg, hchain⟩ := receiveRfdChain_eq h others
  have hparts := rfds_parts h
  by_cases hbad : status < 0 ∨ how.stopped = true ∨ how.interesting = false
  · have hgood : Discarded s slots (discard ((prefixOf s slots).map Prod.fst) (rfds s (fragments slots))
        { s with shadow, rspCons := u32 (s.rspCons + slots.length) }) :=
      discarded_discard (l := []) (List.append_nil _).symm rfl hparts
    refine iff_of_true ⟨_, receiveBufferList_bad hchain hbad, .inr hgood, rfl⟩ ?_
    rintro ⟨hstatus, hrun, hint, -, -, -⟩
    rcases hbad with hb | hb | hb
    · obtain ⟨y, hy, hlt⟩ := hneg.mp hb
      exact absurd (hstatus y hy) (Int.not_le.mpr hlt)
    · rw [hrun] at hb
      exact Bool.false_ne_true hb
    · rw [hint] at hb
      exact Bool.false_ne_true hb.symm
  · rw [receiveBufferList_fine hchain hbad (extracts_of_hasData hdata)]
    simp only [Except.ok.injEq, exists_eq_left']
    cases hpre : prefixOf s slots with
    | none =>
      have hoff : splitOff how s slots = none := by rw [splitOff, hpre, ite_self]
      rw [hpre] at hparts
      rw [deliver_none rfl]
      refine iff_of_true ?_ fun hs => hs.splitOff hoff
      cases hlist : how.list with
      | false =>
        exact ⟨.inr (discarded_discard (l := []) (List.append_nil _).symm rfl hparts), rfl⟩
      | true =>
        refine ⟨.inl ⟨?_, ?_, ?_, rfl⟩, rfl⟩
        · rw [hoff]
          rfl
        · rw [hoff]
          rfl
        · rw [hpre]
          simp
    | some q =>
      obtain ⟨r, gsoSize⟩ := q
      rw [hpre] at hparts
      cases hurgent : how.urgent with
      | true =>
        have hoff : splitOff how s slots = none := by rw [splitOff, hurgent, if_pos rfl]
        rw [deliver_none (by rw [splitPrefix]; simp only [Option.map_some, hurgent, if_true]; rfl)]
        refine iff_of_true ?_ fun hs => hs.splitOff hoff
        cases hlist : how.list with
        | false =>
          exact ⟨.inr (discarded_discard (l := [r]) rfl rfl hparts), rfl⟩
        | true =>
          refine ⟨.inl ⟨?_, ?_, ?_, rfl⟩, rfl⟩
          · rw [hoff]
            rfl
          · rw [hoff]
            rfl
          · rw [hurgent, hpre]
            rfl
      | false =>
        have hoff : splitOff how s slots = some (r, gsoSize) := by rw [splitOff, hurgent, hpre]; rfl
        rw [deliver_some (by
          rw [splitPrefix]
          simp only [Option.map_some, hurgent, Bool.false_eq_true, if_false]
          rfl)]
        cases hlist : how.list with
        | false =>
          refine iff_of_true ?_ fun hs => Bool.false_ne_true (hlist.symm.trans hs.list)
          exact ⟨.inr (discarded_discard (l := []) (List.append_nil _).symm rfl hparts), rfl⟩
        | true =>
          cases hprefix : how.prefixList with
          | true =>
            refine iff_of_true ⟨.inl ⟨?_, ?_, ?_, rfl⟩, rfl⟩ fun hs =>
              Bool.false_ne_true (hs.prefixList.symm.trans hprefix)
            · rw [hoff]
              rfl
            · rw [hoff]
              rfl
            · rw [hurgent]
              simp
          | false =>
            -- the list of the packet itself stays allocated
            refine iff_of_false ?_ (not_not.mpr ⟨?_, ?_, ?_, ?_, hlist, hprefix⟩)
            · rintro ⟨hover | hdiscard, -⟩
              · exact absurd hover.list (Option.some_ne_none _).symm
              · exact absurd (congrArg List.length hdiscard.allocated) (Nat.succ_ne_self _)
            · intro y hy
              exact Int.not_lt.mp fun hlt => hbad (.inl (hneg.mpr ⟨y, hy, hlt⟩))
            · exact Bool.eq_false_of_not_eq_true fun he => hbad (.inr (.inl he))
            · exact Bool.eq_true_of_not_eq_false fun he => hbad (.inr (.inr he))
            · rw [hoff]
              exact Option.some_ne_none _

/-- A prefix slot for 100 bytes, and a fragment of 254. -/
def sampleSlots : List RxResponse := [⟨⟨true, true, false⟩, 0, 100, 0⟩, ⟨⟨false, false, false⟩, 1, 0, 254⟩]

def sampleState : State := ⟨fun id => if id < 2 then some (id + 10) else none, 7, [], [], 0⟩

theorem sample_onRing : OnRing sampleState sampleSlots := by
  constructor
  all_goals decide

theorem good_sample : ∃ out,
    receiveBufferList ⟨false, true, false, 54, true, true⟩ (sampleSlots ++ []) sampleState = .ok out ∧
      Good ⟨false, true, false, 54, true, true⟩ sampleState sampleSlots out :=
  (good_iff_not_secondFails sample_onRing (fun q hq => .inr (by cases hq; decide)) []).mpr
    fun h => Bool.false_ne_true h.prefixList.symm

/-- With memory for the first list only, that one stays allocated. -/
theorem prefix_list_fails : OnRing sampleState sampleSlots ∧
    HasData ⟨false, true, false, 54, true, false⟩ sampleState sampleSlots ∧
    ¬∃ out, receiveBufferList ⟨false, true, false, 54, true, false⟩ sampleSlots sampleState = .ok out ∧
      Good ⟨false, true, false, 54, true, false⟩ sampleState sampleSlots out := by
  refine ⟨sample_onRing, (fun q hq => .inr (by cases hq; decide)), ?_⟩
  rintro ⟨out, hrun, hover | hdiscard, -⟩
  · cases hrun
    exact absurd hover.list (Option.some_ne_none _).symm
  · cases hrun
    exact absurd hdiscard.allocated (List.cons_ne_nil 0 [])

end Outcomes

end XcWindows.Xennet6.ReceiveFailure
