import XcWindows.Lib.Machine
import XcWindows.V2v.Connect

/-!
# The two ends of a channel

`v2v_listen`, `v2v_accept` and `v2v_disconnect` of the listener (the "temple") and `v2v_connect` and
`v2v_disconnect` of its peer (the "supplicant") in `xenevtchn/v2v.c`, run against each other. They talk
through xenstore: each has a `state` node that the other reads, and the listener publishes an `Offer`,
its grant references and ports. A step is one access to the store, the end of a transaction, one
`GnttabEndForeignAccessCache` or one call of `v2v_xenops_grant_map`; any call may fail at any step.

A read inside a transaction can return what never was in the store, but then the transaction does not
commit: what is read is chosen with the step, and a commit needs the store to have it. `GntmapMapGrants`
maps all of its references or none, and a reference that is mapped is not ended.
-/

namespace XcWindows.V2v.Handshake

open Lib

abbrev Ref := Nat

/-- A page of a ring: the channel it was allocated for, the ring and its place there. -/
structure Page where
  channel : Nat
  region : Region
  index : Nat
deriving DecidableEq

/-- What `v2v_listen` writes under the listener's prefix, but for the state. -/
structure Offer where
  prodGrefs : List Ref
  consGrefs : List Ref
  controlGref : Ref
  prodEvtchn : Nat
  consEvtchn : Nat
deriving DecidableEq

def Offer.refs (o : Offer) : Region → List Ref
  | .prod => o.prodGrefs
  | .cons => o.consGrefs
  | .control => [o.controlGref]

/-- In the order in which they are granted, mapped and ended. -/
def regions : List Region := [.prod, .cons, .control]

def Offer.all (o : Offer) : List Ref := regions.flatMap o.refs

/-- The call the listener is in while its channel is there; a `Wait` keeps the state it has read. -/
inductive Call where
  | none
  | accept
  | acceptWait (seen : Option EndpointState)
  | acceptCommit
  | disconnect
  | disconnectWait (seen : Option EndpointState)
  | disconnectCommit (seen : Option EndpointState)
deriving DecidableEq

/-- What a call that waits for `control_event` has read. -/
def Call.waits : Call → Option (Option EndpointState)
  | .acceptWait v | .disconnectWait v => some v
  | _ => Option.none

inductive Temple where
  | idle
  /-- In `v2v_listen`, between two attempts of its loop. -/
  | preparing (channel : Nat)
  /-- In `v2v_listen`, before the end of the transaction. -/
  | granting (channel : Nat) (offer : Offer)
  | listener (channel : Nat) (offer : Offer) (accepted : Bool) (call : Call)
  /-- In `v2v_disconnect_temple`, behind its loop: the references to be ended, by ring, and whether one
  of the first ring was not. -/
  | ending (channel : Nat) (todo : List (Region × List Ref)) (failed : Bool)

inductive Supplicant where
  | idle
  | reading
  | mapping (offer : Offer) (todo : List Region)
  /-- In `v2v_destroy_channel`, before the loop of `v2v_connect` goes on or ends. -/
  | undoing (again : Bool)
  | connected (offer : Offer)
  | disconnecting (offer : Offer)

/-- The offer of the channel that the peer has made. -/
def Supplicant.offer? : Supplicant → Option Offer
  | .connected o | .disconnecting o => some o
  | _ => none

structure State where
  temple : Temple
  supplicant : Supplicant
  /-- xenstore: the two nodes `state`, and the rest of the listener's -/
  templeState : Option EndpointState
  supplicantState : Option EndpointState
  offer : Option Offer
  granted : Ref → Option Page
  /-- what the peer has mapped -/
  maps : List (Region × List Ref)
  /-- the rings given back to the pool, by channel -/
  freed : List (Nat × Region)
  /-- how many channels the listener has made -/
  channels : Nat
  /-- `control_event` of the listener, and whether its watch is about to fire -/
  event : Bool
  pending : Bool

namespace State
variable (s : State)

def mapped : List Ref := s.maps.flatMap (·.2)

/-- `GnttabEndForeignAccessCache` on each of `refs`. -/
def endAccess (refs : List Ref) : State :=
  { s with granted := fun r => if r ∈ refs ∧ r ∉ s.mapped then none else s.granted r }

/-- `GnttabGrantForeignAccessCache` on each page of a channel. -/
def grant (channel : Nat) (o : Offer) : State :=
  { s with granted := fun r =>
      if r ∈ o.all then
        (regions.find? fun g => r ∈ o.refs g).map fun g => ⟨channel, g, (o.refs g).idxOf r⟩
      else s.granted r }

end State

inductive Act where
  | listenBegin
  | listenGrant (o : Offer)
  | listenCommit
  | listenRetry
  | listenFail
  | acceptBegin
  | acceptRead (v : Option EndpointState)
  | acceptCommit
  | disconnectBegin
  | disconnectRead (v : Option EndpointState)
  | disconnectCommit
  /-- A transaction of the listener has to be tried again. -/
  | retry
  /-- A call of the listener returns an error. -/
  | fail
  | wake
  | endRef
  | endRegion
  | endDone
  | connectBegin
  | connectRead (v : Option EndpointState) (o : Offer)
  | connectMap
  | connectCommit
  | connectRetry
  | connectFail
  | peerDisconnect
  | unmap
  | unmapped
  | watchFires

/-- The switch of `v2v_accept`. -/
def acceptSwitch : Option EndpointState → Call
  | some .unready => .acceptWait (some .unready)
  | some .disconnected => .acceptWait (some .disconnected)
  | some .crashed => .acceptWait (some .crashed)
  | some .connected => .acceptCommit
  | some .listening | some .disconnecting | some .unknown | none => .none

/-- The switch of `v2v_disconnect_temple`; a node that is not there is as good as one that is not
connected. -/
def disconnectSwitch : Option EndpointState → Call
  | some .connected => .disconnectWait (some .connected)
  | some .unknown => .none
  | v => .disconnectCommit v

/-- A step of the listener. -/
def templeStep (s : State) : Temple → Act → Option State
  | .idle, .listenBegin =>
    some { s with
      temple := .preparing s.channels, channels := s.channels + 1, event := false, pending := false }
  | .preparing c, .listenGrant o =>
    if o.all.Nodup ∧ ∀ r ∈ o.all, s.granted r = none then
      some { s.grant c o with temple := .granting c o }
    else none
  | .preparing c, .listenFail =>
    some { s with temple := .idle, freed := s.freed ++ regions.map (c, ·) }
  | .granting c o, .listenCommit =>
    some { s with
      temple := .listener c o false .none, templeState := some .listening, offer := some o }
  | .granting c o, .listenRetry => some { s.endAccess o.all with temple := .preparing c }
  | .granting c o, .listenFail =>
    some { s.endAccess o.all with temple := .idle, freed := s.freed ++ regions.map (c, ·) }
  | .listener c o acc .none, .acceptBegin => some { s with temple := .listener c o acc .accept }
  | .listener c o acc .accept, .acceptRead v =>
    some { s with temple := .listener c o acc (acceptSwitch v) }
  | .listener c o acc .acceptCommit, .retry => some { s with temple := .listener c o acc .accept }
  | .listener c o _ .acceptCommit, .acceptCommit =>
    if s.supplicantState = some .connected then
      some { s with temple := .listener c o true .none, templeState := some .connected }
    else none
  | .listener c o acc (.acceptWait _), .wake =>
    if s.event then some { s with temple := .listener c o acc .accept, event := false } else none
  | .listener c o _ .none, .disconnectBegin =>
    some { s with temple := .listener c o false .disconnect, templeState := some .disconnecting }
  | .listener c o acc .disconnect, .disconnectRead v =>
    some { s with temple := .listener c o acc (disconnectSwitch v) }
  | .listener c o acc (.disconnectCommit _), .retry =>
    some { s with temple := .listener c o acc .disconnect }
  | .listener c o _ (.disconnectCommit v), .disconnectCommit =>
    if s.supplicantState = v then
      some { s with
        temple := .ending c (regions.map fun g => (g, o.refs g)) false
        templeState := some .disconnected }
    else none
  | .listener c o acc (.disconnectWait _), .wake =>
    if s.event then some { s with temple := .listener c o acc .disconnect, event := false } else none
  | .listener c o acc call, .fail =>
    if call.waits = none then some { s with temple := .listener c o acc .none } else none
  | .ending c ((g, r :: rs) :: todo) failed, .endRef =>
    some { s.endAccess [r] with temple := .ending c ((g, rs) :: todo) (failed || r ∈ s.mapped) }
  | .ending c ((g, []) :: todo) failed, .endRegion =>
    some { s with
      temple := .ending c todo false
      freed := if failed then s.freed else s.freed ++ [(c, g)] }
  | .ending _ [] _, .endDone => some { s with temple := .idle }
  | _, _ => none

/-- A step of the peer. -/
def supplicantStep (s : State) : Supplicant → Act → Option State
  | .idle, .connectBegin => some { s with supplicant := .reading }
  | .reading, .connectRead v o =>
    some { s with supplicant := if v = some .listening then .mapping o regions else .idle }
  | .reading, .connectFail => some { s with supplicant := .idle }
  | .mapping o (g :: todo), .connectMap =>
    if ∀ r ∈ o.refs g, (s.granted r).isSome then
      some { s with supplicant := .mapping o todo, maps := s.maps ++ [(g, o.refs g)] }
    else none
  | .mapping o [], .connectCommit =>
    if s.templeState = some .listening ∧ s.offer = some o then
      some { s with
        supplicant := .connected o, supplicantState := some .connected, pending := true }
    else none
  | .mapping _ [], .connectRetry => some { s with supplicant := .undoing true }
  | .mapping _ _, .connectFail => some { s with supplicant := .undoing false }
  | .undoing again, .unmap => some { s with supplicant := .undoing again, maps := s.maps.tail }
  | .undoing again, .unmapped =>
    if s.maps = [] then some { s with supplicant := if again then .reading else .idle } else none
  | .connected o, .peerDisconnect => some { s with supplicant := .disconnecting o }
  | .disconnecting o, .unmap => some { s with supplicant := .disconnecting o, maps := s.maps.tail }
  | .disconnecting _, .unmapped =>
    if s.maps = [] then
      some { s with
        supplicant := .idle, supplicantState := some .disconnected, pending := true }
    else none
  | _, _ => none

def step (s : State) : Act → Option State
  | .watchFires => some { s with event := true, pending := false }
  | a => (templeStep s s.temple a).or (supplicantStep s s.supplicant a)

/-- Two ends that have not met; the toolstack may have written their states. -/
def machine : Machine State Act where
  init := {
    temple := .idle
    supplicant := .idle
    templeState := some .unready
    supplicantState := some .unready
    offer := none
    granted := fun _ => none
    maps := []
    freed := []
    channels := 0
    event := false
    pending := false }
  step := step

/-! ## The memory of a channel -/

/-- The rings of a channel are there, granted to the peer as the offer says. -/
structure Open (s : State) (c : Nat) (o : Offer) : Prop where
  lt : c < s.channels
  kept : ∀ g, (c, g) ∉ s.freed
  granted : ∀ g i r, (o.refs g)[i]? = some r → s.granted r = some ⟨c, g, i⟩

variable {s t : State} {c : Nat} {o : Offer}

theorem mem_regions (g : Region) : g ∈ regions := by cases g <;> decide

theorem Offer.mem_all {g : Region} {r : Ref} (h : r ∈ o.refs g) : r ∈ o.all :=
  List.mem_flatMap.mpr ⟨g, mem_regions g, h⟩

theorem Offer.place (h : o.all.Nodup) {g : Region} {i : Nat} {r : Ref}
    (hr : (o.refs g)[i]? = some r) :
    (regions.find? fun g => r ∈ o.refs g) = some g ∧ (o.refs g).idxOf r = i := by
  have hall : o.all = o.prodGrefs ++ (o.consGrefs ++ [o.controlGref]) := by
    simp [Offer.all, regions, Offer.refs]
  rw [hall] at h
  obtain ⟨hprod, hrest, hpr⟩ := List.nodup_append.mp h
  obtain ⟨hcons, hcontrol, hcc⟩ := List.nodup_append.mp hrest
  have hmem : r ∈ o.refs g := List.mem_of_getElem? hr
  have hnodup : (o.refs g).Nodup := by
    cases g
    · exact hprod
    · exact hcons
    · exact hcontrol
  constructor
  · cases g with
    | prod => simp [regions, show r ∈ o.prodGrefs from hmem, Offer.refs]
    | cons =>
      have h1 : r ∉ o.prodGrefs := fun hp =>
        hpr r hp r (List.mem_append_left _ hmem) rfl
      simp [regions, Offer.refs, h1, show r ∈ o.consGrefs from hmem]
    | control =>
      have h1 : r ∉ o.prodGrefs := fun hp =>
        hpr r hp r (List.mem_append_right _ hmem) rfl
      have h2 : r ∉ o.consGrefs := fun hp => hcc r hp r hmem rfl
      obtain rfl : r = o.controlGref := List.mem_singleton.mp hmem
      simp [regions, Offer.refs, h1, h2]
  · obtain ⟨hi, hr⟩ := List.getElem?_eq_some_iff.mp hr
    rw [← hr]
    exact hnodup.idxOf_getElem i hi

theorem granted_grant (h : o.all.Nodup) {g : Region} {i : Nat} {r : Ref}
    (hr : (o.refs g)[i]? = some r) : (s.grant c o).granted r = some ⟨c, g, i⟩ := by
  obtain ⟨hfind, hidx⟩ := Offer.place h hr
  simp only [State.grant, Offer.mem_all (List.mem_of_getElem? hr), if_true, hfind, Option.map_some, hidx]

theorem granted_grant_cases {r : Ref} {p : Page} (h : (s.grant c o).granted r = some p) :
    s.granted r = some p ∨ p.channel = c ∧ r ∈ o.refs p.region := by
  simp only [State.grant] at h
  split at h
  · obtain ⟨g, hg, rfl⟩ := Option.map_eq_some_iff.mp h
    exact .inr ⟨rfl, by simpa using List.find?_some hg⟩
  · exact .inl h

theorem granted_endAccess {refs : List Ref} {r : Ref} {p : Page} :
    (s.endAccess refs).granted r = some p ↔ s.granted r = some p ∧ (r ∈ refs → r ∈ s.mapped) := by
  simp only [State.endAccess]
  split
  · next hr => simpa [hr.1] using fun _ => hr.2
  · next hr =>
    rw [not_and_not_right] at hr
    simpa using fun _ => hr

theorem isSome_endAccess {refs : List Ref} {r : Ref} (hr : r ∈ s.mapped)
    (h : (s.granted r).isSome) : ((s.endAccess refs).granted r).isSome := by
  obtain ⟨p, hp⟩ := Option.isSome_iff_exists.mp h
  exact Option.isSome_iff_exists.mpr ⟨p, granted_endAccess.mpr ⟨hp, fun _ => hr⟩⟩

/-! ## Agreement -/

/-- No peer is connected, and none can connect. -/
structure Quiet (s : State) : Prop where
  temple : s.templeState ≠ some .listening
  supplicant : s.supplicantState ≠ some .connected

/-- A peer has come, and no other can connect. -/
structure Accepted (s : State) : Prop where
  temple : s.templeState = some .connected
  supplicant : s.supplicantState = some .connected ∨ s.supplicantState = some .disconnected

/-- Where the listener is, against the store and the grants. -/
def Temple.Ok (s : State) : Temple → Prop
  | .idle => Quiet s
  | .preparing c => Quiet s ∧ c < s.channels ∧ ∀ g, (c, g) ∉ s.freed
  | .granting c o => Quiet s ∧ Open s c o
  | .listener c o acc call => Open s c o ∧ (s.templeState = some .listening → s.offer = some o) ∧
    call ≠ .disconnectCommit (some .connected) ∧ (acc = true → Accepted s)
  | .ending c _ _ => Quiet s ∧ c < s.channels

/-- The peer's state node says that it is on the channel that the listener has. -/
def Joined (s : State) (o : Offer) : Prop :=
  s.supplicantState = some .connected ∧ ∃ c acc call, s.temple = .listener c o acc call

/-- Where the peer is, against what it has mapped. -/
def Supplicant.Ok (s : State) : Supplicant → Prop
  | .idle | .reading => s.maps = [] ∧ s.supplicantState ≠ some .connected
  | .mapping o todo => s.supplicantState ≠ some .connected ∧
    ∃ done, done ++ todo = regions ∧ s.maps = done.map fun g => (g, o.refs g)
  | .undoing _ => s.supplicantState ≠ some .connected
  | .connected o => s.maps = (regions.map fun g => (g, o.refs g)) ∧ Joined s o
  | .disconnecting o => Joined s o

structure Inv (s : State) : Prop where
  granted_lt : ∀ r p, s.granted r = some p → p.channel < s.channels
  freed_lt : ∀ f ∈ s.freed, f.1 < s.channels
  mapped : ∀ r ∈ s.mapped, (s.granted r).isSome
  temple : s.temple.Ok s
  supplicant : s.supplicant.Ok s

theorem Open.congr (h : Open s c o) (hc : t.channels = s.channels) (hf : t.freed = s.freed)
    (hg : t.granted = s.granted) : Open t c o :=
  ⟨hc ▸ h.lt, fun g => hf ▸ h.kept g, fun g i r hr => hg ▸ h.granted g i r hr⟩

theorem Supplicant.Ok.keep {p : Supplicant} (h : p.Ok s) (hm : t.maps = s.maps)
    (hss : t.supplicantState = s.supplicantState)
    (ht : ∀ c o acc call, s.temple = .listener c o acc call →
      s.supplicantState = some .connected → ∃ acc call, t.temple = .listener c o acc call) :
    p.Ok t := by
  have joined {o : Offer} (hj : Joined s o) : Joined t o := by
    obtain ⟨hc, c, acc, call, he⟩ := hj
    obtain ⟨acc', call', he'⟩ := ht c o acc call he hc
    exact ⟨hss.trans hc, c, acc', call', he'⟩
  cases p with
  | idle => exact ⟨hm.trans h.1, hss ▸ h.2⟩
  | reading => exact ⟨hm.trans h.1, hss ▸ h.2⟩
  | mapping o todo =>
    obtain ⟨hne, done, hd, he⟩ := h
    exact ⟨hss ▸ hne, done, hd, hm.trans he⟩
  | undoing again => exact fun he => h (hss.symm.trans he)
  | connected o => exact ⟨hm.trans h.1, joined h.2⟩
  | disconnecting o => exact joined h

theorem Inv.call (h : Inv s) {acc : Bool} {call : Call} (ht : s.temple = .listener c o acc call)
    (call' : Call) (hc : call' ≠ .disconnectCommit (some .connected)) (e : Bool) :
    Inv { s with temple := .listener c o acc call', event := e } := by
  have hok : Temple.Ok s (.listener c o acc call) := ht ▸ h.temple
  refine ⟨h.granted_lt, h.freed_lt, h.mapped, ⟨?_, hok.2.1, hc, fun ha => ?_⟩, ?_⟩
  · exact ⟨hok.1.lt, hok.1.kept, hok.1.granted⟩
  · exact ⟨(hok.2.2.2 ha).temple, (hok.2.2.2 ha).supplicant⟩
  · refine h.supplicant.keep rfl rfl fun c' o' acc' call' he _ => ?_
    obtain ⟨rfl, rfl, -, -⟩ := Temple.listener.inj (ht.symm.trans he)
    exact ⟨_, _, rfl⟩

theorem Inv.write (h : Inv s) {acc : Bool} {call : Call} (ht : s.temple = .listener c o acc call)
    {acc' : Bool} (v : Option EndpointState) (call' : Call)
    (hc : call' ≠ .disconnectCommit (some .connected)) (hv : v ≠ some .listening)
    (ha : acc' = true → v = some .connected ∧
      (s.supplicantState = some .connected ∨ s.supplicantState = some .disconnected)) :
    Inv { s with temple := .listener c o acc' call', templeState := v } := by
  have hok : Temple.Ok s (.listener c o acc call) := ht ▸ h.temple
  refine ⟨h.granted_lt, h.freed_lt, h.mapped, ⟨?_, fun he => absurd he hv, hc, fun he => ?_⟩, ?_⟩
  · exact ⟨hok.1.lt, hok.1.kept, hok.1.granted⟩
  · exact ⟨(ha he).1, (ha he).2⟩
  · refine h.supplicant.keep rfl rfl fun c' o' acc' call' he _ => ?_
    obtain ⟨rfl, rfl, -, -⟩ := Temple.listener.inj (ht.symm.trans he)
    exact ⟨_, _, rfl⟩

theorem acceptSwitch_ne (v : Option EndpointState) :
    acceptSwitch v ≠ .disconnectCommit (some .connected) := by
  rcases v with _ | v
  · exact nofun
  · cases v <;> exact nofun

theorem disconnectSwitch_ne (v : Option EndpointState) :
    disconnectSwitch v ≠ .disconnectCommit (some .connected) := by
  rcases v with _ | v
  · exact nofun
  · cases v <;> exact nofun

theorem Inv.quiet (h : Inv s) (ht : t.temple.Ok t) (hc : t.channels = s.channels)
    (hg : t.granted = s.granted ∨ ∃ refs, t.granted = (s.endAccess refs).granted)
    (hf : ∀ f ∈ t.freed, f ∈ s.freed ∨ f.1 < s.channels) (hp : t.supplicant = s.supplicant)
    (hm : t.maps = s.maps) (hss : t.supplicantState = s.supplicantState)
    (hne : s.supplicantState ≠ some .connected) : Inv t where
  granted_lt r p hr := by
    rw [hc]
    rcases hg with e | ⟨refs, e⟩
    · exact h.granted_lt r p (e ▸ hr)
    · exact h.granted_lt r p (granted_endAccess.mp (e ▸ hr)).1
  freed_lt f hf' := hc ▸ (hf f hf').elim (h.freed_lt f) id
  mapped r hr := by
    have hr : r ∈ s.mapped := by simpa only [State.mapped, hm] using hr
    rcases hg with e | ⟨refs, e⟩
    · exact e ▸ h.mapped r hr
    · exact e ▸ isSome_endAccess hr (h.mapped r hr)
  temple := ht
  supplicant := by
    rw [hp]
    exact h.supplicant.keep hm hss fun _ _ _ _ _ he => absurd he hne

theorem Inv.templeStep {a : Act} (h : Inv s) (hst : templeStep s s.temple a = some t) : Inv t := by
  have hok := h.temple
  unfold Handshake.templeStep at hst
  split at hst
  case h_1 he =>
    -- `listenBegin`: the number of the channel is new
    cases hst
    rw [he] at hok
    refine ⟨fun r p hr => Nat.lt_succ_of_lt (h.granted_lt r p hr),
      fun f hf => Nat.lt_succ_of_lt (h.freed_lt f hf), h.mapped, ?_, ?_⟩
    · exact ⟨⟨hok.temple, hok.supplicant⟩, Nat.lt_succ_self _, fun g hg =>
        absurd (h.freed_lt _ hg) (Nat.lt_irrefl _)⟩
    · exact h.supplicant.keep rfl rfl fun _ _ _ _ _ hc => absurd hc hok.supplicant
  case h_2 c o he =>
    -- `listenGrant`
    split at hst <;> cases hst
    next hfresh =>
    rw [he] at hok
    obtain ⟨hq, hlt, hkept⟩ := hok
    refine ⟨fun r p hr => ?_, h.freed_lt, fun r hr => ?_, ?_, ?_⟩
    · rcases granted_grant_cases hr with hr | ⟨rfl, -⟩
      · exact h.granted_lt r p hr
      · exact hlt
    · have hsome := h.mapped r hr
      have hr : r ∉ o.all := fun hm => by simp [hfresh.2 r hm] at hsome
      simpa only [State.grant, if_neg hr] using hsome
    · exact ⟨⟨hq.temple, hq.supplicant⟩, hlt, hkept, fun g i r hr => granted_grant hfresh.1 hr⟩
    · exact h.supplicant.keep rfl rfl fun _ _ _ _ _ hc => absurd hc hq.supplicant
  case h_3 c he =>
    cases hst
    rw [he] at hok
    exact h.quiet ⟨hok.1.temple, hok.1.supplicant⟩ rfl (.inl rfl)
      (fun f hf => (List.mem_append.mp hf).imp_right fun hf => by
        obtain ⟨g, -, rfl⟩ := List.mem_map.mp hf
        exact hok.2.1) rfl rfl rfl hok.1.supplicant
  case h_4 c o he =>
    -- `listenCommit`
    cases hst
    rw [he] at hok
    refine ⟨h.granted_lt, h.freed_lt, h.mapped, ⟨?_, fun _ => rfl, nofun, nofun⟩, ?_⟩
    · exact ⟨hok.2.lt, hok.2.kept, hok.2.granted⟩
    · exact h.supplicant.keep rfl rfl fun _ _ _ _ _ hc => absurd hc hok.1.supplicant
  case h_5 c o he =>
    cases hst
    rw [he] at hok
    exact h.quiet ⟨⟨hok.1.temple, hok.1.supplicant⟩, hok.2.lt, hok.2.kept⟩ rfl (.inr ⟨_, rfl⟩)
      (fun f hf => .inl hf) rfl rfl rfl hok.1.supplicant
  case h_6 c o he =>
    cases hst
    rw [he] at hok
    exact h.quiet ⟨hok.1.temple, hok.1.supplicant⟩ rfl (.inr ⟨_, rfl⟩)
      (fun f hf => (List.mem_append.mp hf).imp_right fun hf => by
        obtain ⟨g, -, rfl⟩ := List.mem_map.mp hf
        exact hok.2.lt) rfl rfl rfl hok.1.supplicant
  case h_7 c o acc he | h_9 c o acc he => cases hst; exact h.call he .accept nofun s.event
  case h_8 c o acc v he => cases hst; exact h.call he _ (acceptSwitch_ne v) s.event
  case h_10 c o acc he =>
    split at hst <;> cases hst
    next hss => exact h.write he _ .none nofun nofun fun _ => ⟨rfl, .inl hss⟩
  case h_11 c o acc v he =>
    split at hst <;> cases hst
    exact h.call he .accept nofun false
  case h_12 c o acc he =>
    cases hst
    exact h.write he _ .disconnect nofun nofun nofun
  case h_13 c o acc v he => cases hst; exact h.call he _ (disconnectSwitch_ne v) s.event
  case h_14 c o acc v he => cases hst; exact h.call he .disconnect nofun s.event
  case h_15 c o acc v he =>
    -- `disconnectCommit`: the state that was read still stands, and it is not `connected`
    split at hst <;> cases hst
    next hv =>
    rw [he] at hok
    have hne : s.supplicantState ≠ some .connected := fun hc => hok.2.2.1 (by rw [← hv, hc])
    exact h.quiet ⟨⟨nofun, hne⟩, hok.1.lt⟩ rfl (.inl rfl)
      (fun f hf => .inl hf) rfl rfl rfl hne
  case h_16 c o acc v he =>
    split at hst <;> cases hst
    exact h.call he .disconnect nofun false
  case h_17 c o acc call he =>
    split at hst <;> cases hst
    exact h.call he .none nofun s.event
  case h_18 c g r rs todo failed he =>
    cases hst
    rw [he] at hok
    exact h.quiet ⟨⟨hok.1.temple, hok.1.supplicant⟩, hok.2⟩ rfl (.inr ⟨_, rfl⟩)
      (fun f hf => .inl hf) rfl rfl rfl hok.1.supplicant
  case h_19 c g todo failed he =>
    cases hst
    rw [he] at hok
    refine h.quiet ⟨⟨hok.1.temple, hok.1.supplicant⟩, hok.2⟩ rfl (.inl rfl)
      (fun f hf => ?_) rfl rfl rfl hok.1.supplicant
    dsimp only at hf
    split at hf
    · exact .inl hf
    · refine (List.mem_append.mp hf).imp_right fun hf => ?_
      rw [List.mem_singleton.mp hf]
      exact hok.2
  case h_20 c failed he =>
    cases hst
    rw [he] at hok
    exact h.quiet ⟨hok.1.temple, hok.1.supplicant⟩ rfl (.inl rfl)
      (fun f hf => .inl hf) rfl rfl rfl hok.1.supplicant
  case h_21 => cases hst

/-- What the peer does not change. -/
def State.side (s : State) : Temple × Option EndpointState × Option Offer × Nat × List (Nat × Region) ×
    (Ref → Option Page) :=
  (s.temple, s.templeState, s.offer, s.channels, s.freed, s.granted)

theorem Temple.Ok.keep {p : Temple} (h : p.Ok s) (hside : t.side = s.side)
    (hss : t.supplicantState = s.supplicantState ∨ t.supplicantState = some .disconnected ∨
      s.templeState = some .listening) : p.Ok t := by
  simp only [State.side, Prod.mk.injEq] at hside
  obtain ⟨-, hts, ho, hc, hf, hg⟩ := hside
  have quiet (hq : Quiet s) : Quiet t := by
    refine ⟨hts ▸ hq.temple, ?_⟩
    rcases hss with e | e | e
    · exact e ▸ hq.supplicant
    · exact e ▸ nofun
    · exact absurd e hq.temple
  have accepted (ha : Accepted s) : Accepted t := by
    refine ⟨hts ▸ ha.temple, ?_⟩
    rcases hss with e | e | e
    · exact e ▸ ha.supplicant
    · exact .inr e
    · exact absurd (ha.temple.symm.trans e) nofun
  cases p with
  | idle => exact quiet h
  | preparing c => exact ⟨quiet h.1, hc ▸ h.2.1, fun g => hf ▸ h.2.2 g⟩
  | granting c o => exact ⟨quiet h.1, h.2.congr hc hf hg⟩
  | listener c o acc call =>
    exact ⟨h.1.congr hc hf hg, fun he => ho.trans (h.2.1 (hts.symm.trans he)), h.2.2.1,
      fun ha => accepted (h.2.2.2 ha)⟩
  | ending c todo failed => exact ⟨quiet h.1, hc ▸ h.2⟩

theorem Inv.peer (h : Inv s) (hp : t.supplicant.Ok t) (hside : t.side = s.side)
    (hm : ∀ r ∈ t.mapped, r ∈ s.mapped ∨ (s.granted r).isSome)
    (hss : t.supplicantState = s.supplicantState ∨ t.supplicantState = some .disconnected ∨
      s.templeState = some .listening) : Inv t := by
  have htemple : s.temple.Ok t := h.temple.keep hside hss
  simp only [State.side, Prod.mk.injEq] at hside
  obtain ⟨ht, -, -, hc, hf, hg⟩ := hside
  exact ⟨fun r p hr => hc ▸ h.granted_lt r p (hg ▸ hr), fun f hf' => hc ▸ h.freed_lt f (hf ▸ hf'),
    fun r hr => hg ▸ (hm r hr).elim (h.mapped r) id, ht ▸ htemple, hp⟩

theorem mem_mapped_tail {r : Ref} (h : r ∈ s.maps.tail.flatMap (·.2)) : r ∈ s.mapped := by
  obtain ⟨m, hm, hr⟩ := List.mem_flatMap.mp h
  exact List.mem_flatMap.mpr ⟨m, List.mem_of_mem_tail hm, hr⟩

theorem Inv.supplicantStep {a : Act} (h : Inv s) (hst : supplicantStep s s.supplicant a = some t) :
    Inv t := by
  have hok := h.supplicant
  unfold Handshake.supplicantStep at hst
  split at hst
  case h_1 he | h_3 he =>
    cases hst
    rw [he] at hok
    exact h.peer ⟨hok.1, hok.2⟩ rfl (fun _ hr => .inl hr) (.inl rfl)
  case h_2 v o he =>
    cases hst
    rw [he] at hok
    refine h.peer ?_ rfl (fun _ hr => .inl hr) (.inl rfl)
    dsimp only
    split
    · exact ⟨hok.2, [], rfl, hok.1⟩
    · exact ⟨hok.1, hok.2⟩
  case h_4 o g todo he =>
    split at hst <;> cases hst
    next hgranted =>
    rw [he] at hok
    obtain ⟨hne, done, hd, hm⟩ := hok
    refine h.peer ⟨hne, done ++ [g], by simpa using hd, ?_⟩ rfl
      (fun r hr => ?_) (.inl rfl)
    · simp [hm]
    · simp only [State.mapped, List.flatMap_append, List.mem_append, List.flatMap_cons,
        List.flatMap_nil, List.append_nil] at hr
      exact hr.imp_right (hgranted r)
  case h_5 o he =>
    -- `connectCommit`: the listener's state and its offer are still what was read
    split at hst <;> cases hst
    next hread =>
    rw [he] at hok
    obtain ⟨-, done, hd, hm⟩ := hok
    rw [List.append_nil] at hd
    subst hd
    refine h.peer ⟨hm, rfl, ?_⟩ rfl (fun _ hr => .inl hr)
      (.inr (.inr hread.1))
    have htemple := h.temple
    cases ht : s.temple with
    | listener c o' acc call =>
      rw [ht] at htemple
      obtain rfl : o = o' := Option.some.inj (hread.2.symm.trans (htemple.2.1 hread.1))
      exact ⟨c, acc, call, rfl⟩
    | idle => rw [ht] at htemple; exact absurd hread.1 htemple.temple
    | preparing c => rw [ht] at htemple; exact absurd hread.1 htemple.1.temple
    | granting c o => rw [ht] at htemple; exact absurd hread.1 htemple.1.temple
    | ending c todo failed => rw [ht] at htemple; exact absurd hread.1 htemple.1.temple
  case h_6 | h_7 =>
    rename_i he
    cases hst
    rw [he] at hok
    exact h.peer hok.1 rfl (fun _ hr => .inl hr) (.inl rfl)
  case h_8 | h_11 =>
    rename_i he
    cases hst
    rw [he] at hok
    exact h.peer hok rfl (fun _ hr => .inl (mem_mapped_tail hr)) (.inl rfl)
  case h_9 again he =>
    split at hst <;> cases hst
    next hm =>
    rw [he] at hok
    refine h.peer ?_ rfl (fun _ hr => .inl hr) (.inl rfl)
    cases again <;> exact ⟨hm, hok⟩
  case h_10 o he =>
    cases hst
    rw [he] at hok
    exact h.peer hok.2 rfl (fun _ hr => .inl hr) (.inl rfl)
  case h_12 o he =>
    split at hst <;> cases hst
    next hm =>
    exact h.peer ⟨hm, nofun⟩ rfl (fun _ hr => .inl hr)
      (.inr (.inl rfl))
  case h_13 => cases hst

theorem step_cases {a : Act} (h : step s a = some t) :
    templeStep s s.temple a = some t ∨ supplicantStep s s.supplicant a = some t ∨
      t = { s with event := true, pending := false } := by
  cases a with
  | watchFires => exact .inr (.inr (Option.some.inj h).symm)
  | _ => exact (Option.or_eq_some_iff.mp h).imp_right fun h => .inl h.2

theorem Inv.step {a : Act} (h : Inv s) (hst : step s a = some t) : Inv t := by
  rcases step_cases hst with hst | hst | rfl
  · exact h.templeStep hst
  · exact h.supplicantStep hst
  · exact h.peer (h.supplicant.keep rfl rfl fun c o acc call he _ => ⟨acc, call, he⟩) rfl
      (fun _ hr => .inl hr) (.inl rfl)

theorem inv_init : Inv machine.init where
  granted_lt := nofun
  freed_lt := nofun
  mapped := nofun
  temple := ⟨nofun, nofun⟩
  supplicant := ⟨rfl, nofun⟩

/-- The rings of a listener and of the peer on its channel are the same memory, which stays granted
and allocated. The peer's node says so, and while it does the listener keeps the channel; a listener
that has accepted its peer is not left for another. -/
structure Agree (s : State) : Prop where
  rings : ∀ o, s.supplicant = .connected o → s.supplicantState = some .connected ∧
    (s.maps = regions.map fun g => (g, o.refs g)) ∧
    ∃ c acc call, s.temple = .listener c o acc call ∧ ∀ g i r, (o.refs g)[i]? = some r →
      s.granted r = some ⟨c, g, i⟩ ∧ (c, g) ∉ s.freed
  channel : s.supplicantState = some .connected → ∃ o, s.supplicant.offer? = some o ∧
    ∃ c acc call, s.temple = .listener c o acc call
  accepted : ∀ c o call, s.temple = .listener c o true call → Accepted s

theorem Inv.agree (h : Inv s) : Agree s := by
  have htemple := h.temple
  have hpeer := h.supplicant
  refine ⟨fun o he => ?_, fun hss => ?_, fun c o call he => ?_⟩
  · rw [he] at hpeer
    obtain ⟨hm, hss, c, acc, call, ht⟩ := hpeer
    rw [ht] at htemple
    exact ⟨hss, hm, c, acc, call, ht, fun g i r hr => ⟨htemple.1.granted g i r hr, htemple.1.kept g⟩⟩
  · cases hp : s.supplicant with
    | idle => rw [hp] at hpeer; exact absurd hss hpeer.2
    | reading => rw [hp] at hpeer; exact absurd hss hpeer.2
    | mapping o todo => rw [hp] at hpeer; exact absurd hss hpeer.1
    | undoing again => rw [hp] at hpeer; exact absurd hss hpeer
    | connected o => rw [hp] at hpeer; exact ⟨o, rfl, hpeer.2.2⟩
    | disconnecting o => rw [hp] at hpeer; exact ⟨o, rfl, hpeer.2⟩
  · rw [he] at htemple
    exact htemple.2.2.2 rfl

theorem inv_reach (h : machine.Reach Machine.Any s) : Inv s :=
  h.inv inv_init fun _ _ _ hi _ hst => hi.step hst

/-- Whatever is read, and however their steps interleave, the two ends of a channel agree. -/
theorem endpoints_agree (h : machine.Reach Machine.Any s) : Agree s := (inv_reach h).agree

/-- Rings of one page. -/
def smallOffer : Offer := ⟨[8], [9], 10, 1, 2⟩

/-- A channel is made, and accepted when its peer has come. -/
def accepting : List Act :=
  [.listenBegin, .listenGrant smallOffer, .listenCommit, .acceptBegin, .acceptRead (some .unready),
    .connectBegin, .connectRead (some .listening) smallOffer, .connectMap, .connectMap, .connectMap,
    .connectCommit, .watchFires, .wake, .acceptRead (some .connected), .acceptCommit]

theorem endpoints_agree_accepted : ∃ s, (machine.Reach Machine.Any s ∧
    (s.supplicant.offer? == some smallOffer && s.templeState == some .connected) = true) ∧ Agree s := by
  obtain ⟨s, hs, hp⟩ := Machine.exists_reach machine Machine.Any
    (fun s => s.supplicant.offer? == some smallOffer && s.templeState == some .connected) accepting
    (by decide)
  exact ⟨s, ⟨hs, hp⟩, endpoints_agree hs⟩

/-! ## Memory -/

/-- A listen is not undone while the peer has one of its references mapped, from an earlier channel
that used the same number. -/
def Fits (s : State) (a : Act) : Prop :=
  match s.temple, a with
  | .granting _ o, .listenRetry | .granting _ o, .listenFail => ∀ r ∈ o.all, r ∉ s.mapped
  | _, _ => True

instance (s : State) (a : Act) : Decidable (Fits s a) := by
  unfold Fits
  split <;> infer_instance

/-- Which references grant the rings of the channel the listener has. -/
def Temple.Owns (s : State) : Temple → Prop
  | .idle => True
  | .preparing c => ∀ r p, s.granted r = some p → p.channel ≠ c
  | .granting c o | .listener c o _ _ => ∀ r p, s.granted r = some p → p.channel = c →
    r ∈ o.refs p.region
  | .ending c todo failed => (todo.map (·.1)).Nodup ∧ ∀ m ∈ todo, ∀ r p, s.granted r = some p →
    p.channel = c → p.region = m.1 → r ∈ m.2 ∨ failed = true ∧ todo.head? = some m

/-- What is granted is allocated. -/
structure Safe (s : State) : Prop where
  inv : Inv s
  kept : ∀ r p, s.granted r = some p → (p.channel, p.region) ∉ s.freed
  owns : s.temple.Owns s

theorem owns_tail {m : Region × List Ref} {todo : List (Region × List Ref)} {failed : Bool}
    (h : (Temple.ending c (m :: todo) failed).Owns s) {m' : Region × List Ref} (hm : m' ∈ todo) {r : Ref}
    {p : Page} (hr : s.granted r = some p) (hp : p.channel = c) (hg : p.region = m'.1) : r ∈ m'.2 := by
  rcases h.2 m' (.tail _ hm) r p hr hp hg with hr | ⟨-, hhead⟩
  · exact hr
  · obtain rfl := Option.some.inj hhead
    exact absurd (List.mem_map_of_mem hm) (List.nodup_cons.mp h.1).1

theorem Inv.preparing (h : Inv s) (he : s.temple = .preparing c) : ∀ g, (c, g) ∉ s.freed := by
  have hok := h.temple
  rw [he] at hok
  exact hok.2.2

theorem Safe.templeStep {a : Act} (h : Safe s) (ok : Fits s a)
    (hst : templeStep s s.temple a = some t) : Safe t := by
  have hi := h.inv.templeStep hst
  have hkept := h.kept
  have howns := h.owns
  unfold Handshake.templeStep at hst
  split at hst
  case h_1 he =>
    cases hst
    exact ⟨hi, hkept, fun r p hr => Nat.ne_of_lt (h.inv.granted_lt r p hr)⟩
  case h_2 c o he =>
    split at hst <;> cases hst
    rw [he] at howns
    refine ⟨hi, fun r p hr => ?_, fun r p hr hp => ?_⟩
    · rcases granted_grant_cases hr with hr | ⟨rfl, -⟩
      · exact hkept r p hr
      · exact h.inv.preparing he p.region
    · rcases granted_grant_cases hr with hr | ⟨-, hr⟩
      · exact absurd hp (howns r p hr)
      · exact hr
  case h_3 c he =>
    cases hst
    rw [he] at howns
    refine ⟨hi, fun r p hr hf => ?_, trivial⟩
    rcases List.mem_append.mp hf with hf | hf
    · exact hkept r p hr hf
    · obtain ⟨g, -, hg⟩ := List.mem_map.mp hf
      exact howns r p hr (Prod.ext_iff.mp hg).1.symm
  case h_4 c o he =>
    cases hst
    rw [he] at howns
    exact ⟨hi, hkept, howns⟩
  case h_5 c o he =>
    cases hst
    rw [he] at howns
    simp only [Fits, he] at ok
    refine ⟨hi, fun r p hr => hkept r p (granted_endAccess.mp hr).1, fun r p hr hp => ?_⟩
    obtain ⟨hr, hm⟩ := granted_endAccess.mp hr
    have hall := Offer.mem_all (howns r p hr hp)
    exact ok r hall (hm hall)
  case h_6 c o he =>
    cases hst
    rw [he] at howns
    simp only [Fits, he] at ok
    refine ⟨hi, fun r p hr hf => ?_, trivial⟩
    obtain ⟨hr, hm⟩ := granted_endAccess.mp hr
    rcases List.mem_append.mp hf with hf | hf
    · exact hkept r p hr hf
    · obtain ⟨g, -, hg⟩ := List.mem_map.mp hf
      have hall := Offer.mem_all (howns r p hr (Prod.ext_iff.mp hg).1.symm)
      exact ok r hall (hm hall)
  case h_15 c o acc v he =>
    split at hst <;> cases hst
    rw [he] at howns
    refine ⟨hi, hkept, by simp [regions], fun m hm r p hr hp hg => .inl ?_⟩
    obtain ⟨g, -, rfl⟩ := List.mem_map.mp hm
    have hr := howns r p hr hp
    rwa [hg] at hr
  case h_18 c g r rs todo failed he =>
    cases hst
    rw [he] at howns
    refine ⟨hi, fun r p hr => hkept r p (granted_endAccess.mp hr).1, howns.1, fun m hm r' p hr hp hg => ?_⟩
    obtain ⟨hr, hmapped⟩ := granted_endAccess.mp hr
    rcases List.mem_cons.mp hm with rfl | hm
    · rcases howns.2 (g, r :: rs) (.head _) r' p hr hp hg with hr' | ⟨hf, -⟩
      · rcases List.mem_cons.mp hr' with rfl | hr'
        · exact .inr ⟨by simp [hmapped (.head _)], rfl⟩
        · exact .inl hr'
      · exact .inr ⟨by simp [hf], rfl⟩
    · exact .inl (owns_tail howns hm hr hp hg)
  case h_19 c g todo failed he =>
    cases hst
    rw [he] at howns
    refine ⟨hi, fun r p hr hf => ?_, (List.nodup_cons.mp howns.1).2, fun m hm r p hr hp hg =>
      .inl (owns_tail howns hm hr hp hg)⟩
    dsimp only at hf
    split at hf
    · exact hkept r p hr hf
    · next hok =>
      rcases List.mem_append.mp hf with hf | hf
      · exact hkept r p hr hf
      · have hf := Prod.ext_iff.mp (List.mem_singleton.mp hf)
        rcases howns.2 (g, []) (.head _) r p hr hf.1 hf.2 with hr | ⟨hf, -⟩
        · cases hr
        · exact hok hf
  case h_20 c failed he => cases hst; exact ⟨hi, hkept, trivial⟩
  case h_21 => cases hst
  -- the listener goes on with the same channel
  all_goals
    rename_i he
    rw [he] at howns
    first
    | cases hst; exact ⟨hi, hkept, howns⟩
    | split at hst <;> cases hst; exact ⟨hi, hkept, howns⟩

theorem supplicantStep_frame {a : Act} (h : supplicantStep s s.supplicant a = some t) :
    t.temple = s.temple ∧ t.granted = s.granted ∧ t.freed = s.freed := by
  unfold Handshake.supplicantStep at h
  split at h
  case h_13 => cases h
  all_goals first
    | cases h; exact ⟨rfl, rfl, rfl⟩
    | split at h <;> cases h; exact ⟨rfl, rfl, rfl⟩

theorem Safe.step {a : Act} (h : Safe s) (ok : Fits s a) (hst : step s a = some t) : Safe t := by
  have hi := h.inv.step hst
  rcases step_cases hst with hst | hst | rfl
  · exact h.templeStep ok hst
  · obtain ⟨ht, hg, hf⟩ := supplicantStep_frame hst
    refine ⟨hi, fun r p hr => hf ▸ h.kept r p (hg ▸ hr), ?_⟩
    have howns := h.owns
    rw [ht]
    cases he : s.temple with
    | idle => trivial
    | _ =>
      rw [he] at howns
      simpa only [Temple.Owns, hg] using howns
  · exact ⟨hi, h.kept, h.owns⟩

/-- What the peer has mapped, or may still map, is memory that the listener has not freed. -/
theorem channel_memory_kept (h : machine.Reach Fits s) :
    (∀ r ∈ s.mapped, (s.granted r).isSome) ∧
      ∀ r p, s.granted r = some p → (p.channel, p.region) ∉ s.freed := by
  have hs : Safe s := h.inv ⟨inv_init, nofun, trivial⟩ fun _ _ _ hi ok hst => hi.step ok hst
  exact ⟨hs.inv.mapped, hs.kept⟩

/-- The peer leaves, and the listener gives all three rings back. -/
def leaving : List Act :=
  [.disconnectBegin, .disconnectRead (some .connected), .peerDisconnect, .unmap, .unmap, .unmap, .unmapped,
    .watchFires, .wake, .disconnectRead (some .disconnected), .disconnectCommit, .endRef, .endRegion,
    .endRef, .endRegion, .endRef, .endRegion]

theorem channel_memory_kept_left : ∃ s, (machine.Reach Fits s ∧
    (s.freed == regions.map (0, ·)) = true) ∧ (∀ r ∈ s.mapped, (s.granted r).isSome) ∧
      ∀ r p, s.granted r = some p → (p.channel, p.region) ∉ s.freed := by
  obtain ⟨s, hs, hp⟩ := Machine.exists_reach machine Fits (fun s => s.freed == regions.map (0, ·))
    (accepting ++ leaving) (by decide)
  exact ⟨s, ⟨hs, hp⟩, channel_memory_kept hs⟩

end XcWindows.V2v.Handshake
