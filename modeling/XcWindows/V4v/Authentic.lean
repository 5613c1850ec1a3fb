import XcWindows.V4v.Listener

/-!
# Source authentication

Which messages `V4vProcessListenerReads` passes to which accepted context, for any content of the
ring and any set of contexts. The lookup takes the first ACCEPTED context with the connection id of
the message, and the comparison with the recorded peer that should follow compares two pointers, so
that the source is never looked at. A turn is `Authentic` exactly when the context found is the one
of the message's peer (`FirstIsPeer`).
-/

namespace XcWindows.V4v

open Lib

/-- The message comes from the recorded peer, on the connection of the context. -/
def Peer (w : World) (c : Nat) (src : Addr) (sh : Stream) : Prop :=
  (w.ctx c).sdst = src ∧ (w.ctx c).connId = sh.conid

/-- An ACCEPTED context of this listener. -/
def AcceptedHere (w : World) (c : Nat) : Prop :=
  c ∈ w.contextList ∧ (w.ctx c).state = .accepted ∧ (w.ctx c).type = .accepter ∧
    (w.ctx c).ringObject = (w.ctx w.listener).ringObject

def Stream.isData (sh : Stream) : Prop := sh.syn = false ∧ sh.rst = false

/-- What the second read of a SYN in the PASSIVE state finds. -/
def behindSyn (w : World) : Peek := peekStream ((consume w w.listener).ringOf w.listener)

/-- The turn only disconnects a context, or passes it a message, for its own peer, and a data message
it takes from the ring goes to the context it belongs to. -/
structure Authentic (w : World) (passive : Bool) : Prop where
  disconnects : ∀ c src sh, listenerDecision w = .disconnect c src sh → Peer w c src sh
  /-- the message is read from the ring of the accepter -/
  delivers : ∀ c src sh dlen, listenerDecision w = .data c src sh dlen →
    ∃ src' sh' dlen', peekStream (w.ringOf c) = .stream src' sh' dlen' ∧ Peer w c src' sh'
  delivered : ∀ src sh dlen, peekStream (w.ringOf w.listener) = .stream src sh dlen → sh.isData →
    ∀ c, AcceptedHere w c → Peer w c src sh → listenerDecision w = .data c src sh dlen
  skipped : ∀ src sh src' sh' dlen', listenerDecision w = .syn src sh → passive = true →
    behindSyn w = .stream src' sh' dlen' → sh'.isData →
    ∀ c, AcceptedHere w c → ¬ Peer w c src' sh'

/-- The first accepted context with the connection id of the message is the one of its peer. -/
def FirstIsPeer (w : World) (passive : Bool) : Prop :=
  ∀ src sh dlen, peekStream (w.ringOf w.listener) = .stream src sh dlen →
    if sh.syn then
      passive = true → ∀ src' sh' dlen', behindSyn w = .stream src' sh' dlen' → sh'.isData →
        ∀ c, AcceptedHere w c → ¬ Peer w c src' sh'
    else
      ∀ c, v4vGetContextByConnectionId w sh.conid = some c →
        if sh.rst then (w.ctx c).sdst = src
        else
          (∃ src' sh' dlen', peekStream (w.ringOf c) = .stream src' sh' dlen' ∧ Peer w c src' sh') ∧
          ∀ c', AcceptedHere w c' → Peer w c' src sh → c' = c

theorem peekStream_done {r : Ring} (h : r.rxPtr = r.txPtr) : peekStream r = .unreadable := by
  have hb : v4vRingBytesToRead r = 0 := by
    simp only [v4vRingBytesToRead, h, sub32]; split <;> omega
  have hh : v4vHeader r = none := by simp [v4vHeader, hb, headerSize]
  simp [peekStream, v4vCopyOut, hh]

theorem addrComparePtr_false (c : Nat) : xenv4vAddrComparePtr (.sdst c) .src = false := rfl

theorem listenerDecision_stream {w : World} {src : Addr} {sh : Stream} {dlen : Nat}
    (h : peekStream (w.ringOf w.listener) = .stream src sh dlen) :
    listenerDecision w =
      if sh.syn then .syn src sh
      else
        match v4vGetContextByConnectionId w sh.conid with
        | none => .unknown src sh
        | some actx => if sh.rst then .disconnect actx src sh else .data actx src sh dlen := by
  have hne : ¬ (w.ringOf w.listener).rxPtr = (w.ringOf w.listener).txPtr := by
    intro e; rw [peekStream_done e] at h; cases h
  simp only [listenerDecision, if_neg hne, h, addrComparePtr_false]
  rfl

theorem listenerDecision_peek {w : World} :
    (∃ src sh dlen, peekStream (w.ringOf w.listener) = .stream src sh dlen) ∨
      listenerDecision w = .done ∨ listenerDecision w = .recover ∨ listenerDecision w = .drop := by
  by_cases e : (w.ringOf w.listener).rxPtr = (w.ringOf w.listener).txPtr
  · right; left; simp [listenerDecision, e]
  · cases hp : peekStream (w.ringOf w.listener) with
    | unreadable => right; right; left; simp [listenerDecision, e, hp]
    | notStream => right; right; right; simp [listenerDecision, e, hp]
    | stream src sh dlen => exact .inl ⟨src, sh, dlen, rfl⟩

theorem getContext_some {w : World} {connId c : Nat}
    (h : v4vGetContextByConnectionId w connId = some c) :
    c ∈ w.contextList ∧ (w.ctx c).state = .accepted ∧ (w.ctx c).type = .accepter ∧
      (w.ctx c).connId = connId := by
  refine ⟨List.mem_of_find?_eq_some h, ?_⟩
  simpa using List.find?_some h

theorem getContext_none {w : World} {connId c : Nat}
    (h : v4vGetContextByConnectionId w connId = none) (hc : AcceptedHere w c) :
    (w.ctx c).connId ≠ connId := by
  intro e
  have := List.find?_eq_none.mp h c hc.1
  simp [hc.2.1, hc.2.2.1, e] at this

theorem authentic_iff (w : World) (passive : Bool) : Authentic w passive ↔ FirstIsPeer w passive := by
  constructor
  · intro h src sh dlen hp
    have hd := listenerDecision_stream hp
    split
    · next hs =>
      rw [if_pos hs] at hd
      exact fun hpass src' sh' dlen' hb => h.skipped src sh src' sh' dlen' hd hpass hb
    · next hs =>
      rw [if_neg hs] at hd
      intro c hc
      simp only [hc] at hd
      split
      · next hr =>
        rw [if_pos hr] at hd
        exact (h.disconnects c src sh hd).1
      · next hr =>
        rw [if_neg hr] at hd
        refine ⟨h.delivers c src sh dlen hd, fun c' hc' hpeer => ?_⟩
        have := h.delivered src sh dlen hp ⟨by simpa using hs, by simpa using hr⟩ c' hc' hpeer
        rw [hd] at this
        injection this with e
        exact e.symm
  · intro h
    rcases listenerDecision_peek (w := w) with ⟨src, sh, dlen, hp⟩ | hdone | hrec | hdrop
    · have hd := listenerDecision_stream hp
      have hf := h src sh dlen hp
      by_cases hs : sh.syn
      · rw [if_pos hs] at hd hf
        refine ⟨?_, ?_, ?_, ?_⟩
        · intro c src' sh' e; rw [hd] at e; cases e
        · intro c src' sh' dlen' e; rw [hd] at e; cases e
        · intro src' sh' dlen' e hdata
          rw [hp] at e; cases e
          rw [hdata.1] at hs; cases hs
        · intro _ _ src' sh' dlen' _ hpass hb
          exact hf hpass src' sh' dlen' hb
      · rw [if_neg hs] at hd hf
        cases hg : v4vGetContextByConnectionId w sh.conid with
        | none =>
          simp only [hg] at hd
          refine ⟨?_, ?_, ?_, ?_⟩
          · intro c src' sh' e; rw [hd] at e; cases e
          · intro c src' sh' dlen' e; rw [hd] at e; cases e
          · intro src' sh' dlen' e _ c hc hpeer
            rw [hp] at e; cases e
            exact absurd hpeer.2 (getContext_none hg hc)
          · intro _ _ _ _ _ e; rw [hd] at e; cases e
        | some c =>
          simp only [hg] at hd
          have hf := hf c hg
          by_cases hr : sh.rst
          · rw [if_pos hr] at hd hf
            refine ⟨?_, ?_, ?_, ?_⟩
            · intro c' src' sh' e
              rw [hd] at e; cases e
              exact ⟨hf, (getContext_some hg).2.2.2⟩
            · intro c' src' sh' dlen' e; rw [hd] at e; cases e
            · intro src' sh' dlen' e hdata
              rw [hp] at e; cases e
              rw [hdata.2] at hr; cases hr
            · intro _ _ _ _ _ e; rw [hd] at e; cases e
          · rw [if_neg hr] at hd hf
            refine ⟨?_, ?_, ?_, ?_⟩
            · intro c' src' sh' e; rw [hd] at e; cases e
            · intro c' src' sh' dlen' e; rw [hd] at e; cases e; exact hf.1
            · intro src' sh' dlen' e _ c' hc' hpeer
              rw [hp] at e; cases e
              rw [hf.2 c' hc' hpeer]; exact hd
            · intro _ _ _ _ _ e; rw [hd] at e; cases e
    all_goals
      have hp : ∀ src sh dlen, peekStream (w.ringOf w.listener) ≠ .stream src sh dlen := by
        intro src sh dlen hp
        have hd := listenerDecision_stream hp
        simp only [*] at hd
        split at hd
        · cases hd
        · split at hd
          · cases hd
          · split at hd <;> cases hd
      refine ⟨?_, ?_, ?_, ?_⟩
      · intro c src' sh' e; simp only [*] at e; cases e
      · intro c src' sh' dlen' e; simp only [*] at e; cases e
      · intro src' sh' dlen' e; exact absurd e (hp _ _ _)
      · intro _ _ _ _ _ e; simp only [*] at e; cases e

/-- Every turn of `V4vProcessListenerReads` is authentic exactly when each of its messages finds the
context of its peer first, for any ring content and any contexts. -/
theorem listener_authenticates (passive : Bool) (envs : List Env) (w : World) :
    (∀ t ∈ (v4vProcessListenerReads passive envs w).1, Authentic t.before passive) ↔
      ∀ t ∈ (v4vProcessListenerReads passive envs w).1, FirstIsPeer t.before passive :=
  forall₂_congr fun t _ => authentic_iff t.before passive

/-- Context 1 is connected to port 5 of domain 3 with connection id 7, and waits for data; the ring
of the listener 0 holds a message for connection 7 from port 9 of domain 4. -/
def strangerWorld : World where
  rings _ := xenPut ⟨64, 0, 0, fun _ => 0⟩ ⟨⟨9, 4⟩, v4vProtoStream, [0, 0, 0, 0, 7, 0, 0, 0, 65]⟩
  ctx c :=
    if c = 1 then ⟨.accepted, .accepter, 0, ⟨5, 3⟩, 7, false, []⟩
    else ⟨.listening, .listener, 0, ⟨0, 0⟩, 0, false, []⟩
  contextList := [1, 0]
  irps := [⟨0, 1, 16, false⟩]
  listener := 0
  backlog := 1
  syns := []
  accepts := []
  completed := []
  resets := []
  assertFailed := false

theorem listener_accepts_stranger :
    ¬ (∀ t ∈ (v4vProcessListenerReads false [⟨true, []⟩] strangerWorld).1, Authentic t.before false) ∧
      (v4vProcessListenerReads false [⟨true, []⟩] strangerWorld).1.map (·.after.completed) =
        [[⟨⟨0, 1, 16, false⟩, .success, 1, [65]⟩]] := by
  have hd : listenerDecision strangerWorld = .data 1 ⟨9, 4⟩ ⟨0, 7⟩ 9 := by decide +kernel
  have hp : peekStream (strangerWorld.ringOf 1) = .stream ⟨9, 4⟩ ⟨0, 7⟩ 9 := by decide +kernel
  refine ⟨fun h => ?_, by decide +kernel⟩
  have ha := h ⟨strangerWorld, _, _⟩ (by
    simp only [v4vProcessListenerReads, hd, listenerApply]; exact List.mem_cons_self)
  obtain ⟨src, sh, dlen, hs, hpeer⟩ := ha.delivers 1 ⟨9, 4⟩ ⟨0, 7⟩ 9 hd
  rw [hp] at hs
  cases hs
  exact absurd hpeer.1 (by decide +kernel)

end XcWindows.V4v
