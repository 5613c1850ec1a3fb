import XcWindows.Lib.Links

/-!
# Retransmission of XenStore requests

`reset_requests` of `xenutil/xenbus.c`, which runs after a resume: the pending list is taken apart,
request by request, into a list of those that have their reply and a list of those that have not,
and the second is spliced behind the first. The requests are records in memory, linked by raw
pointers; `none` is `NULL`.
-/

namespace XcWindows.Xenbus.Reset

open XcWindows.Lib

/-- `struct xenbus_pending_req`, with the addresses of its segments. -/
structure PendingReq where
  next : Option Nat
  prev : Option Nat
  txIo : Nat
  nextTxSeg : Option Nat
  txSgOff : Nat
  xenbusReplied : Bool
deriving DecidableEq

structure State where
  /-- the memory the requests are in -/
  req : Nat → PendingReq
  headPendingXenbusReq : Option Nat
  tailPendingXenbusReq : Option Nat
  currentTxReq : Option Nat
  currentRxReq : Option Nat

/-- `head_comp` and `tail_comp`, or `head_incomp` and `tail_incomp`. -/
structure Ends where
  head : Option Nat
  tail : Option Nat
deriving DecidableEq

namespace State

variable (s : State)

def next (p : Nat) : Option Nat := (s.req p).next

def prev (p : Nat) : Option Nat := (s.req p).prev

def set (p : Nat) (r : PendingReq) : State := { s with req := Function.update s.req p r }

def setNext (p : Nat) (next : Option Nat) : State := s.set p { s.req p with next }

def setPrev (p : Nat) (prev : Option Nat) : State := s.set p { s.req p with prev }

/-- Put the request behind the tail of one of the two lists. -/
def link (l : Ends) (p : Nat) : State × Ends :=
  let s := s.setPrev p l.tail
  match l.tail with
  | some t => (s.setNext t (some p), ⟨l.head, some p⟩)
  | none => (s, ⟨some p, some p⟩)

/-- `next_tx_seg = tx_io` and `tx_sg_off = 0` -/
def resetTransmission (p : Nat) : State :=
  s.set p { s.req p with nextTxSeg := some (s.req p).txIo, txSgOff := 0 }

/-- The body of the loop, once `n` is read. -/
def resetPass (comp incomp : Ends) (p : Nat) : State × Ends × Ends :=
  let s := s.setNext p none
  if (s.req p).xenbusReplied then
    let (s, comp) := s.link comp p
    (s, comp, incomp)
  else
    let (s, incomp) := (s.resetTransmission p).link incomp p
    (s, comp, incomp)

end State

/-- The loop over the list; `none` when it takes more than `fuel` passes. -/
def resetLoop : Nat → State → Ends → Ends → Option Nat → Option (State × Ends × Ends)
  | _, s, comp, incomp, none => some (s, comp, incomp)
  | 0, _, _, _, some _ => none
  | fuel + 1, s, comp, incomp, some p =>
    let r := s.resetPass comp incomp p
    resetLoop fuel r.1 r.2.1 r.2.2 (s.next p)

/-- The two lists are spliced together and become the pending list. -/
def State.spliceLists (s : State) (comp incomp : Ends) : State :=
  let s := match comp.tail with
    | some t => s.setNext t incomp.head
    | none => s
  let s := match incomp.head with
    | some h => s.setPrev h comp.tail
    | none => s
  { s with
    headPendingXenbusReq := match comp.head with
      | some h => some h
      | none => incomp.head
    tailPendingXenbusReq := match incomp.tail with
      | some t => some t
      | none => comp.tail
    currentTxReq := incomp.head
    currentRxReq := none }

def resetRequests (fuel : Nat) (s : State) : Option State :=
  (resetLoop fuel s ⟨none, none⟩ ⟨none, none⟩ s.headPendingXenbusReq).map
    fun (s, comp, incomp) => s.spliceLists comp incomp

/-! ## What the stores do -/

section Stores

variable {s : State} {comp incomp l : Ends} {p q : Nat} {xs : List Nat}

@[simp] theorem setNext_req (next : Option Nat) : (s.setNext p next).req q =
    { s.req q with next := if p = q then next else (s.req q).next } := by
  unfold State.setNext State.set
  by_cases hq : p = q
  · simp [hq]
  · simp [hq, Function.update_of_ne (Ne.symm hq)]

@[simp] theorem setPrev_req (prev : Option Nat) : (s.setPrev p prev).req q =
    { s.req q with prev := if p = q then prev else (s.req q).prev } := by
  unfold State.setPrev State.set
  by_cases hq : p = q
  · simp [hq]
  · simp [hq, Function.update_of_ne (Ne.symm hq)]

@[simp] theorem resetTransmission_req : (s.resetTransmission p).req q =
    { s.req q with
      nextTxSeg := if p = q then some (s.req p).txIo else (s.req q).nextTxSeg
      txSgOff := if p = q then 0 else (s.req q).txSgOff } := by
  unfold State.resetTransmission State.set
  by_cases hq : p = q
  · simp [hq]
  · simp [hq, Function.update_of_ne (Ne.symm hq)]

theorem link_ends (h : Dll s.next s.prev l.head l.tail xs) :
    (s.link l p).2 = ⟨l.head.or (some p), some p⟩ := by
  unfold State.link
  cases ht : l.tail with
  | some t => rw [h.head_eq]; cases xs <;> [exact absurd (h.tail_mem ht) (by simp); rfl]
  | none =>
    obtain rfl : xs = [] := List.getLast?_eq_none_iff.mp (h.tail_eq.symm.trans ht)
    rw [h.head_eq]
    rfl

theorem link_req : (s.link l p).1.req q =
    { s.req q with
      next := if l.tail = some q then some p else (s.req q).next
      prev := if p = q then l.tail else (s.req q).prev } := by
  unfold State.link
  cases ht : l.tail <;> simp

theorem resetPass_replied (hr : (s.req p).xenbusReplied = true)
    (h : Dll s.next s.prev comp.head comp.tail xs) (hp : p ∉ xs) :
    (s.resetPass comp incomp p).2 = (⟨comp.head.or (some p), some p⟩, incomp) ∧
      ∀ q, (s.resetPass comp incomp p).1.req q =
        { s.req q with
          next := if comp.tail = some q then some p else if p = q then none else (s.req q).next
          prev := if p = q then comp.tail else (s.req q).prev } := by
  have hd : Dll (s.setNext p none).next (s.setNext p none).prev comp.head comp.tail xs :=
    h.congr fun x hx => by
      have hne : p ≠ x := fun e => hp (e ▸ hx)
      simp [State.next, State.prev, hne]
  have hr' : ((s.setNext p none).req p).xenbusReplied = true := by
    simpa using hr
  unfold State.resetPass
  simp only [hr', if_true]
  refine ⟨by rw [link_ends hd], fun q => ?_⟩
  rw [link_req]
  by_cases hq : p = q <;> simp [hq]

theorem resetPass_unreplied (hr : (s.req p).xenbusReplied = false)
    (h : Dll s.next s.prev incomp.head incomp.tail xs) (hp : p ∉ xs) :
    (s.resetPass comp incomp p).2 = (comp, ⟨incomp.head.or (some p), some p⟩) ∧
      ∀ q, (s.resetPass comp incomp p).1.req q =
        { s.req q with
          next := if incomp.tail = some q then some p else if p = q then none else (s.req q).next
          prev := if p = q then incomp.tail else (s.req q).prev
          nextTxSeg := if p = q then some (s.req p).txIo else (s.req q).nextTxSeg
          txSgOff := if p = q then 0 else (s.req q).txSgOff } := by
  have hd : Dll ((s.setNext p none).resetTransmission p).next
      ((s.setNext p none).resetTransmission p).prev incomp.head incomp.tail xs :=
    h.congr fun x hx => by
      have hne : p ≠ x := fun e => hp (e ▸ hx)
      simp [State.next, State.prev, hne]
  have hr' : ((s.setNext p none).req p).xenbusReplied = false := by
    simpa using hr
  unfold State.resetPass
  simp only [hr', Bool.false_eq_true, if_false]
  refine ⟨by rw [link_ends hd], fun q => ?_⟩
  rw [link_req]
  by_cases hq : p = q <;> simp [hq]

theorem spliceLists_req : (s.spliceLists comp incomp).req q =
    { s.req q with
      next := if comp.tail = some q then incomp.head else (s.req q).next
      prev := if incomp.head = some q then comp.tail else (s.req q).prev } := by
  unfold State.spliceLists
  cases hh : incomp.head <;> cases ht : comp.tail <;> simp

end Stores

/-! ## The two lists -/

section Lists

variable (s : State) (xs : List Nat)

def completed : List Nat := xs.filter fun p => (s.req p).xenbusReplied

def incomplete : List Nat := xs.filter fun p => !(s.req p).xenbusReplied

theorem mem_completed {p : Nat} :
    p ∈ completed s xs ↔ p ∈ xs ∧ (s.req p).xenbusReplied = true := by
  simp [completed]

theorem mem_incomplete {p : Nat} :
    p ∈ incomplete s xs ↔ p ∈ xs ∧ (s.req p).xenbusReplied = false := by
  simp [incomplete]

end Lists

/-- The loop has sorted the requests `done` of the state `s`, and not touched any other. -/
structure Sorted (s t : State) (comp incomp : Ends) (done : List Nat) : Prop where
  comp : Dll t.next t.prev comp.head comp.tail (completed s done)
  incomp : Dll t.next t.prev incomp.head incomp.tail (incomplete s done)
  same : ∀ p, (t.req p).xenbusReplied = (s.req p).xenbusReplied ∧ (t.req p).txIo = (s.req p).txIo
  rewound : ∀ p ∈ incomplete s done,
    (t.req p).nextTxSeg = some (s.req p).txIo ∧ (t.req p).txSgOff = 0
  kept : ∀ p ∉ incomplete s done,
    (t.req p).nextTxSeg = (s.req p).nextTxSeg ∧ (t.req p).txSgOff = (s.req p).txSgOff
  frame : ∀ p ∉ done, t.req p = s.req p

section Loop

variable {s t t' : State} {comp incomp l l' : Ends} {done rest xs : List Nat} {p : Nat}

/-- The list the request is linked into. -/
theorem dll_linked (h : Dll t.next t.prev l.head l.tail xs) (hp : p ∉ xs)
    (hn : ∀ q, t'.next q = if l.tail = some q then some p else if p = q then none else t.next q)
    (hv : ∀ q, t'.prev q = if p = q then l.tail else t.prev q) :
    Dll t'.next t'.prev (l.head.or (some p)) (some p) (xs ++ [p]) := by
  have ht : l.tail ≠ some p := fun ht => hp (h.tail_mem ht)
  refine h.push hp (by rw [hn, if_neg ht, if_pos rfl]) (by rw [hv, if_pos rfl]) (fun x hx => ?_)
    fun x hx => ?_
  · have hne : p ≠ x := fun e => hp (e ▸ hx)
    rw [hn, if_neg hne]
  · have hne : p ≠ x := fun e => hp (e ▸ hx)
    rw [hv, if_neg hne]

/-- The other list. -/
theorem dll_other (h : Dll t.next t.prev l.head l.tail xs) (hp : p ∉ xs)
    (hl : ∀ q ∈ xs, l'.tail ≠ some q)
    (hn : ∀ q, t'.next q = if l'.tail = some q then some p else if p = q then none else t.next q)
    (hv : ∀ q, t'.prev q = if p = q then l'.tail else t.prev q) :
    Dll t'.next t'.prev l.head l.tail xs :=
  h.congr fun x hx => by
    have hne : p ≠ x := fun e => hp (e ▸ hx)
    rw [hn, hv, if_neg (hl x hx), if_neg hne, if_neg hne]
    exact ⟨rfl, rfl⟩

theorem Sorted.pass (h : Sorted s t comp incomp done) (hp : p ∉ done) :
    Sorted s (t.resetPass comp incomp p).1 (t.resetPass comp incomp p).2.1
      (t.resetPass comp incomp p).2.2 (done ++ [p]) := by
  have hpt : t.req p = s.req p := h.frame p hp
  have hpc : p ∉ completed s done := fun hm => hp ((mem_completed s done).mp hm).1
  have hpi : p ∉ incomplete s done := fun hm => hp ((mem_incomplete s done).mp hm).1
  -- the tail of either list is none of the other's requests
  have hct : ∀ q ∈ incomplete s done, comp.tail ≠ some q := by
    intro q hq ht
    have h1 := ((mem_completed s done).mp (h.comp.tail_mem ht)).2
    rw [((mem_incomplete s done).mp hq).2] at h1
    cases h1
  have hit : ∀ q ∈ completed s done, incomp.tail ≠ some q := by
    intro q hq ht
    have h1 := ((mem_incomplete s done).mp (h.incomp.tail_mem ht)).2
    rw [((mem_completed s done).mp hq).2] at h1
    cases h1
  have hout : ∀ q ∉ done ++ [p], q ∉ done ∧ p ≠ q := by simp [eq_comm]
  cases hr : (s.req p).xenbusReplied with
  | true =>
    obtain ⟨h2, h3⟩ := @resetPass_replied t comp incomp p _ (by rw [hpt]; exact hr) h.comp hpc
    have hc : completed s (done ++ [p]) = completed s done ++ [p] := by simp [completed, hr]
    have hi : incomplete s (done ++ [p]) = incomplete s done := by simp [incomplete, hr]
    have hn := fun q => congrArg PendingReq.next (h3 q)
    have hv := fun q => congrArg PendingReq.prev (h3 q)
    rw [h2]
    refine ⟨?_, ?_, fun q => ?_, fun q hq => ?_, fun q hq => ?_, fun q hq => ?_⟩
    · rw [hc]
      exact dll_linked h.comp hpc hn hv
    · rw [hi]
      exact dll_other h.incomp hpi hct hn hv
    · rw [h3]
      exact h.same q
    · rw [h3]
      exact h.rewound q (hi ▸ hq)
    · rw [h3]
      exact h.kept q (hi ▸ hq)
    · obtain ⟨hq1, hq2⟩ := hout q hq
      have hq3 : comp.tail ≠ some q := fun ht =>
        hq1 ((mem_completed s done).mp (h.comp.tail_mem ht)).1
      rw [h3, if_neg hq3, if_neg hq2, if_neg hq2, h.frame q hq1]
  | false =>
    obtain ⟨h2, h3⟩ := @resetPass_unreplied t comp incomp p _ (by rw [hpt]; exact hr) h.incomp hpi
    have hc : completed s (done ++ [p]) = completed s done := by simp [completed, hr]
    have hi : incomplete s (done ++ [p]) = incomplete s done ++ [p] := by simp [incomplete, hr]
    have hn := fun q => congrArg PendingReq.next (h3 q)
    have hv := fun q => congrArg PendingReq.prev (h3 q)
    rw [h2]
    refine ⟨?_, ?_, fun q => ?_, fun q hq => ?_, fun q hq => ?_, fun q hq => ?_⟩
    · rw [hc]
      exact dll_other h.comp hpc hit hn hv
    · rw [hi]
      exact dll_linked h.incomp hpi hn hv
    · rw [h3]
      exact h.same q
    · rw [h3]
      by_cases hqp : p = q
      · simp [← hqp, hpt]
      · simp only [if_neg hqp]
        exact h.rewound q (by simpa [hi, Ne.symm hqp] using hq)
    · rw [hi, List.mem_append, List.mem_singleton, not_or] at hq
      rw [h3]
      simp only [if_neg (Ne.symm hq.2)]
      exact h.kept q hq.1
    · obtain ⟨hq1, hq2⟩ := hout q hq
      have hq3 : incomp.tail ≠ some q := fun ht =>
        hq1 ((mem_incomplete s done).mp (h.incomp.tail_mem ht)).1
      rw [h3, if_neg hq3, if_neg hq2, if_neg hq2, if_neg hq2, if_neg hq2, h.frame q hq1]

/-- The loop, started at the first request of `rest`. -/
theorem Sorted.loop (rest : List Nat) : ∀ {fuel : Nat} {t : State} {comp incomp : Ends}
    {done : List Nat} {o : Option Nat}, Sorted s t comp incomp done → Seg s.next o rest none →
    (done ++ rest).Nodup → rest.length ≤ fuel →
    ∃ t' comp' incomp', resetLoop fuel t comp incomp o = some (t', comp', incomp') ∧
      Sorted s t' comp' incomp' (done ++ rest) := by
  induction rest with
  | nil =>
    intro fuel t comp incomp done o h hseg _ _
    obtain rfl : o = none := hseg
    exact ⟨t, comp, incomp, by cases fuel <;> rfl, by simpa using h⟩
  | cons p rest ih =>
    intro fuel t comp incomp done o h hseg hnd hfuel
    obtain ⟨rfl, hseg'⟩ := hseg
    have hp : p ∉ done := fun hm => (List.nodup_append.mp hnd).2.2 p hm p List.mem_cons_self rfl
    obtain ⟨fuel, rfl⟩ : ∃ f, fuel = f + 1 := ⟨fuel - 1, by simp at hfuel; omega⟩
    rw [List.append_cons] at hnd ⊢
    have hn : t.next p = s.next p := congrArg PendingReq.next (h.frame p hp)
    rw [← hn] at hseg'
    simp only [resetLoop]
    exact ih (h.pass hp) hseg' hnd (by simpa using hfuel)

end Loop

/-! ## The whole reset -/

/-- Of a list of pending requests `reset_requests` makes one of the same requests, those with their
reply first and both kinds in their order. Transmission restarts at the first of the others, all of
which are rewound; nothing else of a request changes, and no other request. -/
theorem reset_requests {s : State} {xs : List Nat} {fuel : Nat}
    (h : Dll s.next s.prev s.headPendingXenbusReq s.tailPendingXenbusReq xs)
    (hf : xs.length ≤ fuel) :
    ∃ s', resetRequests fuel s = some s' ∧
      Dll s'.next s'.prev s'.headPendingXenbusReq s'.tailPendingXenbusReq
        (completed s xs ++ incomplete s xs) ∧
      (completed s xs ++ incomplete s xs).Perm xs ∧
      (∀ p ∈ incomplete s xs,
        (s'.req p).nextTxSeg = some (s'.req p).txIo ∧ (s'.req p).txSgOff = 0) ∧
      (∀ p ∈ completed s xs, (s'.req p).nextTxSeg = (s.req p).nextTxSeg ∧
        (s'.req p).txSgOff = (s.req p).txSgOff) ∧
      (∀ p, (s'.req p).xenbusReplied = (s.req p).xenbusReplied ∧
        (s'.req p).txIo = (s.req p).txIo) ∧
      (∀ p ∉ xs, s'.req p = s.req p) ∧
      s'.currentTxReq = (incomplete s xs).head? ∧ s'.currentRxReq = none := by
  have h0 : Sorted s s ⟨none, none⟩ ⟨none, none⟩ [] :=
    ⟨.nil, .nil, fun _ => ⟨rfl, rfl⟩, nofun, fun _ _ => ⟨rfl, rfl⟩, fun _ _ => rfl⟩
  obtain ⟨t, comp, incomp, hloop, ht⟩ := h0.loop xs h.next h.nodup hf
  rw [List.nil_append] at ht
  have hdisj : ∀ x ∈ completed s xs, x ∉ incomplete s xs := by
    intro x hc hi
    have h1 := ((mem_completed s xs).mp hc).2
    rw [((mem_incomplete s xs).mp hi).2] at h1
    cases h1
  have hn : ∀ q, (t.spliceLists comp incomp).next q =
      if comp.tail = some q then incomp.head else t.next q := fun q => by
    rw [State.next, spliceLists_req]
    rfl
  have hv : ∀ q, (t.spliceLists comp incomp).prev q =
      if incomp.head = some q then comp.tail else t.prev q := fun q => by
    rw [State.prev, spliceLists_req]
    rfl
  -- the seam is the tail of the one and the head of the other
  have hct : ∀ y ∈ incomplete s xs, comp.tail ≠ some y := fun y hy he =>
    hdisj y (ht.comp.tail_mem he) hy
  have hih : ∀ x ∈ completed s xs, incomp.head ≠ some x := fun x hx he =>
    hdisj x hx (List.mem_of_head? (ht.incomp.head_eq.symm.trans he))
  have hdll := ht.comp.splice ht.incomp hdisj (fun x _ => hn x)
    (fun y hy => by rw [hn, if_neg (hct y hy)]) (fun x hx => by rw [hv, if_neg (hih x hx)])
    fun y _ => hv y
  refine ⟨t.spliceLists comp incomp, by rw [resetRequests, hloop]; rfl, ?_, ?_, ?_, ?_, ?_, ?_,
    ht.incomp.head_eq, rfl⟩
  · convert hdll using 1 <;> unfold State.spliceLists <;>
      [cases comp.head; cases incomp.tail] <;> rfl
  · exact List.filter_append_perm (fun p => (s.req p).xenbusReplied) xs
  · intro p hp
    rw [spliceLists_req]
    obtain ⟨h1, h2⟩ := ht.rewound p hp
    exact ⟨h1.trans (congrArg some (ht.same p).2.symm), h2⟩
  · intro p hp
    rw [spliceLists_req]
    exact ht.kept p (hdisj p hp)
  · intro p
    rw [spliceLists_req]
    exact ht.same p
  · intro p hp
    have h1 : comp.tail ≠ some p := fun he =>
      hp ((mem_completed s xs).mp (ht.comp.tail_mem he)).1
    have h2 : incomp.head ≠ some p := fun he =>
      hp ((mem_incomplete s xs).mp (List.mem_of_head? (ht.incomp.head_eq.symm.trans he))).1
    rw [spliceLists_req, if_neg h1, if_neg h2, ht.frame p hp]

/-- Three requests of which the second has its reply. -/
theorem reset_requests_three : ∃ s', resetRequests 3
    { req := fun p => ⟨if p < 2 then some (p + 1) else none, if p = 0 then none else some (p - 1),
        10 * p, none, 5, p == 1⟩
      headPendingXenbusReq := some 0, tailPendingXenbusReq := some 2, currentTxReq := none
      currentRxReq := some 0 } = some s' ∧
    Dll s'.next s'.prev s'.headPendingXenbusReq s'.tailPendingXenbusReq [1, 0, 2] ∧
    s'.currentTxReq = some 0 := by
  obtain ⟨s', h1, h2, -, -, -, -, -, h3, -⟩ := @reset_requests
    { req := fun p => ⟨if p < 2 then some (p + 1) else none, if p = 0 then none else some (p - 1),
        10 * p, none, 5, p == 1⟩
      headPendingXenbusReq := some 0, tailPendingXenbusReq := some 2, currentTxReq := none
      currentRxReq := some 0 }
    [0, 1, 2] 3 ⟨⟨rfl, rfl, rfl, rfl⟩, ⟨rfl, rfl, rfl, rfl⟩, by decide⟩ (by decide)
  exact ⟨s', h1, h2, h3⟩

end XcWindows.Xenbus.Reset
