import XcWindows.Xenbus.TransactionEnd

/-!
# Claiming a VBD

`ClaimFrontend` of `xenvbd/xen.c`, a turn of its retrying transaction at a time, and the two functions
that go on with a VBD when it returns success: `XenbusSetupTarget` and `ResumeTarget`. What
xenstored answers in a turn is an input (`Turn`), so the frontend and the backend may be in any state
at any turn. The branch that gives up leaves `status` to `xenbus_transaction_end`: a transaction that
closes the frontend and commits is reported as a claim.
-/

namespace XcWindows.Xenvbd.Claiming

open Xenbus.TransactionEnd (Ntstatus ntSuccess statusSuccess statusUnsuccessful statusRetry)
open Xenbus (XenbusState wrapXenbusState)

abbrev xenbusStateInitialising : XenbusState := wrapXenbusState 1
abbrev xenbusStateInitwait : XenbusState := wrapXenbusState 2
abbrev xenbusStateClosing : XenbusState := wrapXenbusState 5
abbrev xenbusStateClosed : XenbusState := wrapXenbusState 6

/-! ## The transaction -/

/-- What the calls of one turn of the loop return. -/
structure Turn where
  frontend : Ntstatus × XenbusState
  backend : Ntstatus × XenbusState
  printf : Ntstatus
  transactionEnd : Ntstatus
deriving DecidableEq

/-- What was done in a transaction. -/
structure Transaction where
  frontendState : Option XenbusState
  backendState : Option XenbusState
  targetId : Option Nat
  /-- the frontend's state as it was written -/
  state : Option XenbusState
  ejected : Bool
  /-- what `xenbus_transaction_end(xbt, 0)` returned; `none` if the transaction was aborted -/
  ended : Option Ntstatus
deriving DecidableEq

/-- The transaction was committed. -/
def Transaction.Committed (x : Transaction) : Prop := ∃ status, x.ended = some status ∧ ntSuccess status

/-- It saw a VBD that nobody has claimed, and claims it for `target`. -/
def Transaction.Claims (target : Nat) (x : Transaction) : Prop :=
  x.frontendState = some xenbusStateInitialising ∧ x.backendState = some xenbusStateInitwait ∧
    x.targetId = some target ∧ x.Committed

/-- It closes the frontend and flags it ejected. -/
def Transaction.GivesUp (x : Transaction) : Prop :=
  x.state = some xenbusStateClosed ∧ x.ejected = true ∧ x.Committed

/-- The loop goes on unless the transaction has to be retried. -/
def Turn.ending (t : Turn) : Option Ntstatus :=
  if t.transactionEnd = statusRetry then none else some t.transactionEnd

/-- One turn: the transaction, and `status` if the loop is left with it. -/
def Turn.run (target : Nat) (t : Turn) : Transaction × Option Ntstatus :=
  if !ntSuccess t.frontend.1 then (⟨none, none, none, none, false, none⟩, some t.frontend.1)
  else if !ntSuccess t.backend.1 then
    (⟨some t.frontend.2, none, none, none, false, none⟩, some t.backend.1)
  else if t.frontend.2 = xenbusStateInitialising ∧ t.backend.2 = xenbusStateInitwait then
    if !ntSuccess t.printf then
      (⟨some t.frontend.2, some t.backend.2, none, none, false, none⟩, some t.printf)
    else
      (⟨some t.frontend.2, some t.backend.2, some target, none, false, some t.transactionEnd⟩, t.ending)
  else
    (⟨some t.frontend.2, some t.backend.2, none, some xenbusStateClosed, true, some t.transactionEnd⟩,
      t.ending)

/-- The loop, as far as the turns go: the transactions, and `status` once it is left. -/
def claimLoop (target : Nat) : List Turn → List Transaction × Option Ntstatus
  | [] => ([], none)
  | t :: ts =>
    match (t.run target).2 with
    | some status => ([(t.run target).1], some status)
    | none => ((t.run target).1 :: (claimLoop target ts).1, (claimLoop target ts).2)

/-! ## `ClaimFrontend` -/

/-- What a call of `ClaimFrontend` meets. -/
structure Inputs where
  austereMode : Bool
  backendState : XenbusState
  /-- the second, with its timeout -/
  timedBackendState : XenbusState
  turns : List Turn
  /-- `xenbus_printf` of `target-id` outside any transaction -/
  printf : Ntstatus

/-- The backend's state after the waits. -/
def Inputs.waited (i : Inputs) : XenbusState :=
  if i.backendState = xenbusStateInitialising then i.timedBackendState else i.backendState

structure Claim where
  transactions : List Transaction
  /-- `target-id`, written outside any transaction -/
  targetId : Option Nat
  /-- what is returned; `none` while the loop goes on -/
  status : Option Ntstatus
deriving DecidableEq

def claimFrontend (target : Nat) (i : Inputs) : Claim :=
  if i.waited = xenbusStateInitialising then ⟨[], none, some statusUnsuccessful⟩
  else if !i.austereMode then
    let r := claimLoop target i.turns
    ⟨r.1, none, r.2⟩
  else ⟨[], if ntSuccess i.printf then some target else none, some i.printf⟩

/-- `NT_SUCCESS(status)`, once there is a status. -/
def Claim.Succeeds (c : Claim) : Prop := ∃ status, c.status = some status ∧ ntSuccess status

/-- The VBD is claimed: by a committed transaction, or in austere mode, which has none, by the write
alone. -/
def Claim.Claimed (target : Nat) (austereMode : Bool) (c : Claim) : Prop :=
  (∃ x ∈ c.transactions, x.Claims target) ∨ (austereMode = true ∧ c.targetId = some target)

/-! ## The callers -/

/-- What a caller does to a VBD once it takes it for its own. -/
inductive Action where
  | readRemovable
  | readInquiry
  | closeFrontend
  | setupBackendStateWatch
  | writeFrontendKey
  | writeFilterKey
  | updateTargetUsage
  | prepareBackendForReconnect
  | connectTarget
  | setTargetInfo
deriving DecidableEq

/-- What a call of `XenbusSetupTarget` meets. -/
structure Setup where
  /-- `XmAllocateZeroedMemory` and `find_backend_path` -/
  targetAlloc : Bool
  backendPath : Bool
  claim : Inputs
  /-- `ReadScsiInquiryData` -/
  inquiry : Ntstatus
  earlySuspendHandler : Bool
  lateSuspendHandler : Bool
  targetPath : Bool
  frontendKey : Ntstatus
  filterKey : Ntstatus
  connect : Ntstatus

/-- The steps up to the first that fails: every step has what it does and whether it succeeds. -/
def upToFailure : List (List Action × Bool) → List Action
  | [] => []
  | (as, ok) :: rest => if ok then as ++ upToFailure rest else as

/-- `XenbusSetupTarget` after the claim -/
def Setup.rest (s : Setup) : List (List Action × Bool) :=
  let read : List (List Action × Bool) :=
    [([.readRemovable, .readInquiry], ntSuccess s.inquiry), ([.closeFrontend], true)]
  let keys : List (List Action × Bool) :=
    if !s.claim.austereMode then
      [([], s.earlySuspendHandler), ([], s.lateSuspendHandler), ([.setupBackendStateWatch], true),
        ([], s.targetPath), ([.writeFrontendKey], ntSuccess s.frontendKey),
        ([.writeFilterKey], ntSuccess s.filterKey), ([.updateTargetUsage], true)]
    else []
  let connect : List (List Action × Bool) :=
    if s.claim.austereMode then
      [([.prepareBackendForReconnect], true), ([.connectTarget], ntSuccess s.connect)]
    else []
  read ++ keys ++ connect ++ [([Action.setTargetInfo], true)]

def xenbusSetupTarget (target : Nat) (s : Setup) : List Action :=
  if !s.targetAlloc then []
  else if !s.backendPath then []
  else
    match (claimFrontend target s.claim).status with
    | none => []
    | some status => if !ntSuccess status then [] else upToFailure s.rest

/-- What a call of `ResumeTarget` meets. -/
structure Resume where
  backendPath : Bool
  /-- `xenbus_read_int` of `target-id`, and `Id` -/
  targetId : Ntstatus × Nat
  claim : Inputs
  frontendKey : Ntstatus
  filterKey : Ntstatus
  started : Bool
  connected : Bool
  prepare : Ntstatus
  connect : Ntstatus

/-- The VBD has not been re-created. -/
def Resume.Kept (target : Nat) (r : Resume) : Prop :=
  ntSuccess r.targetId.1 ∧ r.targetId.2 = target

instance (target : Nat) (r : Resume) : Decidable (r.Kept target) :=
  inferInstanceAs (Decidable (_ ∧ _))

/-- `ResumeTarget` from `done` -/
def Resume.reconnect (r : Resume) : List (List Action × Bool) :=
  if r.started then
    ([.prepareBackendForReconnect], ntSuccess r.prepare) ::
      if r.connected then [([.connectTarget], ntSuccess r.connect)] else []
  else []

/-- `ResumeTarget` between the claim and `done` -/
def Resume.restore (r : Resume) : List (List Action × Bool) :=
  [([.readRemovable, .closeFrontend, .setupBackendStateWatch], true),
    ([.writeFrontendKey], ntSuccess r.frontendKey), ([.writeFilterKey], ntSuccess r.filterKey),
    ([.updateTargetUsage], true)]

/-- `ResumeTarget`; `none` is its assertion that this is not austere mode. -/
def resumeTarget (target : Nat) (r : Resume) : Option (List Action) :=
  if r.claim.austereMode then none
  else some <|
    if !r.backendPath then []
    else if r.Kept target then upToFailure r.reconnect
    else
      match (claimFrontend target r.claim).status with
      | none => []
      | some status => if !ntSuccess status then [] else upToFailure (r.restore ++ r.reconnect)

/-! ## A turn, and the loop -/

variable {target : Nat}

/-- The turn finds the VBD in other states than those of one that can be claimed. -/
def Turn.Unclaimable (t : Turn) : Prop :=
  ntSuccess t.frontend.1 = true ∧ ntSuccess t.backend.1 = true ∧
    ¬(t.frontend.2 = xenbusStateInitialising ∧ t.backend.2 = xenbusStateInitwait)

/-- It finds one that can be claimed, and writes its `target-id`. -/
def Turn.Claimable (t : Turn) : Prop :=
  ntSuccess t.frontend.1 = true ∧ ntSuccess t.backend.1 = true ∧
    (t.frontend.2 = xenbusStateInitialising ∧ t.backend.2 = xenbusStateInitwait) ∧
    ntSuccess t.printf = true

/-- The turn has to be repeated. -/
def Turn.Retried (t : Turn) : Prop :=
  (t.Unclaimable ∨ t.Claimable) ∧ t.transactionEnd = statusRetry

theorem Turn.Unclaimable.not_claimable {t : Turn} (h : t.Unclaimable) : ¬t.Claimable :=
  fun hc => h.2.2 hc.2.2.1

theorem not_ntSuccess_retry : ntSuccess statusRetry = false := by decide

theorem Turn.ending_eq_none_iff (t : Turn) : t.ending = none ↔ t.transactionEnd = statusRetry := by
  unfold Turn.ending
  split <;> simp [*]

theorem Turn.ending_eq_some {t : Turn} {status : Ntstatus} (h : t.ending = some status) :
    t.transactionEnd = status := by
  unfold Turn.ending at h
  split at h
  · cases h
  · exact Option.some.inj h

theorem Turn.run_cases (target : Nat) (t : Turn) :
    t.Claimable ∧ t.run target =
      (⟨some xenbusStateInitialising, some xenbusStateInitwait, some target, none, false,
        some t.transactionEnd⟩, t.ending) ∨
    t.Unclaimable ∧ t.run target =
      (⟨some t.frontend.2, some t.backend.2, none, some xenbusStateClosed, true,
        some t.transactionEnd⟩, t.ending) ∨
    ¬t.Claimable ∧ ¬t.Unclaimable ∧
      (t.run target).1.ended = none ∧
        ∃ status, (t.run target).2 = some status ∧ ntSuccess status = false := by
  unfold Turn.run
  by_cases hf : ntSuccess t.frontend.1 = true
  swap
  · exact .inr (.inr ⟨fun h => hf h.1, fun h => hf h.1, by simp [hf], t.frontend.1, by simp [hf],
      by simpa using hf⟩)
  by_cases hb : ntSuccess t.backend.1 = true
  swap
  · exact .inr (.inr ⟨fun h => hb h.2.1, fun h => hb h.2.1, by simp [hf, hb], t.backend.1, by simp [hf, hb],
      by simpa using hb⟩)
  by_cases hs : t.frontend.2 = xenbusStateInitialising ∧ t.backend.2 = xenbusStateInitwait
  swap
  · exact .inr (.inl ⟨⟨hf, hb, hs⟩, by simp [hf, hb, hs]⟩)
  by_cases hp : ntSuccess t.printf = true
  · exact .inl ⟨⟨hf, hb, hs, hp⟩, by simp [hf, hb, hs, hp]⟩
  · exact .inr (.inr ⟨fun h => hp h.2.2.2, fun h => h.2.2 hs, by simp [hf, hb, hs, hp], t.printf,
      by simp [hf, hb, hs, hp], by simpa using hp⟩)

theorem Turn.again_iff (target : Nat) (t : Turn) : (t.run target).2 = none ↔ t.Retried := by
  obtain ⟨hc, hr⟩ | ⟨hu, hr⟩ | ⟨hc, hu, -, status, hr, -⟩ := t.run_cases target
  · rw [hr, t.ending_eq_none_iff]
    exact (and_iff_right (.inr hc)).symm
  · rw [hr, t.ending_eq_none_iff]
    exact (and_iff_right (.inl hu)).symm
  · rw [hr]
    exact iff_of_false nofun fun h => h.1.elim hu hc

theorem claimLoop_left {pre : List Turn} {t : Turn} {status : Ntstatus}
    (hpre : ∀ u ∈ pre, u.Retried) (ht : (t.run target).2 = some status) (post : List Turn) :
    claimLoop target (pre ++ t :: post) =
      (pre.map (fun u => (u.run target).1) ++ [(t.run target).1], some status) := by
  induction pre with
  | nil => simp [claimLoop, ht]
  | cons u pre ih =>
    have hu := (u.again_iff target).2 (hpre u (by simp))
    simp [claimLoop, hu, ih fun v hv => hpre v (by simp [hv])]

theorem claimLoop_cases (target : Nat) (ts : List Turn) :
    (claimLoop target ts).2 = none ∧ (∀ u ∈ ts, u.Retried) ∧
      (claimLoop target ts).1 = ts.map (fun u => (u.run target).1) ∨
    ∃ pre t post status, ts = pre ++ t :: post ∧ (∀ u ∈ pre, u.Retried) ∧
      (t.run target).2 = some status := by
  induction ts with
  | nil => exact .inl ⟨rfl, by simp, rfl⟩
  | cons t ts ih =>
    cases ht : (t.run target).2 with
    | some status => exact .inr ⟨[], t, ts, status, rfl, by simp, ht⟩
    | none =>
      have hr := (t.again_iff target).1 ht
      obtain ⟨h, hts, hx⟩ | ⟨pre, u, post, status, rfl, hpre, hu⟩ := ih
      · exact .inl ⟨by simp [claimLoop, ht, h], by simpa using ⟨hr, hts⟩, by simp [claimLoop, ht, hx]⟩
      · exact .inr ⟨t :: pre, u, post, status, rfl, by simpa using ⟨hr, hpre⟩, hu⟩

/-! ## Soundness -/

theorem Turn.run_success {t : Turn} {status : Ntstatus} (ht : (t.run target).2 = some status)
    (hs : ntSuccess status = true) :
    (t.run target).1.Claims target ∨ t.Unclaimable ∧ ntSuccess t.transactionEnd = true := by
  obtain ⟨-, hr⟩ | ⟨hu, hr⟩ | ⟨-, -, -, status', hr, hbad⟩ := t.run_cases target
  · rw [hr] at ht ⊢
    exact .inl ⟨rfl, rfl, rfl, t.transactionEnd, rfl, by rw [Turn.ending_eq_some ht]; exact hs⟩
  · rw [hr] at ht
    exact .inr ⟨hu, by rw [Turn.ending_eq_some ht]; exact hs⟩
  · rw [hr] at ht
    cases ht
    rw [hbad] at hs
    cases hs

theorem Turn.run_givesUp {t : Turn} (h : (t.run target).1.GivesUp) :
    t.Unclaimable ∧ ntSuccess t.transactionEnd = true := by
  obtain ⟨hstate, -, status, hended, hs⟩ := h
  obtain ⟨-, hr⟩ | ⟨hu, hr⟩ | ⟨-, -, hx, -⟩ := t.run_cases target
  · rw [hr] at hstate
    cases hstate
  · rw [hr] at hended
    cases hended
    exact ⟨hu, hs⟩
  · rw [hx] at hended
    cases hended

/-- The turn that the loop gets to without success does not commit a transaction that gives up. -/
def Inputs.NeverGivesUp (i : Inputs) : Prop :=
  i.austereMode = false → i.waited ≠ xenbusStateInitialising →
    ∀ pre t post, i.turns = pre ++ t :: post → (∀ u ∈ pre, u.Retried) → t.Unclaimable →
      ntSuccess t.transactionEnd = false

/-- What `ClaimFrontend` promises its callers. -/
structure Sound (target : Nat) (i : Inputs) : Prop where
  claimed : (claimFrontend target i).Succeeds → (claimFrontend target i).Claimed target i.austereMode
  gives_up : ∀ x ∈ (claimFrontend target i).transactions, x.GivesUp →
    ∃ status, (claimFrontend target i).status = some status ∧ ntSuccess status = false
  set_up : ∀ s : Setup, s.claim = i → xenbusSetupTarget target s ≠ [] →
    (claimFrontend target i).Claimed target i.austereMode
  resumed : ∀ r : Resume, r.claim = i → ∀ as, resumeTarget target r = some as → as ≠ [] →
    (claimFrontend target i).Claimed target i.austereMode ∨ r.Kept target

theorem xenbusSetupTarget_succeeds {s : Setup} (h : xenbusSetupTarget target s ≠ []) :
    (claimFrontend target s.claim).Succeeds := by
  unfold xenbusSetupTarget at h
  split at h
  · exact absurd rfl h
  split at h
  · exact absurd rfl h
  split at h
  · exact absurd rfl h
  next status hstatus =>
    split at h
    · exact absurd rfl h
    next hs => exact ⟨status, hstatus, by simpa using hs⟩

theorem resumeTarget_succeeds {r : Resume} {as : List Action} (h : resumeTarget target r = some as)
    (hne : as ≠ []) : (claimFrontend target r.claim).Succeeds ∨ r.Kept target := by
  unfold resumeTarget at h
  split at h
  · cases h
  obtain rfl := Option.some.inj h
  split at hne
  · exact absurd rfl hne
  split at hne
  · exact .inr ‹_›
  split at hne
  · exact absurd rfl hne
  next status hstatus =>
    split at hne
    · exact absurd rfl hne
    next hs => exact .inl ⟨status, hstatus, by simpa using hs⟩

theorem Sound.of_claim {i : Inputs}
    (hc : (claimFrontend target i).Succeeds → (claimFrontend target i).Claimed target i.austereMode)
    (hg : ∀ x ∈ (claimFrontend target i).transactions, x.GivesUp →
      ∃ status, (claimFrontend target i).status = some status ∧ ntSuccess status = false) :
    Sound target i where
  claimed := hc
  gives_up := hg
  set_up := by
    rintro s rfl h
    exact hc (xenbusSetupTarget_succeeds h)
  resumed := by
    rintro r rfl as h hne
    exact (resumeTarget_succeeds h hne).imp_left hc

theorem claimLoop_transactions (target : Nat) (ts : List Turn) :
    ∀ x ∈ (claimLoop target ts).1, ∃ pre t post, ts = pre ++ t :: post ∧ (∀ u ∈ pre, u.Retried) ∧
      x = (t.run target).1 := by
  induction ts with
  | nil => simp [claimLoop]
  | cons t ts ih =>
    intro x hx
    unfold claimLoop at hx
    cases ht : (t.run target).2 with
    | some status =>
      rw [ht] at hx
      exact ⟨[], t, ts, rfl, by simp, by simpa using hx⟩
    | none =>
      rw [ht] at hx
      obtain rfl | hx := List.mem_cons.1 hx
      · exact ⟨[], t, ts, rfl, by simp, rfl⟩
      · obtain ⟨pre, u, post, rfl, hpre, rfl⟩ := ih x hx
        exact ⟨t :: pre, u, post, rfl, by simpa using ⟨(t.again_iff target).1 ht, hpre⟩, rfl⟩

theorem claimFrontend_loop {i : Inputs} (ha : i.austereMode = false)
    (hw : i.waited ≠ xenbusStateInitialising) :
    claimFrontend target i = ⟨(claimLoop target i.turns).1, none, (claimLoop target i.turns).2⟩ := by
  simp [claimFrontend, ha, hw]

theorem sound_of_neverGivesUp {i : Inputs} (h : i.NeverGivesUp) : Sound target i := by
  by_cases hw : i.waited = xenbusStateInitialising
  · have hc : claimFrontend target i = ⟨[], none, some statusUnsuccessful⟩ := by
      simp [claimFrontend, hw]
    refine .of_claim ?_ (by simp [hc])
    rintro ⟨status, hstatus, hs⟩
    rw [hc] at hstatus
    cases hstatus
    exact absurd hs (by decide)
  cases ha : i.austereMode with
  | true =>
    refine .of_claim ?_ (by simp [claimFrontend, ha, hw])
    rintro ⟨status, hstatus, hs⟩
    have : i.printf = status := by simpa [claimFrontend, ha, hw] using hstatus
    exact .inr ⟨ha, by simp [claimFrontend, ha, hw, this, hs]⟩
  | false =>
    have hc : claimFrontend target i = _ := claimFrontend_loop ha hw
    refine .of_claim ?_ ?_
    · rintro ⟨status, hstatus, hs⟩
      rw [hc] at hstatus
      obtain ⟨hnone, -⟩ | ⟨pre, t, post, status', hts, hpre, ht⟩ := claimLoop_cases target i.turns
      · rw [hnone] at hstatus
        cases hstatus
      have hloop := claimLoop_left hpre ht post
      rw [← hts] at hloop
      obtain rfl : status' = status := by simpa [hloop] using hstatus
      obtain hclaims | ⟨hu, hend⟩ := Turn.run_success ht hs
      · exact .inl ⟨_, by simp [hc, hloop], hclaims⟩
      · rw [h ha hw pre t post hts hpre hu] at hend
        cases hend
    · intro x hx hgives
      rw [hc] at hx
      obtain ⟨pre, t, post, hts, hpre, rfl⟩ := claimLoop_transactions target i.turns x hx
      obtain ⟨hu, hend⟩ := Turn.run_givesUp hgives
      rw [h ha hw pre t post hts hpre hu] at hend
      cases hend

theorem gives_up_succeeds {i : Inputs} {pre post : List Turn} {t : Turn}
    (ha : i.austereMode = false) (hw : i.waited ≠ xenbusStateInitialising)
    (hts : i.turns = pre ++ t :: post) (hpre : ∀ u ∈ pre, u.Retried) (hu : t.Unclaimable)
    (hend : ntSuccess t.transactionEnd = true) :
    ∃ x ∈ (claimFrontend target i).transactions, x.GivesUp ∧ (claimFrontend target i).status =
      some t.transactionEnd := by
  have hne : t.ending = some t.transactionEnd := by
    unfold Turn.ending
    refine if_neg fun h => ?_
    rw [h, not_ntSuccess_retry] at hend
    cases hend
  have hrun : t.run target =
      (⟨some t.frontend.2, some t.backend.2, none, some xenbusStateClosed, true,
        some t.transactionEnd⟩, some t.transactionEnd) := by
    obtain ⟨hc, -⟩ | ⟨-, hr⟩ | ⟨-, hu', -⟩ := t.run_cases target
    · exact absurd hc hu.not_claimable
    · rw [hr, hne]
    · exact absurd hu hu'
  have hloop := claimLoop_left hpre (by rw [hrun] : (t.run target).2 = _) post
  rw [claimFrontend_loop ha hw, hts, hloop]
  exact ⟨(t.run target).1, by simp, by rw [hrun]; exact ⟨rfl, rfl, _, rfl, hend⟩, rfl⟩

/-- `ClaimFrontend` is sound exactly when no transaction that gives up is committed. -/
theorem claim_frontend_sound_iff (target : Nat) (i : Inputs) : Sound target i ↔ i.NeverGivesUp := by
  refine ⟨fun h ha hw pre t post hts hpre hu => ?_, sound_of_neverGivesUp⟩
  cases hend : ntSuccess t.transactionEnd with
  | false => rfl
  | true =>
    have hgiven : ∃ x ∈ (claimFrontend target i).transactions, _ :=
      gives_up_succeeds ha hw hts hpre hu hend
    obtain ⟨x, hx, hgives, hstatus⟩ := hgiven
    obtain ⟨status, hstatus', hbad⟩ := h.gives_up x hx hgives
    rw [hstatus] at hstatus'
    cases hstatus'
    rw [hend] at hbad
    cases hbad

/-- The backend is in INITWAIT when the wait is over, and in CLOSING in the transaction. -/
def backendCloses : Inputs where
  austereMode := false
  backendState := xenbusStateInitwait
  timedBackendState := xenbusStateInitwait
  turns := [⟨(statusSuccess, xenbusStateInitialising), (statusSuccess, xenbusStateClosing),
    statusSuccess, statusSuccess⟩]
  printf := statusSuccess

/-- The VBD that was just closed is taken to be claimed. -/
theorem gives_up_as_success :
    (claimFrontend 0 backendCloses).Succeeds ∧
      ¬(claimFrontend 0 backendCloses).Claimed 0 false ∧ ¬Sound 0 backendCloses := by
  have hs : (claimFrontend 0 backendCloses).Succeeds := ⟨statusSuccess, rfl, rfl⟩
  have hc : ¬(claimFrontend 0 backendCloses).Claimed 0 false := by
    rintro (⟨x, hx, hclaims⟩ | ⟨h, -⟩)
    · obtain rfl := List.mem_singleton.1 hx
      exact absurd hclaims.2.2.1 (by decide)
    · cases h
  exact ⟨hs, hc, fun h => hc (h.claimed hs)⟩

end XcWindows.Xenvbd.Claiming
