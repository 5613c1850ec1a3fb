import XcWindows.Xenvbd.Lifecycle
import XcWindows.Lib.Links

/-!
# The references of a target

`References` counts the calls that use a target, and one more while the target is suspended or being
resumed. `Counted` is this with what it rests on: nobody is both suspended and resuming, and a target
that is resuming has one that is going to end it, a call or `ResumeAllTargets`, which has its targets
linked through `Next`. Scans use `Next` too, for the targets they have extracted.

It is kept by steps that are `Orderly`: nothing suspends a target twice, no PnP request misses its
target while the last slot is taken, and no target that is being resumed is extracted with another.
-/

namespace XcWindows.Xenvbd.Targets

open XcWindows.Lib
open Function (update_of_ne update_self)

def Call.target : Call → Nat
  | .irp _ t _ | .backendStateChanged t | .targetStart t _ | .targetStop t _ | .targetResume t _
  | .targetLateResume t _ => t

/-- The call has a reference; the callbacks of a resume do without. -/
def Call.holds : Call → Bool
  | .targetLateResume _ _ => false
  | _ => true

/-- The call is in `ResumeTarget`, or about to be. -/
def Call.resumes : Call → Bool
  | .targetResume _ stage | .targetLateResume _ stage => stage = .marked ∨ stage = .running
  | _ => false

/-- The call holds the target. -/
def Call.holder (x : Nat) (c : Call) : Bool := c.holds && c.target = x

/-- The call is going to end the resuming of the target. -/
def Call.resumer (x : Nat) (c : Call) : Bool := c.resumes && c.target = x

/-- The target that `ResumeAllTargets` is resuming. -/
def ResumeAll.current : ResumeAll → Option Nat
  | .marked t _ | .running t _ => some t
  | _ => none

/-- The targets it is still to resume. -/
def ResumeAll.list : ResumeAll → Option Nat
  | .walking list | .marked _ list | .running _ list => list
  | .idle => none

/-- The targets a scan has still to look at. -/
def Scan.list : Scan → Option Nat
  | .destroying list | .waiting _ list => list
  | _ => none

namespace State

/-- How many calls use a target. -/
def holders (s : State) (x : Nat) : Nat := s.calls.countP (Call.holder x)

/-- A scan has taken the target out of `XenvbdTargetInfo`. -/
def Extracted (s : State) (x : Nat) : Prop := x < s.created ∧ ¬s.Listed x

def next (s : State) (x : Nat) : Option Nat := (s.target x).next

end State

/-- The reference that a suspended target has. -/
def TargetInfo.own (T : TargetInfo) : Nat := if T.suspended ∨ T.resuming then 1 else 0

/-- `extra` are calls that are not in the list of calls at the moment; `ResumeAllTargets` is at
`cur`, with `list` to go, which are the targets `l`. -/
structure Counted (s : State) (extra : List Call) (cur list : Option Nat) (l : List Nat) : Prop where
  alive : s.crashed ≠ some .references
  slot : ∀ {i x}, s.info i = some x → i < maxDisks
  bound : ∀ {i x}, s.info i = some x → x < s.created
  inj : ∀ {i j x}, s.info i = some x → s.info j = some x → i = j
  references : ∀ x, (s.target x).references =
    ((extra.countP (Call.holder x) + s.holders x + (s.target x).own : Nat) : Int)
  apart : ∀ x, (s.target x).suspended = true → (s.target x).resuming = false
  resumers : ∀ x, extra.countP (Call.resumer x) + s.calls.countP (Call.resumer x) +
    (if cur = some x then 1 else 0) + l.count x = if (s.target x).resuming then 1 else 0
  chain : Seg s.next list l none
  calls : ∀ c ∈ extra ++ s.calls, c.target < s.created
  cur : ∀ {x}, cur = some x → x < s.created
  list : ∀ {x}, x ∈ l → x < s.created
  heads : ∀ {n x}, (s.scan n).list = some x → s.Extracted x
  closed : ∀ {x y}, s.Extracted x → s.next x = some y → s.Extracted y ∧ x ∉ l

section Counted
variable {s t : State} {extra extra' : List Call} {cur cur' list : Option Nat} {l l' : List Nat}
  {x : Nat}

theorem Counted.resuming_of_mem (h : Counted s extra cur list l) (hx : x ∈ l) :
    (s.target x).resuming = true := by
  have hr := h.resumers x
  have hc := List.count_pos_iff.mpr hx
  by_contra hn
  rw [if_neg hn] at hr
  omega

/-- The target whose turn it is in `ResumeAllTargets`. -/
theorem Counted.resuming_of_cur (h : Counted s extra (some x) list l) :
    (s.target x).resuming = true := by
  have hr := h.resumers x
  rw [if_pos rfl] at hr
  by_contra hn
  rw [if_neg hn] at hr
  omega

theorem Counted.nodup (h : Counted s extra cur list l) : l.Nodup := by
  rw [List.nodup_iff_count_le_one]
  intro x
  have hr := h.resumers x
  split at hr <;> split at hr <;> omega

/-- A target changes in its references and flags, and with it the calls on it that are not in the
list, or the turn of `ResumeAllTargets`. -/
theorem Counted.change (h : Counted s extra cur list l) (T : TargetInfo)
    (hnext : T.next = (s.target x).next) (hapart : T.suspended = true → T.resuming = false)
    (href : T.references =
      ((extra'.countP (Call.holder x) + s.holders x + T.own : Nat) : Int))
    (hres : extra'.countP (Call.resumer x) + s.calls.countP (Call.resumer x) +
      (if cur' = some x then 1 else 0) + l.count x = if T.resuming then 1 else 0)
    (hhold : ∀ y, y ≠ x → extra'.countP (Call.holder y) = extra.countP (Call.holder y))
    (hrest : ∀ y, y ≠ x → extra'.countP (Call.resumer y) + (if cur' = some y then 1 else 0) =
      extra.countP (Call.resumer y) + (if cur = some y then 1 else 0))
    (hcalls : ∀ c ∈ extra', c.target < s.created) (hcur : ∀ {y}, cur' = some y → y < s.created) :
    Counted (s.setTarget x T) extra' cur' list l := by
  have hn : (s.setTarget x T).next = s.next := by
    funext y
    by_cases e : y = x
    · subst e
      simpa [State.next, State.setTarget] using hnext
    · simp [State.next, State.setTarget, update_of_ne e]
  have hself : (s.setTarget x T).target x = T := update_self ..
  have hother : ∀ {y}, y ≠ x → (s.setTarget x T).target y = s.target y :=
    fun hy => update_of_ne hy ..
  constructor
  case alive => exact h.alive
  case slot => exact h.slot
  case bound => exact h.bound
  case inj => exact h.inj
  case references =>
    intro y
    by_cases e : y = x
    · subst e
      rw [hself]
      exact href
    · rw [hother e, hhold y e]
      exact h.references y
  case apart =>
    intro y
    by_cases e : y = x
    · subst e
      rw [hself]
      exact hapart
    · rw [hother e]
      exact h.apart y
  case resumers =>
    intro y
    by_cases e : y = x
    · subst e
      rw [hself]
      exact hres
    · have h1 := hrest y e
      have h2 := h.resumers y
      rw [hother e, ← h2]
      show _ + s.calls.countP _ + _ + _ = _
      omega
  case chain =>
    rw [hn]
    exact h.chain
  case calls =>
    intro c hc
    rcases List.mem_append.mp hc with hc | hc
    · exact hcalls c hc
    · exact h.calls c (List.mem_append_right _ hc)
  case cur => exact hcur
  case list => exact h.list
  case heads => exact h.heads
  case closed =>
    intro y z hy hz
    rw [hn] at hz
    exact h.closed hy hz

/-- Fields that nothing here depends on. -/
theorem Counted.update (h : Counted s extra cur list l) (T : TargetInfo)
    (hr : T.references = (s.target x).references) (hs : T.suspended = (s.target x).suspended)
    (hg : T.resuming = (s.target x).resuming) (hn : T.next = (s.target x).next) :
    Counted (s.setTarget x T) extra cur list l := by
  refine h.change T hn ?_ ?_ ?_ (fun _ _ => rfl) (fun _ _ => rfl)
    (fun c hc => h.calls c (List.mem_append_left _ hc)) h.cur
  · rw [hs, hg]
    exact h.apart x
  · rw [hr, TargetInfo.own, hs, hg]
    exact h.references x
  · rw [hg]
    exact h.resumers x

theorem holder_of_ne {c : Call} {y : Nat} (h : y ≠ c.target) : Call.holder y c = false := by
  simp [Call.holder, Ne.symm h]

theorem resumer_of_ne {c : Call} {y : Nat} (h : y ≠ c.target) : Call.resumer y c = false := by
  simp [Call.resumer, Ne.symm h]

theorem holder_self (c : Call) : Call.holder c.target c = c.holds := by
  simp [Call.holder]

theorem resumer_self (c : Call) : Call.resumer c.target c = c.resumes := by
  simp [Call.resumer]

theorem countP_holder_of_ne {c : Call} {y : Nat} (h : y ≠ c.target) :
    [c].countP (Call.holder y) = 0 := by
  rw [List.countP_singleton, holder_of_ne h]
  rfl

theorem countP_resumer_of_ne {c : Call} {y : Nat} (h : y ≠ c.target) :
    [c].countP (Call.resumer y) = 0 := by
  rw [List.countP_singleton, resumer_of_ne h]
  rfl

/-- A call gets a reference. -/
theorem Counted.reference (h : Counted s [] cur list l) (c : Call) (hc : c.target < s.created)
    (hh : c.holds = true) (hr : c.resumes = false) :
    Counted (s.reference c.target) [c] cur list l := by
  refine h.change _ rfl (h.apart c.target) ?_ ?_ (fun y hy => ?_) (fun y hy => ?_) ?_ h.cur
  · have := h.references c.target
    rw [List.countP_singleton, holder_self, hh, this]
    simp only [List.countP_nil, if_true, TargetInfo.own]
    omega
  · have := h.resumers c.target
    rw [List.countP_singleton, resumer_self, hr]
    simpa using this
  · rw [countP_holder_of_ne hy]
    rfl
  · rw [countP_resumer_of_ne hy]
    rfl
  · intro c' hc'
    rwa [List.mem_singleton.mp hc']

/-- A call gives its reference back. -/
theorem Counted.dereference {c : Call} (h : Counted s [c] cur list l) (hh : c.holds = true)
    (hr : c.resumes = false) : Counted (s.dereference c.target) [] cur list l := by
  refine h.change _ rfl (h.apart c.target) ?_ ?_ (fun y hy => ?_) (fun y hy => ?_)
    (fun _ hc => nomatch hc) h.cur
  · have := h.references c.target
    rw [List.countP_singleton, holder_self, hh] at this
    simp only [List.countP_nil, this, if_true, TargetInfo.own]
    omega
  · have := h.resumers c.target
    rw [List.countP_singleton, resumer_self, hr] at this
    simpa using this
  · rw [countP_holder_of_ne hy]
    rfl
  · rw [countP_resumer_of_ne hy]
    rfl

/-- A call in hand has its reference. -/
theorem Counted.references_ne {c : Call} (h : Counted s [c] cur list l) (hh : c.holds = true) :
    (s.target c.target).references ≠ 0 := by
  have := h.references c.target
  rw [List.countP_singleton, holder_self, hh] at this
  simp only [if_true] at this
  omega

/-- A call goes on, with the reference it has or without. -/
theorem Counted.advance {c c' : Call} (h : Counted s [c] cur list l) (ht : c'.target = c.target)
    (hh : c'.holds = c.holds) (hr : c'.resumes = c.resumes) : Counted s [c'] cur list l := by
  have e1 : ∀ y, Call.holder y c' = Call.holder y c := fun y => by
    rw [Call.holder, Call.holder, ht, hh]
  have e2 : ∀ y, Call.resumer y c' = Call.resumer y c := fun y => by
    rw [Call.resumer, Call.resumer, ht, hr]
  refine { h with references := ?_, resumers := ?_, calls := ?_ }
  · intro y
    rw [List.countP_singleton, e1, ← List.countP_singleton]
    exact h.references y
  · intro y
    rw [List.countP_singleton, e2, ← List.countP_singleton]
    exact h.resumers y
  · intro d hd
    rcases List.mem_append.mp hd with hd | hd
    · rw [List.mem_singleton.mp hd, ht]
      exact h.calls c (by simp)
    · exact h.calls d (List.mem_append_right _ hd)

theorem Counted.begin {c : Call} (h : Counted s [c] cur list l) :
    Counted (s.begin c) [] cur list l := by
  refine { h with references := ?_, resumers := ?_, calls := h.calls, heads := h.heads,
                  closed := h.closed }
  · intro y
    have := h.references y
    simp only [State.holders, State.begin, List.countP_cons, List.countP_nil] at this ⊢
    exact this.trans (by omega)
  · intro y
    have := h.resumers y
    simp only [State.begin, List.countP_cons, List.countP_nil] at this ⊢
    exact (by omega : _ = _).trans this

/-- A call is taken from the list. -/
theorem Counted.take {c : Call} (h : Counted s [] cur list l) (hc : c ∈ s.calls) :
    Counted { s with calls := s.calls.erase c } [c] cur list l := by
  have hp := List.perm_cons_erase hc
  refine { h with references := ?_, resumers := ?_, calls := ?_, heads := h.heads,
                  closed := h.closed }
  · intro y
    have := h.references y
    rw [State.holders, hp.countP_eq] at this
    simp only [State.holders, List.countP_cons, List.countP_nil] at this ⊢
    exact this.trans (by omega)
  · intro y
    have := h.resumers y
    rw [hp.countP_eq] at this
    simp only [List.countP_cons, List.countP_nil] at this ⊢
    exact (by omega : _ = _).trans this
  · intro d hd
    apply h.calls d
    exact hp.mem_iff.mpr (by simpa using hd)

/-! ### Suspending and resuming -/

theorem Counted.suspend (h : Counted s extra cur list l) (hs : (s.target x).suspended = false)
    (hg : (s.target x).resuming = false) : Counted (s.suspendTarget x) extra cur list l := by
  refine h.change _ rfl (fun _ => hg) ?_ (h.resumers x) (fun _ _ => rfl) (fun _ _ => rfl)
    (fun c hc => h.calls c (List.mem_append_left _ hc)) h.cur
  have := h.references x
  simp only [TargetInfo.own, hs, hg, Bool.false_eq_true, or_self, if_false] at this
  simp only [TargetInfo.own, true_or, if_true, this]
  omega

/-- A call marks its target as resuming. -/
theorem Counted.mark {c : Call} (h : Counted s extra cur list l)
    (hs : (s.target c.target).suspended = true) (hc : c.target < s.created) (hr : c.resumes = true)
    (hhold : ∀ y, [c].countP (Call.holder y) = extra.countP (Call.holder y))
    (hres : ∀ y, extra.countP (Call.resumer y) = 0) :
    Counted (s.markResuming c.target) [c] cur list l := by
  have hg := h.apart _ hs
  refine h.change _ rfl nofun ?_ ?_ (fun y _ => hhold y) (fun y hy => ?_) ?_ h.cur
  · have := h.references c.target
    simp only [TargetInfo.own, hs, true_or, if_true] at this
    rw [hhold]
    simp only [TargetInfo.own, or_true, if_true, this]
  · have := h.resumers c.target
    rw [hres, hg] at this
    rw [List.countP_singleton, resumer_self, hr]
    simp only [if_true]
    simp only [Bool.false_eq_true, if_false] at this
    omega
  · rw [countP_resumer_of_ne hy, hres]
  · intro d hd
    rwa [List.mem_singleton.mp hd]

/-- The end of `ResumeTarget`: whoever resumes the target has its reference. -/
theorem Counted.resume (extra' : List Call) (cur' : Option Nat) (h : Counted s extra cur list l)
    (hg : (s.target x).resuming = true)
    (hhold : ∀ y, extra'.countP (Call.holder y) = extra.countP (Call.holder y))
    (hself : extra'.countP (Call.resumer x) + (if cur' = some x then 1 else 0) + 1 =
      extra.countP (Call.resumer x) + (if cur = some x then 1 else 0))
    (hother : ∀ y, y ≠ x → extra'.countP (Call.resumer y) + (if cur' = some y then 1 else 0) =
      extra.countP (Call.resumer y) + (if cur = some y then 1 else 0))
    (hcalls : ∀ c ∈ extra', c.target < s.created) (hcur : ∀ {y}, cur' = some y → y < s.created) :
    ∃ t, s.resumeTarget x = .ok t ∧ Counted t extra' cur' list l ∧ t.scan = s.scan ∧
      t.resumeAll = s.resumeAll := by
  have hs : (s.target x).suspended = false := by
    by_contra e
    have := h.apart x (by simpa using e)
    rw [hg] at this
    cases this
  have href := h.references x
  simp only [TargetInfo.own, hg, or_true, if_true] at href
  refine ⟨s.setTarget x { s.target x with references := (s.target x).references - 1
                                          resuming := false, resumed := true }, ?_, ?_, rfl, rfl⟩
  · rw [State.resumeTarget, xmAssert_bind]
    · simp [State.dereference, State.setTarget]
    · simp only [State.setTarget, update_self]
      omega
  · refine h.change _ rfl (fun e => rfl) ?_ ?_ (fun y _ => hhold y) hother hcalls hcur
    · rw [hhold]
      simp only [TargetInfo.own, hs, Bool.false_eq_true, or_self, if_false, href]
      omega
    · have := h.resumers x
      rw [hg] at this
      simp only [Bool.false_eq_true, if_false, if_true] at this ⊢
      omega

/-- A target that a call resumes is resuming. -/
theorem Counted.resuming_of_call {c : Call} (h : Counted s [c] cur list l) (hr : c.resumes = true) :
    (s.target c.target).resuming = true := by
  have := h.resumers c.target
  rw [List.countP_singleton, resumer_self, hr] at this
  by_contra e
  rw [if_neg e] at this
  simp only [if_true] at this
  omega

theorem Counted.resume_call {c : Call} (c' : Call) (h : Counted s [c] cur list l) (hr : c.resumes = true)
    (ht : c'.target = c.target) (hh : c'.holds = c.holds) (hr' : c'.resumes = false) :
    ∃ t, s.resumeTarget c.target = .ok t ∧ Counted t [c'] cur list l ∧ t.scan = s.scan ∧
      t.resumeAll = s.resumeAll := by
  refine h.resume [c'] cur (h.resuming_of_call hr) (fun y => ?_) ?_ (fun y hy => ?_) ?_ h.cur
  · rw [List.countP_singleton, List.countP_singleton, Call.holder, Call.holder, ht, hh]
  · rw [List.countP_singleton, List.countP_singleton, resumer_self, hr, ← ht, resumer_self, hr']
    simp only [Bool.false_eq_true, if_false, if_true]
    omega
  · rw [countP_resumer_of_ne hy, countP_resumer_of_ne (ht ▸ hy)]
  · intro d hd
    rw [List.mem_singleton.mp hd, ht]
    exact h.calls c (by simp)

/-- `ScsiStopAdapter`, from a slot on. -/
theorem Counted.stopAdapter {is : List Nat} (h : Counted s extra cur list l) (hnd : is.Nodup)
    (hok : ∀ i ∈ is, ∀ x, s.info i = some x →
      (s.target x).suspended = false ∧ (s.target x).resuming = false) :
    Counted (is.foldl (fun s i =>
      match s.info i with
      | some t => s.suspendTarget t
      | none => s) s) extra cur list l := by
  induction is generalizing s with
  | nil => exact h
  | cons i is ih =>
    obtain ⟨hi, hnd⟩ := List.nodup_cons.mp hnd
    rw [List.foldl_cons]
    split
    · next x hx =>
      obtain ⟨hs, hg⟩ := hok i List.mem_cons_self x hx
      refine ih (h.suspend hs hg) hnd fun j hj y hy => ?_
      have hne : y ≠ x := fun e => hi (h.inj hx (e ▸ hy) ▸ hj)
      rw [show (s.suspendTarget x).target y = s.target y from update_of_ne hne ..]
      exact hok j (List.mem_cons_of_mem _ hj) y hy
    · exact ih h hnd fun j hj => hok j (List.mem_cons_of_mem _ hj)

/-- The link of a target changes. -/
theorem Counted.link {o : Option Nat} {list' : Option Nat} (h : Counted s extra cur list l)
    (hres : ∀ y, extra.countP (Call.resumer y) + s.calls.countP (Call.resumer y) +
      (if cur' = some y then 1 else 0) + l'.count y = if (s.target y).resuming then 1 else 0)
    (hchain : Seg (Function.update s.next x o) list' l' none)
    (hcur : ∀ {y}, cur' = some y → y < s.created) (hlist : ∀ {y}, y ∈ l' → y < s.created)
    (hclosed : ∀ {y z}, s.Extracted y → Function.update s.next x o y = some z →
      s.Extracted z ∧ y ∉ l') :
    Counted (s.setTarget x { s.target x with next := o }) extra cur' list' l' := by
  have hn : (s.setTarget x { s.target x with next := o }).next = Function.update s.next x o := by
    funext y
    by_cases e : y = x
    · subst e
      simp [State.next, State.setTarget]
    · simp [State.next, State.setTarget, update_of_ne e]
  have hkeep : ∀ y, (s.setTarget x { s.target x with next := o }).target y =
      { s.target y with next := ((s.setTarget x { s.target x with next := o }).target y).next } := by
    intro y
    by_cases e : y = x
    · subst e
      simp [State.setTarget]
    · simp [State.setTarget, update_of_ne e]
  refine { h with references := ?_, apart := ?_, resumers := ?_, chain := ?_, cur := hcur,
                  list := hlist, heads := h.heads, closed := ?_ }
  · intro y
    rw [hkeep]
    exact h.references y
  · intro y
    rw [hkeep]
    exact h.apart y
  · intro y
    rw [hkeep]
    exact hres y
  · rwa [hn]
  · intro y z hy hz
    rw [hn] at hz
    exact hclosed hy hz

/-- `ResumeAllTargets` puts a suspended target on its list. -/
theorem Counted.markNext {i : Nat} (h : Counted s [] none list l) (hi : s.info i = some x)
    (hs : (s.target x).suspended = true) :
    Counted ((s.markResuming x).setTarget x { (s.markResuming x).target x with next := list }) []
      none (some x) (x :: l) := by
  have hg := h.apart x hs
  have hl : x ∉ l := fun hx => by
    have := h.resuming_of_mem hx
    rw [hg] at this
    cases this
  have hmark : Counted (s.markResuming x) [] (some x) list l := by
    refine h.change _ rfl nofun ?_ ?_ (fun _ _ => rfl) (fun y hy => ?_) (fun _ hc => nomatch hc) ?_
    · have := h.references x
      simp only [TargetInfo.own, hs, true_or, if_true] at this
      simp only [TargetInfo.own, or_true, if_true, this]
    · have := h.resumers x
      rw [hg] at this
      simp only [Bool.false_eq_true, if_false, if_true, reduceCtorEq] at this ⊢
      omega
    · simp [Ne.symm hy]
    · rintro y ⟨⟩
      exact h.bound hi
  refine hmark.link (fun y => ?_) ⟨rfl, ?_⟩ nofun ?_ ?_
  · rw [← hmark.resumers y, List.count_cons]
    simp only [Option.some.injEq, beq_iff_eq, reduceCtorEq, if_false]
    omega
  · rw [update_self]
    exact hmark.chain.congr fun y hy => update_of_ne (ne_of_mem_of_not_mem hy hl) ..
  · intro y hy
    rcases List.mem_cons.mp hy with rfl | hy
    · exact h.bound hi
    · exact h.list hy
  · intro y z hy hz
    have e : y ≠ x := by
      rintro rfl
      exact hy.2 ⟨i, hi⟩
    rw [update_of_ne e] at hz
    obtain ⟨h1, h2⟩ := hmark.closed hy hz
    exact ⟨h1, fun hm => (List.mem_cons.mp hm).elim e h2⟩

theorem Counted.resumeAllMark {is : List Nat} {list' : Option Nat} (h : Counted s [] none list l)
    (hm : State.resumeAllMark is s list = .ok (t, list')) :
    ∃ l', Counted t [] none list' l' := by
  induction is generalizing s list l with
  | nil =>
    cases hm
    exact ⟨l, h⟩
  | cons i is ih =>
    rw [State.resumeAllMark] at hm
    split at hm
    · exact ih h hm
    · next x hx =>
      split at hm
      · next hs =>
        obtain ⟨-, hm⟩ := xmAssert_bind_ok hm
        exact ih (h.markNext hx hs) hm
      · exact ih h hm

/-- `ResumeAllTargets` goes on to the next target on its list. -/
theorem Counted.next (h : Counted s [] none (some x) l) :
    ∃ l', Counted (s.setTarget x { s.target x with next := none }) [] (some x) (s.next x) l' := by
  obtain ⟨l', rfl⟩ : ∃ l', l = x :: l' := by
    cases l with
    | nil => exact absurd h.chain (by simp [Seg])
    | cons y l' =>
      obtain ⟨e, -⟩ := h.chain
      exact ⟨l', by rw [Option.some.inj e]⟩
  obtain ⟨-, hch⟩ := h.chain
  obtain ⟨hx, hnd⟩ := List.nodup_cons.mp h.nodup
  refine ⟨l', h.link (fun y => ?_) ?_ ?_ ?_ ?_⟩
  · have := h.resumers y
    rw [List.count_cons] at this
    rw [← this]
    simp only [Option.some.injEq, beq_iff_eq, if_false, reduceCtorEq]
    omega
  · exact hch.congr fun y hy => update_of_ne (ne_of_mem_of_not_mem hy hx) ..
  · rintro y ⟨⟩
    exact h.list List.mem_cons_self
  · exact fun hy => h.list (List.mem_cons_of_mem _ hy)
  · intro y z hy hz
    have e : y ≠ x := fun e => by
      rw [e, update_self] at hz
      cases hz
    rw [update_of_ne e] at hz
    obtain ⟨h1, h2⟩ := h.closed hy hz
    exact ⟨h1, fun hm => h2 (List.mem_cons_of_mem _ hm)⟩

/-! ### Scans -/

theorem Counted.setScan {n : Nat} {p : Scan} (h : Counted s extra cur list l)
    (hp : ∀ x, p.list = some x → s.Extracted x) : Counted (s.setScan n p) extra cur list l := by
  refine { h with heads := ?_, closed := h.closed }
  intro m x hm
  by_cases e : m = n
  · rw [e, scan_setScan_self] at hm
    exact hp x hm
  · rw [scan_setScan_of_ne p e] at hm
    exact h.heads hm

/-- The destruction loop takes a target from its list. -/
theorem Counted.unlink (h : Counted s extra cur list l) (hx : s.Extracted x) :
    Counted (s.setTarget x { s.target x with next := none }) extra cur list l := by
  refine h.link h.resumers ?_ h.cur h.list ?_
  · -- a target on both lists is the last of the other
    refine h.chain.congr fun y hy => ?_
    by_cases e : y = x
    · subst e
      rw [update_self]
      cases hn : s.next y with
      | none => rfl
      | some z => exact absurd hy (h.closed hx hn).2
    · rw [update_of_ne e]
  · intro y z hy hz
    have e : y ≠ x := fun e => by
      rw [e, update_self] at hz
      cases hz
    rw [update_of_ne e] at hz
    exact h.closed hy hz

/-- A target is extracted, onto the list of the scan. -/
theorem Counted.extractNext {i : Nat} {o : Option Nat} (h : Counted s extra cur list l)
    (hi : s.info i = some x) (hn : s.next x = none) (ho : ∀ y, o = some y → s.Extracted y)
    (hg : (s.target x).resuming = true → o = none) :
    Counted ((s.setInfo i none).setTarget x { s.target x with next := o }) extra cur list l ∧
      State.Extracted ((s.setInfo i none).setTarget x { s.target x with next := o }) x := by
  have hinfo : ∀ {j y}, (s.setInfo i none).info j = some y → s.info j = some y ∧ y ≠ x := by
    intro j y hj
    have e : j ≠ i := fun e => by
      rw [e, show (s.setInfo i none).info i = none from update_self ..] at hj
      cases hj
    rw [show (s.setInfo i none).info j = s.info j from update_of_ne e ..] at hj
    exact ⟨hj, fun hy => e (h.inj (hy ▸ hj) hi)⟩
  have hout : (s.setInfo i none).Extracted x := ⟨h.bound hi, fun ⟨j, hj⟩ => (hinfo hj).2 rfl⟩
  have hmono : ∀ {y}, s.Extracted y → (s.setInfo i none).Extracted y :=
    fun hy => ⟨hy.1, fun ⟨j, hj⟩ => hy.2 ⟨j, (hinfo hj).1⟩⟩
  have hanti : ∀ {y}, (s.setInfo i none).Extracted y → y ≠ x → s.Extracted y := by
    intro y hy hne
    refine ⟨hy.1, fun ⟨j, hj⟩ => hy.2 ⟨j, ?_⟩⟩
    have e : j ≠ i := fun e => by
      rw [e, hi] at hj
      exact hne (Option.some.inj hj).symm
    rw [← hj]
    exact update_of_ne e ..
  have hc : Counted (s.setInfo i none) extra cur list l := by
    refine { h with slot := fun hj => h.slot (hinfo hj).1, bound := fun hj => h.bound (hinfo hj).1,
                    inj := fun hj hk => h.inj (hinfo hj).1 (hinfo hk).1,
                    heads := fun hm => hmono (h.heads hm), closed := ?_ }
    intro y z hy hz
    have e : y ≠ x := fun e => by
      rw [e, show (s.setInfo i none).next x = s.next x from rfl, hn] at hz
      cases hz
    obtain ⟨h1, h2⟩ := h.closed (hanti hy e) hz
    exact ⟨hmono h1, h2⟩
  refine ⟨hc.link hc.resumers ?_ hc.cur hc.list ?_, hout⟩
  · refine hc.chain.congr fun y hy => ?_
    by_cases e : y = x
    · subst e
      rw [update_self, hg (h.resuming_of_mem hy)]
      exact hn.symm
    · rw [update_of_ne e]
  · intro y z hy hz
    by_cases e : y = x
    · subst e
      rw [update_self] at hz
      refine ⟨hmono (ho z hz), fun hm => ?_⟩
      rw [hg (h.resuming_of_mem hm)] at hz
      cases hz
    · rw [update_of_ne e] at hz
      exact hc.closed hy hz

/-- The target would be extracted. -/
def State.Due (s : State) (x : Nat) : Prop :=
  s.Listed x ∧ (s.target x).condemned = true ∧ (s.target x).suspended = false

theorem Counted.extract {is : List Nat} {o o' : Option Nat} (h : Counted s extra cur list l)
    (ho : ∀ y, o = some y → s.Extracted y)
    (hok : ∀ x, s.Due x → (s.target x).resuming = true → o = none ∧ ∀ y, s.Due y → y = x)
    (he : State.extract is s o = .ok (t, o')) :
    Counted t extra cur list l ∧ (∀ y, o' = some y → t.Extracted y) ∧ t.resumeAll = s.resumeAll := by
  induction is generalizing s o with
  | nil =>
    cases he
    exact ⟨h, ho, rfl⟩
  | cons i is ih =>
    rw [State.extract] at he
    split at he
    · exact ih h ho hok he
    · next x hx =>
      split at he
      · exact ih h ho hok he
      · next hs =>
        split at he
        · next hc =>
          obtain ⟨hn, he⟩ := xmAssert_bind_ok he
          have hdue : s.Due x := ⟨⟨i, hx⟩, hc, by simpa using hs⟩
          obtain ⟨hcount, hout⟩ := h.extractNext hx hn ho fun hg => (hok x hdue hg).1
          generalize hu : (s.setInfo i none).setTarget x { s.target x with next := o } = u
            at he hcount hout
          have hinfo : u.info = Function.update s.info i none := by rw [← hu]; rfl
          have htar : ∀ y, y ≠ x → u.target y = s.target y := fun y hy => by
            rw [← hu]
            exact update_of_ne hy ..
          -- nothing that was due with this one is resuming
          have hrest : ∀ y, u.Due y → (u.target y).resuming = true →
              some x = none ∧ ∀ z, u.Due z → z = y := by
            intro y hy hg
            exfalso
            have hne : y ≠ x := fun e => hout.2 (e ▸ hy.1)
            obtain ⟨⟨j, hj⟩, hcy, hsy⟩ := hy
            have hji : j ≠ i := fun e => by
              rw [hinfo, e, update_self] at hj
              cases hj
            rw [hinfo, update_of_ne hji] at hj
            rw [htar y hne] at hcy hsy hg
            exact hne ((hok y ⟨⟨j, hj⟩, hcy, hsy⟩ hg).2 x hdue).symm
          have hst := ih hcount (fun y hy => Option.some.inj hy ▸ hout) hrest he
          exact ⟨hst.1, hst.2.1, hst.2.2.trans (by rw [← hu]; rfl)⟩
        · exact ih h ho hok he

theorem countP_eq_zero_of_lt {p : Nat → Call → Bool} (hp : ∀ y c, y ≠ c.target → p y c = false)
    {cs : List Call} {b : Nat} (h : ∀ c ∈ cs, c.target < b) : cs.countP (p b) = 0 := by
  rw [List.countP_eq_zero]
  intro c hc
  rw [hp b c (Nat.ne_of_gt (h c hc))]
  nofun

theorem Counted.setupTarget {i path : Nat} (h : Counted s [] cur list l) (hi : s.info i = none)
    (hlt : i < maxDisks) : Counted (s.setupTarget i path) [] cur list l := by
  have hinfo : ∀ {j x}, (s.setupTarget i path).info j = some x →
      j = i ∧ x = s.created ∨ s.info j = some x := by
    intro j x hj
    by_cases e : j = i
    · subst e
      rw [show (s.setupTarget j path).info j = some s.created from update_self ..] at hj
      exact .inl ⟨rfl, (Option.some.inj hj).symm⟩
    · rw [show (s.setupTarget i path).info j = s.info j from update_of_ne e ..] at hj
      exact .inr hj
  have hnew : (s.setupTarget i path).target s.created = { xenbusNodeName := path } :=
    update_self ..
  have hold : ∀ {x}, x ≠ s.created → (s.setupTarget i path).target x = s.target x :=
    fun hx => update_of_ne hx ..
  have hext : ∀ {x}, s.Extracted x → (s.setupTarget i path).Extracted x := by
    intro x hx
    refine ⟨Nat.lt_succ_of_lt hx.1, fun ⟨j, hj⟩ => ?_⟩
    rcases hinfo hj with ⟨-, e⟩ | hj
    · exact absurd (e ▸ hx.1) (Nat.lt_irrefl _)
    · exact hx.2 ⟨j, hj⟩
  have hext' : ∀ {x}, (s.setupTarget i path).Extracted x → s.Extracted x := by
    intro x hx
    have hne : x ≠ s.created := fun e => hx.2 (e ▸ ⟨i, update_self ..⟩)
    refine ⟨Nat.lt_of_le_of_ne (Nat.lt_succ_iff.mp hx.1) hne, fun ⟨j, hj⟩ => hx.2 ⟨j, ?_⟩⟩
    have e : j ≠ i := fun e => by
      rw [e, hi] at hj
      cases hj
    rw [← hj]
    exact update_of_ne e ..
  have hcalls : ∀ c ∈ s.calls, c.target < s.created := fun c hc => h.calls c hc
  constructor
  case alive => exact h.alive
  case slot =>
    intro j x hj
    rcases hinfo hj with ⟨rfl, -⟩ | hj
    · exact hlt
    · exact h.slot hj
  case bound =>
    intro j x hj
    rcases hinfo hj with ⟨-, rfl⟩ | hj
    · exact Nat.lt_succ_self _
    · exact Nat.lt_succ_of_lt (h.bound hj)
  case inj =>
    intro j k x hj hk
    rcases hinfo hj with ⟨ej, hxj⟩ | hj' <;> rcases hinfo hk with ⟨ek, hxk⟩ | hk'
    · rw [ej, ek]
    · exact absurd (hxj ▸ h.bound hk') (Nat.lt_irrefl _)
    · exact absurd (hxk ▸ h.bound hj') (Nat.lt_irrefl _)
    · exact h.inj hj' hk'
  case references =>
    intro x
    by_cases e : x = s.created
    · subst e
      rw [hnew]
      have : s.calls.countP (Call.holder s.created) = 0 :=
        countP_eq_zero_of_lt (fun _ _ => holder_of_ne) hcalls
      simp [TargetInfo.own, State.holders, State.setupTarget, State.setInfo, State.setTarget, this]
    · rw [hold e]
      exact h.references x
  case apart =>
    intro x
    by_cases e : x = s.created
    · subst e
      rw [hnew]
      exact fun e => absurd e Bool.false_ne_true
    · rw [hold e]
      exact h.apart x
  case resumers =>
    intro x
    by_cases e : x = s.created
    · subst e
      have h0 := countP_eq_zero_of_lt (fun _ _ => resumer_of_ne) hcalls
      have hc : cur ≠ some s.created := fun e => absurd (h.cur e) (Nat.lt_irrefl _)
      have hl : l.count s.created = 0 :=
        List.count_eq_zero.mpr fun hm => absurd (h.list hm) (Nat.lt_irrefl _)
      rw [hnew, if_neg hc, hl, show (s.setupTarget i path).calls = s.calls from rfl, h0]
      rfl
    · rw [hold e]
      exact h.resumers x
  case chain =>
    refine h.chain.congr fun y hy => ?_
    rw [State.next, hold (Nat.ne_of_lt (h.list hy)), State.next]
  case calls =>
    intro c hc
    exact Nat.lt_succ_of_lt (hcalls c hc)
  case cur => exact fun e => Nat.lt_succ_of_lt (h.cur e)
  case list => exact fun hx => Nat.lt_succ_of_lt (h.list hx)
  case heads => exact fun hm => hext (h.heads hm)
  case closed =>
    intro x y hx hy
    have hx := hext' hx
    rw [State.next, hold (Nat.ne_of_lt hx.1)] at hy
    obtain ⟨h1, h2⟩ := h.closed hx hy
    exact ⟨hext h1, h2⟩

end Counted

/-! ## The search for the target of a PnP request -/

section Search
variable {s : State} {d x : Nat}

theorem findTarget_found {is : List Nat} {last : Option Nat}
    (h : s.findTarget d is last = (some x, true)) : s.Listed x := by
  induction is generalizing last with
  | nil => cases h
  | cons i is ih =>
    rw [State.findTarget] at h
    split at h
    · exact ih h
    · next y hy =>
      split at h
      · cases h
        exact ⟨i, hy⟩
      · exact ih h

/-- A target that has the device object is found. -/
theorem findTarget_of_mem {is : List Nat} (last : Option Nat) {i : Nat} (hi : i ∈ is)
    (hx : s.info i = some x) (hd : (s.target x).deviceObject = some d) :
    (s.findTarget d is last).2 = true := by
  induction is generalizing last with
  | nil => cases hi
  | cons j is ih =>
    rw [State.findTarget]
    split
    · next hj =>
      rcases List.mem_cons.mp hi with rfl | hi
      · rw [hx] at hj
        cases hj
      · exact ih none hi
    · next y hy =>
      split
      · rfl
      · next hne =>
        rcases List.mem_cons.mp hi with rfl | hi
        · obtain rfl := Option.some.inj (hx.symm.trans hy)
          exact absurd hd hne
        · exact ih (some y) hi

/-- Otherwise the search ends with what is in the last slot. -/
theorem findTarget_last (is : List Nat) (last : Option Nat) {i : Nat}
    (h : (s.findTarget d (is ++ [i]) last).2 = false) :
    (s.findTarget d (is ++ [i]) last).1 = s.info i := by
  induction is generalizing last with
  | nil =>
    simp only [List.nil_append, State.findTarget] at h ⊢
    split
    · next hi => rw [hi]
    · next y hy =>
      rw [hy] at h
      simp only at h
      split at h
      · cases h
      · next hne => rw [if_neg hne, hy]
  | cons j is ih =>
    rw [List.cons_append, State.findTarget] at h ⊢
    split at h
    · exact ih none h
    · split at h
      · cases h
      · next hne =>
        rw [if_neg hne]
        exact ih _ h

end Search

/-! ## Runs -/

/-- The targets in `XenvbdTargetInfo`. -/
def State.listed (s : State) : List Nat := slots.filterMap s.info

theorem State.mem_listed {s : State} {x : Nat} :
    x ∈ s.listed ↔ ∃ i ∈ slots, s.info i = some x := List.mem_filterMap

/-- A target that is suspended is neither suspended nor resuming; a PnP request finds a target or
nothing in the last slot; and a target that is resuming is extracted alone. -/
def Orderly (s : State) : Act → Prop
  | .stopAdapter => ∀ x ∈ s.listed, (s.target x).suspended = false ∧ (s.target x).resuming = false
  | .targetEarlyResume x => (s.target x).suspended = false ∧ (s.target x).resuming = false
  | .irp d _ => (∃ x ∈ s.listed, (s.target x).deviceObject = some d) ∨ s.info (maxDisks - 1) = none
  | .scanExtract _ => ∀ x ∈ s.listed, ∀ y ∈ s.listed,
      (s.target x).condemned = true → (s.target x).resuming = true →
      (s.target y).condemned = true → (s.target y).suspended = false → y = x
  | _ => True

/-- Every reference of every target is accounted for. -/
def Accounted (s : State) : Prop :=
  ∃ l, Counted s [] s.resumeAll.current s.resumeAll.list l

section Runs
variable {s t : State}

/-- A loop over the slots each turn of which keeps the account. -/
theorem accounted_foldl {f : State → Nat → State} (hf : ∀ s i, Accounted s → Accounted (f s i))
    (is : List Nat) (h : Accounted s) : Accounted (is.foldl f s) := by
  induction is generalizing s with
  | nil => exact h
  | cons i is ih => exact ih (hf s i h)

theorem accounted_markPending (h : Accounted s) : Accounted s.markPending := by
  refine accounted_foldl (fun s i h => ?_) slots h
  obtain ⟨l, hc⟩ := h
  split
  · exact ⟨l, hc.update _ rfl rfl rfl rfl⟩
  · exact ⟨l, hc⟩

theorem stopAdapter_resumeAll : s.stopAdapter.resumeAll = s.resumeAll := by
  unfold State.stopAdapter
  generalize slots = is
  induction is generalizing s with
  | nil => rfl
  | cons i is ih =>
    rw [List.foldl_cons, ih]
    split <;> rfl

theorem accounted_stopAdapter (h : Accounted s) (hok : Orderly s .stopAdapter) :
    Accounted s.stopAdapter := by
  obtain ⟨l, hc⟩ := h
  refine ⟨l, ?_⟩
  rw [stopAdapter_resumeAll]
  exact hc.stopAdapter List.nodup_range fun i hi x hx => hok x (State.mem_listed.mpr ⟨i, hi, hx⟩)

/-- What a step may come to. -/
def Fine : Except Crash State → Prop
  | .ok t => Accounted t
  | .error c => c ≠ .references

theorem counted_irpProcess {x : Nat} {ok : Bool} {minor : Minor} {extra : List Call}
    {cur list : Option Nat} {l : List Nat} (h : Counted s extra cur list l)
    (hp : s.irpProcess x ok minor = .ok t) :
    Counted t extra cur list l ∧ t.resumeAll = s.resumeAll := by
  cases minor with
  | startDevice =>
    obtain ⟨-, hp⟩ := xmAssert_bind_ok hp
    cases hp
    split
    · exact ⟨h.update { s.target x with started := true } rfl rfl rfl rfl, rfl⟩
    · exact ⟨h, rfl⟩
  | surpriseRemoval =>
    obtain ⟨-, hp⟩ := xmAssert_bind_ok hp
    cases hp
    exact ⟨h.update { s.target x with surpriseRemoved := true } rfl rfl rfl rfl, rfl⟩
  | stopDevice =>
    cases hp
    exact ⟨h.update { s.target x with started := false } rfl rfl rfl rfl, rfl⟩
  | removeDevice =>
    cases hp
    exact ⟨h.update { s.target x with started := false } rfl rfl rfl rfl, rfl⟩
  | eject =>
    cases hp
    exact ⟨h.update { s.target x with ejected := true } rfl rfl rfl rfl, rfl⟩
  | queryId | queryCapabilities | cancelRemoveDevice | deviceUsageNotification =>
    cases hp
    exact ⟨h, rfl⟩

theorem fine_release {c : Call} {l : List Nat}
    (h : Counted s [c] s.resumeAll.current s.resumeAll.list l) (hh : c.holds = true)
    (hr : c.resumes = false) : Fine (s.release c.target) := by
  rw [State.release, xmAssert_bind (h.references_ne hh)]
  exact ⟨l, h.dereference hh hr⟩

theorem fine_advance {c : Call} {ok : Bool} {r : Except Crash State} {l : List Nat}
    (h : Counted s [c] s.resumeAll.current s.resumeAll.list l) (hr : s.advance ok c = some r) :
    Fine r := by
  cases c with
  | irp minor x done =>
    cases done with
    | false =>
      cases hr
      cases hp : s.irpProcess x ok minor with
      | ok t =>
        obtain ⟨ht, e⟩ := counted_irpProcess h hp
        refine ⟨l, Counted.begin (c := .irp minor x true) ?_⟩
        rw [show (t.begin (.irp minor x true)).resumeAll = s.resumeAll from e]
        exact ht.advance rfl rfl rfl
      | error c =>
        rintro rfl
        rcases irpProcess_error hp with e | e <;> cases e
    | true =>
      cases hr
      exact ⟨l, h.dereference rfl rfl⟩
  | backendStateChanged x =>
    cases hr
    exact ⟨l, h.dereference rfl rfl⟩
  | targetStart x done =>
    cases done with
    | false =>
      cases hr
      have hn : Counted s [.targetStart x true] _ _ l := h.advance rfl rfl rfl
      rw [xmAssert]
      split
      · refine ⟨l, Counted.begin (c := .targetStart x true) ?_⟩
        cases ok with
        | true => exact hn.update { s.target x with started := true } rfl rfl rfl rfl
        | false => exact hn
      · exact Crash.noConfusion
    | true =>
      cases hr
      exact fine_release h rfl rfl
  | targetStop x done =>
    cases done with
    | false =>
      cases hr
      have hn : Counted s [.targetStop x true] _ _ l := h.advance rfl rfl rfl
      exact ⟨l, Counted.begin (hn.update { s.target x with started := false } rfl rfl rfl rfl)⟩
    | true =>
      cases hr
      exact fine_release h rfl rfl
  | targetResume x stage =>
    cases stage with
    | marked =>
      cases hr
      have hg : (s.target x).resuming = true := h.resuming_of_call rfl
      rw [xmAssert_bind hg]
      exact ⟨l, Counted.begin (c := .targetResume x .running) (h.advance rfl rfl rfl)⟩
    | running =>
      cases hr
      obtain ⟨t, ht, hc, -, e⟩ := h.resume_call (.targetResume x .done) rfl rfl rfl rfl
      rw [show s.resumeTarget x = _ from ht]
      refine ⟨l, Counted.begin (c := .targetResume x .done) ?_⟩
      rw [show (t.begin _).resumeAll = s.resumeAll from e]
      exact hc
    | waiting =>
      rw [State.advance] at hr
      split at hr
      · cases hr
      · cases hr
        exact ⟨l, Counted.begin (c := .targetResume x .done) (h.advance rfl rfl rfl)⟩
    | done =>
      cases hr
      exact fine_release h rfl rfl
  | targetLateResume x stage =>
    cases stage with
    | marked =>
      cases hr
      have hg : (s.target x).resuming = true := h.resuming_of_call rfl
      rw [xmAssert_bind hg]
      exact ⟨l, Counted.begin (c := .targetLateResume x .running) (h.advance rfl rfl rfl)⟩
    | running =>
      cases hr
      have hself : [Call.targetLateResume x .running].countP (Call.resumer x) = 1 := by
        simp [Call.resumer, Call.resumes, Call.target]
      obtain ⟨t, ht, hc, -, e⟩ := h.resume (x := x) [] _ (h.resuming_of_call rfl)
        (fun y => by simp [Call.holder, Call.holds]) (by rw [hself, List.countP_nil]; omega)
        (fun y hy => by rw [countP_resumer_of_ne hy, List.countP_nil])
        (fun _ hc => absurd hc List.not_mem_nil) h.cur
      rw [show s.resumeTarget x = _ from ht]
      refine ⟨l, ?_⟩
      rw [e]
      exact hc
    | waiting => cases hr
    | done => cases hr

theorem fine_irpBegin {d : Nat} {minor : Minor} (h : Accounted s)
    (hok : Orderly s (.irp d minor)) : Fine (s.irpBegin d minor) := by
  obtain ⟨l, hc⟩ := h
  unfold State.irpBegin
  rcases hf : s.findTarget d slots none with ⟨_ | x, found⟩
  · exact ⟨l, hc⟩
  · cases found with
    | false =>
      exfalso
      rcases hok with ⟨y, hy, hd⟩ | hlast
      · obtain ⟨i, hi, hy⟩ := State.mem_listed.mp hy
        have := findTarget_of_mem none hi hy hd
        rw [hf] at this
        cases this
      · have hs : slots = List.range (maxDisks - 1) ++ [maxDisks - 1] := List.range_succ
        have := findTarget_last (s := s) (d := d) (List.range (maxDisks - 1)) none
          (i := maxDisks - 1) (by rw [← hs, hf])
        rw [← hs, hf, hlast] at this
        cases this
    | true =>
      obtain ⟨i, hi⟩ := findTarget_found hf
      have hr := hc.reference (.irp minor x false) (hc.bound hi) rfl rfl
      simp only [if_true]
      rw [xmAssert_bind (show ((s.reference x).target x).references ≠ 0 from hr.references_ne rfl)]
      exact ⟨l, hr.begin⟩

theorem fine_filterCall {i : Nat} {f : State → Nat → State}
    (hf : ∀ x, s.info i = some x → Accounted (f (s.reference x) x)) : Fine (s.filterCall i f) := by
  unfold State.filterCall
  split
  · exact Crash.noConfusion
  · next x hx => exact hf x hx

theorem accounted_filterCall {i x : Nat} {c : Call} (h : Accounted s) (hi : s.info i = some x)
    (ht : c.target = x) (hh : c.holds = true) (hr : c.resumes = false) :
    Accounted ((s.reference x).begin c) := by
  subst ht
  obtain ⟨l, hc⟩ := h
  exact ⟨l, (hc.reference c (hc.bound hi) hh hr).begin⟩

theorem fine_targetResume {i x : Nat} (h : Accounted s) (hi : s.info i = some x) :
    Accounted (if ((s.reference x).target x).suspended then
      ((s.reference x).markResuming x).begin (.targetResume x .marked)
      else (s.reference x).begin (.targetResume x .waiting)) := by
  split
  · next hs =>
    obtain ⟨l, hc⟩ := h
    have hr := hc.reference (.targetResume x .waiting) (hc.bound hi) rfl rfl
    refine ⟨l, Counted.begin (c := .targetResume x .marked) ?_⟩
    exact hr.mark (c := .targetResume x .marked) hs (hc.bound hi) rfl (fun y => rfl)
      (fun y => by simp [Call.resumer, Call.resumes])
  · exact accounted_filterCall h hi rfl rfl rfl

theorem fine_lateResume {x : Nat} (h : Accounted s) (hx : x < s.created) :
    Accounted (if (s.target x).suspended then
      (s.markResuming x).begin (.targetLateResume x .marked) else s) := by
  split
  · next hs =>
    obtain ⟨l, hc⟩ := h
    refine ⟨l, Counted.begin (c := .targetLateResume x .marked) ?_⟩
    exact hc.mark (c := .targetLateResume x .marked) hs hx rfl
      (fun y => by simp [Call.holder, Call.holds]) (fun _ => rfl)
  · exact h

theorem fine_resumeAllNext {r : Except Crash State} (h : Accounted s)
    (hr : act s .resumeAllNext = some r) : Fine r := by
  obtain ⟨l, hc⟩ := h
  simp only [act] at hr
  split at hr
  · next e =>
    cases hr
    rw [e] at hc
    exact ⟨l, { hc with heads := hc.heads, closed := hc.closed }⟩
  · next x e =>
    cases hr
    rw [e] at hc
    obtain ⟨l', hc'⟩ := Counted.next hc
    exact ⟨l', { hc' with heads := hc'.heads, closed := hc'.closed }⟩
  · next x list e =>
    cases hr
    rw [e] at hc
    rw [xmAssert_bind (Counted.resuming_of_cur hc)]
    exact ⟨l, { hc with heads := hc.heads, closed := hc.closed }⟩
  · cases hr

theorem fine_resumeAllEnd {r : Except Crash State} (h : Accounted s)
    (hr : act s .resumeAllEnd = some r) : Fine r := by
  obtain ⟨l, hc⟩ := h
  simp only [act] at hr
  split at hr
  · next x list e =>
    cases hr
    rw [e] at hc
    obtain ⟨t, ht, hct, -, -⟩ := hc.resume [] none (Counted.resuming_of_cur hc) (fun _ => rfl)
      (by simp [ResumeAll.current]) (fun y hy => by simp [ResumeAll.current, Ne.symm hy])
      (fun _ hc => absurd hc List.not_mem_nil) (fun e => absurd e (Option.some_ne_none _).symm)
    rw [ht]
    exact ⟨l, { hct with heads := hct.heads, closed := hct.closed }⟩
  · cases hr

theorem fine_extract {n : Nat} (h : Accounted s) (hok : Orderly s (.scanExtract n)) :
    Fine (do
      let (s, list) ← State.extract slots s none
      .ok { s.setScan n (.destroying list) with enumLock := none }) := by
  obtain ⟨l, hc⟩ := h
  cases he : State.extract slots s none with
  | error c =>
    rintro rfl
    cases extract_error he
  | ok r =>
    obtain ⟨t, o⟩ := r
    have hdue : ∀ x, s.Due x → (s.target x).resuming = true →
        (none : Option Nat) = none ∧ ∀ y, s.Due y → y = x := by
      rintro x ⟨⟨i, hi⟩, hcx, -⟩ hg
      refine ⟨rfl, ?_⟩
      rintro y ⟨⟨j, hj⟩, hcy, hsy⟩
      exact hok x (State.mem_listed.mpr ⟨i, List.mem_range.mpr (hc.slot hi), hi⟩) y
        (State.mem_listed.mpr ⟨j, List.mem_range.mpr (hc.slot hj), hj⟩) hcx hg hcy hsy
    obtain ⟨hct, hout, hall⟩ := hc.extract (o := none) (fun _ e => nomatch e) hdue he
    have hs := hct.setScan (n := n) (p := .destroying o) hout
    rw [← hall] at hs
    exact ⟨l, { hs with heads := hs.heads, closed := hs.closed }⟩

theorem statePass_error {is : List Nat} {c : Crash} (h : s.statePass is = .error c) :
    c = .condemned := by
  induction is with
  | nil => cases h
  | cons i is ih =>
    rw [State.statePass] at h
    split at h
    · exact ih h
    · rcases xmAssert_bind_error h with ⟨-, e⟩ | h
      · exact e
      · repeat' (split at h; cases h)
        exact ih h

theorem counted_statePass {is : List Nat} {extra : List Call} {cur list : Option Nat} {l : List Nat}
    (hc : Counted s extra cur list l) (h : s.statePass is = .ok (some t)) :
    Counted t extra cur list l ∧ t.resumeAll = s.resumeAll := by
  induction is with
  | nil => cases h
  | cons i is ih =>
    rw [State.statePass] at h
    split at h
    · exact ih h
    · next x _ =>
      obtain ⟨-, h⟩ := xmAssert_bind_ok h
      split at h
      · cases h
        exact ⟨hc.update { s.target x with condemned := true } rfl rfl rfl rfl, rfl⟩
      · split at h
        · cases h
          exact ⟨hc.update { s.target x with condemned := true } rfl rfl rfl rfl, rfl⟩
        · split at h
          · cases h
            exact ⟨hc.update { s.target x with condemned := true } rfl rfl rfl rfl, rfl⟩
          · split at h
            · cases h
              exact ⟨hc, rfl⟩
            · split at h
              · cases h
                exact ⟨hc.update { s.target x with resumed := false } rfl rfl rfl rfl, rfl⟩
              · split at h
                · cases h
                  exact ⟨hc.update { s.target x with disappeared := true } rfl rfl rfl rfl, rfl⟩
                · exact ih h

/-- A scan that has no list goes on. -/
theorem accounted_setScan {n : Nat} {p : Scan} (h : Accounted s) (hp : p.list = none) :
    Accounted (s.setScan n p) := by
  obtain ⟨l, hc⟩ := h
  exact ⟨l, hc.setScan fun x e => by rw [hp] at e; cases e⟩

theorem fine_check {n : Nat} {newDisks : List Nat} (h : Accounted s) : Fine (s.check n newDisks) := by
  unfold State.check
  cases hp : s.statePass slots with
  | error c =>
    rintro rfl
    cases statePass_error hp
  | ok r =>
    cases r with
    | none =>
      apply accounted_setScan h
      split <;> rfl
    | some t =>
      obtain ⟨l, hc⟩ := h
      obtain ⟨ht, e⟩ := counted_statePass hc hp
      refine accounted_setScan ⟨l, ?_⟩ rfl
      rwa [e]

theorem fine_merge {n path : Nat} {newDisks : List Nat} {ok : Bool} (h : Accounted s) :
    Fine (s.merge n path newDisks ok) := by
  have hrest : Scan.list (if newDisks = [] then .extracting else .merging newDisks) = none := by
    split <;> rfl
  unfold State.merge
  cases hp : s.findSlot path slots with
  | error c =>
    rintro rfl
    cases findSlot_error hp
  | ok slot =>
    cases slot with
    | none => exact accounted_setScan h hrest
    | some i =>
      obtain ⟨hi, hm⟩ := findSlot_some hp
      cases ok with
      | true =>
        obtain ⟨l, hc⟩ := h
        exact accounted_setScan ⟨l, hc.setupTarget hi (List.mem_range.mp hm)⟩ hrest
      | false => exact accounted_setScan h rfl

theorem fine_destroyNext {n x : Nat} (h : Accounted s) (hn : s.scan n = .destroying (some x)) :
    Fine (s.destroyNext n x) := by
  obtain ⟨l, hc⟩ := h
  have hx : s.Extracted x := hc.heads (n := n) (by rw [hn]; rfl)
  have hu := hc.unlink hx
  have hnext : ∀ y, s.next x = some y → s.Extracted y := fun y hy => (hc.closed hx hy).1
  unfold State.destroyNext
  dsimp only
  split
  · split
    · exact Crash.noConfusion
    · next y hy => exact ⟨l, hu.setScan fun z e => hnext z (hy.trans e)⟩
  · exact ⟨l, hu.setScan hnext⟩

/-- An orderly step keeps the account, and no assertion on references fails. -/
theorem fine_act {a : Act} {r : Except Crash State} (h : Accounted s) (hok : Orderly s a)
    (ha : act s a = some r) : Fine r := by
  cases a with
  | scanBegin n ok =>
    obtain ⟨-, ha⟩ := Option.ite_none_right_eq_some.mp ha
    rw [Option.some.injEq] at ha
    subst ha
    cases ok with
    | true =>
      have hm := accounted_markPending h
      revert hm
      generalize s.markPending = u
      intro hm
      obtain ⟨l, hc⟩ := accounted_setScan (n := n) (p := .reading []) hm rfl
      exact ⟨l, { hc with heads := hc.heads, closed := hc.closed }⟩
    | false =>
      obtain ⟨l, hc⟩ := accounted_setScan (n := n) (p := .extracting) h rfl
      exact ⟨l, { hc with heads := hc.heads, closed := hc.closed }⟩
  | scanEntry n entry =>
    simp only [act] at ha
    split at ha
    · cases ha
      cases entry with
      | ignored => exact h
      | newDisk path => exact accounted_setScan h rfl
      | enumerated id =>
        rw [State.readEntry, xmAssert]
        split
        · dsimp only
          split
          · exact Crash.noConfusion
          · obtain ⟨l, hc⟩ := h
            exact ⟨l, hc.update _ rfl rfl rfl rfl⟩
        · exact Crash.noConfusion
    · cases ha
  | scanOut n =>
    simp only [act] at ha
    split at ha
    · cases ha
      exact accounted_setScan h rfl
    · cases ha
      exact accounted_setScan h rfl
    · cases ha
  | scanCheck n =>
    simp only [act] at ha
    split at ha
    · cases ha
      exact fine_check h
    · cases ha
  | scanMerge n ok =>
    simp only [act] at ha
    split at ha
    · cases ha
      exact fine_merge h
    · cases ha
  | scanExtract n =>
    simp only [act] at ha
    split at ha
    · cases ha
      exact fine_extract h hok
    · cases ha
  | scanDestroy n =>
    simp only [act] at ha
    split at ha
    · cases ha
      exact accounted_setScan h rfl
    · next hn =>
      cases ha
      exact fine_destroyNext h hn
    · cases ha
  | scanFree n =>
    simp only [act] at ha
    split at ha
    · next list hn =>
      split at ha
      · cases ha
        obtain ⟨l, hc⟩ := h
        have hs := hc.setScan (n := n) (p := .destroying list)
          fun x e => hc.heads (n := n) (by rw [hn]; exact e)
        exact ⟨l, { hs with heads := hs.heads, closed := hs.closed }⟩
      · cases ha
    · cases ha
  | mapDeviceObject d i =>
    cases ha
    unfold State.mapDeviceObject
    split
    · exact h
    · rw [xmAssert]
      split
      · obtain ⟨l, hc⟩ := h
        exact ⟨l, hc.update _ rfl rfl rfl rfl⟩
      · exact Crash.noConfusion
  | irp d minor =>
    cases ha
    exact fine_irpBegin h hok
  | backendStateChanged i =>
    simp only [act] at ha
    split at ha
    · cases ha
    · next x hx =>
      split at ha
      · cases ha
      · cases ha
        exact accounted_filterCall h hx rfl rfl rfl
  | targetStart i =>
    cases ha
    exact fine_filterCall fun x hx => accounted_filterCall h hx rfl rfl rfl
  | targetStop i =>
    cases ha
    exact fine_filterCall fun x hx => accounted_filterCall h hx rfl rfl rfl
  | targetResume i =>
    cases ha
    exact fine_filterCall fun x hx => fine_targetResume h hx
  | call c ok =>
    obtain ⟨hc, ha⟩ := Option.ite_none_right_eq_some.mp ha
    obtain ⟨l, hcount⟩ := h
    exact fine_advance (hcount.take hc) ha
  | stopAdapter =>
    simp only [act, Option.some.injEq] at ha
    rw [← ha]
    exact accounted_stopAdapter h hok
  | targetEarlyResume x =>
    obtain ⟨-, ha⟩ := Option.ite_none_right_eq_some.mp ha
    cases ha
    obtain ⟨l, hc⟩ := h
    exact ⟨l, hc.suspend hok.1 hok.2⟩
  | targetLateResume x =>
    obtain ⟨hx, ha⟩ := Option.ite_none_right_eq_some.mp ha
    cases ha
    exact fine_lateResume h hx.1
  | resumeAll =>
    simp only [act] at ha
    split at ha
    · next e =>
      cases ha
      obtain ⟨l, hc⟩ := h
      rw [e] at hc
      cases hm : State.resumeAllMark slots s none with
      | error c =>
        rintro rfl
        cases resumeAllMark_error hm
      | ok p =>
        obtain ⟨t, o⟩ := p
        obtain ⟨l', hc'⟩ := hc.resumeAllMark hm
        exact ⟨l', { hc' with heads := hc'.heads, closed := hc'.closed }⟩
    · cases ha
  | resumeAllNext => exact fine_resumeAllNext h ha
  | resumeAllEnd => exact fine_resumeAllEnd h ha

theorem accounted_step {a : Act} (h : Accounted s) (hok : Orderly s a) (hst : step s a = some t) :
    Accounted t := by
  unfold step at hst
  split at hst
  · cases hst
  · obtain ⟨r, hr, rfl⟩ := Option.map_eq_some_iff.mp hst
    have hf := fine_act h hok hr
    cases r with
    | ok t => exact hf
    | error c =>
      obtain ⟨l, hc⟩ := h
      exact ⟨l, { hc with
        alive := fun e => hf (Option.some.inj e), heads := hc.heads, closed := hc.closed }⟩

theorem accounted_init : Accounted init := by
  refine ⟨[], ?_⟩
  constructor
  case alive => nofun
  case slot => nofun
  case bound => nofun
  case inj => nofun
  case references => exact fun _ => rfl
  case apart => nofun
  case resumers => exact fun _ => rfl
  case chain => rfl
  case calls => nofun
  case cur => nofun
  case list => nofun
  case heads => nofun
  case closed => exact fun hx => absurd hx.1 (Nat.not_lt_zero _)

/-- In every orderly run the references of a target are the calls that use it, and one more exactly
while it is suspended or resuming; so there are none once nobody uses it and it is resumed. -/
theorem target_references_counted (h : machine.Reach Orderly s) (x : Nat) :
    (s.target x).references =
      (s.holders x : Int) + (if (s.target x).suspended ∨ (s.target x).resuming then 1 else 0) ∧
    0 ≤ (s.target x).references ∧
    (s.holders x = 0 → (s.target x).suspended = false → (s.target x).resuming = false →
      (s.target x).references = 0) ∧
    s.crashed ≠ some .references := by
  obtain ⟨l, hc⟩ : Accounted s := h.inv accounted_init fun _ _ _ => accounted_step
  have hr := hc.references x
  rw [List.countP_nil, Nat.zero_add, Int.natCast_add] at hr
  have ho : ((s.target x).own : Int) =
      if (s.target x).suspended ∨ (s.target x).resuming then 1 else 0 := by
    rw [TargetInfo.own]
    split <;> rfl
  rw [← ho]
  refine ⟨hr, by omega, fun h0 hs hg => ?_, hc.alive⟩
  rw [hr, h0, TargetInfo.own, hs, hg]
  rfl

end Runs

section Witness

instance (s : State) : (a : Act) → Decidable (Orderly s a)
  | .stopAdapter | .targetEarlyResume _ | .irp _ _ | .scanExtract _ => by
    dsimp only [Orderly]
    infer_instance
  | .scanBegin .. | .scanEntry .. | .scanOut _ | .scanCheck _ | .scanMerge .. | .scanDestroy _ | .scanFree _
  | .mapDeviceObject .. | .backendStateChanged _ | .targetStart _ | .targetStop _ | .targetResume _ | .call ..
  | .targetLateResume _ | .resumeAll | .resumeAllNext | .resumeAllEnd => .isTrue trivial

/-- A start request is at work on a target that `ResumeAllTargets` resumes. -/
theorem target_references_counted_run :
    ∃ s, machine.Reach Orderly s ∧ s.calls = [.irp .startDevice 0 false] ∧
      s.resumeAll = .running 0 none ∧ (s.target 0).references = 2 ∧ s.holders 0 = 1 := by
  obtain ⟨s, hr, hp⟩ := Machine.exists_reach machine Orderly
    (fun s => s.calls = [.irp .startDevice 0 false] ∧ s.resumeAll = .running 0 none ∧
      s.holders 0 = 1 ∧ (s.target 0).resuming = true)
    (List.flatten [setUpTwo, [.stopAdapter, .irp 70 .startDevice, .resumeAll, .resumeAllNext,
      .resumeAllNext, .resumeAllEnd, .resumeAllNext, .resumeAllNext]]) (by decide +kernel)
  simp only [decide_eq_true_eq] at hp
  obtain ⟨h1, h2, h3, h4⟩ := hp
  refine ⟨s, hr, h1, h2, ?_, h3⟩
  rw [(target_references_counted hr 0).1, h3, h4, if_pos (.inr rfl)]
  rfl

/-- A target that is suspended twice and resumed once keeps a reference that nobody holds. -/
theorem suspended_twice :
    ∃ s, machine.Reach Machine.Any s ∧ s.calls = [] ∧ (s.target 0).suspended = false ∧
      (s.target 0).resuming = false ∧ (s.target 0).resumed = true ∧ (s.target 0).references = 1 := by
  obtain ⟨s, hr, hp⟩ := Machine.exists_reach machine Machine.Any
    (fun s => s.calls = [] ∧ (s.target 0).suspended = false ∧ (s.target 0).resuming = false ∧
      (s.target 0).resumed = true ∧ (s.target 0).references = 1)
    (List.flatten [setUpTwo, [.stopAdapter, .targetEarlyResume 0, .targetLateResume 0,
      .call (.targetLateResume 0 .marked) true, .call (.targetLateResume 0 .running) true]])
    (by decide +kernel)
  simp only [decide_eq_true_eq] at hp
  exact ⟨s, hr, hp⟩

end Witness

end XcWindows.Xenvbd.Targets
