import Mathlib.Data.List.Perm.Basic
import XcWindows.Lib.Word

/-!
# The elevator

`get_next_request` and `enqueue_request` of `scsifilt/schedule.c`, with a list for each `LIST_ENTRY` ring.
A request is known by its place among those enqueued; its `state`, which the order does not read, is left
out. A flip is a transplant of the next schedule, as both functions trace it, also where the next schedule
is empty.
-/

namespace XcWindows.Scsifilt.Elevator

open XcWindows.Lib

structure Request where
  arrival : Nat
  startSector : Nat

/-- `scsifilt_schedule`, with the number of flips so far. -/
structure Schedule where
  curSched : List Request
  nextSched : List Request
  nrScheduled : Nat
  flips : Nat

def initialiseSchedule : Schedule := ⟨[], [], 0, 0⟩

/-- `if (IsListEmpty(&sched->cur_sched)) XmListTransplant(&sched->cur_sched, &sched->next_sched)` -/
def flipSchedule (s : Schedule) : Schedule :=
  if s.curSched = [] then { s with curSched := s.nextSched, nextSched := [], flips := s.flips + 1 } else s

def getNextRequest (s : Schedule) : Schedule × Option Request :=
  (flipSchedule s, (flipSchedule s).curSched.head?)

/-- Directly before the first request with a larger start sector, or at the end. -/
def insertRequest (req : Request) : List Request → List Request
  | [] => [req]
  | other :: l => if other.startSector > req.startSector then req :: other :: l
    else other :: insertRequest req l

def enqueueRequest (s : Schedule) (req : Request) : Schedule :=
  let s := flipSchedule { s with nrScheduled := u32 (s.nrScheduled + 1) }
  match s.curSched with
  | [] => { s with curSched := [req] }
  | curHead :: _ =>
    if req.startSector < curHead.startSector then
      { s with nextSched := insertRequest req s.nextSched }
    else { s with curSched := insertRequest req s.curSched }

/-- The schedule with what was put in and taken out; what is taken out has the number of flips by then. -/
structure State where
  schedule : Schedule
  enqueued : List Request
  dispatched : List (Nat × Request)

inductive Action where
  | enqueue (startSector : Nat)
  /-- `get_next_request`, whose result is removed and started. -/
  | dispatch
  /-- `get_next_request`, whose result could not be started. -/
  | peek

def init : State := ⟨initialiseSchedule, [], []⟩

def step (s : State) : Action → State
  | .enqueue startSector =>
    let req : Request := ⟨s.enqueued.length, startSector⟩
    { s with schedule := enqueueRequest s.schedule req, enqueued := s.enqueued ++ [req] }
  | .dispatch =>
    match getNextRequest s.schedule with
    | (t, none) => { s with schedule := t }
    | (t, some req) =>
      { s with schedule := { t with curSched := t.curSched.tail, nrScheduled := sub32 t.nrScheduled 1 }
               dispatched := s.dispatched ++ [(t.flips, req)] }
  | .peek => { s with schedule := (getNextRequest s.schedule).1 }

def run (as : List Action) : State := as.foldl step init

/-- Start sectors do not decrease. -/
def Sorted (l : List Request) : Prop := l.Pairwise fun a b => a.startSector ≤ b.startSector

/-- Requests with equal start sectors are in the order of their arrival. -/
def Fair (l : List Request) : Prop := l.Pairwise fun a b => a.startSector = b.startSector → a.arrival < b.arrival

/-- What goes out between two flips goes up. -/
def Ascending (l : List (Nat × Request)) : Prop :=
  l.Pairwise fun a b => a.1 = b.1 → a.2.startSector ≤ b.2.startSector

/-- The next schedule is in front of the head of the current one. -/
def Below (s : Schedule) : Prop := ∀ h ∈ s.curSched.head?, ∀ r ∈ s.nextSched, r.startSector < h.startSector

/-! ## Insertion -/

theorem insertRequest_split (req : Request) {l : List Request} (h : Sorted l) :
    ∃ before after, l = before ++ after ∧ insertRequest req l = before ++ req :: after ∧
      (∀ r ∈ before, r.startSector ≤ req.startSector) ∧ ∀ r ∈ after, req.startSector < r.startSector := by
  induction l with
  | nil => exact ⟨[], [], rfl, rfl, by simp, by simp⟩
  | cons other l ih =>
    obtain ⟨hhead, htail⟩ := List.pairwise_cons.mp h
    rw [insertRequest]
    split
    · next hlt =>
      refine ⟨[], other :: l, rfl, rfl, by simp, ?_⟩
      intro r hr
      rcases List.mem_cons.mp hr with rfl | hr
      · exact hlt
      · exact Nat.lt_of_lt_of_le hlt (hhead r hr)
    · next hle =>
      obtain ⟨before, after, rfl, heq, hb, ha⟩ := ih htail
      refine ⟨other :: before, after, rfl, by rw [heq]; rfl, ?_, ha⟩
      intro r hr
      rcases List.mem_cons.mp hr with rfl | hr
      · exact Nat.le_of_not_lt hle
      · exact hb r hr

theorem insertRequest_perm (req : Request) {l : List Request} (h : Sorted l) :
    (insertRequest req l).Perm (req :: l) := by
  obtain ⟨before, after, rfl, heq, -⟩ := insertRequest_split req h
  rw [heq]
  exact List.perm_middle

theorem mem_insertRequest {req r : Request} {l : List Request} (h : Sorted l) :
    r ∈ insertRequest req l ↔ r = req ∨ r ∈ l := by
  rw [(insertRequest_perm req h).mem_iff, List.mem_cons]

theorem sorted_insertRequest (req : Request) {l : List Request} (h : Sorted l) :
    Sorted (insertRequest req l) := by
  obtain ⟨before, after, rfl, heq, hb, ha⟩ := insertRequest_split req h
  obtain ⟨hbefore, hafter, hcross⟩ := List.pairwise_append.mp h
  rw [heq]
  refine List.pairwise_append.mpr ⟨hbefore, List.pairwise_cons.mpr ⟨?_, hafter⟩, ?_⟩
  · exact fun r hr => Nat.le_of_lt (ha r hr)
  · intro r hr r' hr'
    rcases List.mem_cons.mp hr' with rfl | hr'
    · exact hb r hr
    · exact hcross r hr r' hr'

theorem fair_insert {req : Request} {before after : List Request} (h : Fair (before ++ after))
    (hlast : ∀ r ∈ before ++ after, r.arrival < req.arrival)
    (hafter : ∀ r ∈ after, req.startSector ≠ r.startSector) : Fair (before ++ req :: after) := by
  obtain ⟨hb, ha, hcross⟩ := List.pairwise_append.mp h
  refine List.pairwise_append.mpr ⟨hb, List.pairwise_cons.mpr ⟨?_, ha⟩, ?_⟩
  · exact fun r hr heq => absurd heq (hafter r hr)
  · intro r hr r' hr'
    rcases List.mem_cons.mp hr' with rfl | hr'
    · exact fun _ => hlast r (List.mem_append_left _ hr)
    · exact hcross r hr r' hr'

/-! ## Runs -/

/-- Every request, those taken out first. -/
def State.all (s : State) : List Request :=
  s.dispatched.map Prod.snd ++ (s.schedule.curSched ++ s.schedule.nextSched)

structure Inv (s : State) : Prop where
  cur : Sorted s.schedule.curSched
  next : Sorted s.schedule.nextSched
  below : Below s.schedule
  perm : s.all.Perm s.enqueued
  fair : Fair s.all
  ascending : Ascending s.dispatched
  flips : ∀ d ∈ s.dispatched, d.1 ≤ s.schedule.flips
  ahead : ∀ d ∈ s.dispatched, d.1 = s.schedule.flips → ∀ r ∈ s.schedule.curSched,
    d.2.startSector ≤ r.startSector
  arrival : ∀ r ∈ s.enqueued, r.arrival < s.enqueued.length

theorem flip_of_ne {s : Schedule} (h : s.curSched ≠ []) : flipSchedule s = s := if_neg h

theorem flip_of_nil {s : Schedule} (h : s.curSched = []) :
    flipSchedule s = { s with curSched := s.nextSched, nextSched := [], flips := s.flips + 1 } := if_pos h

theorem Inv.flip {s : State} (h : Inv s) : Inv { s with schedule := flipSchedule s.schedule } := by
  by_cases hnil : s.schedule.curSched = []
  · have hall : State.all { s with schedule := flipSchedule s.schedule } = s.all := by
      simp only [State.all, flip_of_nil hnil, hnil, List.append_nil, List.nil_append]
    refine ⟨?_, ?_, ?_, ?_, ?_, h.ascending, ?_, ?_, h.arrival⟩
    · simp only [flip_of_nil hnil]
      exact h.next
    · simp only [flip_of_nil hnil]
      exact List.Pairwise.nil
    · simp only [flip_of_nil hnil]
      intro _ _ r hr
      cases hr
    · rw [hall]
      exact h.perm
    · rw [hall]
      exact h.fair
    · intro d hd
      have := h.flips d hd
      simp only [flip_of_nil hnil]
      omega
    · intro d hd heq
      have := h.flips d hd
      simp only [flip_of_nil hnil] at heq
      omega
  · rw [flip_of_ne hnil]
    exact h

/-- Where the current schedule is empty after a flip, both are, and nothing has gone out since. -/
theorem flip_nil {s : Schedule} (h : (flipSchedule s).curSched = []) :
    (flipSchedule s).nextSched = [] ∧ (flipSchedule s).flips = s.flips + 1 := by
  by_cases hnil : s.curSched = []
  · rw [flip_of_nil hnil]
    exact ⟨rfl, rfl⟩
  · rw [flip_of_ne hnil] at h
    exact absurd h hnil

theorem Inv.arrival_all {s : State} (h : Inv s) : ∀ r ∈ s.all, r.arrival < s.enqueued.length :=
  fun r hr => h.arrival r (h.perm.mem_iff.mp hr)

theorem enqueueRequest_cases (s : Schedule) (req : Request) :
    (flipSchedule s).curSched = [] ∧ (enqueueRequest s req).curSched = [req] ∧
        (enqueueRequest s req).nextSched = (flipSchedule s).nextSched ∧
        (enqueueRequest s req).flips = (flipSchedule s).flips ∨
      ∃ head tail, (flipSchedule s).curSched = head :: tail ∧
        (enqueueRequest s req).flips = (flipSchedule s).flips ∧
        (req.startSector < head.startSector ∧ (enqueueRequest s req).curSched = (flipSchedule s).curSched ∧
            (enqueueRequest s req).nextSched = insertRequest req (flipSchedule s).nextSched ∨
          head.startSector ≤ req.startSector ∧
            (enqueueRequest s req).curSched = head :: insertRequest req tail ∧
            (enqueueRequest s req).nextSched = (flipSchedule s).nextSched) := by
  have hcur : (flipSchedule { s with nrScheduled := u32 (s.nrScheduled + 1) }).curSched =
      (flipSchedule s).curSched := by
    simp only [flipSchedule]
    split
    all_goals rfl
  have hnext : (flipSchedule { s with nrScheduled := u32 (s.nrScheduled + 1) }).nextSched =
      (flipSchedule s).nextSched := by
    simp only [flipSchedule]
    split
    all_goals rfl
  have hflips : (flipSchedule { s with nrScheduled := u32 (s.nrScheduled + 1) }).flips =
      (flipSchedule s).flips := by
    simp only [flipSchedule]
    split
    all_goals rfl
  cases h : (flipSchedule s).curSched with
  | nil =>
    left
    simp only [enqueueRequest, hcur, h, hnext, hflips, and_self]
  | cons head tail =>
    right
    refine ⟨head, tail, rfl, ?_, ?_⟩
    · simp only [enqueueRequest, hcur, h]
      split
      all_goals exact hflips
    · by_cases hlt : req.startSector < head.startSector
      · left
        simp only [enqueueRequest, hcur, h, if_pos hlt, hnext, and_true]
        exact hlt
      · right
        simp only [enqueueRequest, hcur, h, if_neg hlt, hnext, and_true]
        refine ⟨Nat.le_of_not_lt hlt, ?_⟩
        rw [insertRequest, if_neg hlt]

theorem arrival_snoc {l : List Request} (h : ∀ r ∈ l, r.arrival < l.length) (sector : Nat) :
    ∀ r ∈ l ++ [(⟨l.length, sector⟩ : Request)], r.arrival < (l ++ [(⟨l.length, sector⟩ : Request)]).length := by
  intro r hr
  rw [List.length_append]
  rcases List.mem_append.mp hr with hr | hr
  · exact Nat.lt_add_right _ (h r hr)
  · obtain rfl := List.mem_singleton.mp hr
    exact Nat.lt_succ_self _

/-- A request that arrives is put between the requests with start sectors up to its own and the others. -/
theorem Inv.enqueue {s : State} (h : Inv s) (sector : Nat) : Inv (step s (.enqueue sector)) := by
  have hf := h.flip
  have hold := hf.arrival_all
  simp only [State.all] at hold
  have hperm := hf.perm
  have hfair := hf.fair
  simp only [State.all] at hperm hfair
  rcases enqueueRequest_cases s.schedule ⟨s.enqueued.length, sector⟩ with
    ⟨hnil, hcur, hnext, hflips⟩ | ⟨head, tail, hhead, hflips, ⟨hlt, hcur, hnext⟩ | ⟨hle, hcur, hnext⟩⟩
  · obtain ⟨hempty, hnew⟩ := flip_nil hnil
    rw [hnil, hempty, List.append_nil, List.append_nil] at hperm hfair hold
    refine ⟨?_, ?_, ?_, ?_, ?_, h.ascending, ?_, ?_, arrival_snoc h.arrival sector⟩
    · simp only [step, hcur]
      exact List.pairwise_singleton ..
    · simp only [step, hnext]
      exact hf.next
    · simp only [step, Below, hnext, hempty]
      intro _ _ r hr
      cases hr
    · simp only [step, State.all, hcur, hnext, hempty, List.append_nil]
      exact hperm.append_right _
    · simp only [step, State.all, hcur, hnext, hempty, List.append_nil]
      refine List.pairwise_append.mpr ⟨hfair, List.pairwise_singleton .., ?_⟩
      intro r hr r' hr' _
      obtain rfl := List.mem_singleton.mp hr'
      exact hold r hr
    · simp only [step, hflips]
      exact hf.flips
    · simp only [step, hflips, hnew]
      intro d hd heq
      have := h.flips d hd
      omega
  · obtain ⟨before, after, hsplit, hins, hb, ha⟩ := insertRequest_split ⟨s.enqueued.length, sector⟩ hf.next
    have hbelow : ∀ r ∈ (flipSchedule s.schedule).nextSched, r.startSector < head.startSector :=
      hf.below head (by simp only [hhead]; rfl)
    refine ⟨?_, ?_, ?_, ?_, ?_, h.ascending, ?_, ?_, arrival_snoc h.arrival sector⟩
    · simp only [step, hcur]
      exact hf.cur
    · simp only [step, hnext]
      exact sorted_insertRequest _ hf.next
    · simp only [step, Below, hcur, hnext, hhead]
      intro other hother r hr
      obtain rfl := Option.some.inj hother
      rcases (mem_insertRequest hf.next).mp hr with rfl | hr
      · exact hlt
      · exact hbelow r hr
    · simp only [step, State.all, hcur, hnext]
      refine List.Perm.trans ?_ (hperm.append_right _)
      rw [List.append_assoc, List.append_assoc]
      refine ((((insertRequest_perm _ hf.next).trans (List.perm_append_singleton _ _).symm).append_left
        _).append_left _)
    · simp only [step, State.all, hcur, hnext, hins]
      rw [hsplit, ← List.append_assoc, ← List.append_assoc] at hfair hold
      rw [← List.append_assoc, ← List.append_assoc]
      exact fair_insert hfair hold fun r hr => Nat.ne_of_lt (ha r hr)
    · simp only [step, hflips]
      exact hf.flips
    · simp only [step, hflips, hcur]
      exact hf.ahead
  · have hsorted := hf.cur
    simp only [hhead] at hsorted
    obtain ⟨hfirst, htail⟩ := List.pairwise_cons.mp hsorted
    obtain ⟨before, after, hsplit, hins, hb, ha⟩ := insertRequest_split ⟨s.enqueued.length, sector⟩ htail
    have hmem : ∀ r ∈ head :: insertRequest ⟨s.enqueued.length, sector⟩ tail,
        head.startSector ≤ r.startSector := by
      intro r hr
      rcases List.mem_cons.mp hr with rfl | hr
      · exact Nat.le_refl _
      · rcases (mem_insertRequest htail).mp hr with rfl | hr
        · exact hle
        · exact hfirst r hr
    have hbelow : ∀ r ∈ (flipSchedule s.schedule).nextSched, r.startSector < head.startSector :=
      hf.below head (by simp only [hhead]; rfl)
    refine ⟨?_, ?_, ?_, ?_, ?_, h.ascending, ?_, ?_, arrival_snoc h.arrival sector⟩
    · simp only [step, hcur]
      exact List.pairwise_cons.mpr ⟨fun r hr => hmem r (List.mem_cons_of_mem _ hr),
        sorted_insertRequest _ htail⟩
    · simp only [step, hnext]
      exact hf.next
    · simp only [step, Below, hcur, hnext]
      intro other hother r hr
      obtain rfl := Option.some.inj hother
      exact hbelow r hr
    · simp only [step, State.all, hcur, hnext]
      refine List.Perm.trans ?_ (hperm.append_right _)
      rw [hhead, List.append_assoc, List.append_assoc]
      refine List.Perm.append_left _ ?_
      refine ((((insertRequest_perm _ htail).cons head).trans (List.Perm.swap _ _ _)).append_right _).trans ?_
      have hsnoc := (List.perm_append_singleton (⟨s.enqueued.length, sector⟩ : Request)
        (head :: tail ++ (flipSchedule s.schedule).nextSched)).symm
      rwa [List.append_assoc] at hsnoc
    · simp only [step, State.all, hcur, hnext, hins]
      have hall : s.dispatched.map Prod.snd ++
          ((flipSchedule s.schedule).curSched ++ (flipSchedule s.schedule).nextSched) =
          (s.dispatched.map Prod.snd ++ head :: before) ++ (after ++ (flipSchedule s.schedule).nextSched) := by
        rw [hhead, hsplit]
        simp only [List.append_assoc, List.cons_append]
      rw [hall] at hfair hold
      have hnew := @fair_insert ⟨s.enqueued.length, sector⟩ _ _ hfair hold ?_
      · simpa only [List.append_assoc, List.cons_append] using hnew
      · intro r hr
        rcases List.mem_append.mp hr with hr | hr
        · exact Nat.ne_of_lt (ha r hr)
        · exact Nat.ne_of_gt (Nat.lt_of_lt_of_le (hbelow r hr) hle)
    · simp only [step, hflips]
      exact hf.flips
    · simp only [step, hflips, hcur]
      intro d hd heq r hr
      have hdh := hf.ahead d hd heq head (by simp only [hhead]; exact List.mem_cons_self)
      exact Nat.le_trans hdh (hmem r hr)

theorem Inv.dispatch {s : State} (h : Inv s) : Inv (step s .dispatch) := by
  have hf := h.flip
  cases hcur : (flipSchedule s.schedule).curSched with
  | nil =>
    simp only [step, getNextRequest, hcur, List.head?_nil]
    exact hf
  | cons req tail =>
    have hsorted := hf.cur
    have hbelow := hf.below
    have hahead := hf.ahead
    have hperm := hf.perm
    have hfair := hf.fair
    simp only [Below, State.all, hcur] at hsorted hbelow hahead hperm hfair
    obtain ⟨hfirst, htail⟩ := List.pairwise_cons.mp hsorted
    have hall : (s.dispatched ++ [((flipSchedule s.schedule).flips, req)]).map Prod.snd ++
        (tail ++ (flipSchedule s.schedule).nextSched) =
        s.dispatched.map Prod.snd ++ (req :: tail ++ (flipSchedule s.schedule).nextSched) := by
      simp only [List.map_append, List.map_cons, List.map_nil, List.append_assoc, List.cons_append,
        List.nil_append]
    simp only [step, getNextRequest, hcur, List.head?_cons, List.tail_cons]
    refine ⟨htail, hf.next, ?_, ?_, ?_, ?_, ?_, ?_, h.arrival⟩
    · intro head hhead r hr
      have hlt := hbelow req rfl r hr
      exact Nat.lt_of_lt_of_le hlt (hfirst head (List.mem_of_mem_head? hhead))
    · simp only [State.all, hall]
      exact hperm
    · simp only [State.all, hall]
      exact hfair
    · refine List.pairwise_append.mpr ⟨h.ascending, List.pairwise_singleton .., ?_⟩
      intro d hd d' hd' heq
      obtain rfl := List.mem_singleton.mp hd'
      exact hahead d hd heq req List.mem_cons_self
    · intro d hd
      rcases List.mem_append.mp hd with hd | hd
      · exact hf.flips d hd
      · obtain rfl := List.mem_singleton.mp hd
        exact Nat.le_refl _
    · intro d hd heq r hr
      rcases List.mem_append.mp hd with hd | hd
      · exact hahead d hd heq r (List.mem_cons_of_mem _ hr)
      · obtain rfl := List.mem_singleton.mp hd
        exact hfirst r hr

theorem inv_init : Inv init := by
  refine ⟨List.Pairwise.nil, List.Pairwise.nil, ?_, List.Perm.nil, List.Pairwise.nil, List.Pairwise.nil, ?_,
    ?_, ?_⟩
  · intro h hh
    cases hh
  all_goals simp [init]

theorem inv_run (as : List Action) : Inv (run as) := by
  have hrun : ∀ (as : List Action) (s : State), Inv s → Inv (as.foldl step s) := by
    intro as
    induction as with
    | nil => exact fun s h => h
    | cons a as ih =>
      intro s h
      refine ih _ ?_
      cases a with
      | enqueue sector => exact h.enqueue sector
      | dispatch => exact h.dispatch
      | peek => exact h.flip
  exact hrun as init inv_init

/-- **The schedule of any run**: both lists are sorted and hold what has not gone out, the next one is in
front of the head of the current one, what goes out between two flips goes up, and requests with equal
start sectors go out as they came in. -/
theorem schedule_run (as : List Action) :
    Sorted (run as).schedule.curSched ∧ Sorted (run as).schedule.nextSched ∧
      ((run as).dispatched.map Prod.snd ++
        ((run as).schedule.curSched ++ (run as).schedule.nextSched)).Perm (run as).enqueued ∧
      Below (run as).schedule ∧ Ascending (run as).dispatched ∧
      Fair ((run as).dispatched.map Prod.snd) := by
  have h := inv_run as
  exact ⟨h.cur, h.next, h.perm, h.below, h.ascending, (List.pairwise_append.mp h.fair).1⟩

/-- Three requests, the second behind the head, the third with the first one's sector. -/
example : (run [.enqueue 5, .enqueue 3, .enqueue 5, .dispatch, .dispatch, .dispatch]).dispatched.map
    (fun d => (d.2.arrival, d.2.startSector)) = [(0, 5), (2, 5), (1, 3)] := by decide

end XcWindows.Scsifilt.Elevator
