import XcWindows.Lib.Links
import XcWindows.Lib.Machine

/-!
# The pool of bounce buffers

`InitBounceBuffers`, `AllocateBounceBuffer` and `FreeBounceBuffer` in `xenvbd/xen.c`. The free buffers
are linked through the array. `InitBounceBuffers` sets the head of the list to buffer 0 before it finds
out which buffers have memory. Both other functions run under `BounceBufferLock`.
-/

namespace XcWindows.Xenvbd.Bounce

open Lib
open Function (update update_of_ne update_self)

abbrev nrBounceBuffers : Nat := 128
def maxDisks (austereMode : Bool) : Nat := if austereMode then 32 else 128

/-- The variables of the pool; an index of -1 is `none`. -/
structure Pool where
  next : Nat → Option Nat
  /-- the physical address of the page of a buffer, if it has one -/
  vaddr : Nat → Option Nat
  nextBounceBuffer : Option Nat
  freeBounceBuffers : Nat
  minFreeBounceBuffers : Nat

def targetBuffers (austereMode : Bool) : Nat := if austereMode then 2 else nrBounceBuffers

namespace Pool

/-- A turn of the loop of `InitBounceBuffers`, with `prev`. -/
def initBuffer (alloc : Nat → Option Nat) (p : Pool × Option Nat) (x : Nat) : Pool × Option Nat :=
  let vaddr := update p.1.vaddr x ((p.1.vaddr x).or (alloc x))
  if (vaddr x).isNone then ({ p.1 with vaddr }, p.2)
  else
    let next :=
      match p.2 with
      | some prev => update p.1.next prev (some x)
      | none => p.1.next
    ({ p.1 with vaddr, next, freeBounceBuffers := p.1.freeBounceBuffers + 1 }, some x)

/-- `InitBounceBuffers`; `alloc` is what `XmAllocatePhysMemory` answers for a buffer. -/
def initBounceBuffers (austereMode : Bool) (alloc : Nat → Option Nat) (pool : Pool) : Pool :=
  let (pool, prev) := (List.range (targetBuffers austereMode)).foldl (initBuffer alloc)
    ({ pool with nextBounceBuffer := some 0, freeBounceBuffers := 0 }, none)
  let pool := { pool with minFreeBounceBuffers := pool.freeBounceBuffers }
  match prev with
  | none => { pool with nextBounceBuffer := none }
  | some prev => { pool with next := update pool.next prev none }

/-- `AllocateBounceBuffer`: the buffer, unless there is none, or the assertion on the count. -/
def allocateBounceBuffer (pool : Pool) : Except Unit (Option Nat × Pool) :=
  match pool.nextBounceBuffer with
  | none => .ok (none, pool)
  | some res =>
    if pool.freeBounceBuffers = 0 then .error ()
    else
      .ok (some res, { pool with
        nextBounceBuffer := pool.next res
        freeBounceBuffers := pool.freeBounceBuffers - 1
        minFreeBounceBuffers := min (pool.freeBounceBuffers - 1) pool.minFreeBounceBuffers })

/-- `FreeBounceBuffer`, under the lock. -/
def freeBounceBuffer (pool : Pool) (bid : Nat) : Pool :=
  { pool with
    next := update pool.next bid pool.nextBounceBuffer
    nextBounceBuffer := some bid
    freeBounceBuffers := pool.freeBounceBuffers + 1 }

end Pool

structure State where
  pool : Pool
  allocated : List Nat
  /-- `NeedsWakeWhenBuffersAvail` of the targets in `XenvbdTargetInfo` -/
  needsWake : Nat → Option Bool
  /-- the targets whose port was raised -/
  raised : List Nat
  failed : Bool

inductive Act where
  | allocate
  | free (bid : Nat)
  /-- a target ran out of buffers -/
  | wait (target : Nat)
deriving DecidableEq

namespace State

/-- `FreeBounceBuffer`, after the lock: the targets that wait are woken. -/
def wakeTargets (austereMode : Bool) (s : State) : State :=
  { s with
    needsWake := fun x =>
      if x < maxDisks austereMode ∧ s.needsWake x = some true then some false else s.needsWake x
    raised := s.raised ++ (List.range (maxDisks austereMode)).filter fun x => s.needsWake x = some true }

def step (austereMode : Bool) (s : State) : Act → Option State
  | .allocate =>
    if s.failed then none
    else
      match s.pool.allocateBounceBuffer with
      | .error _ => some { s with failed := true }
      | .ok (none, pool) => some { s with pool }
      | .ok (some bid, pool) => some { s with pool, allocated := bid :: s.allocated }
  | .free bid =>
    if s.failed = false ∧ bid ∈ s.allocated then
      some <| { s with
        pool := s.pool.freeBounceBuffer bid
        allocated := s.allocated.erase bid }.wakeTargets austereMode
    else none
  | .wait x => some { s with needsWake := update s.needsWake x (some true) }

end State

/-- The static variables of a driver that was just loaded. -/
def Pool.loaded : Pool := ⟨fun _ => some 0, fun _ => none, some 0, 0, 0⟩

/-- The pool from `InitBounceBuffers` on. -/
def poolMachine (austereMode : Bool) (alloc : Nat → Option Nat) : Machine State Act where
  init := ⟨Pool.loaded.initBounceBuffers austereMode alloc, [], fun _ => none, [], false⟩
  step := State.step austereMode

/-! ## The free list -/

/-- The free buffers, in the order of the list. -/
structure Pool.IsFree (pool : Pool) (xs : List Nat) : Prop where
  links : Seg pool.next pool.nextBounceBuffer xs none
  nodup : xs.Nodup
  count : pool.freeBounceBuffers = xs.length

variable {pool : Pool} {xs : List Nat} {x : Nat}

theorem Pool.IsFree.allocate (h : pool.IsFree xs) :
    xs = [] ∧ pool.allocateBounceBuffer = .ok (none, pool) ∨
      ∃ bid rest pool', xs = bid :: rest ∧ pool.allocateBounceBuffer = .ok (some bid, pool') ∧
        pool'.IsFree rest ∧ pool'.vaddr = pool.vaddr := by
  obtain ⟨hl, hn, hc⟩ := h
  unfold allocateBounceBuffer
  cases xs with
  | nil =>
    rw [show pool.nextBounceBuffer = none from hl]
    exact .inl ⟨rfl, rfl⟩
  | cons bid rest =>
    obtain ⟨hh, hl⟩ := hl
    rw [List.length_cons] at hc
    rw [hh]
    simp only [hc, Nat.succ_ne_zero, if_false]
    exact .inr ⟨bid, rest, _, rfl, rfl, ⟨hl, (List.nodup_cons.mp hn).2, rfl⟩, rfl⟩

theorem Pool.IsFree.free (h : pool.IsFree xs) (hx : x ∉ xs) :
    (pool.freeBounceBuffer x).IsFree (x :: xs) := by
  refine ⟨⟨rfl, ?_⟩, List.nodup_cons.mpr ⟨hx, h.nodup⟩, ?_⟩
  · have : update pool.next x pool.nextBounceBuffer x = pool.nextBounceBuffer :=
      update_self ..
    show Seg _ (update pool.next x pool.nextBounceBuffer x) xs none
    rw [this]
    refine h.links.congr fun y hy => update_of_ne ?_ ..
    rintro rfl
    exact hx hy
  · show pool.freeBounceBuffers + 1 = _
    rw [h.count, List.length_cons]

/-! ## `InitBounceBuffers` -/

variable {alloc : Nat → Option Nat} {austereMode : Bool} {k : Nat}

/-- The buffers before `k` that get memory, in the order in which they are linked. -/
def usable (alloc : Nat → Option Nat) (k : Nat) : List Nat := (List.range k).filter fun x => (alloc x).isSome

theorem mem_usable : x ∈ usable alloc k ↔ x < k ∧ (alloc x).isSome := by
  rw [usable, List.mem_filter, List.mem_range]

theorem usable_nodup : (usable alloc k).Nodup := List.nodup_range.filter _

theorem usable_succ_none (h : alloc k = none) : usable alloc (k + 1) = usable alloc k := by
  rw [usable, List.range_succ, List.filter_append, List.filter_singleton, h]
  exact List.append_nil _

theorem usable_succ_some {a : Nat} (h : alloc k = some a) : usable alloc (k + 1) = usable alloc k ++ [k] := by
  rw [usable, List.range_succ, List.filter_append, List.filter_singleton, h]
  rfl

/-- What the loop has done before buffer `k`. The last link is not stored yet. -/
structure Filled (alloc : Nat → Option Nat) (k : Nat) (p : Pool × Option Nat) : Prop where
  vaddr : ∀ x, p.1.vaddr x = if x < k then alloc x else none
  prev : p.2 = (usable alloc k).getLast?
  links : ∃ m, Seg p.1.next (usable alloc k).head? (usable alloc k) m
  count : p.1.freeBounceBuffers = (usable alloc k).length
  head : p.1.nextBounceBuffer = some 0

theorem Filled.initBuffer {p : Pool × Option Nat} (h : Filled alloc k p) :
    Filled alloc (k + 1) (Pool.initBuffer alloc p k) := by
  have hk : (p.1.vaddr k).or (alloc k) = alloc k := by
    rw [h.vaddr, if_neg (Nat.lt_irrefl k)]
    rfl
  have hvaddr : ∀ x, update p.1.vaddr k (alloc k) x = if x < k + 1 then alloc x else none := by
    intro x
    by_cases hx : x = k
    · rw [hx, update_self, if_pos (Nat.lt_succ_self k)]
    · rw [update_of_ne hx, h.vaddr]
      exact if_congr (by omega) rfl rfl
  have hnd : (usable alloc k).Nodup := usable_nodup
  obtain ⟨m, hl⟩ := h.links
  obtain ⟨-, hprev, -, hcount, hhead⟩ := h
  unfold Pool.initBuffer
  simp only [hk, update_self]
  cases hm : alloc k with
  | none =>
    rw [hm] at hvaddr
    refine ⟨hvaddr, ?_, ?_, ?_, hhead⟩
    · rwa [usable_succ_none hm]
    · rw [usable_succ_none hm]
      exact ⟨m, hl⟩
    · rwa [usable_succ_none hm]
  | some a =>
    rw [hm] at hvaddr
    rw [← Nat.add_one_inj] at hcount
    refine ⟨hvaddr, ?_, ?_, ?_, hhead⟩
    · rw [usable_succ_some hm, List.getLast?_concat]
      rfl
    · rw [usable_succ_some hm, hprev]
      rcases List.eq_nil_or_concat' (usable alloc k) with he | ⟨zs, q, he⟩
      · rw [he]
        exact ⟨_, rfl, rfl⟩
      · -- the last one before gets to point to this one
        rw [he] at hl hnd ⊢
        rw [List.getLast?_concat]
        have hq : q ∉ zs := fun hz => (List.nodup_append.mp hnd).2.2 q hz q (List.mem_singleton_self q) rfl
        have hs : Seg (update p.1.next q (some k)) (zs ++ [q]).head? (zs ++ [q]) (some k) :=
          hl.store hq (some k)
        refine ⟨update p.1.next q (some k) k, ?_⟩
        rw [List.head?_append_of_ne_nil _ (by simp)]
        exact hs.append ⟨rfl, rfl⟩
    · rw [usable_succ_some hm, List.length_append]
      exact hcount

theorem filled_foldl (alloc : Nat → Option Nat) (k : Nat) :
    Filled alloc k ((List.range k).foldl (Pool.initBuffer alloc)
      ({ Pool.loaded with nextBounceBuffer := some 0, freeBounceBuffers := 0 }, none)) := by
  induction k with
  | zero => exact ⟨fun x => rfl, rfl, ⟨none, rfl⟩, rfl, rfl⟩
  | succ k ih =>
    rw [List.range_succ, List.foldl_append]
    exact ih.initBuffer

theorem initBounceBuffers_spec (austereMode : Bool) (alloc : Nat → Option Nat) :
    let pool := Pool.loaded.initBounceBuffers austereMode alloc
    let xs := usable alloc (targetBuffers austereMode)
    (∀ x, pool.vaddr x = if x < targetBuffers austereMode then alloc x else none) ∧
      Seg pool.next xs.head? xs none ∧ pool.freeBounceBuffers = xs.length ∧
      pool.nextBounceBuffer = if xs = [] then none else some 0 := by
  have h := filled_foldl alloc (targetBuffers austereMode)
  have hnd : (usable alloc (targetBuffers austereMode)).Nodup := usable_nodup
  unfold Pool.initBounceBuffers
  generalize (List.range (targetBuffers austereMode)).foldl _ _ = p at h
  obtain ⟨pool, prev⟩ := p
  obtain ⟨hv, hprev, ⟨m, hl⟩, hcount, hhead⟩ := h
  dsimp only at hv hprev hl hcount hhead ⊢
  rcases List.eq_nil_or_concat' (usable alloc (targetBuffers austereMode)) with he | ⟨zs, q, he⟩
  · rw [he] at hprev hcount ⊢
    subst hprev
    exact ⟨hv, rfl, hcount, rfl⟩
  · rw [he] at hprev hcount hl hnd ⊢
    rw [List.getLast?_concat] at hprev
    subst hprev
    have hq : q ∉ zs := fun hz => (List.nodup_append.mp hnd).2.2 q hz q (List.mem_singleton_self q) rfl
    refine ⟨hv, hl.store hq none, hcount, ?_⟩
    rw [if_neg (List.concat_ne_nil q zs)]
    exact hhead

/-! ## Every run -/

/-- What is free is what has memory and is not allocated. -/
structure PoolOk (s : State) : Prop where
  notFailed : s.failed = false
  free : ∃ xs, s.pool.IsFree xs ∧ ∀ x, x ∈ xs ↔ (s.pool.vaddr x).isSome ∧ x ∉ s.allocated
  memory : ∀ x ∈ s.allocated, (s.pool.vaddr x).isSome
  nodup : s.allocated.Nodup

theorem PoolOk.step {s t : State} {a : Act} (h : PoolOk s) (hst : s.step austereMode a = some t) :
    PoolOk t := by
  obtain ⟨hf, ⟨xs, hxs, hmem⟩, hall, hnd⟩ := h
  cases a with
  | allocate =>
    rcases hxs.allocate with ⟨rfl, he⟩ | ⟨bid, rest, pool', rfl, he, hrest, hv⟩
    · simp only [State.step, hf, he] at hst
      cases hst
      exact ⟨rfl, ⟨[], hxs, hmem⟩, hall, hnd⟩
    · simp only [State.step, hf, he] at hst
      cases hst
      obtain ⟨hb, hfresh⟩ := (hmem bid).mp List.mem_cons_self
      have hnotin := (List.nodup_cons.mp hxs.nodup).1
      refine ⟨rfl, ⟨rest, hrest, fun x => ?_⟩, ?_, List.nodup_cons.mpr ⟨hfresh, hnd⟩⟩
      · show x ∈ rest ↔ (pool'.vaddr x).isSome ∧ x ∉ bid :: s.allocated
        rw [hv, List.mem_cons, not_or]
        constructor
        · intro hx
          obtain ⟨h1, h2⟩ := (hmem x).mp (.tail _ hx)
          exact ⟨h1, fun e => hnotin (e ▸ hx), h2⟩
        · rintro ⟨h1, hne, h2⟩
          exact (List.mem_cons.mp ((hmem x).mpr ⟨h1, h2⟩)).resolve_left hne
      · intro x hx
        show (pool'.vaddr x).isSome
        rw [hv]
        rcases List.mem_cons.mp hx with rfl | hx
        · exact hb
        · exact hall x hx
  | free bid =>
    simp only [State.step] at hst
    split at hst
    · next hg =>
      cases hst
      have hnotin : bid ∉ xs := fun hx => ((hmem bid).mp hx).2 hg.2
      refine ⟨hf, ⟨bid :: xs, hxs.free hnotin, fun x => ?_⟩, fun x hx => hall x (List.mem_of_mem_erase hx),
        hnd.erase bid⟩
      show x ∈ bid :: xs ↔ (s.pool.vaddr x).isSome ∧ x ∉ s.allocated.erase bid
      rw [List.mem_cons, hmem, hnd.mem_erase_iff]
      by_cases hx : x = bid
      · simp [hx, hall bid hg.2]
      · simp [hx]
    · cases hst
  | wait x =>
    cases hst
    exact ⟨hf, ⟨xs, hxs, hmem⟩, hall, hnd⟩

theorem poolOk_init : PoolOk (poolMachine austereMode alloc).init ↔
    (alloc 0).isSome ∨ ∀ x < targetBuffers austereMode, alloc x = none := by
  obtain ⟨hv, hl, hcount, hhead⟩ := initBounceBuffers_spec austereMode alloc
  have hpos : 0 < targetBuffers austereMode := by cases austereMode <;> decide
  have hsome : ∀ x, ((Pool.loaded.initBounceBuffers austereMode alloc).vaddr x).isSome ↔
      x ∈ usable alloc (targetBuffers austereMode) := by
    intro x
    rw [hv, mem_usable]
    split <;> simp [*]
  constructor
  · intro h
    obtain ⟨xs, hxs, hmem⟩ := h.free
    by_cases he : usable alloc (targetBuffers austereMode) = []
    · refine .inr fun x hx => Option.not_isSome_iff_eq_none.mp fun h' => ?_
      have : x ∈ usable alloc (targetBuffers austereMode) := mem_usable.mpr ⟨hx, h'⟩
      rw [he] at this
      cases this
    · -- the list begins with buffer 0
      rw [if_neg he] at hhead
      have hlinks := hxs.links
      rw [show (poolMachine austereMode alloc).init.pool.nextBounceBuffer = some 0 from hhead] at hlinks
      cases xs with
      | nil => cases hlinks
      | cons x xs =>
        obtain rfl : 0 = x := Option.some.inj hlinks.1
        have h0 := ((hmem 0).mp List.mem_cons_self).1
        exact .inl (mem_usable.mp ((hsome 0).mp h0)).2
  · intro h
    have hstart : (usable alloc (targetBuffers austereMode)).head? =
        if usable alloc (targetBuffers austereMode) = [] then none else some 0 := by
      rcases h with h | h
      · obtain ⟨n, hn⟩ := Nat.exists_eq_add_of_lt hpos
        rw [Nat.zero_add] at hn
        rw [hn, usable, List.range_succ_eq_map, List.filter_cons, if_pos h]
        rfl
      · have he : usable alloc (targetBuffers austereMode) = [] := by
          refine List.eq_nil_iff_forall_not_mem.mpr fun x hx => ?_
          obtain ⟨h1, h2⟩ := mem_usable.mp hx
          rw [h x h1] at h2
          cases h2
        rw [he]
        rfl
    rw [hstart, ← hhead] at hl
    refine ⟨rfl, ⟨_, ⟨hl, usable_nodup, hcount⟩, fun x => ?_⟩, nofun, .nil⟩
    exact (hsome x).symm.trans (and_iff_left List.not_mem_nil).symm

/-- In every run the free list is what it should be if and only if the first buffer has memory or no buffer
has. -/
theorem bounce_pool_iff (austereMode : Bool) (alloc : Nat → Option Nat) :
    (∀ s, (poolMachine austereMode alloc).Reach Machine.Any s → PoolOk s) ↔
      (alloc 0).isSome ∨ ∀ x < targetBuffers austereMode, alloc x = none := by
  rw [← poolOk_init]
  exact ⟨fun h => h _ .init, fun h s hs => hs.inv h fun _ _ _ hi _ hst => hi.step hst⟩

/-- There is no memory for buffer 0. -/
theorem bounce_pool_first : ¬ ∀ austereMode alloc s,
    (poolMachine austereMode alloc).Reach Machine.Any s → PoolOk s := by
  intro hall
  let alloc : Nat → Option Nat := fun x => if x = 0 then none else some (4096 * x)
  obtain ⟨s, hs, hp⟩ := Machine.exists_reach (poolMachine true alloc) Machine.Any
    (fun s => s.allocated == [0] && (s.pool.vaddr 0).isNone) [.allocate] (by decide)
  rw [Bool.and_eq_true, beq_iff_eq] at hp
  have h0 := (hall true alloc s hs).memory 0 (by rw [hp.1]; exact List.mem_singleton_self 0)
  rw [Option.isNone_iff_eq_none.mp hp.2] at h0
  cases h0

end XcWindows.Xenvbd.Bounce
