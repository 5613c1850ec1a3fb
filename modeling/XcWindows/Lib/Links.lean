import Mathlib.Data.List.Basic
import Mathlib.Data.List.Nodup
import Mathlib.Logic.Function.Basic

/-!
# Chains of links

A singly linked list is a `next` pointer for every node. `Seg next o xs o'` is the segment with the
nodes `xs` from the pointer `o` to the pointer `o'`; the whole list ends at `none`. Linking a node
in and out is one store to the `next` of the node before it (`Seg.store`), and a store to a node
outside a segment leaves it alone (`Seg.congr`).

A doubly linked list is a segment of `next` and, backwards, one of `prev` (`Dll`). It is extended at
its tail (`Dll.push`) or its head (`Dll.cons`), joined to another one (`Dll.splice`) and gives up a node
(`Dll.remove`) by stores to the nodes at the seam.
-/

namespace XcWindows.Lib

open Function (update update_of_ne update_self)

variable {ι : Type} {next next' : ι → Option ι} {o m o' : Option ι} {x : ι} {xs ys : List ι}

/-- The nodes `xs` are linked, from the pointer `o` on and up to the pointer `o'`. -/
def Seg (next : ι → Option ι) (o : Option ι) : List ι → Option ι → Prop
  | [], o' => o = o'
  | x :: xs, o' => o = some x ∧ Seg next (next x) xs o'

/-- A segment reads only the pointers of its own nodes. -/
theorem Seg.congr (h : Seg next o xs o') (hn : ∀ x ∈ xs, next' x = next x) : Seg next' o xs o' := by
  induction xs generalizing o with
  | nil => exact h
  | cons x xs ih =>
    refine ⟨h.1, ?_⟩
    rw [hn x List.mem_cons_self]
    exact ih h.2 fun y hy => hn y (List.mem_cons_of_mem _ hy)

/-- A list that ends is the only one from its start. -/
theorem Seg.unique (h : Seg next o xs none) (h' : Seg next o ys none) : xs = ys := by
  induction xs generalizing o ys with
  | nil =>
    cases ys with
    | nil => rfl
    | cons y ys => cases h; cases h'.1
  | cons x xs ih =>
    cases ys with
    | nil => cases h'; cases h.1
    | cons y ys =>
      obtain rfl : x = y := Option.some.inj (h.1.symm.trans h'.1)
      rw [ih h.2 h'.2]

theorem seg_append : Seg next o (xs ++ ys) o' ↔ ∃ m, Seg next o xs m ∧ Seg next m ys o' := by
  induction xs generalizing o with
  | nil => simp [Seg]
  | cons x xs ih => simp [Seg, ih, and_assoc]

theorem Seg.append (h : Seg next o xs m) (h' : Seg next m ys o') : Seg next o (xs ++ ys) o' :=
  seg_append.mpr ⟨m, h, h'⟩

/-- What a node of a list points to. -/
theorem Seg.split (h : Seg next o (xs ++ x :: ys) o') :
    Seg next o xs (some x) ∧ Seg next (next x) ys o' := by
  obtain ⟨m, h1, rfl, h2⟩ := seg_append.mp h
  exact ⟨h1, h2⟩

/-! ## Doubly linked lists -/

/-- The nodes `xs` are linked both ways between the pointers `head` and `tail`. -/
structure Dll (next prev : ι → Option ι) (head tail : Option ι) (xs : List ι) : Prop where
  next : Seg next head xs none
  prev : Seg prev tail xs.reverse none
  nodup : xs.Nodup

namespace Dll

variable {prev prev' : ι → Option ι} {head tail head' tail' : Option ι} {p : ι}

theorem nil : Dll next prev none none [] := ⟨rfl, rfl, .nil⟩

theorem congr (h : Dll next prev head tail xs)
    (hs : ∀ x ∈ xs, next' x = next x ∧ prev' x = prev x) : Dll next' prev' head tail xs :=
  ⟨h.next.congr fun x hx => (hs x hx).1,
    h.prev.congr fun x hx => (hs x (List.mem_reverse.mp hx)).2, h.nodup⟩

theorem head_eq (h : Dll next prev head tail xs) : head = xs.head? := by
  cases xs with
  | nil => exact h.next
  | cons x xs => exact h.next.1

theorem tail_eq (h : Dll next prev head tail xs) : tail = xs.getLast? := by
  rw [← List.head?_reverse]
  have := h.prev
  cases hr : xs.reverse with
  | nil => rw [hr] at this; exact this
  | cons x ys => rw [hr] at this; exact this.1

theorem tail_mem (h : Dll next prev head tail xs) (hp : tail = some p) : p ∈ xs :=
  List.mem_of_getLast? (h.tail_eq.symm.trans hp)

theorem symm (h : Dll next prev head tail xs) : Dll prev next tail head xs.reverse :=
  ⟨h.prev, by rw [List.reverse_reverse]; exact h.next, List.nodup_reverse.mpr h.nodup⟩

theorem links_eq (h : Dll next prev head tail (xs ++ p :: ys)) :
    next p = ys.head? ∧ prev p = xs.getLast? := by
  have h1 := h.next.split.2
  have h2 := h.prev
  rw [List.reverse_append, List.reverse_cons, List.append_assoc, List.singleton_append] at h2
  have h3 := h2.split.2
  constructor
  · cases ys with
    | nil => exact h1
    | cons y ys => exact h1.1
  · rw [← List.head?_reverse]
    cases hx : xs.reverse with
    | nil => rw [hx] at h3; exact h3
    | cons x zs => rw [hx] at h3; exact h3.1

variable [DecidableEq ι]

theorem splice (h : Dll next prev head tail xs) (h' : Dll next prev head' tail' ys)
    (hd : ∀ x ∈ xs, x ∉ ys)
    (ht : ∀ x ∈ xs, next' x = if tail = some x then head' else next x)
    (hn : ∀ y ∈ ys, next' y = next y) (hv : ∀ x ∈ xs, prev' x = prev x)
    (hh : ∀ y ∈ ys, prev' y = if head' = some y then tail else prev y) :
    Dll next' prev' (head.or head') (tail'.or tail) (xs ++ ys) := by
  refine ⟨?_, ?_, List.nodup_append.mpr ⟨h.nodup, h'.nodup, fun x hx y hy e => hd x hx (e ▸ hy)⟩⟩
  · have hys : Seg next' head' ys none := h'.next.congr hn
    rcases List.eq_nil_or_concat' xs with rfl | ⟨zs, t, rfl⟩
    · rw [show head = none from h.next]
      exact hys
    · have htail : tail = some t := by rw [h.tail_eq]; simp
      obtain ⟨h1, -⟩ := h.next.split
      have hnd := h.nodup
      rw [List.nodup_append] at hnd
      have h2 : Seg next' head (zs ++ [t]) head' := by
        refine (h1.congr fun x hx => ?_).append ⟨rfl, ?_⟩
        · rw [ht x (by simp [hx]), if_neg]
          rw [htail]
          rintro e
          exact hnd.2.2 x hx t (by simp) (Option.some.inj e).symm
        · rw [ht t (by simp), if_pos htail]
          rfl
      have hhead : head.or head' = head := by
        rw [h.head_eq]
        cases zs <;> rfl
      rw [hhead]
      exact h2.append hys
  · have hxs : Seg prev' tail xs.reverse none :=
      h.prev.congr fun x hx => hv x (List.mem_reverse.mp hx)
    rw [List.reverse_append]
    cases ys with
    | nil =>
      rw [show tail' = none from h'.prev]
      exact hxs
    | cons y ys =>
      have hhead : head' = some y := h'.next.1
      have h3 := h'.prev
      rw [List.reverse_cons] at h3 ⊢
      obtain ⟨h1, -⟩ := h3.split
      have hnd := List.nodup_cons.mp h'.nodup
      have h2 : Seg prev' tail' (ys.reverse ++ [y]) tail := by
        refine (h1.congr fun x hx => ?_).append ⟨rfl, ?_⟩
        · rw [List.mem_reverse] at hx
          rw [hh x (List.mem_cons_of_mem _ hx), if_neg]
          rw [hhead]
          rintro e
          exact hnd.1 (Option.some.inj e ▸ hx)
        · rw [hh y List.mem_cons_self, if_pos hhead]
          rfl
      have htail : tail'.or tail = tail' := by
        rw [h'.tail_eq, List.getLast?_cons]
        rfl
      rw [htail]
      exact h2.append hxs

theorem push (h : Dll next prev head tail xs) (hp : p ∉ xs) (hnp : next' p = none)
    (hpp : prev' p = tail) (ht : ∀ x ∈ xs, next' x = if tail = some x then some p else next x)
    (hv : ∀ x ∈ xs, prev' x = prev x) :
    Dll next' prev' (head.or (some p)) (some p) (xs ++ [p]) := by
  -- the node as a list of its own, before it is joined
  have h1 : Dll (update next p none) (update prev p none) head tail xs :=
    h.congr fun x hx => by
      have hne : x ≠ p := fun e => hp (e ▸ hx)
      simp [update_of_ne hne]
  have h2 : Dll (update next p none) (update prev p none) (some p) (some p) [p] :=
    ⟨⟨rfl, by rw [update_self]; rfl⟩, ⟨rfl, by rw [update_self]; rfl⟩,
      List.nodup_singleton p⟩
  refine h1.splice h2 (fun x hx hm => hp (List.mem_singleton.mp hm ▸ hx)) (fun x hx => ?_)
    (by simpa using hnp) (fun x hx => ?_) (by simpa using hpp)
  · have hne : x ≠ p := fun e => hp (e ▸ hx)
    rw [ht x hx, update_of_ne hne]
  · have hne : x ≠ p := fun e => hp (e ▸ hx)
    rw [hv x hx, update_of_ne hne]

theorem cons (h : Dll next prev head tail xs) (hp : p ∉ xs) (hnp : next' p = head)
    (hpp : prev' p = none) (hn : ∀ x ∈ xs, next' x = next x)
    (hv : ∀ x ∈ xs, prev' x = if head = some x then some p else prev x) :
    Dll next' prev' (some p) (tail.or (some p)) (p :: xs) := by
  have h1 : Dll (update next p none) (update prev p none) head tail xs :=
    h.congr fun x hx => by
      have hne : x ≠ p := fun e => hp (e ▸ hx)
      simp [update_of_ne hne]
  have h2 : Dll (update next p none) (update prev p none) (some p) (some p) [p] :=
    ⟨⟨rfl, by rw [update_self]; rfl⟩, ⟨rfl, by rw [update_self]; rfl⟩,
      List.nodup_singleton p⟩
  refine h2.splice h1 (fun x hx hm => hp (List.mem_singleton.mp hx ▸ hm)) (by simpa using hnp)
    (fun x hx => ?_) (by simpa using hpp) fun x hx => ?_
  · have hne : x ≠ p := fun e => hp (e ▸ hx)
    rw [hn x hx, update_of_ne hne]
  · have hne : x ≠ p := fun e => hp (e ▸ hx)
    rw [hv x hx, update_of_ne hne]

/-- The forward links without a node. -/
theorem next_remove (h : Dll next prev head tail (xs ++ p :: ys))
    (hn : ∀ x ∈ xs ++ ys, next' x = if prev p = some x then next p else next x) :
    Seg next' (if (prev p).isSome then head else next p) (xs ++ ys) none := by
  obtain ⟨h1, h2⟩ := h.next.split
  have hnd := h.nodup
  rw [List.nodup_append, List.nodup_cons] at hnd
  have hlast := h.links_eq.2
  have hys : Seg next' (next p) ys none := by
    refine h2.congr fun y hy => ?_
    rw [hn y (List.mem_append_right _ hy), if_neg]
    rw [hlast]
    intro e
    exact hnd.2.2 y (List.mem_of_getLast? e) y (List.mem_cons_of_mem _ hy) rfl
  rcases List.eq_nil_or_concat' xs with rfl | ⟨zs, t, rfl⟩
  · rw [hlast]
    exact hys
  · have hpt : prev p = some t := by rw [hlast]; simp
    rw [hpt]
    refine Seg.append (m := next p) ?_ hys
    refine (h1.split.1.congr fun x hx => ?_).append ⟨rfl, ?_⟩
    · rw [hn x (by simp [hx]), if_neg]
      rw [hpt]
      intro e
      have hne := (List.nodup_append.mp hnd.1).2.2 x hx t (by simp)
      exact hne (Option.some.inj e).symm
    · rw [hn t (by simp), if_pos hpt]
      rfl

/-- Link a node out. -/
theorem remove (h : Dll next prev head tail (xs ++ p :: ys))
    (hn : ∀ x ∈ xs ++ ys, next' x = if prev p = some x then next p else next x)
    (hv : ∀ x ∈ xs ++ ys, prev' x = if next p = some x then prev p else prev x) :
    Dll next' prev' (if (prev p).isSome then head else next p)
      (if (next p).isSome then tail else prev p) (xs ++ ys) := by
  refine ⟨h.next_remove hn, ?_, ?_⟩
  · have h' : Dll prev next tail head (ys.reverse ++ p :: xs.reverse) := by
      have := h.symm
      rwa [List.reverse_append, List.reverse_cons, List.append_assoc, List.singleton_append] at this
    rw [List.reverse_append]
    refine h'.next_remove fun x hx => hv x ?_
    simpa [or_comm] using hx
  · exact h.nodup.sublist ((List.sublist_cons_self p ys).append_left xs)

end Dll

/-! ## Stores -/

variable [DecidableEq ι]

/-- Redirect the last pointer of a segment. -/
theorem Seg.store (h : Seg next o (xs ++ [x]) m) (hx : x ∉ xs) (o' : Option ι) :
    Seg (update next x o') o (xs ++ [x]) o' := by
  obtain ⟨h1, -⟩ := h.split
  refine Seg.append (h1.congr fun y hy => ?_) ⟨rfl, ?_⟩
  · rw [update_of_ne]
    rintro rfl
    exact hx hy
  · rw [update_self]
    rfl

/-- Link a node in at the end. -/
theorem Seg.snoc {y : ι} (h : Seg next o (xs ++ [x]) none) (hnd : (xs ++ [x]).Nodup)
    (hy : y ∉ xs ++ [x]) (hn : next y = none) :
    Seg (update next x (some y)) o (xs ++ [x] ++ [y]) none := by
  have hx : x ∉ xs := by
    rw [List.nodup_append] at hnd
    exact fun hm => hnd.2.2 x hm x (List.mem_singleton_self x) rfl
  refine (h.store hx (some y)).append ⟨rfl, ?_⟩
  rw [update_of_ne (fun e => hy (by simp [e])), hn]
  rfl

/-- Link out the node after `x`. -/
theorem Seg.unlink {y : ι} (h : Seg next o (xs ++ x :: y :: ys) none)
    (hnd : (xs ++ x :: y :: ys).Nodup) :
    Seg (update next x (next y)) o (xs ++ x :: ys) none := by
  obtain ⟨h1, h2⟩ := h.split
  obtain ⟨-, h3⟩ := h2
  have hx : x ∉ xs := fun hm => by
    rw [List.nodup_append] at hnd
    exact hnd.2.2 x hm x List.mem_cons_self rfl
  have hy : x ∉ ys := fun hm => by
    rw [List.nodup_append, List.nodup_cons] at hnd
    exact hnd.2.1.1 (List.mem_cons_of_mem _ hm)
  have h4 : Seg next o (xs ++ [x]) (next x) := h1.append ⟨rfl, rfl⟩
  rw [List.append_cons]
  refine (h4.store hx (next y)).append (h3.congr fun z hz => ?_)
  rw [update_of_ne]
  rintro rfl
  exact hy hz

end XcWindows.Lib
