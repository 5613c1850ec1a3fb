import Mathlib.Data.List.Induction
import Mathlib.Logic.Nontrivial.Defs

/-!
# Runs of copies

A copy names, for each location it writes, the location it reads. A run of copies does what all of them
together would do at once exactly when none reads what an earlier one wrote.
-/

namespace XcWindows.Lib

variable {L α : Type}

/-- For each location that is written, the one its contents come from. -/
abbrev Copy (L : Type) := L → Option L

def Copy.apply (c : Copy L) (m : L → α) (x : L) : α :=
  match c x with
  | some y => m y
  | none => m x

def copyAll (cs : List (Copy L)) (m : L → α) : L → α := cs.foldl (fun m c => c.apply m) m

/-- The second copy reads nothing that the first one writes. -/
def Copy.Spares (c d : Copy L) : Prop := ∀ x y, d x = some y → c y = none

/-- The two copies write different locations. -/
def Copy.Apart (c d : Copy L) : Prop := ∀ x, c x = none ∨ d x = none

theorem copyAll_snoc (cs : List (Copy L)) (c : Copy L) (m : L → α) :
    copyAll (cs ++ [c]) m = c.apply (copyAll cs m) := by
  rw [copyAll, List.foldl_append]
  rfl

theorem Copy.apply_some {c : Copy L} {x y : L} (h : c x = some y) (m : L → α) : c.apply m x = m y := by
  rw [Copy.apply, h]

theorem Copy.apply_none {c : Copy L} {x : L} (h : c x = none) (m : L → α) : c.apply m x = m x := by
  rw [Copy.apply, h]

theorem copyAll_miss (cs : List (Copy L)) {x : L} (h : ∀ c ∈ cs, c x = none) (m : L → α) :
    copyAll cs m x = m x := by
  induction cs using List.reverseRecOn with
  | nil => rfl
  | append_singleton cs c ih =>
    rw [copyAll_snoc, Copy.apply_none (h c (by simp))]
    exact ih fun d hd => h d (List.mem_append_left _ hd)

theorem pairwise_snoc {β : Type} {R : β → β → Prop} {l : List β} {b : β} :
    (l ++ [b]).Pairwise R ↔ l.Pairwise R ∧ ∀ a ∈ l, R a b := by
  simp [List.pairwise_append]

theorem copyAll_hit {cs : List (Copy L)} (hs : cs.Pairwise Copy.Spares) (ha : cs.Pairwise Copy.Apart)
    {c : Copy L} (hc : c ∈ cs) {x y : L} (h : c x = some y) (m : L → α) : copyAll cs m x = m y := by
  induction cs using List.reverseRecOn with
  | nil => cases hc
  | append_singleton cs d ih =>
    obtain ⟨hs, hsd⟩ := pairwise_snoc.mp hs
    obtain ⟨ha, had⟩ := pairwise_snoc.mp ha
    rw [copyAll_snoc]
    rcases List.mem_append.mp hc with hc | hc
    · have hd : d x = none := (had c hc x).resolve_left (by simp [h])
      rw [Copy.apply_none hd]
      exact ih hs ha hc
    · obtain rfl := List.mem_singleton.mp hc
      rw [Copy.apply_some h]
      exact copyAll_miss cs (fun e he => hsd e he x y h) m

theorem spares_of_hit (α : Type) [Nontrivial α] {cs : List (Copy L)} (ha : cs.Pairwise Copy.Apart)
    (hne : ∀ c ∈ cs, ∀ x y, c x = some y → y ≠ x)
    (h : ∀ m : L → α, ∀ c ∈ cs, ∀ x y, c x = some y → copyAll cs m x = m y) :
    cs.Pairwise Copy.Spares := by
  classical
  induction cs using List.reverseRecOn with
  | nil => exact List.Pairwise.nil
  | append_singleton cs d ih =>
    obtain ⟨ha, had⟩ := pairwise_snoc.mp ha
    have hbefore : ∀ m : L → α, ∀ c ∈ cs, ∀ x y, c x = some y → copyAll cs m x = m y := by
      intro m c hc x y hx
      have hd : d x = none := (had c hc x).resolve_left (by simp [hx])
      rw [← h m c (List.mem_append_left _ hc) x y hx, copyAll_snoc, Copy.apply_none hd]
    refine pairwise_snoc.mpr ⟨ih ha (fun c hc => hne c (List.mem_append_left _ hc)) hbefore, ?_⟩
    intro c hc x y hx
    by_contra hy
    obtain ⟨z, hz⟩ := Option.ne_none_iff_exists'.mp hy
    -- the last copy hands on what `c` brought from `z`
    have hlast : ∀ m : L → α, m z = m y := by
      intro m
      have hxy := h m d (by simp) x y hx
      rw [copyAll_snoc, Copy.apply_some hx, hbefore m c hc y z hz] at hxy
      exact hxy
    obtain ⟨a, b, hab⟩ := exists_pair_ne α
    have hzy : z ≠ y := hne c (List.mem_append_left _ hc) y z hz
    have heq := hlast fun l => if l = z then a else b
    rw [if_pos rfl, if_neg hzy.symm] at heq
    exact hab heq

end XcWindows.Lib
