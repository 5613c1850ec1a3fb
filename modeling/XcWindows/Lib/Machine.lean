import Mathlib.Data.List.Basic
import Mathlib.Logic.Function.Basic

/-!
# Machines and their runs

A `Machine` is an initial state with a partial step function over labelled
actions; everything the environment chooses (scheduling, answers of another
party, allocation results) is part of the label. `Reach ok` are the states
reachable by steps that all satisfy `ok`; `Reach.inv` is the invariant rule and
`Reach.proj` carries reachability along a projection of machines that run side by side (`pi`).
`runFrom` executes a list of actions, so that a concrete run can be evaluated (`exists_reach`);
`runFrom_rank` is the rule for what such a run must reach. A step that an assertion can stop is computed in
`Except`; `bind_ok` and `bind_error` take such a computation apart.
-/

namespace XcWindows.Lib

/-- A labelled transition system with a partial, deterministic step. -/
structure Machine (σ α : Type) where
  init : σ
  step : σ → α → Option σ

namespace Machine

variable {σ α : Type}

/-- States reachable by steps that satisfy `ok`. -/
inductive Reach (M : Machine σ α) (ok : σ → α → Prop) : σ → Prop where
  | init : Reach M ok M.init
  | step {s t : σ} {a : α} : Reach M ok s → ok s a → M.step s a = some t → Reach M ok t

/-- Every step is allowed. -/
abbrev Any : σ → α → Prop := fun _ _ => True

/-- Execute a list of actions that all satisfy `ok`. -/
def runFrom (M : Machine σ α) (ok : σ → α → Prop) [∀ s a, Decidable (ok s a)] (s : σ) :
    List α → Option σ
  | [] => some s
  | a :: as => if ok s a then (M.step s a).bind fun t => M.runFrom ok t as else none

variable {M : Machine σ α} {ok : σ → α → Prop}

theorem Reach.inv {I : σ → Prop} (h0 : I M.init)
    (hs : ∀ s a t, I s → ok s a → M.step s a = some t → I t) {s : σ} (h : Reach M ok s) : I s := by
  induction h with
  | init => exact h0
  | step _ hok hst ih => exact hs _ _ _ ih hok hst

theorem Reach.mono {ok' : σ → α → Prop} (hle : ∀ s a, ok s a → ok' s a) {s : σ}
    (h : Reach M ok s) : Reach M ok' s := by
  induction h with
  | init => exact .init
  | step _ hok hst ih => exact .step ih (hle _ _ hok) hst

theorem runFrom_inv [∀ s a, Decidable (ok s a)] {I : σ → Prop}
    (hs : ∀ s a t, I s → ok s a → M.step s a = some t → I t) {s t : σ} {as : List α} (h : I s)
    (hr : M.runFrom ok s as = some t) : I t := by
  induction as generalizing s with
  | nil => cases hr; exact h
  | cons a as ih =>
    simp only [runFrom] at hr
    split at hr
    · next hok =>
      obtain ⟨u, hu, hr⟩ := Option.bind_eq_some_iff.mp hr
      exact ih (hs _ _ _ h hok hu) hr
    · cases hr

theorem runFrom_rank [∀ s a, Decidable (ok s a)] {P Q : σ → Prop} {r : σ → Nat} {p : α → Bool}
    (hQ : ∀ s a t, Q s → ok s a → M.step s a = some t → Q t)
    (hP : ∀ s a t, P s → ok s a → M.step s a = some t →
      Q t ∨ P t ∧ r t + (if p a then 1 else 0) ≤ r s)
    {s t : σ} {as : List α} (h : P s) (hr : M.runFrom ok s as = some t) :
    Q t ∨ P t ∧ r t + as.countP p ≤ r s := by
  induction as generalizing s with
  | nil => cases hr; exact .inr ⟨h, Nat.le_refl _⟩
  | cons a as ih =>
    simp only [runFrom] at hr
    split at hr
    · next hok =>
      obtain ⟨u, hu, hr⟩ := Option.bind_eq_some_iff.mp hr
      rcases hP s a u h hok hu with hq | ⟨hp, hle⟩
      · exact .inl (runFrom_inv hQ hq hr)
      · rcases ih hp hr with hq | ⟨ht, hle'⟩
        · exact .inl hq
        · refine .inr ⟨ht, ?_⟩
          rw [List.countP_cons]
          omega
    · cases hr

theorem Reach.run [∀ s a, Decidable (ok s a)] {s t : σ} (h : Reach M ok s) {as : List α}
    (hr : M.runFrom ok s as = some t) : Reach M ok t :=
  runFrom_inv (fun _ _ _ h hok hst => h.step hok hst) h hr

theorem exists_reach (M : Machine σ α) (ok : σ → α → Prop) [∀ s a, Decidable (ok s a)]
    (p : σ → Bool) (as : List α)
    (h : (M.runFrom ok M.init as).any p = true) : ∃ s, Reach M ok s ∧ p s = true := by
  cases hs : M.runFrom ok M.init as with
  | none => simp [hs] at h
  | some s => exact ⟨s, Reach.init.run hs, by simpa [hs] using h⟩

theorem exists_reach_of_forall (M : Machine σ α) (ok : σ → α → Prop) (p : σ → Bool) (as : List α)
    (hok : ∀ a ∈ as, ∀ s, ok s a) (h : (M.runFrom Any M.init as).any p = true) :
    ∃ s, Reach M ok s ∧ p s = true := by
  have hrun : ∀ (as : List α) (s : σ), (∀ a ∈ as, ∀ s, ok s a) → Reach M ok s →
      (M.runFrom Any s as).any p = true → ∃ s, Reach M ok s ∧ p s = true := by
    intro as
    induction as with
    | nil => exact fun s _ hs hp => ⟨s, hs, hp⟩
    | cons a as ih =>
      intro s hok hs hp
      simp only [runFrom, if_true] at hp
      cases hst : M.step s a with
      | none => simp [hst] at hp
      | some t =>
        rw [hst, Option.bind_some] at hp
        exact ih t (fun b hb => hok b (.tail _ hb)) (hs.step (hok a List.mem_cons_self s) hst) hp
  exact hrun as M.init hok .init h

section Product

variable {ι : Type} [DecidableEq ι]

/-- Machines side by side; a step is a step of one of them. -/
def pi (M : ι → Machine σ α) : Machine (ι → σ) (ι × α) where
  init := fun i => (M i).init
  step s a := ((M a.1).step (s a.1) a.2).map (Function.update s a.1)

theorem Reach.proj {M : ι → Machine σ α} {s : ι → σ}
    (h : Reach (pi M) (fun s a => ok (s a.1) a.2) s) (i : ι) : Reach (M i) ok (s i) := by
  induction h with
  | init => exact .init
  | @step s t a _ hok hst ih =>
    obtain ⟨u, hu, rfl⟩ := Option.map_eq_some_iff.mp hst
    by_cases hi : i = a.1
    · subst hi
      rw [Function.update_self]
      exact ih.step hok hu
    · rw [Function.update_of_ne hi]
      exact ih

theorem Reach.projAny {M : ι → Machine σ α} {s : ι → σ} (h : Reach (pi M) Any s) (i : ι) :
    Reach (M i) Any (s i) :=
  @Reach.proj σ α Any ι _ M s h i

end Product

end Machine

section Except
variable {ε α β : Type} {m : Except ε α} {f : α → Except ε β}

theorem bind_eq {a : α} (h : m = .ok a) (f : α → Except ε β) : m >>= f = f a := by
  rw [h]
  rfl

theorem ok_bind (a : α) (f : α → Except ε β) : (Except.ok a >>= f) = f a := rfl

theorem bind_ok {b : β} (h : m >>= f = .ok b) : ∃ a, m = .ok a ∧ f a = .ok b := by
  cases m with
  | error e => cases h
  | ok a => exact ⟨a, rfl, h⟩

theorem toOption_ok {a : α} (h : m.toOption = some a) : m = .ok a := by
  cases m with
  | error e => cases h
  | ok b => exact congrArg Except.ok (Option.some.inj h)

theorem bind_error {e : ε} (h : m >>= f = .error e) :
    m = .error e ∨ ∃ a, m = .ok a ∧ f a = .error e := by
  cases m with
  | error e' => cases h; exact .inl rfl
  | ok a => exact .inr ⟨a, rfl, h⟩

end Except

end XcWindows.Lib
