import Mathlib.Data.List.Basic

/-!
# Programs that stop where they fail

A `Prog` changes a state or stops with an error and the state it stopped in, which is what the code
behind a `goto err` then takes apart. `Triple P f Q E` says that from a state with `P` the program
ends with `Q` or stops with `E`; the rules follow the structure of the program.
-/

namespace XcWindows.Lib

/-- A state change that can stop halfway. -/
abbrev Prog (σ ε : Type) := σ → Except (ε × σ) σ

namespace Prog

variable {σ ε : Type}

/-- One program after the other. -/
def andThen (f g : Prog σ ε) : Prog σ ε := fun s => (f s).bind g

/-- Run the programs of a list one after the other. -/
def all : List (Prog σ ε) → Prog σ ε
  | [] => .ok
  | f :: fs => f.andThen (all fs)

/-- The program ended with `Q` or stopped with `E`. -/
def Post (Q : σ → Prop) (E : ε → σ → Prop) : Except (ε × σ) σ → Prop
  | .ok t => Q t
  | .error (e, t) => E e t

/-- From `P` the program ends with `Q` or stops with `E`. -/
def Triple (P : σ → Prop) (f : Prog σ ε) (Q : σ → Prop) (E : ε → σ → Prop) : Prop :=
  ∀ s, P s → Post Q E (f s)

variable {P Q R : σ → Prop} {E : ε → σ → Prop} {f g : Prog σ ε} {fs : List (Prog σ ε)}

theorem Post.bind {m : Except (ε × σ) σ} (h : Post Q E m) (hf : ∀ s, Q s → Post R E (f s)) :
    Post R E (m >>= f) := by
  cases m with
  | error x => exact h
  | ok s => exact hf s h

theorem Triple.andThen (hf : Triple P f Q E) (hg : Triple Q g R E) :
    Triple P (f.andThen g) R E := fun s hs => (hf s hs).bind hg

theorem Post.mono {E' : ε → σ → Prop} {m : Except (ε × σ) σ} (h : Post Q E m) (hQ : ∀ s, Q s → R s)
    (hE : ∀ e s, E e s → E' e s) : Post R E' m := by
  cases m with
  | error x => exact hE x.1 x.2 h
  | ok s => exact hQ s h

theorem Triple.weaken (h : Triple P f Q E) (hQ : ∀ s, Q s → R s) : Triple P f R E :=
  fun s hs => (h s hs).mono hQ fun _ _ he => he

theorem Triple.nil : Triple P (all ([] : List (Prog σ ε))) P E := fun _ hs => hs

theorem Triple.cons (hf : Triple P f Q E) (hfs : Triple Q (all fs) R E) :
    Triple P (all (f :: fs)) R E := hf.andThen hfs

end Prog

end XcWindows.Lib
