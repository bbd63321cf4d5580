import Mathlib.Data.List.Basic

/-! # Runs of labelled transitions

Finite runs of a step relation whose steps carry labels, and the induction rules for them.

* **`Run`**, **`Run.invariant`** — runs, and what every step keeps.
* **`Until`**, **`Within`**, **`advance`** — the states on the way to a state where a function
  stops.
* **`checkAll`**, **`execs`** — runs that are computed. -/

namespace Transition

variable {σ ι : Type*}

/-- A **run**: steps one after the other, with their labels. -/
inductive Run (Step : σ → ι → σ → Prop) : σ → List ι → σ → Prop
  | nil {s : σ} : Run Step s [] s
  | cons {s t u : σ} {i : ι} {is : List ι} (h : Step s i t) (hr : Run Step t is u) :
      Run Step s (i :: is) u

namespace Run

variable {Step Step' : σ → ι → σ → Prop} {s t u : σ} {i : ι} {is js : List ι}

/-- One step is a run. -/
theorem single (h : Step s i t) : Run Step s [i] t := .cons h .nil

/-- Runs one after the other. -/
theorem append (h₁ : Run Step s is t) (h₂ : Run Step t js u) : Run Step s (is ++ js) u := by
  induction h₁ with
  | nil => exact h₂
  | cons h _ ih => exact .cons h (ih h₂)

/-- A run with one more step at its end. -/
theorem snoc (h₁ : Run Step s is t) (h₂ : Step t i u) : Run Step s (is ++ [i]) u :=
  h₁.append (.single h₂)

/-- **Invariant rule**: what every step keeps holds at the end. -/
theorem invariant {P : σ → Prop} (h : Run Step s is t) (h0 : P s)
    (hstep : ∀ {s i t}, P s → Step s i t → P t) : P t := by
  induction h with
  | nil => exact h0
  | cons h _ ih => exact ih (hstep h0 h)

/-- The run of a step function. -/
theorem of_foldlM {next : σ → ι → Option σ} (h : is.foldlM next s = some t) :
    Run (fun s i t => next s i = some t) s is t := by
  induction is generalizing s with
  | nil =>
      obtain rfl : s = t := by simpa using h
      exact .nil
  | cons i is ih =>
      rw [List.foldlM_cons] at h
      obtain ⟨u, hu, hr⟩ := Option.bind_eq_some_iff.mp h
      exact .cons hu (ih hr)

/-- A run of one relation is a run of another that allows its steps where an invariant holds. -/
theorem mono {P : σ → Prop} (h : Run Step s is t) (h0 : P s)
    (hstep : ∀ {s i t}, P s → Step s i t → Step' s i t ∧ P t) : Run Step' s is t := by
  induction h with
  | nil => exact .nil
  | cons h _ ih =>
      obtain ⟨h', hP⟩ := hstep h0 h
      exact .cons h' (ih hP)

end Run

/-! ## Scripts -/

/-- The state after the steps `is`, each taken by the function `exec`. -/
def execs (exec : σ → ι → σ) : σ → List ι → σ
  | s, [] => s
  | s, i :: is => execs exec (exec s i) is

/-- Every step of a script passes the check `P` when its turn comes. -/
def checkAll (exec : σ → ι → σ) (P : σ → ι → Bool) : σ → List ι → Bool
  | _, [] => true
  | s, i :: is => P s i && checkAll exec P (exec s i) is

/-- A script that passes a check which suffices for its steps is a run. -/
theorem run_execs {Step : σ → ι → σ → Prop} {exec : σ → ι → σ} {P : σ → ι → Bool}
    (hP : ∀ s i, P s i = true → Step s i (exec s i)) {s : σ} {is : List ι}
    (h : checkAll exec P s is = true) : Run Step s is (execs exec s is) := by
  induction is generalizing s with
  | nil => exact .nil
  | cons i is ih =>
      rw [checkAll, Bool.and_eq_true] at h
      exact .cons (hP s i h.1) (ih h.2)

/-! ## Deterministic systems -/

/-- The steps of `next` lead from the first state to the second, which is the first one on the way
that satisfies `stop`. -/
inductive Until (next : σ → Option σ) (stop : σ → Prop) : σ → σ → Prop
  | stop {s : σ} (h : stop s) : Until next stop s s
  | step {s t u : σ} (h : ¬ stop s) (e : next s = some t) (ht : Until next stop t u) :
      Until next stop s u

namespace Until

variable {next : σ → Option σ} {stop : σ → Prop} {s t t' : σ}

/-- There is one such state at most. -/
theorem unique (h : Until next stop s t) (h' : Until next stop s t') : t = t' := by
  induction h with
  | stop h =>
      cases h' with
      | stop => rfl
      | step hn => exact absurd h hn
  | step hn e _ ih =>
      cases h' with
      | stop h => exact absurd h hn
      | step _ e' ht =>
          obtain rfl := Option.some.inj (e.symm.trans e')
          exact ih ht

end Until

/-- The steps of `next` lead from the first state to the second without going on from one that
satisfies `stop`. -/
inductive Within (next : σ → Option σ) (stop : σ → Prop) : σ → σ → Prop
  | here {s : σ} : Within next stop s s
  | step {s t u : σ} (h : ¬ stop s) (e : next s = some t) (ht : Within next stop t u) :
      Within next stop s u

/-- **Invariant rule**: what every step that is taken keeps holds wherever they lead. -/
theorem Within.invariant {next : σ → Option σ} {stop P : σ → Prop} {s t : σ}
    (h : Within next stop s t) (h0 : P s)
    (hstep : ∀ {s t}, P s → ¬ stop s → next s = some t → P t) : P t := by
  induction h with
  | here => exact h0
  | step hn e _ ih => exact ih (hstep h0 hn e)

/-- States on the way from a state on the way are on the way. -/
theorem Within.trans {next : σ → Option σ} {stop : σ → Prop} {s t u : σ}
    (h : Within next stop s t) (h' : Within next stop t u) : Within next stop s u := by
  induction h with
  | here => exact h'
  | step hn e _ ih => exact .step hn e (ih h')

/-- Of two states that the steps lead to, one is on the way to the other. -/
theorem Within.total {next : σ → Option σ} {stop : σ → Prop} {s t u : σ}
    (h : Within next stop s t) (h' : Within next stop s u) :
    Within next stop t u ∨ Within next stop u t := by
  induction h with
  | here => exact Or.inl h'
  | step hn e ht ih =>
      cases h' with
      | here => exact Or.inr (.step hn e ht)
      | step _ e' hu =>
          obtain rfl := Option.some.inj (e.symm.trans e')
          exact ih hu

/-- Where there is no step, the way ends. -/
theorem Within.eq_of_none {next : σ → Option σ} {stop : σ → Prop} {s t : σ}
    (h : Within next stop s t) (hs : next s = none) : t = s := by
  cases h with
  | here => rfl
  | step _ e _ => exact absurd (hs.symm.trans e) (by simp)

/-- Take `n` steps of `next`, but none from a state that satisfies `stop`. -/
def advance (next : σ → Option σ) (stop : σ → Prop) [DecidablePred stop] : ℕ → σ → σ
  | 0, s => s
  | n + 1, s =>
      if stop s then s
      else
        match next s with
        | some t => advance next stop n t
        | none => s

/-- What `advance` reaches is on the way. -/
theorem within_advance (next : σ → Option σ) (stop : σ → Prop) [DecidablePred stop] (n : ℕ)
    (s : σ) : Within next stop s (advance next stop n s) := by
  induction n generalizing s with
  | zero => exact .here
  | succ n ih =>
      rw [advance]
      split
      · exact .here
      · rename_i hs
        split
        · rename_i e
          exact .step hs e (ih _)
        · exact .here

/-- Enough steps lead to the end of the way. -/
theorem until_advance {next : σ → Option σ} {stop : σ → Prop} [DecidablePred stop] {n : ℕ} {s : σ}
    (h : stop (advance next stop n s)) : Until next stop s (advance next stop n s) := by
  induction n generalizing s with
  | zero => exact .stop h
  | succ n ih =>
      rw [advance] at h ⊢
      split at h
      · rename_i hs
        rw [if_pos hs]
        exact .stop hs
      · rename_i hs
        rw [if_neg hs]
        split at h
        · rename_i e
          exact .step hs e (ih h)
        · exact absurd h hs

end Transition
