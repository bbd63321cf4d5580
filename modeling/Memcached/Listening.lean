import Memcached.Lib.Transition
import Mathlib.Tactic.Common

/-! # Accepting connections

When `accept` finds no free descriptor, the main thread stops listening and sets a timer, which looks
every 10 ms whether `conn_close` has set `allow_new_conns` since, and then listens again.

* **`Listener.next`** — the threads, one access to a shared field at a time.
* **`Inv`** — what is counted, and when the server listens.
* **`accepting_resumes`**, **`accepting_lost`** — the way back, and the wake-up that is lost. -/

namespace Memcached

open Transition (Run)

/-- Where the main thread is. -/
inductive ListenState
  | idle
  /-- `accept` answered `EMFILE`, and `accept_new_conns(false)` is to come. -/
  | refused
  /-- `maxconns_handler` has found `allow_new_conns` set, and `accept_new_conns(true)` is to come. -/
  | enabling
  deriving DecidableEq, Repr

/-- **The main thread, and what the workers leave for it.** -/
structure Listener where
  /-- `stats.accepting_conns`. -/
  accepting : Bool
  allowNewConns : Bool
  /-- `maxconnsevent` is added. -/
  timer : Bool
  main : ListenState
  /-- The descriptors in use. -/
  fds : ℕ
  /-- The workers in `conn_close` between `close` and `allow_new_conns = true`. -/
  closing : ℕ
  /-- The descriptors closed since `accept` failed of which nobody will know. -/
  unnoticed : ℕ
  deriving DecidableEq, Repr

/-- What happens next. -/
inductive ListenStep
  /-- `accept`. -/
  | accept
  /-- `do_accept_new_conns(false)`. -/
  | disable
  /-- The timer goes off: `maxconns_handler`. -/
  | timer
  /-- `do_accept_new_conns(true)`. -/
  | enable
  /-- `close` in `conn_close`. -/
  | close
  /-- `allow_new_conns = true` in `conn_close`. -/
  | allow
  /-- A worker that could not open a connection closes its descriptor. -/
  | drop
  deriving DecidableEq, Repr

namespace Listener

/-- The server when it has started. -/
def init : Listener := ⟨true, true, false, .idle, 0, 0, 0⟩

/-- **One step**, where the process may have `limit` descriptors. -/
def next (limit : ℕ) (s : Listener) : ListenStep → Option Listener
  | .accept =>
      if s.main = .idle ∧ s.accepting = true then
        if s.fds < limit then some { s with fds := s.fds + 1 }
        else some { s with main := .refused, unnoticed := 0 }
      else none
  | .disable =>
      if s.main = .refused then
        some { s with accepting := false, allowNewConns := false, timer := true, main := .idle }
      else none
  | .timer =>
      if s.main = .idle ∧ s.timer = true then
        if s.allowNewConns = false then some s
        else some { s with timer := false, main := .enabling }
      else none
  | .enable =>
      if s.main = .enabling then some { s with accepting := true, main := .idle } else none
  | .close =>
      if 0 < s.fds then some { s with fds := s.fds - 1, closing := s.closing + 1 } else none
  | .allow =>
      if 0 < s.closing then
        some { s with
          allowNewConns := true
          closing := s.closing - 1
          -- `disable` will clear the flag
          unnoticed := if s.main = .refused then s.unnoticed + 1 else s.unnoticed }
      else none
  | .drop =>
      if 0 < s.fds then some { s with fds := s.fds - 1, unnoticed := s.unnoticed + 1 } else none

/-- The server takes a step. -/
def Step (limit : ℕ) (s : Listener) (l : ListenStep) (s' : Listener) : Prop := s.next limit l = some s'

/-- **A server that does not accept** has its timer set or is about to accept again; and while it has not
been told of a closed connection, all descriptors are in use, about to be told of, or unnoticed. -/
structure Inv (limit : ℕ) (s : Listener) : Prop where
  off : s.accepting = false → s.main = .idle → s.timer = true
  timer : s.timer = true → s.accepting = false
  refused : s.main = .refused → s.accepting = true
  enabling : s.main = .enabling → s.accepting = false ∧ s.timer = false ∧ s.allowNewConns = true
  full : s.main = .refused ∨ (s.accepting = false ∧ s.allowNewConns = false) →
    limit ≤ s.fds + s.closing + s.unnoticed

variable {limit : ℕ} {s s' : Listener} {l : ListenStep}

/-- Before the first connection. -/
theorem inv_init (limit : ℕ) : init.Inv limit := by
  refine ⟨?_, ?_, ?_, ?_, ?_⟩ <;> simp [init]

/-- **Every step keeps a way back.** -/
theorem Inv.step (h : s.Inv limit) (hst : Step limit s l s') : s'.Inv limit := by
  obtain ⟨ho, ht, hr, he, hf⟩ := h
  cases l with
  | accept =>
      simp only [Step, next] at hst
      split_ifs at hst with hgo hroom
      · obtain rfl := Option.some.inj hst
        exact ⟨ho, ht, hr, he, fun hor => by simp [hgo.1, hgo.2] at hor⟩
      · obtain rfl := Option.some.inj hst
        refine ⟨by simp, ht, fun _ => hgo.2, by simp, fun _ => ?_⟩
        simp only
        omega
  | disable =>
      simp only [Step, next] at hst
      split_ifs at hst with hgo
      obtain rfl := Option.some.inj hst
      exact ⟨fun _ _ => rfl, fun _ => rfl, by simp, by simp, fun _ => hf (.inl hgo)⟩
  | timer =>
      simp only [Step, next] at hst
      split_ifs at hst with hgo hflag
      · -- nothing was closed, and the timer is set again
        obtain rfl := Option.some.inj hst
        exact ⟨ho, ht, hr, he, hf⟩
      · obtain rfl := Option.some.inj hst
        have hon : s.allowNewConns = true := by simpa using hflag
        exact ⟨by simp, by simp, by simp, fun _ => ⟨ht hgo.2, rfl, hon⟩, fun hor => by simp [hon] at hor⟩
  | enable =>
      simp only [Step, next] at hst
      split_ifs at hst with hgo
      obtain rfl := Option.some.inj hst
      obtain ⟨-, htimer, -⟩ := he hgo
      exact ⟨by simp, by simp [htimer], by simp, by simp, by simp⟩
  | close =>
      simp only [Step, next] at hst
      split_ifs at hst with hpos
      obtain rfl := Option.some.inj hst
      refine ⟨ho, ht, hr, he, fun hor => ?_⟩
      have := hf hor
      simp only
      omega
  | allow =>
      simp only [Step, next] at hst
      by_cases hpos : 0 < s.closing
      · rw [if_pos hpos] at hst
        obtain rfl := Option.some.inj hst
        refine ⟨ho, ht, hr, fun hen => ⟨(he hen).1, (he hen).2.1, rfl⟩, fun hor => ?_⟩
        -- the flag is set in vain if it is cleared next
        have href : s.main = .refused := by simpa using hor
        have := hf (.inl href)
        simp only [href, if_true]
        omega
      · rw [if_neg hpos] at hst
        cases hst
  | drop =>
      simp only [Step, next] at hst
      split_ifs at hst with hpos
      obtain rfl := Option.some.inj hst
      refine ⟨ho, ht, hr, he, fun hor => ?_⟩
      have := hf hor
      simp only
      omega

/-- **The invariant** of every run. -/
theorem inv_of_run {ls : List ListenStep} (hr : Run (Step limit) init ls s) : s.Inv limit :=
  hr.invariant (P := Inv limit) (inv_init limit) fun h hst => h.step hst

/-! ## Connections closed too early -/

/-- All the descriptors are in use. -/
theorem run_accepts (k : ℕ) (hk : s.fds + k ≤ limit) (hm : s.main = .idle) (ha : s.accepting = true) :
    Run (Step limit) s (List.replicate k .accept) { s with fds := s.fds + k } := by
  induction k generalizing s with
  | zero => exact .nil
  | succ k ih =>
      refine .cons (t := { s with fds := s.fds + 1 }) ?_ ?_
      · simp only [Step, next, hm, ha, and_self, if_true]
        rw [if_pos (by omega)]
      · have := ih (s := { s with fds := s.fds + 1 }) (by simp only; omega) hm ha
        simpa [Nat.add_assoc, Nat.add_comm 1 k] using this

/-- The connections are closed while `accept` has failed and the flag is not cleared yet. -/
theorem run_closes (k : ℕ) (hk : s.fds = k) (hm : s.main = .refused) (hc : s.closing = 0)
    (ha : s.allowNewConns = true) :
    Run (Step limit) s ((List.replicate k [ListenStep.close, .allow]).flatten)
      { s with fds := 0, unnoticed := s.unnoticed + k } := by
  induction k generalizing s with
  | zero =>
      have : ({ s with fds := 0, unnoticed := s.unnoticed + 0 } : Listener) = s := by
        cases s
        simp_all
      rw [this]
      exact .nil
  | succ k ih =>
      have hclose : Step limit s .close { s with fds := k, closing := 1 } := by
        simp [Step, next, hk, hc]
      have hallow : Step limit { s with fds := k, closing := 1 } .allow
          { s with fds := k, unnoticed := s.unnoticed + 1 } := by
        simp [Step, next, hm, hc, ha]
      have hrest := ih (s := { s with fds := k, unnoticed := s.unnoticed + 1 }) rfl hm hc ha
      refine .cons hclose (.cons hallow ?_)
      simpa [Nat.add_assoc, Nat.add_comm 1 k] using hrest

/-- Nothing is in use, and the server waits to be told of a closed connection. -/
structure Deaf (s : Listener) : Prop where
  accepting : s.accepting = false
  allow : s.allowNewConns = false
  main : s.main = .idle
  fds : s.fds = 0
  closing : s.closing = 0

/-- A deaf server stays deaf. -/
theorem Deaf.step (h : s.Deaf) (hst : Step limit s l s') : s'.Deaf := by
  obtain ⟨ha, hn, hm, hf, hc⟩ := h
  cases l with
  | timer =>
      simp only [Step, next] at hst
      split_ifs at hst
      exact Option.some.inj hst ▸ ⟨ha, hn, hm, hf, hc⟩
  | _ => simp [Step, next, ha, hm, hf, hc] at hst

end Listener

section

variable {limit : ℕ} {s s' : Listener} {ls : List ListenStep}

/-- **The server accepts again** when a descriptor has been freed: unless the worker is still between
`close` and the flag, or nobody will know of it, the timer finds the flag and turns listening on. -/
theorem accepting_resumes (hr : Run (Listener.Step limit) .init ls s) (hoff : s.accepting = false)
    (hfree : s.fds + s.closing + s.unnoticed < limit) :
    ∃ ls' s', Run (Listener.Step limit) s ls' s' ∧ ls' <:+ [.timer, .enable] ∧ s'.accepting = true ∧
      s'.fds = s.fds := by
  have h := Listener.inv_of_run hr
  have hon : s.allowNewConns = true := by
    by_contra hne
    have := h.full (.inr ⟨hoff, by simpa using hne⟩)
    omega
  cases hm : s.main with
  | idle =>
      have htimer : Listener.Step limit s .timer { s with timer := false, main := .enabling } := by
        simp [Listener.Step, Listener.next, hm, h.off hoff hm, hon]
      have henable : Listener.Step limit { s with timer := false, main := .enabling } .enable
          { s with timer := false, main := .idle, accepting := true } := by
        simp [Listener.Step, Listener.next]
      exact ⟨_, _, .cons htimer (.single henable), List.suffix_refl _, rfl, rfl⟩
  | refused =>
      have := h.refused hm
      rw [hoff] at this
      cases this
  | enabling =>
      have henable : Listener.Step limit s .enable { s with main := .idle, accepting := true } := by
        simp [Listener.Step, Listener.next, hm]
      exact ⟨_, _, .single henable, ⟨[.timer], rfl⟩, rfl, rfl⟩

/-- The only connection is closed. -/
theorem accepting_resumes_one :
    ∃ ls' s', Run (Listener.Step 1) ⟨false, true, true, .idle, 0, 0, 0⟩ ls' s' ∧
      ls' <:+ [.timer, .enable] ∧ s'.accepting = true ∧ s'.fds = 0 := by
  have hr : Run (Listener.Step 1) .init [.accept, .accept, .disable, .close, .allow]
      ⟨false, true, true, .idle, 0, 0, 0⟩ := Run.of_foldlM rfl
  exact accepting_resumes hr rfl (by decide)

/-- **Connections closed too early are forgotten**: if all are closed after `accept` has failed and before
the flag is cleared, the server has no connection and never accepts one again. -/
theorem accepting_lost (limit : ℕ) :
    ∃ ls s, Run (Listener.Step limit) .init ls s ∧ s.fds = 0 ∧
      ∀ ls' s', Run (Listener.Step limit) s ls' s' → s'.accepting = false ∧ s'.fds = 0 := by
  have haccepts := @Listener.run_accepts limit .init limit (by simp [Listener.init]) rfl rfl
  set full : Listener := { Listener.init with fds := limit, main := .refused, unnoticed := 0 } with hfull
  have hrefused : Listener.Step limit { Listener.init with fds := Listener.init.fds + limit } .accept
      full := by
    simp [Listener.Step, Listener.next, Listener.init, hfull]
  have hcloses := @Listener.run_closes limit full limit rfl rfl rfl rfl
  have hdisable : Listener.Step limit { full with fds := 0, unnoticed := full.unnoticed + limit }
      .disable ⟨false, false, true, .idle, 0, 0, limit⟩ := by
    simp [Listener.Step, Listener.next, Listener.init, hfull]
  refine ⟨_, _, ((haccepts.snoc hrefused).append hcloses).snoc hdisable, rfl, fun ls' s' hr => ?_⟩
  have hdeaf : s'.Deaf := hr.invariant (P := Listener.Deaf) ⟨rfl, rfl, rfl, rfl, rfl⟩
    fun h hst => h.step hst
  exact ⟨hdeaf.accepting, hdeaf.fds⟩

end

end Memcached
