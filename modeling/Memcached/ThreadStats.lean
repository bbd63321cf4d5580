import Memcached.Lib.Transition
import Mathlib.Algebra.BigOperators.Fin
import Mathlib.Algebra.BigOperators.Pi
import Mathlib.Algebra.Order.BigOperators.Group.Finset
import Mathlib.Data.Fintype.BigOperators

/-! # Statistics of the workers

Each worker counts what it does in its own `thread_stats`, under the mutex of that record. `stats` adds
the records up, `stats reset` clears them; both take one mutex after the other, while the other workers
go on.

* **`StatsSystem.next`** — the workers, and the threads that add up and clear.
* **`Balanced`** — what the counters of a record say of one another.
* **`stats_balanced`**, **`stats_between`** — what a sum says, and what it lies between. -/

namespace Memcached

open Transition (Run)
open scoped BigOperators

/-! ## The records -/

/-- The counters of `struct thread_stats`. -/
inductive ThreadCounter
  | getCmds
  | getMisses
  | touchCmds
  | touchMisses
  | deleteMisses
  | incrMisses
  | decrMisses
  | casMisses
  | bytesRead
  | bytesWritten
  | flushCmds
  | connYields
  | authCmds
  | authErrors
  deriving DecidableEq, Repr

/-- The counters of `struct slab_stats`. -/
inductive SlabCounter
  | setCmds
  | getHits
  | touchHits
  | deleteHits
  | casHits
  | casBadval
  | incrHits
  | decrHits
  deriving DecidableEq, Repr

/-- `MAX_NUMBER_OF_SLAB_CLASSES`. -/
def maxNumberOfSlabClasses : ℕ := 201

/-- `struct thread_stats`, without its mutex. -/
@[ext] structure ThreadStats where
  counter : ThreadCounter → ℕ
  slabStats : Fin maxNumberOfSlabClasses → SlabCounter → ℕ

namespace ThreadStats

/-- All counters are 0. -/
def zero : ThreadStats := ⟨fun _ => 0, fun _ _ => 0⟩

/-- Add `n` to a counter. -/
def add (s : ThreadStats) (f : ThreadCounter) (n : ℕ) : ThreadStats :=
  { s with counter := Function.update s.counter f (s.counter f + n) }

/-- Count one up in the record of a slab class. -/
def slab (s : ThreadStats) (sid : Fin maxNumberOfSlabClasses) (f : SlabCounter) : ThreadStats :=
  ⟨s.counter, Function.update s.slabStats sid
    (Function.update (s.slabStats sid) f (s.slabStats sid f + 1))⟩

/-- The sum of two records. -/
def plus (s t : ThreadStats) : ThreadStats :=
  ⟨fun f => s.counter f + t.counter f, fun sid f => s.slabStats sid f + t.slabStats sid f⟩

/-- `slab_stats_aggregate`. -/
def slabTotal (s : ThreadStats) (f : SlabCounter) : ℕ := ∑ sid, s.slabStats sid f

end ThreadStats

/-- What a worker counts in one section under the mutex. -/
inductive WorkCounted
  | getHit (sid : Fin maxNumberOfSlabClasses)
  | getMiss
  | touchHit (sid : Fin maxNumberOfSlabClasses)
  | touchMiss
  | set (sid : Fin maxNumberOfSlabClasses)
  | deleteHit (sid : Fin maxNumberOfSlabClasses)
  | deleteMiss
  | incrHit (sid : Fin maxNumberOfSlabClasses)
  | incrMiss
  | decrHit (sid : Fin maxNumberOfSlabClasses)
  | decrMiss
  | casHit (sid : Fin maxNumberOfSlabClasses)
  | casBadval (sid : Fin maxNumberOfSlabClasses)
  | casMiss
  | read (res : ℕ)
  | written (res : ℕ)
  | flush
  | yield
  | auth (ok : Bool)
  deriving DecidableEq, Repr

namespace ThreadStats

/-- The counters that go up. -/
def count (s : ThreadStats) : WorkCounted → ThreadStats
  | .getHit sid => (s.slab sid .getHits).add .getCmds 1
  | .getMiss => (s.add .getMisses 1).add .getCmds 1
  | .touchHit sid => (s.add .touchCmds 1).slab sid .touchHits
  | .touchMiss => (s.add .touchCmds 1).add .touchMisses 1
  | .set sid => s.slab sid .setCmds
  | .deleteHit sid => s.slab sid .deleteHits
  | .deleteMiss => s.add .deleteMisses 1
  | .incrHit sid => s.slab sid .incrHits
  | .incrMiss => s.add .incrMisses 1
  | .decrHit sid => s.slab sid .decrHits
  | .decrMiss => s.add .decrMisses 1
  | .casHit sid => s.slab sid .casHits
  | .casBadval sid => s.slab sid .casBadval
  | .casMiss => s.add .casMisses 1
  | .read res => s.add .bytesRead res
  | .written res => s.add .bytesWritten res
  | .flush => s.add .flushCmds 1
  | .yield => s.add .connYields 1
  | .auth ok => if ok then s.add .authCmds 1 else (s.add .authCmds 1).add .authErrors 1

end ThreadStats

/-! ## The workers -/

/-- What a worker is doing. -/
inductive StatsState
  | idle
  /-- In `threadlocal_stats_aggregate`, with the sum of the first `ii` records. -/
  | aggregating (ii : ℕ) (stats : ThreadStats)
  /-- In `threadlocal_stats_reset`, after the first `ii` records. -/
  | resetting (ii : ℕ)

/-- **The workers and their records.** -/
structure StatsSystem (n : ℕ) where
  threads : Fin n → ThreadStats
  state : Fin n → StatsState

/-- What happens next. -/
inductive StatsStep (n : ℕ)
  /-- A worker counts. -/
  | count (i : Fin n) (c : WorkCounted)
  /-- `threadlocal_stats_aggregate` is called. -/
  | aggregate (i : Fin n)
  /-- `threadlocal_stats_reset` is called. -/
  | reset (i : Fin n)
  /-- A round of the loop of either. -/
  | round (i : Fin n)
  /-- They return. -/
  | done (i : Fin n)
  deriving DecidableEq, Repr

namespace StatsSystem

variable {n : ℕ}

/-- The workers when `setup_thread` has run. -/
def init (n : ℕ) : StatsSystem n := ⟨fun _ => .zero, fun _ => .idle⟩

/-- Worker `i` goes on to `x`. -/
def goto (s : StatsSystem n) (i : Fin n) (x : StatsState) : StatsSystem n :=
  { s with state := Function.update s.state i x }

/-- **One step.** -/
def next (s : StatsSystem n) : StatsStep n → Option (StatsSystem n)
  | .count i c =>
      match s.state i with
      | .idle => some { s with threads := Function.update s.threads i ((s.threads i).count c) }
      | _ => none
  | .aggregate i =>
      match s.state i with
      | .idle => some (s.goto i (.aggregating 0 .zero))
      | _ => none
  | .reset i =>
      match s.state i with
      | .idle => some (s.goto i (.resetting 0))
      | _ => none
  | .round i =>
      match s.state i with
      | .aggregating ii stats =>
          if h : ii < n then some (s.goto i (.aggregating (ii + 1) (stats.plus (s.threads ⟨ii, h⟩))))
          else none
      | .resetting ii =>
          if h : ii < n then
            some { s.goto i (.resetting (ii + 1)) with
              threads := Function.update s.threads ⟨ii, h⟩ .zero }
          else none
      | .idle => none
  | .done i =>
      match s.state i with
      | .aggregating ii _ => if ii < n then none else some (s.goto i .idle)
      | .resetting ii => if ii < n then none else some (s.goto i .idle)
      | .idle => none

/-- A step of the workers. -/
def Step (s : StatsSystem n) (l : StatsStep n) (s' : StatsSystem n) : Prop := s.next l = some s'

end StatsSystem

/-! ## What the records say -/

namespace ThreadStats

variable {s t u v : ThreadStats}

/-- **The counters agree with each other**: every lookup was a hit or a miss, every touch as well, and
every failed authentication was one. -/
structure Balanced (s : ThreadStats) : Prop where
  get : s.counter .getCmds = s.slabTotal .getHits + s.counter .getMisses
  touch : s.counter .touchCmds = s.slabTotal .touchHits + s.counter .touchMisses
  auth : s.counter .authErrors ≤ s.counter .authCmds

/-- A counter that is added to. -/
@[simp] theorem counter_add (s : ThreadStats) (f g : ThreadCounter) (k : ℕ) :
    (s.add f k).counter g = s.counter g + if g = f then k else 0 := by
  by_cases h : g = f
  · simp [add, h]
  · simp [add, h]

/-- A counter of a thread is none of a class. -/
@[simp] theorem slabTotal_add (s : ThreadStats) (f : ThreadCounter) (k : ℕ) (g : SlabCounter) :
    (s.add f k).slabTotal g = s.slabTotal g := rfl

/-- A counter of a class is none of a thread. -/
@[simp] theorem counter_slab (s : ThreadStats) (sid : Fin maxNumberOfSlabClasses) (f : SlabCounter) :
    (s.slab sid f).counter = s.counter := rfl

/-- A counter of a class that is added to. -/
@[simp] theorem slabTotal_slab (s : ThreadStats) (sid : Fin maxNumberOfSlabClasses) (f g : SlabCounter) :
    (s.slab sid f).slabTotal g = s.slabTotal g + if g = f then 1 else 0 := by
  have hclass : ∀ c, (s.slab sid f).slabStats c g
      = s.slabStats c g + if c = sid then (if g = f then 1 else 0) else 0 := by
    intro c
    by_cases hc : c = sid
    · subst hc
      by_cases hg : g = f
      · simp [slab, hg]
      · simp [slab, hg]
    · simp [slab, hc]
  simp only [slabTotal, hclass, Finset.sum_add_distrib, Finset.sum_ite_eq', Finset.mem_univ, if_true]

/-- The sum of two threads. -/
@[simp] theorem counter_plus (s t : ThreadStats) (f : ThreadCounter) :
    (s.plus t).counter f = s.counter f + t.counter f := rfl

/-- The sum of two threads, over the classes. -/
@[simp] theorem slabTotal_plus (s t : ThreadStats) (f : SlabCounter) :
    (s.plus t).slabTotal f = s.slabTotal f + t.slabTotal f := Finset.sum_add_distrib

/-- Nothing has been counted. -/
theorem balanced_zero : Balanced zero := by
  refine ⟨?_, ?_, ?_⟩ <;> simp [zero, slabTotal]

/-- The sum of balanced counters is balanced. -/
theorem Balanced.plus (hs : s.Balanced) (ht : t.Balanced) : (s.plus t).Balanced where
  get := by
    have := hs.get
    have := ht.get
    simp only [counter_plus, slabTotal_plus]
    omega
  touch := by
    have := hs.touch
    have := ht.touch
    simp only [counter_plus, slabTotal_plus]
    omega
  auth := Nat.add_le_add hs.auth ht.auth

/-- **Every section keeps the counters in balance.** -/
theorem Balanced.count (hs : s.Balanced) (c : WorkCounted) : (s.count c).Balanced := by
  have hget := hs.get
  have htouch := hs.touch
  have hauth := hs.auth
  cases c with
  | auth ok => cases ok <;> exact ⟨by simpa [ThreadStats.count] using hget,
      by simpa [ThreadStats.count] using htouch, by simp [ThreadStats.count]; omega⟩
  | getHit sid =>
      refine ⟨?_, by simpa [ThreadStats.count] using htouch, by simpa [ThreadStats.count] using hauth⟩
      simp [ThreadStats.count]
      omega
  | getMiss =>
      refine ⟨?_, by simpa [ThreadStats.count] using htouch, by simpa [ThreadStats.count] using hauth⟩
      simp [ThreadStats.count]
      omega
  | touchHit sid =>
      refine ⟨by simpa [ThreadStats.count] using hget, ?_, by simpa [ThreadStats.count] using hauth⟩
      simp [ThreadStats.count]
      omega
  | touchMiss =>
      refine ⟨by simpa [ThreadStats.count] using hget, ?_, by simpa [ThreadStats.count] using hauth⟩
      simp [ThreadStats.count]
      omega
  | _ => exact ⟨by simpa [ThreadStats.count] using hget, by simpa [ThreadStats.count] using htouch,
      by simpa [ThreadStats.count] using hauth⟩

/-- No counter of `s` is above that of `t`. -/
instance : LE ThreadStats :=
  ⟨fun s t => (∀ f, s.counter f ≤ t.counter f) ∧ ∀ sid f, s.slabStats sid f ≤ t.slabStats sid f⟩

/-- Counters are at most themselves. -/
theorem le_refl' (s : ThreadStats) : s ≤ s := ⟨fun _ => le_refl _, fun _ _ => le_refl _⟩

/-- Counters that grow twice have grown. -/
theorem le_trans' (h : s ≤ t) (h' : t ≤ u) : s ≤ u :=
  ⟨fun f => (h.1 f).trans (h'.1 f), fun sid f => (h.2 sid f).trans (h'.2 sid f)⟩

/-- Sums grow with their parts. -/
theorem plus_le_plus (h : s ≤ t) (h' : u ≤ v) : s.plus u ≤ t.plus v :=
  ⟨fun f => Nat.add_le_add (h.1 f) (h'.1 f), fun sid f => Nat.add_le_add (h.2 sid f) (h'.2 sid f)⟩

/-- Adding makes nothing smaller. -/
theorem le_add (s : ThreadStats) (f : ThreadCounter) (k : ℕ) : s ≤ s.add f k :=
  ⟨fun g => by simp, fun _ _ => le_refl _⟩

/-- Adding to a class makes nothing smaller. -/
theorem le_slab (s : ThreadStats) (sid : Fin maxNumberOfSlabClasses) (f : SlabCounter) :
    s ≤ s.slab sid f := by
  refine ⟨fun _ => le_refl _, fun c g => ?_⟩
  by_cases hc : c = sid
  · subst hc
    by_cases hg : g = f
    · simp [slab, hg]
    · simp [slab, hg]
  · simp [slab, hc]

/-- Counting lowers nothing. -/
theorem le_count (s : ThreadStats) (c : WorkCounted) : s ≤ s.count c := by
  cases c with
  | getHit sid => exact le_trans' (le_slab s sid .getHits) (le_add _ .getCmds 1)
  | getMiss => exact le_trans' (le_add s .getMisses 1) (le_add _ .getCmds 1)
  | touchHit sid => exact le_trans' (le_add s .touchCmds 1) (le_slab _ sid .touchHits)
  | touchMiss => exact le_trans' (le_add s .touchCmds 1) (le_add _ .touchMisses 1)
  | auth ok =>
      cases ok with
      | true => exact le_add s .authCmds 1
      | false => exact le_trans' (le_add s .authCmds 1) (le_add _ .authErrors 1)
  | set sid => exact le_slab s sid .setCmds
  | deleteHit sid => exact le_slab s sid .deleteHits
  | incrHit sid => exact le_slab s sid .incrHits
  | decrHit sid => exact le_slab s sid .decrHits
  | casHit sid => exact le_slab s sid .casHits
  | casBadval sid => exact le_slab s sid .casBadval
  | read res => exact le_add s .bytesRead res
  | written res => exact le_add s .bytesWritten res
  | _ => exact le_add s _ 1

end ThreadStats

namespace StatsSystem

variable {n : ℕ} {s s' s₀ : StatsSystem n} {i : Fin n} {l : StatsStep n}

/-- **What a step does**: it changes the record of one worker at most, which counted or was cleared, and
the state of one worker. -/
inductive Move (s : StatsSystem n) : StatsStep n → StatsSystem n → Prop
  | count (i : Fin n) (c : WorkCounted) (h : s.state i = .idle) :
      Move s (.count i c) { s with threads := Function.update s.threads i ((s.threads i).count c) }
  | aggregate (i : Fin n) (h : s.state i = .idle) :
      Move s (.aggregate i) (s.goto i (.aggregating 0 .zero))
  | reset (i : Fin n) (h : s.state i = .idle) : Move s (.reset i) (s.goto i (.resetting 0))
  | visit (i : Fin n) {ii : ℕ} {stats : ThreadStats} (h : s.state i = .aggregating ii stats)
      (hi : ii < n) :
      Move s (.round i) (s.goto i (.aggregating (ii + 1) (stats.plus (s.threads ⟨ii, hi⟩))))
  | clear (i : Fin n) {ii : ℕ} (h : s.state i = .resetting ii) (hi : ii < n) :
      Move s (.round i) { s.goto i (.resetting (ii + 1)) with
        threads := Function.update s.threads ⟨ii, hi⟩ .zero }
  | done (i : Fin n) : Move s (.done i) (s.goto i .idle)

/-- A step of the code is a move of the abstract system. -/
theorem Step.move (h : Step s l s') : Move s l s' := by
  rw [Step, next.eq_def] at h
  split at h
  · split at h
    · rename_i hidle
      exact Option.some.inj h ▸ .count _ _ hidle
    · cases h
  · split at h
    · rename_i hidle
      exact Option.some.inj h ▸ .aggregate _ hidle
    · cases h
  · split at h
    · rename_i hidle
      exact Option.some.inj h ▸ .reset _ hidle
    · cases h
  · split at h
    · rename_i ii stats hst
      split_ifs at h with hi
      exact Option.some.inj h ▸ .visit _ hst hi
    · rename_i ii hst
      split_ifs at h with hi
      exact Option.some.inj h ▸ .clear _ hst hi
    · cases h
  · split at h
    · split_ifs at h
      exact Option.some.inj h ▸ .done _
    · split_ifs at h
      exact Option.some.inj h ▸ .done _
    · cases h

/-! ## Sums in balance -/

/-- All records, and the sums under way, are in balance. -/
structure Balanced (s : StatsSystem n) : Prop where
  threads : ∀ j, (s.threads j).Balanced
  sums : ∀ j ii stats, s.state j = .aggregating ii stats → stats.Balanced

/-- Nothing has been counted. -/
theorem balanced_init (n : ℕ) : (init n).Balanced :=
  ⟨fun _ => ThreadStats.balanced_zero, fun _ _ _ h => by simp [init] at h⟩

/-- A worker goes on with a sum in balance, or with none. -/
theorem Balanced.goto (h : s.Balanced) {x : StatsState}
    (hx : ∀ ii stats, x = .aggregating ii stats → stats.Balanced) : (s.goto i x).Balanced where
  threads := h.threads
  sums j ii stats hst := by
    by_cases hj : j = i
    · subst hj
      exact hx ii stats (by simpa [StatsSystem.goto] using hst)
    · exact h.sums j ii stats (by simpa [StatsSystem.goto, hj] using hst)

/-- A thread with balanced counters keeps all balanced. -/
theorem Balanced.setThread (h : s.Balanced) {t : ThreadStats} (ht : t.Balanced) (j : Fin n) :
    Balanced { s with threads := Function.update s.threads j t } where
  threads k := by
    by_cases hk : k = j
    · subst hk
      simpa using ht
    · simpa [hk] using h.threads k
  sums := h.sums

/-- **One move keeps the counters balanced.** -/
theorem Balanced.move (h : s.Balanced) (hm : Move s l s') : s'.Balanced := by
  cases hm with
  | count i c hidle => exact h.setThread ((h.threads i).count c) i
  | aggregate i hidle =>
      refine h.goto (fun ii stats hx => ?_)
      obtain ⟨-, rfl⟩ := StatsState.aggregating.inj hx
      exact ThreadStats.balanced_zero
  | reset i hidle => exact h.goto (fun _ _ hx => by cases hx)
  | @visit i ii stats hst hi =>
      refine h.goto (fun ii' stats' hx => ?_)
      obtain ⟨-, rfl⟩ := StatsState.aggregating.inj hx
      exact (h.sums i ii stats hst).plus (h.threads ⟨ii, hi⟩)
  | @clear i ii hst hi =>
      exact (h.goto (i := i) (x := .resetting (ii + 1)) (fun _ _ hx => by cases hx)).setThread
        ThreadStats.balanced_zero ⟨ii, hi⟩
  | done i => exact h.goto (fun _ _ hx => by cases hx)

/-! ## Sums between two totals -/

/-- The sum of the first `k` records. -/
def sumFirst (threads : Fin n → ThreadStats) : ℕ → ThreadStats
  | 0 => .zero
  | k + 1 => if h : k < n then (sumFirst threads k).plus (threads ⟨k, h⟩) else sumFirst threads k

/-- Sums grow with the threads. -/
theorem sumFirst_mono {threads threads' : Fin n → ThreadStats} (h : ∀ j, threads j ≤ threads' j)
    (k : ℕ) : sumFirst threads k ≤ sumFirst threads' k := by
  induction k with
  | zero => exact ThreadStats.le_refl' _
  | succ k ih =>
      rw [sumFirst, sumFirst]
      by_cases hk : k < n
      · rw [dif_pos hk, dif_pos hk]
        exact ThreadStats.plus_le_plus ih (h ⟨k, hk⟩)
      · rw [dif_neg hk, dif_neg hk]
        exact ih

/-- **The sum of worker `i` lies between the records as they were and as they are**, and nobody clears
them. -/
structure Between (s₀ s : StatsSystem n) (i : Fin n) : Prop where
  grown : ∀ j, s₀.threads j ≤ s.threads j
  kept : ∀ j ii, s.state j ≠ .resetting ii
  sum : ∃ ii stats, s.state i = .aggregating ii stats ∧ sumFirst s₀.threads ii ≤ stats ∧ stats ≤ sumFirst s.threads ii

/-- **One move keeps the sums between the counters before and after.** -/
theorem Between.move (h : Between s₀ s i) (hm : Move s l s') (hreset : ∀ j, l ≠ .reset j)
    (hdone : l ≠ .done i) : Between s₀ s' i := by
  obtain ⟨ii, stats, hst, hlo, hhi⟩ := h.sum
  cases hm with
  | count j c hidle =>
      have hgrown : ∀ k, s.threads k ≤ Function.update s.threads j ((s.threads j).count c) k := fun k => by
        by_cases hk : k = j
        · subst hk
          simpa using ThreadStats.le_count _ c
        · simpa [hk] using ThreadStats.le_refl' _
      exact ⟨fun k => ThreadStats.le_trans' (h.grown k) (hgrown k), h.kept, ii, stats, hst, hlo,
        ThreadStats.le_trans' hhi (sumFirst_mono hgrown ii)⟩
  | aggregate j hidle =>
      have hij : i ≠ j := by
        rintro rfl
        rw [hst] at hidle
        cases hidle
      refine ⟨h.grown, fun k kk => ?_, ii, stats, by simpa [goto, hij] using hst, hlo, hhi⟩
      by_cases hk : k = j
      · simp [goto, hk]
      · simpa [goto, hk] using h.kept k kk
  | reset j hidle => exact absurd rfl (hreset j)
  | @visit j jj stats' hst' hj =>
      have hkept : ∀ x k kk, (∀ mm, x ≠ .resetting mm) → (s.goto j x).state k ≠ .resetting kk :=
        fun x k kk hx => by
          by_cases hk : k = j
          · simpa [goto, hk] using hx kk
          · simpa [goto, hk] using h.kept k kk
      by_cases hij : i = j
      · subst hij
        obtain ⟨rfl, rfl⟩ := StatsState.aggregating.inj (hst.symm.trans hst')
        refine ⟨h.grown, fun k kk => hkept _ k kk (by simp), ii + 1,
          stats.plus (s.threads ⟨ii, hj⟩), by simp [goto], ?_, ?_⟩
        · rw [sumFirst, dif_pos hj]
          exact ThreadStats.plus_le_plus hlo (h.grown ⟨ii, hj⟩)
        · rw [sumFirst, dif_pos hj]
          exact ThreadStats.plus_le_plus hhi (ThreadStats.le_refl' _)
      · exact ⟨h.grown, fun k kk => hkept _ k kk (by simp), ii, stats, by simpa [goto, hij] using hst, hlo,
          hhi⟩
  | @clear j jj hst' hj => exact absurd hst' (h.kept j jj)
  | done j =>
      have hij : i ≠ j := fun e => hdone (e ▸ rfl)
      refine ⟨h.grown, fun k kk => ?_, ii, stats, by simpa [goto, hij] using hst, hlo, hhi⟩
      by_cases hk : k = j
      · simp [goto, hk]
      · simpa [goto, hk] using h.kept k kk

/-- A run without a reset keeps the sums between. -/
theorem Between.run {ls : List (StatsStep n)} (h : Between s₀ s i) (hr : Run Step s ls s')
    (hls : ∀ l ∈ ls, l ≠ .done i ∧ ∀ j, l ≠ .reset j) : Between s₀ s' i := by
  induction hr with
  | nil => exact h
  | cons hstep _ ih =>
      have hl := hls _ List.mem_cons_self
      exact ih (h.move hstep.move hl.2 hl.1) (fun l hl' => hls l (List.mem_cons_of_mem _ hl'))

/-! ## Scripts -/

/-- Take a step if it can be taken. -/
def exec (s : StatsSystem n) (l : StatsStep n) : StatsSystem n := (s.next l).getD s

/-- A script whose steps all go through is a run. -/
theorem run_script {ls : List (StatsStep n)}
    (h : Transition.checkAll exec (fun s l => (s.next l).isSome) s ls = true) :
    Run Step s ls (Transition.execs exec s ls) := by
  refine Transition.run_execs (fun s l hl => ?_) h
  obtain ⟨s', hs'⟩ := Option.isSome_iff_exists.mp hl
  rw [Step, exec, hs', Option.getD_some]

end StatsSystem

section

variable {n : ℕ} {s₀ s : StatsSystem n} {ls : List (StatsStep n)} {i : Fin n} {ii : ℕ}
  {stats : ThreadStats}

/-- **What `stats` adds up is consistent**: at every round, whatever the other workers count or clear
meanwhile, the lookups are the hits and the misses, the touches as well, and no more authentications
failed than there were. -/
theorem stats_balanced (hr : Run StatsSystem.Step (.init n) ls s)
    (hst : s.state i = .aggregating ii stats) :
    stats.counter .getCmds = stats.slabTotal .getHits + stats.counter .getMisses ∧
      stats.counter .touchCmds = stats.slabTotal .touchHits + stats.counter .touchMisses ∧
      stats.counter .authErrors ≤ stats.counter .authCmds := by
  have hbal : s.Balanced := hr.invariant (P := StatsSystem.Balanced) (StatsSystem.balanced_init n)
    fun h hstep => h.move hstep.move
  have hsum := hbal.sums i ii stats hst
  exact ⟨hsum.get, hsum.touch, hsum.auth⟩

/-- One lookup is counted before, and one while worker 1 adds up. -/
theorem stats_balanced_two :
    ∃ stats : ThreadStats, stats.counter .getCmds = 2 ∧
      stats.counter .getCmds = stats.slabTotal .getHits + stats.counter .getMisses := by
  let ls : List (StatsStep 2) := [.count 0 (.getHit ⟨1, by decide⟩), .aggregate 1, .count 0 .getMiss,
    .round 1, .count 0 .getMiss, .round 1]
  have hrun : Run StatsSystem.Step (.init 2) ls _ := StatsSystem.run_script (by decide +kernel)
  exact ⟨_, rfl, (@stats_balanced 2 _ ls 1 2 _ hrun rfl).1⟩

/-- **The sum lies between two totals**: while nobody clears the records, each counter that `stats`
reports is at least what all workers had counted when it began and at most what they have counted when
it ends. -/
theorem stats_between (hr : Run StatsSystem.Step s₀ ls s)
    (h₀ : s₀.state i = .aggregating 0 .zero) (hkept : ∀ j jj, s₀.state j ≠ .resetting jj)
    (hls : ∀ l ∈ ls, l ≠ .done i ∧ ∀ j, l ≠ .reset j) (hst : s.state i = .aggregating n stats) :
    StatsSystem.sumFirst s₀.threads n ≤ stats ∧ stats ≤ StatsSystem.sumFirst s.threads n := by
  have hstart : StatsSystem.Between s₀ s₀ i := ⟨fun j => ThreadStats.le_refl' _, hkept, 0, .zero, h₀,
    ThreadStats.le_refl' _, ThreadStats.le_refl' _⟩
  have hbetween := hstart.run hr hls
  obtain ⟨ii, stats', hst', hlo, hhi⟩ := hbetween.sum
  obtain ⟨rfl, rfl⟩ := StatsState.aggregating.inj (hst.symm.trans hst')
  exact ⟨hlo, hhi⟩

/-- Of two lookups one is counted before `stats` gets to its worker, and one after. -/
theorem stats_between_two :
    ∃ s₀ s : StatsSystem 2, ∃ stats : ThreadStats,
      StatsSystem.sumFirst s₀.threads 2 ≤ stats ∧ stats ≤ StatsSystem.sumFirst s.threads 2 ∧ stats.counter .getCmds = 1 := by
  let ls : List (StatsStep 2) :=
    [.count 0 (.getHit ⟨1, by decide⟩), .round 1, .count 0 .getMiss, .round 1]
  have hrun : Run StatsSystem.Step ((StatsSystem.init 2).goto 1 (.aggregating 0 .zero)) ls _ :=
    StatsSystem.run_script (by decide +kernel)
  have hkept : ∀ j jj, ((StatsSystem.init 2).goto 1 (.aggregating 0 .zero)).state j ≠ .resetting jj :=
    fun j jj => by
      match j with
      | 0 => simp [StatsSystem.goto, StatsSystem.init]
      | 1 => simp [StatsSystem.goto]
  obtain ⟨hlo, hhi⟩ := stats_between (i := 1) hrun rfl hkept (by decide) rfl
  exact ⟨_, _, _, hlo, hhi, rfl⟩

end

end Memcached
