import Memcached.Lib.Transition
import Mathlib.Tactic

/-! # The automove decision

`slab_automove_decision` compares the eviction counters of the classes with those of its last run,
ten seconds ago at least. It names a class that evicted nothing three times as the source of a page
and the class that evicted the most three times as its destination. `stats reset` clears the counters
between two runs, which the differences do not know.

* **`Automove.decision`** — `slab_automove_decision`.
* **`Tracks`** — what the static arrays hold, in terms of the past runs.
* **`decision_justified`** — what a decision says of the last three windows. -/

namespace Memcached

open Transition (Run)

/-! ## The decision -/

/-- The static variables of `slab_automove_decision`. -/
structure Automove where
  evictedOld : ℕ → ℕ := fun _ => 0
  slabZeroes : ℕ → ℕ := fun _ => 0
  slabWinner : ℕ := 0
  slabWins : ℕ := 0
  nextRun : ℕ := 0

/-- The variables of the loop over the classes. -/
structure EvictionScan where
  evictedOld : ℕ → ℕ
  slabZeroes : ℕ → ℕ
  evictedMax : ℕ := 0
  highestSlab : ℕ := 0
  source : ℕ := 0

/-- `evicted_new - evicted_old`, in 64 bits. -/
def evictedDiff (new old : ℕ) : ℕ := (new + (2 ^ 64 - old % 2 ^ 64)) % 2 ^ 64

/-- The body of the loop, for class `i`. -/
def EvictionScan.visit (evictedNew totalPages : ℕ → ℕ) (v : EvictionScan) (i : ℕ) : EvictionScan :=
  let diff := evictedDiff (evictedNew i) (v.evictedOld i)
  let old := Function.update v.evictedOld i (evictedNew i)
  if diff = 0 ∧ 2 < totalPages i then
    let zeroes := (v.slabZeroes i + 1) % 2 ^ 32
    { v with
      evictedOld := old
      slabZeroes := Function.update v.slabZeroes i zeroes
      source := if v.source = 0 ∧ 3 ≤ zeroes then i else v.source }
  else
    { v with
      evictedOld := old
      slabZeroes := Function.update v.slabZeroes i 0
      evictedMax := if v.evictedMax < diff then diff else v.evictedMax
      highestSlab := if v.evictedMax < diff then i else v.highestSlab }

/-- The classes of the loop, `POWER_SMALLEST ≤ i < power_largest`. -/
def scannedClasses (powerLargest : ℕ) : List ℕ := List.range' 1 (powerLargest - 1)

/-- The loop over the classes. -/
def Automove.scan (a : Automove) (powerLargest : ℕ) (evictedNew totalPages : ℕ → ℕ) :
    EvictionScan :=
  (scannedClasses powerLargest).foldl (EvictionScan.visit evictedNew totalPages)
    { evictedOld := a.evictedOld, slabZeroes := a.slabZeroes }

/-- `slab_automove_decision`: the source and destination, if it returns 1, and the static
variables it leaves. -/
def Automove.slabAutomoveDecision (a : Automove) (powerLargest : ℕ) (evictedNew totalPages : ℕ → ℕ)
    (currentTime : ℕ) : Option (ℕ × ℕ) × Automove :=
  if currentTime ≥ a.nextRun then
    let v := a.scan powerLargest evictedNew totalPages
    let again : Bool := a.slabWinner ≠ 0 ∧ a.slabWinner = v.highestSlab
    let wins := if again then (a.slabWins + 1) % 2 ^ 32 else 1
    let dest := if again ∧ 3 ≤ wins then a.slabWinner else 0
    (if v.source ≠ 0 ∧ dest ≠ 0 then some (v.source, dest) else none,
      { evictedOld := v.evictedOld
        slabZeroes := v.slabZeroes
        slabWinner := v.highestSlab
        slabWins := wins
        nextRun := (currentTime + 10) % 2 ^ 32 })
  else (none, a)

/-! ## What the loop finds -/

section Scan

variable {evictedNew totalPages : ℕ → ℕ}

/-- A class counts as one without evictions. -/
def QuietClass (evictedNew totalPages old : ℕ → ℕ) (i : ℕ) : Prop :=
  evictedDiff (evictedNew i) (old i) = 0 ∧ 2 < totalPages i

/-- What the loop has found over the classes `l`, from the counters `old` and `zeroes`. -/
structure EvictionScan.Found (evictedNew totalPages old zeroes : ℕ → ℕ) (l : List ℕ)
    (v : EvictionScan) : Prop where
  evictedOld : ∀ i, v.evictedOld i = if i ∈ l then evictedNew i else old i
  slabZeroes : ∀ i, i ∉ l → v.slabZeroes i = zeroes i
  quiet : ∀ i ∈ l, QuietClass evictedNew totalPages old i →
    v.slabZeroes i = (zeroes i + 1) % 2 ^ 32
  busy : ∀ i ∈ l, ¬ QuietClass evictedNew totalPages old i → v.slabZeroes i = 0
  evictedMax : ∀ i ∈ l, evictedDiff (evictedNew i) (old i) ≤ v.evictedMax
  highest : v.highestSlab = 0 ∧ v.evictedMax = 0 ∨ v.highestSlab ∈ l ∧ 0 < v.evictedMax ∧
    evictedDiff (evictedNew v.highestSlab) (old v.highestSlab) = v.evictedMax
  source : v.source = 0 ∨ v.source ∈ l ∧ 3 ≤ v.slabZeroes v.source

/-- One more class. -/
theorem EvictionScan.Found.visit {old zeroes : ℕ → ℕ} {l : List ℕ} {v : EvictionScan} {i : ℕ}
    (h : v.Found evictedNew totalPages old zeroes l) (hi : i ∉ l) :
    (v.visit evictedNew totalPages i).Found evictedNew totalPages old zeroes (l ++ [i]) := by
  have hold : v.evictedOld i = old i := by rw [h.evictedOld, if_neg hi]
  have hzero : v.slabZeroes i = zeroes i := h.slabZeroes i hi
  have hne : ∀ {j}, j ∈ l → j ≠ i := fun hj hji => hi (hji ▸ hj)
  have hupd : ∀ j, Function.update v.evictedOld i (evictedNew i) j
      = if j ∈ l ++ [i] then evictedNew j else old j := by
    intro j
    by_cases hj : j = i
    · subst hj
      simp
    · rw [Function.update_of_ne hj, h.evictedOld]
      simp [hj]
  have hmem : ∀ {j}, j ∈ l ++ [i] → j ∈ l ∨ j = i := by simp
  unfold EvictionScan.visit
  simp only [hold, hzero]
  by_cases hq : QuietClass evictedNew totalPages old i
  · rw [if_pos (show evictedDiff _ _ = 0 ∧ 2 < totalPages i from hq)]
    refine ⟨hupd, fun j hj => ?_, fun j hj hqj => ?_, fun j hj hqj => ?_, fun j hj => ?_, ?_, ?_⟩
    · have hji : j ≠ i := fun hji => hj (by simp [hji])
      simp only [Function.update_of_ne hji]
      exact h.slabZeroes j fun hjl => hj (by simp [hjl])
    · obtain hj | rfl := hmem hj
      · simp only [Function.update_of_ne (hne hj)]
        exact h.quiet j hj hqj
      · simp
    · obtain hj | rfl := hmem hj
      · simp only [Function.update_of_ne (hne hj)]
        exact h.busy j hj hqj
      · exact absurd hq hqj
    · obtain hj | rfl := hmem hj
      · exact h.evictedMax j hj
      · simp [hq.1]
    · obtain hh | hh := h.highest
      · exact Or.inl hh
      · exact Or.inr ⟨by simp [hh.1], hh.2⟩
    · simp only
      split
      · rename_i hsrc
        exact Or.inr ⟨by simp, by simpa using hsrc.2⟩
      · obtain hs | hs := h.source
        · exact Or.inl hs
        · refine Or.inr ⟨by simp [hs.1], ?_⟩
          simp only [Function.update_of_ne (hne hs.1)]
          exact hs.2
  · rw [if_neg (show ¬ (evictedDiff _ _ = 0 ∧ 2 < totalPages i) from hq)]
    refine ⟨hupd, fun j hj => ?_, fun j hj hqj => ?_, fun j hj hqj => ?_, fun j hj => ?_, ?_, ?_⟩
    · have hji : j ≠ i := fun hji => hj (by simp [hji])
      simp only [Function.update_of_ne hji]
      exact h.slabZeroes j fun hjl => hj (by simp [hjl])
    · obtain hj | rfl := hmem hj
      · simp only [Function.update_of_ne (hne hj)]
        exact h.quiet j hj hqj
      · exact absurd hqj hq
    · obtain hj | rfl := hmem hj
      · simp only [Function.update_of_ne (hne hj)]
        exact h.busy j hj hqj
      · simp
    · simp only
      obtain hj | rfl := hmem hj
      · have := h.evictedMax j hj
        split <;> omega
      · split <;> omega
    · simp only
      split
      · exact Or.inr ⟨by simp, by omega, rfl⟩
      · obtain hh | hh := h.highest
        · exact Or.inl hh
        · exact Or.inr ⟨by simp [hh.1], hh.2⟩
    · obtain hs | hs := h.source
      · exact Or.inl hs
      · refine Or.inr ⟨by simp [hs.1], ?_⟩
        simp only [Function.update_of_ne (hne hs.1)]
        exact hs.2

/-- The loop over classes that are all different. -/
theorem EvictionScan.Found.foldl {old zeroes : ℕ → ℕ} {l l' : List ℕ} {v : EvictionScan}
    (h : v.Found evictedNew totalPages old zeroes l) (hnd : (l ++ l').Nodup) :
    (l'.foldl (EvictionScan.visit evictedNew totalPages) v).Found evictedNew totalPages old zeroes
      (l ++ l') := by
  -- by induction on the classes to come; `Found` says what those seen so far have given
  induction l' generalizing l v with
  | nil => simpa using h
  | cons i l' ih =>
      have hi : i ∉ l := fun hi =>
        (List.nodup_append.mp hnd).2.2 i hi i (List.mem_cons_self ..) rfl
      have := ih (h.visit hi) (by simpa using hnd)
      simpa using this

end Scan

/-- The classes that are looked at: all but the last one. -/
theorem mem_scannedClasses {powerLargest i : ℕ} :
    i ∈ scannedClasses powerLargest ↔ 1 ≤ i ∧ i < powerLargest := by
  rw [scannedClasses, List.mem_range'_1]
  omega

/-- **What the loop finds** over the classes that are scanned. -/
theorem Automove.scan_found (a : Automove) (powerLargest : ℕ) (evictedNew totalPages : ℕ → ℕ) :
    (a.scan powerLargest evictedNew totalPages).Found evictedNew totalPages a.evictedOld
      a.slabZeroes (scannedClasses powerLargest) := by
  have h₀ : EvictionScan.Found evictedNew totalPages a.evictedOld a.slabZeroes []
      { evictedOld := a.evictedOld, slabZeroes := a.slabZeroes } :=
    ⟨fun i => by simp, fun i _ => rfl, by simp, by simp, by simp, Or.inl ⟨rfl, rfl⟩, Or.inl rfl⟩
  rw [← List.nil_append (scannedClasses powerLargest)]
  exact h₀.foldl (by rw [List.nil_append]; exact List.nodup_range')

/-! ## Histories -/

/-- What really happens between two runs of the decision, and the pages of the classes at its
end. -/
structure EvictionWindow where
  evictions : ℕ → ℕ
  pages : ℕ → ℕ

/-- The counters, pages and clock that the decision reads, and its static variables. The windows,
the last one first, and the evictions of the one that is open are kept for the statements only. -/
structure EvictionHistory where
  /-- `itemstats[i].evicted`. -/
  evicted : ℕ → ℕ := fun _ => 0
  /-- `slabclass[i].slabs`. -/
  slabs : ℕ → ℕ := fun _ => 0
  currentTime : ℕ := 0
  statics : Automove := {}
  current : ℕ → ℕ := fun _ => 0
  windows : List EvictionWindow := []

/-- What happens to a history. -/
inductive EvictionOp
  /-- `do_item_alloc` evicts an item of the class. -/
  | evict (i : ℕ)
  /-- `item_stats_reset`. -/
  | statsReset
  /-- Pages are allocated or moved. -/
  | pages (slabs : ℕ → ℕ)
  /-- The clock shows another time. -/
  | clock (time : ℕ)
  /-- The maintenance thread asks for a decision. -/
  | decision

namespace EvictionHistory

variable (powerLargest : ℕ)

/-- The answer of `slab_automove_decision`. -/
def decision (s : EvictionHistory) : Option (ℕ × ℕ) :=
  (s.statics.slabAutomoveDecision powerLargest s.evicted s.slabs s.currentTime).1

/-- One step. -/
def exec (s : EvictionHistory) : EvictionOp → EvictionHistory
  | .evict i =>
      { s with
        evicted := Function.update s.evicted i ((s.evicted i + 1) % 2 ^ 64)
        current := Function.update s.current i (s.current i + 1) }
  | .statsReset => { s with evicted := fun _ => 0 }
  | .pages slabs => { s with slabs := slabs }
  | .clock time => { s with currentTime := time }
  | .decision =>
      let statics := (s.statics.slabAutomoveDecision powerLargest s.evicted s.slabs
        s.currentTime).2
      if s.currentTime ≥ s.statics.nextRun then
        { s with
          statics := statics
          current := fun _ => 0
          windows := ⟨s.current, s.slabs⟩ :: s.windows }
      else { s with statics := statics }

/-- The source and destination are classes that are scanned, and each of the last three windows has
no evictions of the source, which has more than two pages, and more of the destination than of any
class in `all`. -/
structure Justified (all : Set ℕ) (src dst : ℕ) (ws : List EvictionWindow) : Prop where
  ne : src ≠ dst
  src_mem : 1 ≤ src ∧ src < powerLargest
  dst_mem : 1 ≤ dst ∧ dst < powerLargest
  three : 3 ≤ ws.length
  src_pages : ∀ w ∈ ws.take 3, 2 < w.pages src
  src_quiet : ∀ w ∈ ws.take 3, w.evictions src = 0
  dst_evicts : ∀ w ∈ ws.take 3, 0 < w.evictions dst
  dst_most : ∀ w ∈ ws.take 3, ∀ j ∈ all, w.evictions j ≤ w.evictions dst

/-- The step does not make a counter lose evictions: the counters are reset only while they are
zero, and no window has 2 ^ 64 evictions of a class. -/
def CountersKept (s : EvictionHistory) : EvictionOp → Prop
  | .evict i => s.current i + 1 < 2 ^ 64
  | .statsReset => ∀ i ∈ scannedClasses powerLargest, s.evicted i = 0
  | _ => True

instance (s : EvictionHistory) (op : EvictionOp) : Decidable (s.CountersKept powerLargest op) :=
  match op with
  | .evict _ => inferInstanceAs (Decidable (_ < _))
  | .statsReset => inferInstanceAs (Decidable (∀ i ∈ _, _))
  | .pages _ | .clock _ | .decision => isTrue trivial

/-- A step that keeps the counters. -/
def KeptStep (s : EvictionHistory) (op : EvictionOp) (s' : EvictionHistory) : Prop :=
  s.CountersKept powerLargest op ∧ s' = s.exec powerLargest op

/-- What the static variables say about the windows. -/
structure Tracks (s : EvictionHistory) : Prop where
  counted : ∀ i ∈ scannedClasses powerLargest,
    s.evicted i = (s.statics.evictedOld i + s.current i) % 2 ^ 64
  current_lt : ∀ i, s.current i < 2 ^ 64
  zeroes : ∀ i ∈ scannedClasses powerLargest, s.statics.slabZeroes i ≤ s.windows.length ∧
    ∀ w ∈ s.windows.take (s.statics.slabZeroes i), 2 < w.pages i ∧ w.evictions i = 0
  wins : s.statics.slabWinner ≠ 0 → s.statics.slabWinner ∈ scannedClasses powerLargest ∧
    s.statics.slabWins ≤ s.windows.length ∧
    ∀ w ∈ s.windows.take s.statics.slabWins, 0 < w.evictions s.statics.slabWinner ∧
      ∀ j ∈ scannedClasses powerLargest, w.evictions j ≤ w.evictions s.statics.slabWinner

variable {powerLargest}

/-- Counters that are kept tell the evictions of the window. -/
theorem evictedDiff_eq {old current : ℕ} (h : current < 2 ^ 64) :
    evictedDiff ((old + current) % 2 ^ 64) old = current := by
  unfold evictedDiff
  omega

/-- The counts of a run of the decision, with its window. -/
theorem take_mod_succ {ws : List EvictionWindow} {P : EvictionWindow → Prop} {w : EvictionWindow}
    {n m : ℕ} (hn : n ≤ ws.length) (hws : ∀ v ∈ ws.take n, P v) (hw : P w) :
    (n + 1) % m ≤ (w :: ws).length ∧ ∀ v ∈ (w :: ws).take ((n + 1) % m), P v := by
  have hle : (n + 1) % m ≤ n + 1 := Nat.mod_le _ _
  refine ⟨by rw [List.length_cons]; omega, fun v hv => ?_⟩
  have hv' : v ∈ (w :: ws).take (n + 1) := List.take_subset_take_left _ hle hv
  rw [List.take_succ_cons, List.mem_cons] at hv'
  obtain rfl | hv' := hv'
  · exact hw
  · exact hws v hv'

/-- **A run of the decision** keeps what the static variables say. -/
theorem Tracks.decision {s : EvictionHistory} (h : s.Tracks powerLargest)
    (hrun : s.currentTime ≥ s.statics.nextRun) :
    (s.exec powerLargest .decision).Tracks powerLargest := by
  have hf := s.statics.scan_found powerLargest s.evicted s.slabs
  have hdiff : ∀ i ∈ scannedClasses powerLargest,
      evictedDiff (s.evicted i) (s.statics.evictedOld i) = s.current i := by
    intro i hi
    rw [h.counted i hi, evictedDiff_eq (h.current_lt i)]
  simp only [exec, Automove.slabAutomoveDecision, if_pos hrun]
  generalize s.statics.scan powerLargest s.evicted s.slabs = v at hf
  refine ⟨fun i hi => ?_, fun i => by norm_num, fun i hi => ?_, fun hne => ?_⟩
  · have hlt : s.evicted i < 2 ^ 64 := by
      rw [h.counted i hi]
      exact Nat.mod_lt _ (by norm_num)
    simp only [hf.evictedOld, if_pos hi]
    omega
  · by_cases hq : QuietClass s.evicted s.slabs s.statics.evictedOld i
    · simp only [hf.quiet i hi hq]
      exact take_mod_succ (h.zeroes i hi).1 (h.zeroes i hi).2 ⟨hq.2, (hdiff i hi).symm.trans hq.1⟩
    · simp only [hf.busy i hi hq]
      exact ⟨Nat.zero_le _, by simp⟩
  · obtain hh | ⟨hmem, hpos, hmax⟩ := hf.highest
    · exact absurd hh.1 hne
    have hwin : 0 < s.current v.highestSlab ∧
        ∀ j ∈ scannedClasses powerLargest, s.current j ≤ s.current v.highestSlab := by
      rw [hdiff _ hmem] at hmax
      refine ⟨by omega, fun j hj => ?_⟩
      have := hf.evictedMax j hj
      rw [hdiff j hj] at this
      omega
    refine ⟨hmem, ?_⟩
    simp only
    by_cases hagain : s.statics.slabWinner ≠ 0 ∧ s.statics.slabWinner = v.highestSlab
    · obtain ⟨-, hlen, hwins⟩ := h.wins hagain.1
      rw [hagain.2] at hwins
      simp only [if_pos (decide_eq_true hagain)]
      exact take_mod_succ (P := fun w => 0 < w.evictions v.highestSlab ∧
        ∀ j ∈ scannedClasses powerLargest, w.evictions j ≤ w.evictions v.highestSlab)
        hlen hwins hwin
    · simp only [hagain, decide_false, Bool.false_eq_true, if_false]
      refine ⟨by simp, fun w hw => ?_⟩
      obtain rfl : w = _ := by simpa using hw
      exact hwin

/-- **One step** keeps what the static variables say. -/
theorem Tracks.step {s s' : EvictionHistory} {op : EvictionOp} (h : s.Tracks powerLargest)
    (hs : s.KeptStep powerLargest op s') : s'.Tracks powerLargest := by
  obtain ⟨hk, rfl⟩ := hs
  cases op with
  | evict i =>
      refine ⟨fun j hj => ?_, fun j => ?_, h.zeroes, h.wins⟩
      · by_cases hji : j = i
        · subst hji
          simp only [exec, Function.update_self]
          have := h.counted j hj
          omega
        · simp only [exec, Function.update_of_ne hji]
          exact h.counted j hj
      · by_cases hji : j = i
        · subst hji
          simp only [exec, Function.update_self]
          exact hk
        · simp only [exec, Function.update_of_ne hji]
          exact h.current_lt j
  | statsReset =>
      refine ⟨fun j hj => ?_, h.current_lt, h.zeroes, h.wins⟩
      have := h.counted j hj
      rw [hk j hj] at this
      exact this
  | pages slabs => exact ⟨h.counted, h.current_lt, h.zeroes, h.wins⟩
  | clock time => exact ⟨h.counted, h.current_lt, h.zeroes, h.wins⟩
  | decision =>
      by_cases hrun : s.currentTime ≥ s.statics.nextRun
      · exact h.decision hrun
      · simp only [exec, Automove.slabAutomoveDecision, if_neg hrun]
        exact ⟨h.counted, h.current_lt, h.zeroes, h.wins⟩

/-- The static variables at the start say nothing. -/
theorem tracks_init : ({} : EvictionHistory).Tracks powerLargest :=
  ⟨fun _ _ => rfl, fun _ => by norm_num, fun _ _ => ⟨Nat.zero_le _, by simp⟩,
    fun h => absurd rfl h⟩

/-- **Every run** whose steps keep the counters. -/
theorem tracks_of_run {ops : List EvictionOp} {s : EvictionHistory}
    (hr : Run (KeptStep powerLargest) {} ops s) : s.Tracks powerLargest :=
  hr.invariant tracks_init fun h hs => h.step hs

/-- What a decision says about the static variables it leaves. -/
theorem decision_eq_some {s : EvictionHistory} {src dst : ℕ}
    (hd : s.decision powerLargest = some (src, dst)) :
    s.currentTime ≥ s.statics.nextRun ∧
      let t := s.exec powerLargest .decision
      src ∈ scannedClasses powerLargest ∧ 3 ≤ t.statics.slabZeroes src ∧
        t.statics.slabWinner = dst ∧ dst ≠ 0 ∧ 3 ≤ t.statics.slabWins := by
  have hf := s.statics.scan_found powerLargest s.evicted s.slabs
  unfold decision at hd
  simp only [exec]
  unfold Automove.slabAutomoveDecision at hd ⊢
  by_cases hrun : s.currentTime ≥ s.statics.nextRun
  · simp only [if_pos hrun] at hd ⊢
    refine ⟨hrun, ?_⟩
    generalize s.statics.scan powerLargest s.evicted s.slabs = v at hf hd ⊢
    by_cases hagain : s.statics.slabWinner ≠ 0 ∧ s.statics.slabWinner = v.highestSlab
    · simp only [decide_eq_true hagain, true_and, if_true] at hd ⊢
      by_cases hwins : 3 ≤ (s.statics.slabWins + 1) % 2 ^ 32
      · simp only [if_pos hwins] at hd
        by_cases hsome : v.source ≠ 0 ∧ s.statics.slabWinner ≠ 0
        · rw [if_pos hsome, Option.some.injEq, Prod.mk.injEq] at hd
          obtain ⟨rfl, rfl⟩ := hd
          obtain ⟨hmem, hthree⟩ := hf.source.resolve_left hsome.1
          exact ⟨hmem, hthree, hagain.2.symm, hsome.2, hwins⟩
        · rw [if_neg hsome] at hd
          exact absurd hd (by simp)
      · simp only [if_neg hwins, ne_eq, not_true_eq_false, and_false, if_false] at hd
        exact absurd hd (by simp)
    · simp [hagain] at hd
  · simp [hrun] at hd

/-- **The automove decision** is justified in every history that resets the counters only while they
are zero: by the classes that it scans, and by all of them if the largest class, which it does not
scan, evicts no more than some other. -/
theorem decision_justified {ops : List EvictionOp} {s : EvictionHistory} {src dst : ℕ}
    (hr : Run (KeptStep powerLargest) {} ops s)
    (hd : s.decision powerLargest = some (src, dst)) :
    Justified powerLargest {j | 1 ≤ j ∧ j < powerLargest} src dst
        (s.exec powerLargest .decision).windows ∧
      ((∀ w ∈ (s.exec powerLargest .decision).windows.take 3,
          ∃ j, 1 ≤ j ∧ j < powerLargest ∧ w.evictions powerLargest ≤ w.evictions j) →
        Justified powerLargest {j | 1 ≤ j ∧ j ≤ powerLargest} src dst
          (s.exec powerLargest .decision).windows) := by
  obtain ⟨hrun, hsrc, hthree, rfl, hne, hwins⟩ := decision_eq_some hd
  have ht := (tracks_of_run hr).decision hrun
  generalize s.exec powerLargest .decision = t at ht hsrc hthree hne hwins ⊢
  obtain ⟨hlen, hquiet⟩ := ht.zeroes src hsrc
  obtain ⟨hdst, -, hmost⟩ := ht.wins hne
  have hquiet' : ∀ w ∈ t.windows.take 3, 2 < w.pages src ∧ w.evictions src = 0 := fun w hw =>
    hquiet w (List.take_subset_take_left _ hthree hw)
  have hmost' := fun w hw => hmost w (List.take_subset_take_left t.windows hwins hw)
  have hlen' : 3 ≤ t.windows.length := hthree.trans hlen
  have hscanned : Justified powerLargest {j | 1 ≤ j ∧ j < powerLargest} src
      t.statics.slabWinner t.windows := by
    refine ⟨?_, mem_scannedClasses.mp hsrc, mem_scannedClasses.mp hdst, hlen',
      fun w hw => (hquiet' w hw).1, fun w hw => (hquiet' w hw).2, fun w hw => (hmost' w hw).1,
      fun w hw j hj => (hmost' w hw).2 j (mem_scannedClasses.mpr hj)⟩
    -- the last window has evictions of the destination and none of the source
    rintro rfl
    obtain ⟨w, hw⟩ : ∃ w, w ∈ t.windows.take 3 :=
      List.exists_mem_of_length_pos (by rw [List.length_take]; omega)
    have h₀ := (hquiet' w hw).2
    have h₁ := (hmost' w hw).1
    omega
  refine ⟨hscanned, fun hlargest => { hscanned with dst_most := fun w hw j hj => ?_ }⟩
  obtain hlt | rfl := lt_or_eq_of_le hj.2
  · exact hscanned.dst_most w hw j ⟨hj.1, hlt⟩
  · obtain ⟨k, hk₁, hk₂, hle⟩ := hlargest w hw
    exact hle.trans (hscanned.dst_most w hw k ⟨hk₁, hk₂⟩)

/-! ## Runs of fixed steps -/

/-- Two windows in which class 1 evicts items, class 3 fewer of them and class 2 none, and the start of
a third. -/
def threeWindows (third : List EvictionOp) : List EvictionOp :=
  [.pages fun _ => 3, .evict 1, .evict 3, .evict 1, .decision, .clock 10, .evict 3, .evict 1,
    .decision] ++ third ++ [.clock 20]

/-- A third window like the others has a page moved from class 2 to class 1, which is justified over all
classes: the largest one, 3, never had more evictions than class 1. -/
theorem decision_justified_moves :
    Justified 3 {j | 1 ≤ j ∧ j < 3} 2 1
        ((Transition.execs (exec 3) {} (threeWindows [.evict 1])).exec 3 .decision).windows ∧
      Justified 3 {j | 1 ≤ j ∧ j ≤ 3} 2 1
        ((Transition.execs (exec 3) {} (threeWindows [.evict 1])).exec 3 .decision).windows := by
  have hr : Run (KeptStep 3) {} (threeWindows [.evict 1])
      (Transition.execs (exec 3) {} (threeWindows [.evict 1])) :=
    .cons ⟨trivial, rfl⟩ (.cons ⟨by decide, rfl⟩ (.cons ⟨by decide, rfl⟩ (.cons ⟨by decide, rfl⟩
      (.cons ⟨trivial, rfl⟩ (.cons ⟨trivial, rfl⟩ (.cons ⟨by decide, rfl⟩ (.cons ⟨by decide, rfl⟩
        (.cons ⟨trivial, rfl⟩ (.cons ⟨by decide, rfl⟩ (.cons ⟨trivial, rfl⟩ .nil))))))))))
  obtain ⟨hscanned, hall⟩ := decision_justified hr (show _ = some (2, 1) by decide)
  refine ⟨hscanned, hall fun w hw => ⟨1, by decide, by decide, ?_⟩⟩
  revert w
  decide

/-- After `stats reset` in the third window, which evicts nothing, class 1 gets the page. -/
theorem decision_after_reset : ¬ ∀ (powerLargest : ℕ) (ops : List EvictionOp) (s : EvictionHistory)
    (src dst : ℕ), Run (fun s op s' => s.exec powerLargest op = s') {} ops s →
      s.decision powerLargest = some (src, dst) →
        Justified powerLargest {j | 1 ≤ j ∧ j ≤ powerLargest} src dst
          (s.exec powerLargest .decision).windows := by
  intro h
  have hr : Run (fun s op s' => s.exec 3 op = s') {} (threeWindows [.statsReset])
      (Transition.execs (exec 3) {} (threeWindows [.statsReset])) :=
    Transition.run_execs (P := fun _ _ => true) (fun _ _ _ => rfl) rfl
  have hj := h 3 _ _ 2 1 hr (by decide)
  exact absurd (hj.dst_evicts _ (List.mem_cons_self ..)) (by decide)

end EvictionHistory

end Memcached
