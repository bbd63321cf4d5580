import Memcached.System
import Mathlib.Data.Nat.ModEq

/-! # Requests to move a page

`slabs reassign` and the automover ask `do_slabs_reassign` to move a page between two slab classes; where
no source is named, `slabs_reassign_pick_any` goes once round the classes from where it last stopped.

* **`pickAny_spec`** — the class that `slabs_reassign_pick_any` picks.
* **`CanMove`** — a class that can give a page to the destination.
* **`doSlabsReassign_posts_iff`** — when a move is posted, and which. -/

namespace Memcached

namespace Store

variable {cfg : Settings} {s : Store} {src dst : ℤ} {c : ℕ}

/-- A class that can give a page to another. -/
def Spares (s : Store) (c : ℕ) : Prop := 1 < (s.slabclass c).slabs

/-- The class after `c`, round the classes. -/
def classAfter (cfg : Settings) (c : ℕ) : ℕ := if c + 1 > cfg.powerLargest then 1 else c + 1

/-- The class `j` steps after `c`. -/
def classesOn (cfg : Settings) (c : ℕ) : ℕ → ℕ
  | 0 => c
  | j + 1 => classesOn cfg (classAfter cfg c) j

/-- **The pick**: the first of the next `tries` classes that is not the destination and can spare a
page. -/
theorem pickAny_spec (cfg : Settings) (dst : ℤ) (tries : ℕ) (s : Store) :
    ((slabsReassignPickAny cfg dst tries s).2 = -1 ∧
        ∀ j, 0 < j → j ≤ tries →
          (classesOn cfg s.pickAnyCur j : ℤ) = dst ∨ ¬ s.Spares (classesOn cfg s.pickAnyCur j)) ∨
      ∃ j, 0 < j ∧ j ≤ tries ∧ (classesOn cfg s.pickAnyCur j : ℤ) ≠ dst ∧
        s.Spares (classesOn cfg s.pickAnyCur j) ∧
        (slabsReassignPickAny cfg dst tries s).2 = classesOn cfg s.pickAnyCur j := by
  induction tries generalizing s with
  | zero => exact .inl ⟨rfl, fun j h0 hle => by omega⟩
  | succ tries ih =>
      set cur := classAfter cfg s.pickAnyCur with hcur
      have hpick : slabsReassignPickAny cfg dst (tries + 1) s
          = if (cur : ℤ) = dst then slabsReassignPickAny cfg dst tries { s with pickAnyCur := cur }
            else if (s.slabclass cur).slabs > 1 then ({ s with pickAnyCur := cur }, (cur : ℤ))
            else slabsReassignPickAny cfg dst tries { s with pickAnyCur := cur } := rfl
      have hnext : ∀ j, classesOn cfg s.pickAnyCur (j + 1) = classesOn cfg cur j := fun _ => rfl
      have hrest := ih { s with pickAnyCur := cur }
      -- the class looked at first, and the others by the induction hypothesis
      have hskip : ((cur : ℤ) = dst ∨ ¬ s.Spares cur) →
          slabsReassignPickAny cfg dst (tries + 1) s
            = slabsReassignPickAny cfg dst tries { s with pickAnyCur := cur } := by
        rintro (hdst | hspare)
        · rw [hpick, if_pos hdst]
        · rw [hpick]
          split_ifs
          · rfl
          · exact absurd ‹_› hspare
          · rfl
      by_cases hstay : (cur : ℤ) = dst ∨ ¬ s.Spares cur
      · rw [hskip hstay]
        rcases hrest with ⟨hnone, hall⟩ | ⟨j, h0, hle, hne, hspare, heq⟩
        · refine .inl ⟨hnone, fun j h0 hle => ?_⟩
          obtain ⟨j, rfl⟩ : ∃ k, j = k + 1 := ⟨j - 1, by omega⟩
          rw [hnext]
          cases j with
          | zero => exact hstay
          | succ j => exact hall (j + 1) (Nat.succ_pos j) (by omega)
        · exact .inr ⟨j + 1, Nat.succ_pos j, by omega, by rwa [hnext], by rwa [hnext], by rwa [hnext]⟩
      · obtain ⟨hne, hspare⟩ := not_or.mp hstay
        have hspare : (s.slabclass cur).slabs > 1 := not_not.mp hspare
        refine .inr ⟨1, Nat.one_pos, by omega, hne, hspare, ?_⟩
        rw [hpick, if_neg hne, if_pos hspare]
        rfl

/-- The classes met are real ones. -/
theorem classesOn_range (hL : 0 < cfg.powerLargest) {j : ℕ} (hj : 0 < j) (hc : c ≤ cfg.powerLargest) :
    1 ≤ classesOn cfg c j ∧ classesOn cfg c j ≤ cfg.powerLargest := by
  have hafter : 1 ≤ classAfter cfg c ∧ classAfter cfg c ≤ cfg.powerLargest := by
    unfold classAfter
    split_ifs <;> omega
  obtain ⟨j, rfl⟩ : ∃ k, j = k + 1 := ⟨j - 1, by omega⟩
  clear hj
  induction j generalizing c with
  | zero => exact hafter
  | succ j ih =>
      have hafter' : 1 ≤ classAfter cfg (classAfter cfg c) ∧
          classAfter cfg (classAfter cfg c) ≤ cfg.powerLargest := by
        unfold classAfter
        split_ifs <;> omega
      exact ih hafter.2 hafter'

/-- Where the walk is after `j` steps. -/
theorem classesOn_eq (hL : 0 < cfg.powerLargest) (hc : c ≤ cfg.powerLargest) (j : ℕ) :
    classesOn cfg c (j + 1) = (c + j) % cfg.powerLargest + 1 := by
  induction j generalizing c with
  | zero =>
      change classAfter cfg c = c % cfg.powerLargest + 1
      unfold classAfter
      split_ifs with h
      · obtain rfl : c = cfg.powerLargest := by omega
        simp
      · rw [Nat.mod_eq_of_lt (by omega)]
  | succ j ih =>
      change classesOn cfg (classAfter cfg c) (j + 1) = _
      have hafter : classAfter cfg c ≤ cfg.powerLargest := by
        unfold classAfter
        split_ifs <;> omega
      rw [ih hafter]
      unfold classAfter
      split_ifs with h
      · obtain rfl : c = cfg.powerLargest := by omega
        rw [Nat.add_mod_left, Nat.add_comm 1 j]
      · rw [Nat.add_right_comm, Nat.add_assoc]

/-- **The walk meets every class.** -/
theorem exists_classesOn {d : ℕ} (hc : c ≤ cfg.powerLargest) (h1 : 1 ≤ d) (hd : d ≤ cfg.powerLargest) :
    ∃ j, 0 < j ∧ j ≤ cfg.powerLargest ∧ classesOn cfg c j = d := by
  have hL : 0 < cfg.powerLargest := by omega
  by_cases hle : c < d
  · refine ⟨d - c, by omega, by omega, ?_⟩
    obtain ⟨j, hj⟩ : ∃ j, d - c = j + 1 := ⟨d - c - 1, by omega⟩
    rw [hj, classesOn_eq hL hc, Nat.mod_eq_of_lt (by omega)]
    omega
  · refine ⟨d + cfg.powerLargest - c, by omega, by omega, ?_⟩
    obtain ⟨j, hj⟩ : ∃ j, d + cfg.powerLargest - c = j + 1 := ⟨d + cfg.powerLargest - c - 1, by omega⟩
    rw [hj, classesOn_eq hL hc, show c + j = cfg.powerLargest + (d - 1) by omega, Nat.add_mod_left,
      Nat.mod_eq_of_lt (by omega)]
    omega

/-- The pick moves on where the next one begins, and nothing else. -/
theorem pickAny_fst (hL : 0 < cfg.powerLargest) (dst : ℤ) (tries : ℕ) (s : Store)
    (hc : s.pickAnyCur ≤ cfg.powerLargest) :
    ∃ x ≤ cfg.powerLargest, (slabsReassignPickAny cfg dst tries s).1 = { s with pickAnyCur := x } := by
  induction tries generalizing s with
  | zero => exact ⟨s.pickAnyCur, hc, rfl⟩
  | succ tries ih =>
      have hafter : classAfter cfg s.pickAnyCur ≤ cfg.powerLargest := by
        unfold classAfter
        split_ifs <;> omega
      obtain ⟨x, hx, heq⟩ := ih { s with pickAnyCur := classAfter cfg s.pickAnyCur } hafter
      have hpick : slabsReassignPickAny cfg dst (tries + 1) s
          = if (classAfter cfg s.pickAnyCur : ℤ) = dst then
              slabsReassignPickAny cfg dst tries { s with pickAnyCur := classAfter cfg s.pickAnyCur }
            else if (s.slabclass (classAfter cfg s.pickAnyCur)).slabs > 1 then
              ({ s with pickAnyCur := classAfter cfg s.pickAnyCur }, (classAfter cfg s.pickAnyCur : ℤ))
            else slabsReassignPickAny cfg dst tries { s with pickAnyCur := classAfter cfg s.pickAnyCur } :=
        rfl
      rw [hpick]
      split_ifs
      · exact ⟨x, hx, heq⟩
      · exact ⟨_, hafter, rfl⟩
      · exact ⟨x, hx, heq⟩

/-- A request that `do_slabs_reassign` may post: to move a page of class `c` to `dst`. -/
structure CanMove (cfg : Settings) (s : Store) (src dst : ℤ) (c : ℕ) : Prop where
  source : 1 ≤ c ∧ c ≤ cfg.powerLargest
  dest : 1 ≤ dst ∧ dst ≤ cfg.powerLargest
  ne : (c : ℤ) ≠ dst
  spares : s.Spares c
  asked : src = -1 ∨ src = c

/-- Once the source is known, the checks of `do_slabs_reassign` are those of `CanMove`. -/
theorem doSlabsReassign_cases (hsig : s.slabRebalanceSignal = 0)
    (hc : s.pickAnyCur ≤ cfg.powerLargest) :
    (∃ c x, CanMove cfg s src dst c ∧ x ≤ cfg.powerLargest ∧ s.doSlabsReassign cfg src dst
        = { s with
          pickAnyCur := x
          slabRebal := { s.slabRebal with sClsid := c, dClsid := dst }
          slabRebalanceSignal := 1 }) ∨
      ((∀ c, ¬ CanMove cfg s src dst c) ∧
        ∃ x ≤ cfg.powerLargest, s.doSlabsReassign cfg src dst = { s with pickAnyCur := x }) := by
  by_cases hsame : src = dst
  · refine .inr ⟨fun c h => ?_, s.pickAnyCur, hc, ?_⟩
    · rcases h.asked with hany | hc'
      · have := h.dest
        omega
      · exact h.ne (hc'.symm.trans hsame)
    · rw [doSlabsReassign, if_pos (.inr hsame)]
  have hgo : ¬ (s.slabRebalanceSignal ≠ 0 ∨ src = dst) := by simp [hsig, hsame]
  by_cases hany : src = -1
  · obtain ⟨x, hx, hfst⟩ : ∃ x ≤ cfg.powerLargest,
        (slabsReassignPickAny cfg dst cfg.powerLargest s).1 = { s with pickAnyCur := x } := by
      rcases Nat.eq_zero_or_pos cfg.powerLargest with hL | hL
      · refine ⟨s.pickAnyCur, hc, ?_⟩
        rw [hL]
        rfl
      · exact pickAny_fst hL dst _ s hc
    rw [doSlabsReassign, if_neg hgo]
    simp only [hany, if_true, hfst]
    rcases pickAny_spec cfg dst cfg.powerLargest s with ⟨hnone, hall⟩ | ⟨j, h0, hle, hne, hspare, heq⟩
    · refine .inr ⟨fun c h => ?_, x, hx, ?_⟩
      · obtain ⟨j, h0, hle, rfl⟩ := exists_classesOn hc h.source.1 h.source.2
        rcases hall j h0 hle with hdst | hspare
        · exact h.ne hdst
        · exact hspare h.spares
      · rw [hnone, if_pos (.inl (by decide))]
    · obtain ⟨h1, hd⟩ : 1 ≤ classesOn cfg s.pickAnyCur j ∧ classesOn cfg s.pickAnyCur j ≤ cfg.powerLargest :=
        classesOn_range (by omega) h0 hc
      rw [heq]
      by_cases hdst : 1 ≤ dst ∧ dst ≤ cfg.powerLargest
      · refine .inl ⟨_, x, ⟨⟨h1, hd⟩, hdst, hne, hspare, .inl rfl⟩, hx, ?_⟩
        rw [if_neg (by omega), if_neg (by simpa using (show 1 < (s.slabclass _).slabs from hspare))]
      · refine .inr ⟨fun c h => hdst h.dest, x, hx, ?_⟩
        rw [if_pos (by omega)]
  · rw [doSlabsReassign, if_neg hgo]
    simp only [hany, if_false]
    by_cases hrange : src < 1 ∨ src > cfg.powerLargest ∨ dst < 1 ∨ dst > cfg.powerLargest
    · refine .inr ⟨fun c h => ?_, s.pickAnyCur, hc, ?_⟩
      · have := h.source
        have := h.dest
        have := h.asked
        omega
      · rw [if_pos hrange]
    · rw [if_neg hrange]
      obtain ⟨c, hcs⟩ : ∃ c : ℕ, src = c := ⟨src.toNat, by omega⟩
      by_cases hspare : (s.slabclass src.toNat).slabs < 2
      · refine .inr ⟨fun d h => ?_, s.pickAnyCur, hc, ?_⟩
        · have hd : src.toNat = d := by
            have := h.asked
            omega
          have := h.spares
          rw [Spares, ← hd] at this
          omega
        · rw [if_pos hspare]
      · rw [if_neg hspare]
        have hnat : src.toNat = c := by omega
        rw [hnat] at hspare
        refine .inl ⟨c, s.pickAnyCur, ⟨by omega, by omega, fun e => hsame (hcs.trans e),
          Nat.not_lt.mp hspare, .inr hcs⟩, hc, ?_⟩
        rw [hcs]

end Store

open Store (Spares CanMove)

section

variable {cfg : Settings} {s : Store} {src dst : ℤ}

/-- **A request is posted if and only if a page can be moved**: both classes are real and differ, and the
source, the one named or any other where none is named, has a page to spare. -/
theorem doSlabsReassign_posts_iff (hsig : s.slabRebalanceSignal = 0)
    (hc : s.pickAnyCur ≤ cfg.powerLargest) :
    ((s.doSlabsReassign cfg src dst).slabRebalanceSignal = 1 ↔ ∃ c, CanMove cfg s src dst c) ∧
      ((s.doSlabsReassign cfg src dst).slabRebalanceSignal = 1 →
        ∃ c : ℕ, CanMove cfg s src dst c ∧ (s.doSlabsReassign cfg src dst).slabRebal.sClsid = c ∧
          (s.doSlabsReassign cfg src dst).slabRebal.dClsid = dst) ∧
      (s.doSlabsReassign cfg src dst).pickAnyCur ≤ cfg.powerLargest := by
  rcases @Store.doSlabsReassign_cases cfg s src dst hsig hc with
    ⟨c, x, hmove, hx, heq⟩ | ⟨hnone, x, hx, heq⟩
  · rw [heq]
    exact ⟨⟨fun _ => ⟨c, hmove⟩, fun _ => rfl⟩, fun _ => ⟨c, hmove, rfl, rfl⟩, hx⟩
  · rw [heq]
    refine ⟨⟨fun h => ?_, fun ⟨c, h⟩ => absurd h (hnone c)⟩, fun h => ?_, hx⟩
    · simp [hsig] at h
    · simp [hsig] at h

/-- Class 1 has two pages, and no source is named. -/
theorem doSlabsReassign_posts_any :
    (({ Store.init with slabclass := fun c => if c = 1 then { slabList := [0, 1024] } else {} } :
      Store).doSlabsReassign .small (-1) 2).slabRebalanceSignal = 1 :=
  (doSlabsReassign_posts_iff rfl (by decide)).1.mpr
    ⟨1, by decide, by decide, by decide, (show 1 < 2 by decide), .inl rfl⟩

end

end Memcached
