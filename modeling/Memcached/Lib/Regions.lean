import Mathlib.Data.Finset.Card
import Mathlib.Order.Interval.Finset.Nat

/-! # Regions of memory

Regions of an address space, disjoint collections of them, and collections kept as several lists
between which regions are moved.

* **`Separate`** — regions without a common byte.
* **`Separate.total_le`** — together they are no larger than the space. -/

namespace Regions

/-- The `len` addresses from `start` on. -/
structure Region where
  start : ℕ
  len : ℕ
  deriving DecidableEq, Repr

/-- The addresses of a region. -/
def Region.bytes (r : Region) : Finset ℕ := Finset.Ico r.start (r.start + r.len)

/-- A region has as many bytes as its length. -/
theorem Region.card_bytes (r : Region) : r.bytes.card = r.len := by
  rw [bytes, Nat.card_Ico, Nat.add_sub_cancel_left]

/-- A region inside an interval. -/
theorem Region.bytes_subset {r : Region} {a b : ℕ} (ha : a ≤ r.start) (hb : r.start + r.len ≤ b) :
    r.bytes ⊆ Finset.Ico a b := Finset.Ico_subset_Ico ha hb

/-- An empty region is inside everything. -/
theorem Region.bytes_eq_empty {r : Region} (h : r.len = 0) : r.bytes = ∅ := by
  rw [bytes, h, Nat.add_zero, Finset.Ico_self]

/-- No two regions of the list have an address in common. -/
def Separate (l : List Region) : Prop := l.Pairwise fun r q => Disjoint r.bytes q.bytes

instance (l : List Region) : Decidable (Separate l) :=
  inferInstanceAs (Decidable (l.Pairwise _))

/-- The number of addresses in the regions of the list. -/
def total : List Region → ℕ
  | [] => 0
  | r :: l => r.len + total l

section

variable {l l' : List Region} {r : Region}

/-- The order does not matter. -/
theorem total_perm (h : l.Perm l') : total l = total l' := by
  induction h with
  | nil => rfl
  | cons r _ ih => rw [total, total, ih]
  | swap r q l => simp only [total, Nat.add_left_comm]
  | trans _ _ ih₁ ih₂ => exact ih₁.trans ih₂

/-- The order of the regions does not matter. -/
theorem Separate.perm (h : Separate l) (hp : l.Perm l') : Separate l' :=
  (hp.pairwise_iff fun hd => hd.symm).mp h

/-- A region is apart from the others, and they from each other. -/
theorem separate_cons : Separate (r :: l) ↔ (∀ q ∈ l, Disjoint r.bytes q.bytes) ∧ Separate l :=
  List.pairwise_cons

/-- **Disjoint regions fit side by side**: together they are no larger than a set they lie in. -/
theorem Separate.total_le {space : Finset ℕ} (h : Separate l) (hin : ∀ r ∈ l, r.bytes ⊆ space) :
    total l ≤ space.card := by
  induction l generalizing space with
  | nil => exact Nat.zero_le _
  | cons r l ih =>
      obtain ⟨hr, hl⟩ := separate_cons.mp h
      have hsub : r.bytes ⊆ space := hin r List.mem_cons_self
      -- the other regions lie in what the first one leaves
      have hrest : total l ≤ (space \ r.bytes).card := by
        apply ih hl
        intro q hq
        apply Finset.subset_sdiff.mpr
        exact ⟨hin q (List.mem_cons_of_mem _ hq), (hr q hq).symm⟩
      rw [Finset.card_sdiff_of_subset hsub, Region.card_bytes] at hrest
      have hle := Finset.card_le_card hsub
      rw [Region.card_bytes] at hle
      rw [total]
      omega

end

/-! ## Collections kept as several lists -/

section

variable {ι α : Type*} [DecidableEq ι] {f g : ι → List α} {is : List ι} {i : ι}

/-- What one list holds, and then the others. -/
theorem flatMap_perm (hi : i ∈ is) : (is.flatMap f).Perm (f i ++ (is.erase i).flatMap f) := by
  have hp := (List.perm_cons_erase hi).flatMap_right f
  rwa [List.flatMap_cons] at hp

/-- Two families that differ in one list. -/
theorem flatMap_perm_of_ne (hnd : is.Nodup) (hi : i ∈ is) (h : ∀ j, j ≠ i → g j = f j) :
    (is.flatMap g).Perm (g i ++ (is.erase i).flatMap f) := by
  have hrest : (is.erase i).flatMap g = (is.erase i).flatMap f := by
    apply List.flatMap_congr
    intro j hj
    apply h
    exact ((hnd.mem_erase_iff).mp hj).1
  rw [← hrest]
  exact flatMap_perm hi

/-- An element more in one of the lists. -/
theorem flatMap_perm_cons {x : α} (hnd : is.Nodup) (hi : i ∈ is) (h : ∀ j, j ≠ i → g j = f j)
    (hx : (g i).Perm (x :: f i)) : (is.flatMap g).Perm (x :: is.flatMap f) := by
  have hg := flatMap_perm_of_ne hnd hi h
  have hf := (flatMap_perm (f := f) hi).cons x
  apply hg.trans
  apply (hx.append_right _).trans
  rw [List.cons_append]
  exact hf.symm

end

end Regions
