import Mathlib.Data.Rat.Floor
import Mathlib.Tactic.Positivity
import Memcached.Slabs

/-! # The table of slab classes

`slabs_init` computes the chunk sizes from the growth factor (`-f`), the space for a small item
(`-n`) and the largest item (`-I`); `slabs_clsid` then searches them. A class id is an index into
`heads`, `tails`, `sizes` and `itemstats` of `items.c`, which have `LARGEST_ID` elements, one fewer
than there are classes.

* **`slabsInit`**, **`SlabTable.slabsClsid`** — the table, and the search.
* **`slabsClsid_isLeast`** — the search finds the first class that fits.
* **`slabTable_correct_iff`** — for which factors the table serves all sizes. -/

namespace Memcached

/-- `POWER_LARGEST`. -/
def powerLargestMax : ℕ := 200

/-- `CHUNK_ALIGN_BYTES`. -/
def chunkAlignBytes : ℕ := 8

/-- The part of `slabclass` that `slabs_init` fills in, and `power_largest`. -/
structure SlabTable where
  /-- `slabclass[id].size`. -/
  size : ℕ → ℕ
  /-- `slabclass[id].perslab`. -/
  perslab : ℕ → ℕ
  /-- `power_largest`. -/
  powerLargest : ℕ

namespace SlabTable

/-- The table after the `memset`. -/
def empty : SlabTable where
  size := fun _ => 0
  perslab := fun _ => 0
  powerLargest := 0

/-- Fill in class `i`. -/
def setClass (t : SlabTable) (i size perslab : ℕ) : SlabTable :=
  { t with
    size := Function.update t.size i size
    perslab := Function.update t.perslab i perslab }

/-- The size of a class that is set. -/
@[simp] theorem setClass_size_self (t : SlabTable) (i size perslab : ℕ) :
    (t.setClass i size perslab).size i = size := Function.update_self _ _ _

/-- The chunks of a page of a class that is set. -/
@[simp] theorem setClass_perslab_self (t : SlabTable) (i size perslab : ℕ) :
    (t.setClass i size perslab).perslab i = perslab := Function.update_self _ _ _

/-- The other classes stay. -/
theorem setClass_of_ne (t : SlabTable) {i id : ℕ} (size perslab : ℕ) (h : id ≠ i) :
    (t.setClass i size perslab).size id = t.size id ∧
      (t.setClass i size perslab).perslab id = t.perslab id :=
  ⟨Function.update_of_ne h _ _, Function.update_of_ne h _ _⟩

/-- The loop of `slabs_clsid` from class `res` on; `fuel` is the number of classes left. -/
def clsidFrom (t : SlabTable) (size : ℕ) : ℕ → ℕ → ℕ
  | 0, _ => 0
  | fuel + 1, res =>
      if size > t.size res then
        if res = t.powerLargest then 0 else clsidFrom t size fuel (res + 1)
      else res

/-- `slabs_clsid` on the table. -/
def slabsClsid (t : SlabTable) (size : ℕ) : ℕ :=
  if size = 0 then 0 else t.clsidFrom size t.powerLargest 1

end SlabTable

/-! ## `slabs_init` -/

/-- Round a size up to a multiple of `CHUNK_ALIGN_BYTES`. -/
def alignChunk (size : ℕ) : ℕ :=
  if size % chunkAlignBytes ≠ 0 then size + (chunkAlignBytes - size % chunkAlignBytes) else size

/-- `size *= factor`, on the size rounded up before it. -/
def nextSize (factor : ℚ) (size : ℕ) : ℕ := ⌊(alignChunk size : ℚ) * factor⌋₊

/-- The loop of `slabs_init` at `i`, then the class of the largest items; `fuel` is
`POWER_LARGEST - i`. -/
def slabsInitLoop (factor : ℚ) (itemSizeMax : ℕ) : ℕ → ℕ → ℕ → SlabTable → SlabTable
  | 0, i, _, t => { t.setClass i itemSizeMax 1 with powerLargest := i }
  | fuel + 1, i, size, t =>
      if (size : ℚ) ≤ itemSizeMax / factor then
        slabsInitLoop factor itemSizeMax fuel (i + 1) (nextSize factor size)
          (t.setClass i (alignChunk size) (itemSizeMax / alignChunk size))
      else { t.setClass i itemSizeMax 1 with powerLargest := i }

/-- `slabs_init`: the table of classes. -/
def slabsInit (factor : ℚ) (chunkSize itemSizeMax : ℕ) : SlabTable :=
  slabsInitLoop factor itemSizeMax (powerLargestMax - 1) 1 (sizeofItem + chunkSize) .empty

/-- The unaligned size the loop reaches in iteration `k + 1`. -/
def grownSize (factor : ℚ) (chunkSize k : ℕ) : ℕ :=
  (nextSize factor)^[k] (sizeofItem + chunkSize)

/-- Alignment makes nothing smaller. -/
theorem le_alignChunk (size : ℕ) : size ≤ alignChunk size := by
  unfold alignChunk
  split <;> omega

/-- An aligned size is within a bound when the size is within the last aligned number below it. -/
theorem alignChunk_le_iff {size bound : ℕ} :
    alignChunk size ≤ bound ↔ size ≤ bound / chunkAlignBytes * chunkAlignBytes := by
  unfold alignChunk chunkAlignBytes
  split <;> omega

/-- The next size is no smaller than the aligned one. -/
theorem alignChunk_le_nextSize {factor : ℚ} (hf : 1 < factor) (size : ℕ) :
    alignChunk size ≤ nextSize factor size := by
  apply Nat.le_floor
  have hpos : (0 : ℚ) ≤ alignChunk size := Nat.cast_nonneg _
  nlinarith

/-- Sizes grow. -/
theorem le_nextSize {factor : ℚ} (hf : 1 < factor) (size : ℕ) : size ≤ nextSize factor size :=
  (le_alignChunk size).trans (alignChunk_le_nextSize hf size)

/-- `size` never leaves the range of `unsigned int`: the loop goes on only from a size that is
within `item_size_max / factor`. -/
theorem nextSize_lt {factor : ℚ} (hf : 1 < factor) {size itemSizeMax : ℕ} (h0 : sizeofItem ≤ size)
    (hmax : itemSizeMax ≤ 128 * 1024 * 1024) (h : (size : ℚ) ≤ itemSizeMax / factor) :
    nextSize factor size < 2 ^ 32 := by
  have hle : (size : ℚ) * factor ≤ itemSizeMax := (le_div_iff₀ (by linarith)).mp h
  have halign : alignChunk size ≤ 2 * size := by
    unfold alignChunk chunkAlignBytes
    unfold sizeofItem at h0
    split <;> omega
  have hcast : (alignChunk size : ℚ) ≤ 2 * size := by exact_mod_cast halign
  have hmaxq : (itemSizeMax : ℚ) ≤ 128 * 1024 * 1024 := by exact_mod_cast hmax
  unfold nextSize
  rw [Nat.floor_lt (by positivity)]
  push_cast
  nlinarith

/-- The loop does not go on from the size of the largest item. -/
theorem bound_lt_of_le {factor : ℚ} (hf : 1 < factor) {size itemSizeMax : ℕ} (h0 : 0 < size)
    (h : itemSizeMax ≤ size) : (itemSizeMax : ℚ) / factor < size := by
  have hsize : (0 : ℚ) < size := Nat.cast_pos.mpr h0
  have hle : (itemSizeMax : ℚ) ≤ size := Nat.cast_le.mpr h
  rw [div_lt_iff₀ (by linarith)]
  nlinarith

section Growth

variable {factor : ℚ} {chunkSize itemSizeMax : ℕ}

/-- One factor more. -/
theorem grownSize_succ (k : ℕ) :
    grownSize factor chunkSize (k + 1) = nextSize factor (grownSize factor chunkSize k) :=
  Function.iterate_succ_apply' _ _ _

/-- Sizes grow with the class. -/
theorem grownSize_mono (hf : 1 < factor) : Monotone (grownSize factor chunkSize) := by
  apply monotone_nat_of_le_succ
  intro k
  rw [grownSize_succ]
  exact le_nextSize hf _

/-- Every size is positive. -/
theorem grownSize_pos (hf : 1 < factor) (k : ℕ) : 0 < grownSize factor chunkSize k := by
  have hmono : grownSize factor chunkSize 0 ≤ grownSize factor chunkSize k :=
    grownSize_mono hf (Nat.zero_le k)
  have hfirst : grownSize factor chunkSize 0 = sizeofItem + chunkSize := rfl
  have hitem : sizeofItem = 48 := rfl
  omega

end Growth

/-! ## What the loop fills in -/

/-- From class `i` on the loop filled in `steps` classes, then the class of the largest items. -/
structure SlabTable.Filled (factor : ℚ) (itemSizeMax fuel i size : ℕ) (t t' : SlabTable)
    (steps : ℕ) : Prop where
  steps_le : steps ≤ fuel
  within : ∀ j < steps, ((nextSize factor)^[j] size : ℚ) ≤ itemSizeMax / factor
  stop : steps = fuel ∨ (itemSizeMax : ℚ) / factor < (nextSize factor)^[steps] size
  powerLargest : t'.powerLargest = i + steps
  lastSize : t'.size (i + steps) = itemSizeMax
  lastPerslab : t'.perslab (i + steps) = 1
  size : ∀ j < steps, t'.size (i + j) = alignChunk ((nextSize factor)^[j] size)
  perslab : ∀ j < steps, t'.perslab (i + j) = itemSizeMax / t'.size (i + j)
  below : ∀ id < i, t'.size id = t.size id ∧ t'.perslab id = t.perslab id

/-- The closing assignments of `slabs_init`. -/
theorem SlabTable.Filled.finish {factor : ℚ} {itemSizeMax fuel i size : ℕ} {t : SlabTable}
    (hstop : 0 = fuel ∨ (itemSizeMax : ℚ) / factor < size) :
    Filled factor itemSizeMax fuel i size t { t.setClass i itemSizeMax 1 with powerLargest := i }
      0 where
  steps_le := Nat.zero_le _
  within := fun j hj => absurd hj (Nat.not_lt_zero j)
  stop := hstop
  powerLargest := rfl
  lastSize := t.setClass_size_self i itemSizeMax 1
  lastPerslab := t.setClass_perslab_self i itemSizeMax 1
  size := fun j hj => absurd hj (Nat.not_lt_zero j)
  perslab := fun j hj => absurd hj (Nat.not_lt_zero j)
  below := fun _ hid => t.setClass_of_ne itemSizeMax 1 (Nat.ne_of_lt hid)

/-- **What the loop of `slabs_init` fills in.** -/
theorem slabsInitLoop_filled (factor : ℚ) (itemSizeMax fuel i size : ℕ) (t : SlabTable) :
    ∃ steps, SlabTable.Filled factor itemSizeMax fuel i size t
      (slabsInitLoop factor itemSizeMax fuel i size t) steps := by
  -- by induction on the classes; the loop leaves the earlier ones as they are
  induction fuel generalizing i size t with
  | zero => exact ⟨0, .finish (Or.inl rfl)⟩
  | succ fuel ih =>
      rw [slabsInitLoop]
      split
      · rename_i hsize
        obtain ⟨steps, h⟩ := ih (i + 1) (nextSize factor size)
          (t.setClass i (alignChunk size) (itemSizeMax / alignChunk size))
        -- class `i` is not touched by the later iterations
        have hi := h.below i (Nat.lt_succ_self i)
        rw [SlabTable.setClass_size_self, SlabTable.setClass_perslab_self] at hi
        have hadd : ∀ j, i + 1 + j = i + (j + 1) := by omega
        refine ⟨steps + 1, ⟨by have := h.steps_le; omega, ?_, ?_, ?_, ?_, ?_, ?_, ?_, ?_⟩⟩
        · intro j hj
          cases j with
          | zero => exact hsize
          | succ j => exact h.within j (by omega)
        · exact h.stop.imp (congrArg (· + 1)) id
        · rw [h.powerLargest, hadd]
        · rw [← hadd steps]
          exact h.lastSize
        · rw [← hadd steps]
          exact h.lastPerslab
        · intro j hj
          cases j with
          | zero => exact hi.1
          | succ j =>
              rw [← hadd j]
              exact h.size j (by omega)
        · intro j hj
          cases j with
          | zero =>
              show _ = itemSizeMax / (slabsInitLoop factor itemSizeMax fuel (i + 1) _ _).size i
              rw [hi.1]
              exact hi.2
          | succ j =>
              rw [← hadd j]
              exact h.perslab j (by omega)
        · intro id hid
          have hb := h.below id (by omega)
          have ht := t.setClass_of_ne (alignChunk size) (itemSizeMax / alignChunk size)
            (Nat.ne_of_lt hid)
          exact ⟨hb.1.trans ht.1, hb.2.trans ht.2⟩
      · rename_i hsize
        exact ⟨0, .finish (Or.inr (not_le.mp hsize))⟩

/-! ## Searching the table -/

namespace SlabTable

/-- The search from `res` on ends at the first class whose chunks are large enough, or at no
class when there is none. -/
theorem clsidFrom_least {t : SlabTable} {n fuel res : ℕ} (hres : 1 ≤ res)
    (hfuel : res + fuel = t.powerLargest + 1) :
    (t.clsidFrom n fuel res = 0 ∧ ∀ j, res ≤ j → j ≤ t.powerLargest → t.size j < n) ∨
      (res ≤ t.clsidFrom n fuel res ∧
        IsLeast {id | res ≤ id ∧ id ≤ t.powerLargest ∧ n ≤ t.size id} (t.clsidFrom n fuel res)) := by
  induction fuel generalizing res with
  | zero => exact Or.inl ⟨rfl, fun j hj hle => by omega⟩
  | succ fuel ih =>
      rw [clsidFrom]
      split
      · rename_i hsize
        split
        · rename_i hlast
          refine Or.inl ⟨rfl, fun j hj hle => ?_⟩
          obtain rfl : j = res := by omega
          exact hsize
        · rename_i hlast
          obtain ⟨h0, hsmall⟩ | ⟨hle, hmem, hleast⟩ := @ih (res + 1) (by omega) (by omega)
          · refine Or.inl ⟨h0, fun j hj hle => ?_⟩
            obtain rfl | hlt := Nat.eq_or_lt_of_le hj
            · exact hsize
            · exact hsmall j hlt hle
          · refine Or.inr ⟨by omega, ⟨by omega, hmem.2⟩, fun j hj => ?_⟩
            obtain rfl | hlt := Nat.eq_or_lt_of_le hj.1
            · exact absurd hj.2.2 (not_le.mpr hsize)
            · exact hleast ⟨hlt, hj.2⟩
      · rename_i hsize
        exact Or.inr ⟨le_rfl, ⟨le_rfl, by omega, not_lt.mp hsize⟩, fun j hj => hj.1⟩

/-- `slabs_clsid` finds the least class whose chunks are large enough, and fails only when there
is none. -/
theorem slabsClsid_least {t : SlabTable} {n : ℕ} (hn : n ≠ 0) :
    (t.slabsClsid n = 0 ∧ ∀ j, 1 ≤ j → j ≤ t.powerLargest → t.size j < n) ∨
      (1 ≤ t.slabsClsid n ∧
        IsLeast {id | 1 ≤ id ∧ id ≤ t.powerLargest ∧ n ≤ t.size id} (t.slabsClsid n)) := by
  rw [slabsClsid, if_neg hn]
  exact clsidFrom_least le_rfl (Nat.add_comm _ _)

/-- No class is for objects of no size. -/
@[simp] theorem slabsClsid_zero (t : SlabTable) : t.slabsClsid 0 = 0 := if_pos rfl

/-- When the last class takes the largest item and no class is larger, exactly the sizes up to it
are found. -/
theorem slabsClsid_eq_zero_iff {t : SlabTable} {itemSizeMax : ℕ} (h1 : 1 ≤ t.powerLargest)
    (hlast : t.size t.powerLargest = itemSizeMax)
    (hle : ∀ id, 1 ≤ id → id ≤ t.powerLargest → t.size id ≤ itemSizeMax) (n : ℕ) :
    t.slabsClsid n = 0 ↔ n = 0 ∨ itemSizeMax < n := by
  by_cases hn : n = 0
  · subst hn
    simp
  · obtain ⟨h0, hsmall⟩ | ⟨hpos, hmem, -⟩ := slabsClsid_least (t := t) hn
    · have hlt : itemSizeMax < n := hlast ▸ hsmall _ h1 le_rfl
      exact ⟨fun _ => Or.inr hlt, fun _ => h0⟩
    · have hfits : n ≤ itemSizeMax := hmem.2.2.trans (hle _ hmem.1 hmem.2.1)
      omega

/-- **The class that is found is the first that fits.** -/
theorem slabsClsid_isLeast {t : SlabTable} {n : ℕ} (h : t.slabsClsid n ≠ 0) :
    IsLeast {id | 1 ≤ id ∧ id ≤ t.powerLargest ∧ n ≤ t.size id} (t.slabsClsid n) := by
  have hn : n ≠ 0 := by
    rintro rfl
    exact h t.slabsClsid_zero
  obtain ⟨h0, -⟩ | ⟨-, hleast⟩ := slabsClsid_least (t := t) hn
  · exact absurd h0 h
  · exact hleast

/-- What the table is for: classes in order that fit the largest item, the least fitting class
found for every size, and ids that index the arrays of `items.c`. -/
structure Correct (t : SlabTable) (itemSizeMax : ℕ) : Prop where
  sorted : ∀ i j, 1 ≤ i → i ≤ j → j ≤ t.powerLargest → t.size i ≤ t.size j
  size_le : ∀ id, 1 ≤ id → id ≤ t.powerLargest → t.size id ≤ itemSizeMax
  one_le_perslab : ∀ id, 1 ≤ id → id ≤ t.powerLargest → 1 ≤ t.perslab id
  perslab_fits : ∀ id, 1 ≤ id → id ≤ t.powerLargest → t.size id * t.perslab id ≤ itemSizeMax
  clsid_eq_zero : ∀ n, t.slabsClsid n = 0 ↔ n = 0 ∨ itemSizeMax < n
  clsid_least : ∀ n, t.slabsClsid n ≠ 0 →
    IsLeast {id | 1 ≤ id ∧ id ≤ t.powerLargest ∧ n ≤ t.size id} (t.slabsClsid n)
  clsid_lt : ∀ n, t.slabsClsid n < largestId

end SlabTable

/-- The table of a running server. -/
def Settings.table (cfg : Settings) : SlabTable where
  size := cfg.slabSize
  perslab := cfg.perslab
  powerLargest := cfg.powerLargest

/-- The allocator searches the table of the server. -/
theorem slabsClsidOf_eq (cfg : Settings) (size : ℕ) :
    slabsClsidOf cfg size = cfg.table.slabsClsid size := by
  have hfrom : ∀ fuel res, clsidFrom cfg size fuel res = cfg.table.clsidFrom size fuel res := by
    intro fuel
    induction fuel with
    | zero => exact fun _ => rfl
    | succ fuel ih =>
        intro res
        rw [clsidFrom, SlabTable.clsidFrom, ih]
        rfl
  unfold slabsClsidOf SlabTable.slabsClsid
  rw [hfrom]
  rfl

/-- The growth of the sizes suits the table: no size the loop accepts is rounded up past
`item_size_max`, and the loop ends on the size, or reaches `item_size_max`, before the last id. -/
def GrowthFits (factor : ℚ) (chunkSize itemSizeMax : ℕ) : Prop :=
  (∀ k, (grownSize factor chunkSize k : ℚ) ≤ itemSizeMax / factor →
    grownSize factor chunkSize k ≤ itemSizeMax / chunkAlignBytes * chunkAlignBytes) ∧
  ((itemSizeMax : ℚ) / factor < grownSize factor chunkSize (largestId - 2) ∨
    itemSizeMax ≤ alignChunk (grownSize factor chunkSize (largestId - 2)))

/-! ## When the table is correct -/

section Table

variable {factor : ℚ} {chunkSize itemSizeMax : ℕ}

/-- `slabs_init` fills in the classes `1 .. steps` from the growing sizes, and class `steps + 1`. -/
theorem slabsInit_filled (factor : ℚ) (chunkSize itemSizeMax : ℕ) :
    ∃ steps, SlabTable.Filled factor itemSizeMax (powerLargestMax - 1) 1 (sizeofItem + chunkSize)
      .empty (slabsInit factor chunkSize itemSizeMax) steps :=
  slabsInitLoop_filled _ _ _ _ _ _

namespace SlabTable.Filled

variable {fuel steps : ℕ} {t t' : SlabTable}

/-- The size of a class below the last one. -/
theorem size_eq (h : Filled factor itemSizeMax fuel 1 (sizeofItem + chunkSize) t t' steps) {j : ℕ}
    (hj : j < steps) : t'.size (j + 1) = alignChunk (grownSize factor chunkSize j) := by
  rw [Nat.add_comm]
  exact h.size j hj

/-- The last class holds an item of the largest size. -/
theorem size_last (h : Filled factor itemSizeMax fuel 1 (sizeofItem + chunkSize) t t' steps) :
    t'.size (steps + 1) = itemSizeMax := by
  rw [Nat.add_comm]
  exact h.lastSize

/-- A class is one the loop filled in, or the last one. -/
theorem cases_id (h : Filled factor itemSizeMax fuel 1 (sizeofItem + chunkSize) t t' steps)
    {id : ℕ} (h1 : 1 ≤ id) (hle : id ≤ t'.powerLargest) :
    (∃ j < steps, id = j + 1) ∨ id = steps + 1 := by
  rw [h.powerLargest] at hle
  obtain ⟨j, rfl⟩ := Nat.exists_eq_add_of_le' h1
  obtain hj | hj := Nat.lt_or_ge j steps
  · exact Or.inl ⟨j, hj, rfl⟩
  · exact Or.inr (by omega)

/-- The filled classes are within the largest item when no accepted size is rounded up past it. -/
theorem size_le (h : Filled factor itemSizeMax fuel 1 (sizeofItem + chunkSize) t t' steps)
    (hfit : ∀ k, (grownSize factor chunkSize k : ℚ) ≤ itemSizeMax / factor →
      grownSize factor chunkSize k ≤ itemSizeMax / chunkAlignBytes * chunkAlignBytes)
    {id : ℕ} (h1 : 1 ≤ id) (hle : id ≤ t'.powerLargest) : t'.size id ≤ itemSizeMax := by
  obtain ⟨j, hj, rfl⟩ | rfl := h.cases_id h1 hle
  · rw [h.size_eq hj]
    exact alignChunk_le_iff.mpr (hfit j (h.within j hj))
  · exact h.size_last.le

/-- The classes of the loop have a size. -/
theorem size_pos (h : Filled factor itemSizeMax fuel 1 (sizeofItem + chunkSize) t t' steps)
    (hf : 1 < factor) {j : ℕ} (hj : j < steps) : 0 < t'.size (j + 1) := by
  rw [h.size_eq hj]
  exact (grownSize_pos hf j).trans_le (le_alignChunk _)

/-- **The sizes are sorted.** -/
theorem sorted (h : Filled factor itemSizeMax fuel 1 (sizeofItem + chunkSize) t t' steps)
    (hf : 1 < factor) (hle : ∀ id, 1 ≤ id → id ≤ t'.powerLargest → t'.size id ≤ itemSizeMax)
    {i j : ℕ} (h1 : 1 ≤ i) (hij : i ≤ j) (hj : j ≤ t'.powerLargest) : t'.size i ≤ t'.size j := by
  induction j, hij using Nat.le_induction with
  | base => exact le_rfl
  | succ j hij ih =>
      apply (ih (by omega)).trans
      obtain ⟨m, hm, hjm⟩ | hlast := h.cases_id (by omega) hj
      · -- both classes come from the loop: the next size starts at the rounded one
        obtain rfl : j = m := by omega
        obtain ⟨j, rfl⟩ := Nat.exists_eq_add_of_le' (h1.trans hij)
        rw [h.size_eq (by omega), h.size_eq hm, grownSize_succ]
        exact (alignChunk_le_nextSize hf _).trans (le_alignChunk _)
      · rw [hlast, h.size_last]
        exact hle j (by omega) (by omega)

end SlabTable.Filled

namespace SlabTable.Filled

variable {steps : ℕ} {t t' : SlabTable}

/-- A table whose growth suits it is correct. -/
theorem correct (hf : 1 < factor)
    (h : Filled factor itemSizeMax (powerLargestMax - 1) 1 (sizeofItem + chunkSize) t t' steps)
    (hfits : GrowthFits factor chunkSize itemSizeMax) : t'.Correct itemSizeMax := by
  obtain ⟨hfit, hend⟩ := hfits
  have hpl : t'.powerLargest = steps + 1 := h.powerLargest.trans (Nat.add_comm _ _)
  have hle : ∀ id, 1 ≤ id → id ≤ t'.powerLargest → t'.size id ≤ itemSizeMax :=
    fun id h1 h2 => h.size_le hfit h1 h2
  have hlast : t'.size t'.powerLargest = itemSizeMax := hpl ▸ h.size_last
  have hzero := slabsClsid_eq_zero_iff (by omega) hlast hle
  have hper : ∀ j < steps, t'.perslab (j + 1) = itemSizeMax / t'.size (j + 1) := by
    intro j hj
    rw [Nat.add_comm j 1]
    exact h.perslab j hj
  have hperlast : t'.perslab (steps + 1) = 1 := by
    rw [Nat.add_comm steps 1]
    exact h.lastPerslab
  refine ⟨fun i j h1 hij hj => h.sorted hf hle h1 hij hj, hle, ?_, ?_, hzero,
    fun n hn => slabsClsid_isLeast hn, ?_⟩
  · intro id h1 h2
    obtain ⟨j, hj, rfl⟩ | rfl := h.cases_id h1 h2
    · rw [hper j hj]
      exact Nat.div_pos (hle _ h1 h2) (h.size_pos hf hj)
    · exact hperlast.ge
  · intro id h1 h2
    obtain ⟨j, hj, rfl⟩ | rfl := h.cases_id h1 h2
    · rw [hper j hj]
      exact Nat.mul_div_le _ _
    · rw [h.size_last, hperlast, Nat.mul_one]
  · -- only the last id of a full table is out of range, and then the class before it fits
    intro n
    by_contra hge
    have hid : largestId ≤ t'.slabsClsid n := not_lt.mp hge
    have hne : t'.slabsClsid n ≠ 0 := by
      intro h0
      rw [h0] at hid
      exact absurd hid (by decide)
    obtain ⟨⟨-, hmem, -⟩, hleast⟩ := slabsClsid_isLeast hne
    have hsteps : steps = 199 := by
      have hfuel : steps ≤ 199 := h.steps_le
      have hlid : largestId = 200 := rfl
      omega
    subst hsteps
    have hin := h.within 198 (by decide)
    have hmax : itemSizeMax ≤ t'.size (198 + 1) := by
      rw [h.size_eq (by decide)]
      exact hend.resolve_left (not_lt.mpr hin)
    have hnle : n ≤ itemSizeMax := by
      by_contra hlt
      exact hne ((hzero n).mpr (Or.inr (not_le.mp hlt)))
    have hbefore : t'.slabsClsid n ≤ 199 :=
      hleast ⟨by decide, by omega, hnle.trans hmax⟩
    exact absurd (hid.trans hbefore) (by decide)

/-- In a correct table the growth suits it. -/
theorem growthFits (hf : 1 < factor)
    (h : Filled factor itemSizeMax (powerLargestMax - 1) 1 (sizeofItem + chunkSize) t t' steps)
    (hc : t'.Correct itemSizeMax) : GrowthFits factor chunkSize itemSizeMax := by
  have hmono : Monotone (grownSize factor chunkSize) := grownSize_mono hf
  have hpl : t'.powerLargest = steps + 1 := h.powerLargest.trans (Nat.add_comm _ _)
  have hfuel : steps ≤ 199 := h.steps_le
  -- the sizes the loop stops at are past the bound, unless the ids have run out
  have hpast : ∀ k, steps ≤ k → steps = 199 ∨
      (itemSizeMax : ℚ) / factor < grownSize factor chunkSize k := fun k hk =>
    h.stop.imp id fun hlt => hlt.trans_le (Nat.cast_le.mpr (hmono hk))
  have hend : (itemSizeMax : ℚ) / factor < grownSize factor chunkSize 198 ∨
      itemSizeMax ≤ alignChunk (grownSize factor chunkSize 198) := by
    obtain hlt | hge := Nat.lt_or_ge 198 steps
    · obtain rfl : steps = 199 := by omega
      right
      have hpos : itemSizeMax ≠ 0 := by
        have hfirst := hc.size_le (0 + 1) le_rfl (by omega)
        have hsize := h.size_pos hf (j := 0) (by decide)
        omega
      have hfound : t'.slabsClsid itemSizeMax ≠ 0 := by
        intro h0
        obtain h0 | hlt := (hc.clsid_eq_zero _).mp h0
        · exact hpos h0
        · exact absurd hlt (lt_irrefl _)
      obtain ⟨⟨h1, -, hfit⟩, -⟩ := hc.clsid_least _ hfound
      have hid : t'.slabsClsid itemSizeMax ≤ 199 := Nat.le_of_lt_succ (hc.clsid_lt itemSizeMax)
      rw [← h.size_eq (by decide : 198 < 199)]
      exact hfit.trans (hc.sorted _ _ h1 hid (by omega))
    · exact (hpast 198 hge).elim (by omega) Or.inl
  refine ⟨fun k hk => ?_, hend⟩
  obtain hlt | hge := Nat.lt_or_ge k steps
  · have hsize := hc.size_le (k + 1) (by omega) (by omega)
    rw [h.size_eq hlt] at hsize
    exact alignChunk_le_iff.mp hsize
  · exfalso
    obtain rfl | hlt := hpast k hge
    · refine absurd hk (not_le.mpr ?_)
      obtain hlt | hmax := hend
      · exact hlt.trans_le (Nat.cast_le.mpr (hmono (by omega)))
      · -- the sizes after a full class are past the bound
        apply bound_lt_of_le hf (grownSize_pos hf k)
        have hnext := alignChunk_le_nextSize hf (grownSize factor chunkSize 198)
        rw [← grownSize_succ] at hnext
        exact hmax.trans (hnext.trans (hmono hge))
    · exact absurd hk (not_le.mpr hlt)

end SlabTable.Filled

/-- The table is correct for the configurations whose growth suits it, and for no others. -/
theorem slabTable_correct_iff (hf : 1 < factor) :
    (slabsInit factor chunkSize itemSizeMax).Correct itemSizeMax ↔
      GrowthFits factor chunkSize itemSizeMax := by
  obtain ⟨steps, h⟩ := slabsInit_filled factor chunkSize itemSizeMax
  constructor
  · intro hc
    exact h.growthFits hf hc
  · intro hfits
    exact h.correct hf hfits

/-- With an aligned `item_size_max` no accepted size is rounded up past it. -/
theorem growthFits_of_dvd (hf : 1 < factor) (hdvd : chunkAlignBytes ∣ itemSizeMax)
    (hend : (itemSizeMax : ℚ) / factor < grownSize factor chunkSize (largestId - 2)) :
    GrowthFits factor chunkSize itemSizeMax := by
  refine ⟨fun k hk => ?_, Or.inl hend⟩
  rw [Nat.div_mul_cancel hdvd]
  by_contra hlt
  exact absurd hk (not_le.mpr (bound_lt_of_le hf (grownSize_pos hf k) (not_le.mp hlt).le))

/-- The default configuration: factor 1.25, 48 bytes, 1 MB. -/
theorem slabTable_correct_default : (slabsInit (5 / 4) 48 1048576).Correct 1048576 := by
  have hf : (1 : ℚ) < 5 / 4 := by norm_num
  exact (slabTable_correct_iff hf).mpr
    (growthFits_of_dvd hf (by decide) (by decide +kernel))

/-- With `-f 1.001` every class has 96 bytes and the last one is class 200, which an item of 1 MB
gets: it is past the end of the arrays of `items.c`. -/
theorem slabTable_small_factor : ¬ (slabsInit (1001 / 1000) 48 1048576).Correct 1048576 := by
  intro h
  have hid : (slabsInit (1001 / 1000) 48 1048576).slabsClsid 1048576 = 200 := by decide +kernel
  have hlt := h.clsid_lt 1048576
  rw [hid] at hlt
  exact absurd hlt (by decide)

/-- With `-f 1.001 -n 977 -I 1028` class 1 is rounded up to 1032 bytes and its pages hold none. -/
example : (slabsInit (1001 / 1000) 977 1028).perslab 1 = 0 := by decide +kernel

end Table

end Memcached
