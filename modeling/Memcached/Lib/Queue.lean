import Memcached.Lib.SinglyLinked

/-! # Queues and free lists in a family of chains

A chain that nodes join at its back, with a pointer to its last node, is a queue; one that whole
segments join at its front is a free list. Nodes that pass from one such list to another, or into the
hands of a thread, are followed by `Owned`: every node is in the place its owner says.

* **`Owned`** — every node is in the place that its owner says.
* **`Owned.move`**, **`Owned.add`** — a node changes hands, and a new one. -/

namespace SinglyLinked

open DoublyLinked (setAt setAt_of_ne setAt_some setAt_none)

variable {ι α : Type*} [DecidableEq α] {next : α → Option α} {head : ι → Option α} {q : ι → List α}

/-! ## Longer segments -/

/-- Two segments, the last link of the first turned to the second. -/
theorem Seg.append {l r : List α} (hl : l.IsChain (fun x y => next x = some y)) (hd : l.Nodup)
    (hr : Seg next r) (hlr : ∀ x ∈ l, x ∉ r) : Seg (setAt next l.getLast? r.head?) (l ++ r) := by
  induction l with
  | nil => exact hr
  | cons x xs ih =>
      obtain ⟨hx, hxs⟩ := List.nodup_cons.mp hd
      cases xs with
      | nil =>
          refine ⟨by simp, hr.congr (fun y hy => ?_)⟩
          have hyx : y ≠ x := fun e => hlr x (by simp) (e ▸ hy)
          simp [hyx]
      | cons y ys =>
          have htail := ih hl.of_cons hxs (fun z hz => hlr z (List.mem_cons_of_mem x hz))
          have hlast : (x :: y :: ys).getLast? = (y :: ys).getLast? := by simp [List.getLast?_cons]
          rw [hlast]
          refine ⟨?_, htail⟩
          rw [setAt_of_ne (fun e => hx (List.mem_of_getLast? e))]
          exact (List.isChain_cons_cons.mp hl).1

namespace Chains

variable [DecidableEq ι]

omit [DecidableEq α] in
/-- **Taking the first node** off chain `i`. -/
theorem pop (h : Chains next head q) {i : ι} {x : α} {l : List α} (hq : q i = x :: l) :
    Chains next (Function.update head i (next x)) (Function.update q i l) where
  head_eq j := by
    by_cases hj : j = i
    · subst hj
      have hs := h.seg j
      rw [hq] at hs
      simp [hs.1]
    · simp [hj, h.head_eq j]
  seg j := by
    by_cases hj : j = i
    · subst hj
      have hs := h.seg j
      rw [hq] at hs
      simpa using hs.2
    · simpa [hj] using h.seg j
  nodup j := by
    by_cases hj : j = i
    · subst hj
      have hd := h.nodup j
      rw [hq] at hd
      simpa using (List.nodup_cons.mp hd).2
    · simpa [hj] using h.nodup j
  disjoint j k y hy hy' := by
    have hsub : ∀ m, y ∈ Function.update q i l m → y ∈ q m := by
      intro m hm
      by_cases hmi : m = i
      · subst hmi
        rw [hq]
        exact List.mem_cons_of_mem x (by simpa using hm)
      · simpa [hmi] using hm
    exact h.disjoint j k y (hsub j hy) (hsub k hy')

/-- **A segment of fresh nodes** put before chain `i`. -/
theorem prepend (h : Chains next head q) {l : List α}
    (hl : l.IsChain (fun x y => next x = some y)) (hd : l.Nodup) (hf : ∀ x ∈ l, ∀ j, x ∉ q j) (i : ι) :
    Chains (setAt next l.getLast? (head i)) (Function.update head i (l.head?.or (head i)))
      (Function.update q i (l ++ q i)) where
  head_eq j := by
    by_cases hj : j = i
    · subst hj
      simp [h.head_eq j, List.head?_append]
    · simp [hj, h.head_eq j]
  seg j := by
    by_cases hj : j = i
    · subst hj
      rw [Function.update_self, h.head_eq j]
      exact Seg.append hl hd (h.seg j) (fun x hx => hf x hx j)
    · rw [Function.update_of_ne hj]
      exact (h.seg j).congr (fun y hy =>
        setAt_of_ne (fun e => hf y (List.mem_of_getLast? e) j hy))
  nodup j := by
    by_cases hj : j = i
    · subst hj
      rw [Function.update_self]
      exact List.nodup_append.mpr ⟨hd, h.nodup j, fun x hx y hy e => hf x hx j (e ▸ hy)⟩
    · simpa [hj] using h.nodup j
  disjoint j k y hy hy' := by
    simp only [Function.update_apply] at hy hy'
    split at hy <;> split at hy'
    · simp_all
    · rcases List.mem_append.mp hy with hm | hm
      · exact absurd hy' (hf y hm k)
      · simp_all [h.disjoint i k y hm hy']
    · rcases List.mem_append.mp hy' with hm | hm
      · exact absurd hy (hf y hm j)
      · simp_all [h.disjoint j i y hy hm]
    · exact h.disjoint j k y hy hy'

/-- **Joining a queue** at its back: the last node's link, or the head of an empty queue, is turned to
the fresh node. -/
theorem pushBack (h : Chains next head q) {x : α} (hf : ∀ j, x ∉ q j) (i : ι) :
    Chains (setAt (Function.update next x none) (q i).getLast? (some x))
      (if (q i).getLast? = none then Function.update head i (some x) else head)
      (Function.update q i (q i ++ [x])) where
  head_eq j := by
    by_cases hj : j = i
    · subst hj
      cases hq : q j with
      | nil => simp
      | cons y ys => simp [h.head_eq j, hq, List.getLast?_cons]
    · rw [Function.update_of_ne hj, ← h.head_eq j]
      split
      · exact Function.update_of_ne hj _ _
      · rfl
  seg j := by
    have hfresh : ∀ k, ∀ y ∈ q k, y ≠ x := fun k y hy e => hf k (e ▸ hy)
    have hold : ∀ k, Seg (Function.update next x none) (q k) := fun k =>
      (h.seg k).congr (fun y hy => Function.update_of_ne (hfresh k y hy) _ _)
    have hlinked : ∀ l : List α, Seg next l → (∀ y ∈ l, y ≠ x) →
        l.IsChain (fun y z => Function.update next x none y = some z) := by
      intro l hs hne
      induction l with
      | nil => simp
      | cons y ys ih =>
          have hys := ih hs.2 (fun z hz => hne z (List.mem_cons_of_mem y hz))
          cases ys with
          | nil => simp
          | cons z zs =>
              refine List.isChain_cons_cons.mpr ⟨?_, hys⟩
              rw [Function.update_of_ne (hne y (by simp)), hs.1, List.head?_cons]
    by_cases hj : j = i
    · subst hj
      rw [Function.update_self]
      exact Seg.append (r := [x]) (hlinked (q j) (h.seg j) (hfresh j)) (h.nodup j) ⟨by simp, trivial⟩
        (fun y hy => by simpa using hfresh j y hy)
    · rw [Function.update_of_ne hj]
      refine (hold j).congr (fun y hy => setAt_of_ne (fun e => ?_))
      exact hj (h.disjoint j i y hy (List.mem_of_getLast? e))
  nodup j := by
    by_cases hj : j = i
    · subst hj
      rw [Function.update_self]
      refine List.nodup_append.mpr ⟨h.nodup j, by simp, fun y hy z hz e => ?_⟩
      exact hf j (by simpa [e, List.mem_singleton.mp hz] using hy)
    · simpa [hj] using h.nodup j
  disjoint j k y hy hy' := by
    simp only [Function.update_apply] at hy hy'
    split at hy <;> split at hy'
    · simp_all
    · rcases List.mem_append.mp hy with hm | hm
      · simp_all [h.disjoint i k y hm hy']
      · exact absurd (List.mem_singleton.mp hm ▸ hy') (hf k)
    · rcases List.mem_append.mp hy' with hm | hm
      · simp_all [h.disjoint j i y hy hm]
      · exact absurd (List.mem_singleton.mp hm ▸ hy) (hf j)
    · exact h.disjoint j k y hy hy'

end Chains

/-! ## Who has a node -/

section

variable {κ : Type*} {items items' : κ → List α} {owner : α → Option κ}

/-- **Every node is where its owner says**, and nowhere else. -/
def Owned (items : κ → List α) (owner : α → Option κ) : Prop :=
  ∀ a x, x ∈ items a ↔ owner x = some a

omit [DecidableEq α] in
/-- A node is in one place at most. -/
theorem Owned.unique (h : Owned items owner) {a b : κ} {x : α} (ha : x ∈ items a) (hb : x ∈ items b) :
    a = b :=
  Option.some.inj (((h a x).mp ha).symm.trans ((h b x).mp hb))

/-- **Nodes change hands**: those of `l` go from `a` to `b`. -/
theorem Owned.move (h : Owned items owner) {a b : κ} {l : List α}
    (hl : ∀ x ∈ l, x ∈ items a) (ha : ∀ x, x ∈ items' a ↔ x ∈ items a ∧ x ∉ l)
    (hb : ∀ x, x ∈ items' b ↔ x ∈ items b ∨ x ∈ l) (ho : ∀ c, c ≠ a → c ≠ b → items' c = items c) :
    Owned items' (fun x => if x ∈ l then some b else owner x) := by
  intro c x
  by_cases hx : x ∈ l
  · have hxa := hl x hx
    simp only [hx, if_true, Option.some.injEq]
    refine ⟨fun hc => ?_, fun e => e ▸ (hb x).mpr (.inr hx)⟩
    by_contra hbc
    have hca : c ≠ a := fun e => ((ha x).mp (e ▸ hc)).2 hx
    rw [ho c hca (Ne.symm hbc)] at hc
    exact hca (h.unique hc hxa)
  · simp only [hx, if_false]
    rw [← h c x]
    by_cases hca : c = a
    · rw [hca, ha x]
      exact and_iff_left hx
    · by_cases hcb : c = b
      · rw [hcb, hb x]
        exact or_iff_left hx
      · rw [ho c hca hcb]

/-- **New nodes** for `b`. -/
theorem Owned.add (h : Owned items owner) {b : κ} {l : List α} (hl : ∀ x ∈ l, owner x = none)
    (hb : ∀ x, x ∈ items' b ↔ x ∈ items b ∨ x ∈ l) (ho : ∀ c, c ≠ b → items' c = items c) :
    Owned items' (fun x => if x ∈ l then some b else owner x) := by
  intro c x
  have hold : ∀ d, x ∈ l → x ∉ items d := fun d hx hm => by
    have hd := (h d x).mp hm
    rw [hl x hx] at hd
    cases hd
  by_cases hcb : c = b
  · subst hcb
    rw [hb x, h c x]
    by_cases hx : x ∈ l <;> simp [hx]
  · rw [ho c hcb]
    by_cases hx : x ∈ l
    · simp [hx, hold c hx, Ne.symm hcb]
    · simp [hx, h c x]

end

end SinglyLinked
