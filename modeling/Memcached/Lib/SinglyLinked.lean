import Memcached.Lib.DoublyLinked

/-! # Families of intrusive singly linked chains

A hash table with chaining threads all its buckets through one `next` field. `Chains next head q`
describes such a family by the list of nodes of each bucket; `find` and `before` are the two walks
a program makes along a chain, bounded by a number of steps that the chain's length suffices for.

* **`Chains`** — the family.
* **`Chains.insert`**, **`Chains.remove`** — a node is put in front, or taken out of the middle. -/

namespace SinglyLinked

open DoublyLinked (setAt setAt_of_ne setAt_some setAt_none)

variable {ι α : Type*}

/-! ## Walking a chain -/

/-- Walk from `cur` and stop at the first node that satisfies `p`. -/
def find (next : α → Option α) (p : α → Bool) : ℕ → Option α → Option α
  | 0, _ => none
  | _ + 1, none => none
  | n + 1, some x => if p x then some x else find next p n (next x)

/-- Walk from `cur`, entered from `pred`, to the first node that satisfies `p`; returns that node
and the one before it. -/
def before (next : α → Option α) (p : α → Bool) : ℕ → Option α → Option α → Option α × Option α
  | 0, pred, _ => (pred, none)
  | _ + 1, pred, none => (pred, none)
  | n + 1, pred, some x => if p x then (pred, some x) else before next p n (some x) (next x)

/-- The nodes met from `cur` on, `n` at most. -/
def walk (next : α → Option α) : ℕ → Option α → List α
  | 0, _ => []
  | _ + 1, none => []
  | n + 1, some x => x :: walk next n (next x)

/-- The nodes of `l` are linked in order and the last one's link is null. -/
def Seg (next : α → Option α) : List α → Prop
  | [] => True
  | x :: xs => next x = xs.head? ∧ Seg next xs

/-- A segment depends on the links of its own nodes. -/
theorem Seg.congr {next next' : α → Option α} {l : List α} (h : Seg next l)
    (hn : ∀ x ∈ l, next' x = next x) : Seg next' l := by
  induction l with
  | nil => trivial
  | cons x xs ih =>
      obtain ⟨h₁, h₂⟩ := h
      exact ⟨(hn x (by simp)).trans h₁, ih h₂ (fun y hy => hn y (List.mem_cons_of_mem x hy))⟩

/-- The forward links of a doubly linked list. -/
theorem Seg.of_doubly {next prev : α → Option α} {b : Option α} {l : List α}
    (h : DoublyLinked.Seg next prev b l none) : Seg next l := by
  induction l generalizing b with
  | nil => trivial
  | cons x xs ih => exact ⟨by simpa using h.2.1, ih h.2.2⟩

/-- On a chain that fits the step bound, the walk meets exactly its nodes. -/
theorem walk_eq {next : α → Option α} {l : List α} {n : ℕ} (h : Seg next l) (hn : l.length ≤ n) :
    walk next n l.head? = l := by
  induction l generalizing n with
  | nil => cases n <;> rfl
  | cons x xs ih =>
      cases n with
      | zero => simp at hn
      | succ n =>
          rw [List.head?_cons, walk, h.1, ih h.2 (by simpa using hn)]

/-- Walking a chain for fewer steps yields a part of it. -/
theorem walk_eq_take {next : α → Option α} {l : List α} (h : Seg next l) (n : ℕ) :
    walk next n l.head? = l.take n := by
  induction l generalizing n with
  | nil => cases n <;> rfl
  | cons x xs ih =>
      cases n with
      | zero => rfl
      | succ n => rw [List.head?_cons, walk, h.1, ih h.2, List.take_succ_cons]

/-- On a chain that fits the step bound, walking is searching the list of its nodes. -/
theorem find_eq {next : α → Option α} {p : α → Bool} {l : List α} {n : ℕ} (h : Seg next l)
    (hn : l.length ≤ n) : find next p n l.head? = l.find? p := by
  induction l generalizing n with
  | nil => cases n <;> rfl
  | cons x xs ih =>
      cases n with
      | zero => simp at hn
      | succ n =>
          rw [List.head?_cons, find, List.find?_cons, h.1]
          by_cases hp : p x
          · simp [hp]
          · simpa [hp] using ih h.2 (by simpa using hn)

/-- The walk that also returns the predecessor, on a chain with its first match at `x`. -/
theorem before_eq {next : α → Option α} {p : α → Bool} {l₁ l₂ : List α} {x : α} {n : ℕ}
    (b : Option α) (h : Seg next (l₁ ++ x :: l₂)) (hn : (l₁ ++ x :: l₂).length ≤ n)
    (h₁ : ∀ y ∈ l₁, p y = false) (hx : p x = true) :
    before next p n b (l₁ ++ x :: l₂).head? = (l₁.getLast?.or b, some x) := by
  induction l₁ generalizing n b with
  | nil =>
      cases n with
      | zero => simp at hn
      | succ n => simp [before, hx]
  | cons y ys ih =>
      cases n with
      | zero => simp at hn
      | succ n =>
          have hy : p y = false := h₁ y (by simp)
          have hlast : (y :: ys).getLast?.or b = ys.getLast?.or (some y) := by
            rcases List.eq_nil_or_concat ys with rfl | ⟨zs, z, rfl⟩
            · simp
            · simp [List.getLast?_cons]
          rw [List.cons_append, List.head?_cons, before, h.1, hlast]
          rw [if_neg (by simp [hy])]
          exact ih (some y) h.2 (by simpa using hn) (fun z hz => h₁ z (List.mem_cons_of_mem y hz))

/-! ## Families of chains -/

/-- Chains `q` through one link field, entered from the pointers `head`: each is null-terminated
and duplicate-free, and no node is on two of them. -/
structure Chains (next : α → Option α) (head : ι → Option α) (q : ι → List α) : Prop where
  /-- Every bucket points at the first node of its chain. -/
  head_eq : ∀ i, head i = (q i).head?
  /-- Every chain is linked to its end. -/
  seg : ∀ i, Seg next (q i)
  /-- No chain holds a node twice. -/
  nodup : ∀ i, (q i).Nodup
  /-- A node is on at most one chain. -/
  disjoint : ∀ i j x, x ∈ q i → x ∈ q j → i = j

/-- The end of a segment is one. -/
theorem Seg.right {next : α → Option α} {l₁ l₂ : List α} (h : Seg next (l₁ ++ l₂)) :
    Seg next l₂ := by
  induction l₁ with
  | nil => exact h
  | cons x xs ih => exact ih h.2

variable [DecidableEq α]

/-- Taking `x` out of a chain: its predecessor is linked to its successor. -/
theorem Seg.remove {next : α → Option α} {l₁ l₂ : List α} {x : α}
    (h : Seg next (l₁ ++ x :: l₂)) (hd : (l₁ ++ x :: l₂).Nodup) :
    Seg (setAt (Function.update next x none) l₁.getLast? (next x)) (l₁ ++ l₂) := by
  induction l₁ with
  | nil =>
      refine h.2.congr (fun y hy => ?_)
      have hyx : y ≠ x := fun e => (List.nodup_cons.mp hd).1 (e ▸ hy)
      simp [hyx]
  | cons y ys ih =>
      obtain ⟨hy, hd⟩ := List.nodup_cons.mp hd
      have hyx : y ≠ x := fun e => hy (by simp [e])
      have hx : next x = l₂.head? := (Seg.right h.2).1
      rcases List.eq_nil_or_concat ys with rfl | ⟨zs, z, rfl⟩
      · refine ⟨by simp [hx], (Seg.right h.2).2.congr (fun w hw => ?_)⟩
        have hwy : w ≠ y := fun e => hy (by simp [← e, hw])
        have hwx : w ≠ x := by
          rintro rfl
          simp at hd
          exact hd.1 hw
        simp [hwy, hwx]
      · have hyz : y ≠ z := fun e => hy (by simp [e])
        have hlast : (y :: zs.concat z).getLast? = (zs.concat z).getLast? := by
          simp [List.getLast?_cons]
        rw [hlast]
        refine ⟨?_, ih h.2 hd⟩
        have hzs : (zs.concat z).getLast? = some z := by simp
        rw [hzs, setAt_some, Function.update_of_ne hyz, Function.update_of_ne hyx, h.1]
        cases zs <;> simp

namespace Chains

variable {next : α → Option α} {head : ι → Option α} {q : ι → List α}

omit [DecidableEq α] in
/-- A write to nodes on no chain is not seen. -/
theorem congr (h : Chains next head q) {next' : α → Option α}
    (hn : ∀ i, ∀ x ∈ q i, next' x = next x) : Chains next' head q where
  head_eq := h.head_eq
  seg i := (h.seg i).congr (hn i)
  nodup := h.nodup
  disjoint := h.disjoint

variable [DecidableEq ι]

/-- **Linking a fresh node** at the front of chain `i`. -/
theorem insert (h : Chains next head q) {x : α} (hx : ∀ j, x ∉ q j) (i : ι) :
    Chains (Function.update next x (head i)) (Function.update head i (some x))
      (Function.update q i (x :: q i)) where
  head_eq j := by
    by_cases hj : j = i
    · subst hj; simp
    · simp [Function.update_of_ne hj, h.head_eq j]
  seg j := by
    have hfresh : ∀ l, x ∉ l → Seg next l → Seg (Function.update next x (head i)) l :=
      fun l hl hs => hs.congr (fun y hy =>
        Function.update_of_ne (fun e : y = x => hl (e ▸ hy)) _ _)
    by_cases hj : j = i
    · subst hj
      rw [Function.update_self]
      exact ⟨by simp [h.head_eq j], hfresh _ (hx j) (h.seg j)⟩
    · rw [Function.update_of_ne hj]
      exact hfresh _ (hx j) (h.seg j)
  nodup j := by
    by_cases hj : j = i
    · subst hj; simpa using ⟨hx j, h.nodup j⟩
    · rw [Function.update_of_ne hj]; exact h.nodup j
  disjoint j k y hy hy' := by
    simp only [Function.update_apply] at hy hy'
    split at hy <;> split at hy'
    · simp_all
    · rcases List.mem_cons.mp hy with rfl | hm
      · exact absurd hy' (hx k)
      · simp_all [h.disjoint i k y hm hy']
    · rcases List.mem_cons.mp hy' with rfl | hm
      · exact absurd hy (hx j)
      · simp_all [h.disjoint j i y hy hm]
    · exact h.disjoint j k y hy hy'

/-- **Unlinking a node**: the pointer that led to it, a predecessor's link or the bucket itself, is
moved on to its successor. -/
theorem remove (h : Chains next head q) {i : ι} {x : α} {l₁ l₂ : List α}
    (hq : q i = l₁ ++ x :: l₂) :
    Chains (setAt (Function.update next x none) l₁.getLast? (next x))
      (if l₁.getLast?.isNone then Function.update head i (next x) else head)
      (Function.update q i (l₁ ++ l₂)) where
  head_eq j := by
    have hs := h.seg i
    rw [hq] at hs
    have hx : next x = l₂.head? := (Seg.right hs).1
    by_cases hj : j = i
    · subst hj
      rcases l₁ with _ | ⟨y, ys⟩
      · simp [hx]
      · simp [h.head_eq j, hq, List.getLast?_cons]
    · rw [Function.update_of_ne hj, ← h.head_eq j]
      split
      · rw [Function.update_of_ne hj]
      · rfl
  seg j := by
    by_cases hj : j = i
    · subst hj
      rw [Function.update_self]
      exact Seg.remove (hq ▸ h.seg j) (hq ▸ h.nodup j)
    · rw [Function.update_of_ne hj]
      refine (h.seg j).congr (fun y hy => ?_)
      have hyi : y ∉ q i := fun hm => hj (h.disjoint j i y hy hm)
      rw [hq] at hyi
      simp only [List.mem_append, List.mem_cons, not_or] at hyi
      rw [setAt_of_ne (fun e => hyi.1 (List.mem_of_getLast? e)), Function.update_of_ne hyi.2.1]
  nodup j := by
    by_cases hj : j = i
    · subst hj
      have hd := h.nodup j
      rw [hq] at hd
      simpa using hd.sublist (List.Sublist.append_left (List.sublist_cons_self x l₂) l₁)
    · rw [Function.update_of_ne hj]; exact h.nodup j
  disjoint j k y hy hy' := by
    have hsub : ∀ m, y ∈ Function.update q i (l₁ ++ l₂) m → y ∈ q m := by
      intro m hm
      by_cases hmi : m = i
      · subst hmi
        rw [Function.update_self] at hm
        rw [hq]
        rcases List.mem_append.mp hm with hm | hm <;> simp [hm]
      · rwa [Function.update_of_ne hmi] at hm
    exact h.disjoint j k y (hsub j hy) (hsub k hy')

end Chains

end SinglyLinked
