import Mathlib.Logic.Function.Basic
import Mathlib.Data.List.Nodup
import Mathlib.Tactic.Common

/-! # Families of intrusive doubly linked lists

Many programs thread several doubly linked lists through one pair of link fields: a node is on at
most one list at a time, and `next` / `prev` belong to whichever list that is. This file describes
such a family by the list of nodes of each queue and proves what the usual pointer surgery does to
it:

* **`Seg next prev b l a`** — the nodes of `l` are linked in order, entered from `b` and left
  towards `a`.
* **`Family next prev q`** — every queue `q i` is a null-terminated, duplicate-free list, and no
  node is on two queues.
* `Family.pushFront`, `Family.pushBack`, `Family.remove`, `Family.swapPrev` — linking a node at
  either end, unlinking one from the middle, and exchanging one with its predecessor. -/

namespace DoublyLinked

variable {ι α β : Type*} [DecidableEq α]

/-! ## Writing through a pointer that may be null -/

/-- Write `v` at the node `o` points to; nothing happens when `o` is null. -/
def setAt (f : α → β) (o : Option α) (v : β) : α → β :=
  match o with
  | none => f
  | some x => Function.update f x v

/-- A write at no node. -/
@[simp] theorem setAt_none (f : α → β) (v : β) : setAt f none v = f := rfl

/-- A write at a node. -/
@[simp] theorem setAt_some (f : α → β) (x : α) (v : β) :
    setAt f (some x) v = Function.update f x v := rfl

/-- A write elsewhere is not seen. -/
theorem setAt_of_ne {f : α → β} {o : Option α} {v : β} {y : α} (h : o ≠ some y) :
    setAt f o v y = f y := by
  cases o with
  | none => rfl
  | some x => exact Function.update_of_ne (fun e : y = x => h (by rw [e])) v f

/-! ## Linked segments -/

/-- The nodes of `l` are linked in order: the first one's `prev` is `b`, the last one's `next` is
`a`, and neighbours point at each other. -/
def Seg (next prev : α → Option α) : Option α → List α → Option α → Prop
  | _, [], _ => True
  | b, x :: xs, a => prev x = b ∧ next x = xs.head?.or a ∧ Seg next prev (some x) xs a

omit [DecidableEq α] in
/-- An empty segment. -/
@[simp] theorem seg_nil (next prev : α → Option α) (b a : Option α) : Seg next prev b [] a :=
  trivial

omit [DecidableEq α] in
/-- A segment is its first node and the rest. -/
@[simp] theorem seg_cons (next prev : α → Option α) (b a : Option α) (x : α) (xs : List α) :
    Seg next prev b (x :: xs) a ↔
      prev x = b ∧ next x = xs.head?.or a ∧ Seg next prev (some x) xs a := Iff.rfl

omit [DecidableEq α] in
/-- A concatenation is linked iff both halves are and they meet. -/
theorem seg_append {next prev : α → Option α} {b a : Option α} {l₁ l₂ : List α} :
    Seg next prev b (l₁ ++ l₂) a ↔
      Seg next prev b l₁ (l₂.head?.or a) ∧ Seg next prev (l₁.getLast?.or b) l₂ a := by
  induction l₁ generalizing b with
  | nil => simp
  | cons x xs ih =>
      have hhead : (xs ++ l₂).head?.or a = xs.head?.or (l₂.head?.or a) := by
        cases xs <;> simp
      have hlast : (x :: xs).getLast?.or b = xs.getLast?.or (some x) := by
        rcases List.eq_nil_or_concat xs with rfl | ⟨ys, y, rfl⟩
        · simp
        · simp [List.getLast?_cons]
      rw [List.cons_append, seg_cons, seg_cons, ih, hhead, hlast]
      tauto

omit [DecidableEq α] in
/-- Only the links of the segment's own nodes matter. -/
theorem Seg.congr {next prev next' prev' : α → Option α} {b a : Option α} {l : List α}
    (h : Seg next prev b l a) (hn : ∀ x ∈ l, next' x = next x) (hp : ∀ x ∈ l, prev' x = prev x) :
    Seg next' prev' b l a := by
  induction l generalizing b with
  | nil => trivial
  | cons x xs ih =>
      obtain ⟨h₁, h₂, h₃⟩ := h
      refine ⟨(hp x (by simp)).trans h₁, (hn x (by simp)).trans h₂, ih h₃ ?_ ?_⟩
      · exact fun y hy => hn y (List.mem_cons_of_mem x hy)
      · exact fun y hy => hp y (List.mem_cons_of_mem x hy)

/-- Redirecting the last node's `next` changes where the segment leads. -/
theorem Seg.set_last {next prev : α → Option α} {b a : Option α} {l : List α}
    (h : Seg next prev b l a) (hd : l.Nodup) (a' : Option α) :
    Seg (setAt next l.getLast? a') prev b l a' := by
  rcases List.eq_nil_or_concat l with rfl | ⟨ys, y, rfl⟩
  · trivial
  · rw [List.concat_eq_append, seg_append] at h
    have hy : y ∉ ys := by
      rw [List.concat_eq_append, List.nodup_append] at hd
      exact fun hm => hd.2.2 y hm y (by simp) rfl
    rw [List.concat_eq_append, List.getLast?_append, List.getLast?_singleton, Option.some_or,
      setAt_some, seg_append]
    refine ⟨h.1.congr (fun x hx => ?_) (fun _ _ => rfl), h.2.1, ?_, trivial⟩
    · exact Function.update_of_ne (fun e : x = y => hy (e ▸ hx)) _ _
    · simp

/-- Redirecting the first node's `prev` changes where the segment is entered from. -/
theorem Seg.set_head {next prev : α → Option α} {b a : Option α} {l : List α}
    (h : Seg next prev b l a) (hd : l.Nodup) (b' : Option α) :
    Seg next (setAt prev l.head? b') b' l a := by
  cases l with
  | nil => trivial
  | cons x xs =>
      obtain ⟨-, h₂, h₃⟩ := h
      have hx : x ∉ xs := (List.nodup_cons.mp hd).1
      refine ⟨by simp, h₂, h₃.congr (fun _ _ => rfl) (fun y hy => ?_)⟩
      exact setAt_of_ne (fun e => hx (by rw [List.head?_cons, Option.some.injEq] at e; exact e ▸ hy))

/-! ## Families of queues -/

/-- Queues `q` over one pair of link fields: each is a null-terminated duplicate-free list, and no
node is on two of them. -/
structure Family (next prev : α → Option α) (q : ι → List α) : Prop where
  /-- Every queue is linked from its first node to its last. -/
  seg : ∀ i, Seg next prev none (q i) none
  /-- No queue holds a node twice. -/
  nodup : ∀ i, (q i).Nodup
  /-- A node is on at most one queue. -/
  disjoint : ∀ i j x, x ∈ q i → x ∈ q j → i = j

namespace Family

variable {next prev : α → Option α} {q : ι → List α}

omit [DecidableEq α] in
/-- The neighbours of a node in the middle of its queue. -/
theorem neighbours (h : Family next prev q) {i : ι} {x : α} {l₁ l₂ : List α}
    (hq : q i = l₁ ++ x :: l₂) : prev x = l₁.getLast? ∧ next x = l₂.head? := by
  have hs := h.seg i
  rw [hq, seg_append, seg_cons] at hs
  exact ⟨by simpa using hs.2.1, by simpa using hs.2.2.1⟩

omit [DecidableEq α] in
/-- Membership in a queue, as a place in it. -/
theorem exists_split {i : ι} {x : α} (hx : x ∈ q i) : ∃ l₁ l₂, q i = l₁ ++ x :: l₂ :=
  List.append_of_mem hx

omit [DecidableEq α] in
/-- No node is its own successor. -/
theorem next_ne_self (h : Family next prev q) {i : ι} {x : α} (hx : x ∈ q i) :
    next x ≠ some x := by
  obtain ⟨l₁, l₂, hq⟩ := exists_split hx
  rw [(h.neighbours hq).2]
  intro e
  have hd := h.nodup i
  rw [hq, List.nodup_append, List.nodup_cons] at hd
  exact hd.2.1.1 (List.mem_of_mem_head? e)

omit [DecidableEq α] in
/-- The predecessor of a queued node is on the same queue. -/
theorem mem_of_prev (h : Family next prev q) {i : ι} {x y : α} (hx : x ∈ q i)
    (hy : prev x = some y) : y ∈ q i := by
  obtain ⟨l₁, l₂, hq⟩ := exists_split hx
  rw [(h.neighbours hq).1] at hy
  rw [hq]
  exact List.mem_append_left _ (List.mem_of_getLast? hy)

omit [DecidableEq α] in
/-- A write to nodes on no queue is not seen. -/
theorem congr (h : Family next prev q) {next' prev' : α → Option α}
    (hn : ∀ i, ∀ x ∈ q i, next' x = next x) (hp : ∀ i, ∀ x ∈ q i, prev' x = prev x) :
    Family next' prev' q where
  seg i := (h.seg i).congr (hn i) (hp i)
  nodup := h.nodup
  disjoint := h.disjoint

variable [DecidableEq ι]

omit [DecidableEq α] in
/-- **Changing one queue.** If the links of all nodes outside `q i` and `l` are kept and `l` is a
well linked list of nodes that are on no other queue, then `l` may replace `q i`. -/
theorem replace (h : Family next prev q) {next' prev' : α → Option α} {i : ι} {l : List α}
    (hseg : Seg next' prev' none l none) (hd : l.Nodup)
    (hother : ∀ j x, j ≠ i → x ∈ q j → x ∉ l ∧ next' x = next x ∧ prev' x = prev x) :
    Family next' prev' (Function.update q i l) where
  seg j := by
    by_cases hj : j = i
    · subst hj; simpa using hseg
    · rw [Function.update_of_ne hj]
      exact (h.seg j).congr (fun x hx => (hother j x hj hx).2.1) (fun x hx => (hother j x hj hx).2.2)
  nodup j := by
    by_cases hj : j = i
    · subst hj; simpa using hd
    · rw [Function.update_of_ne hj]; exact h.nodup j
  disjoint j k x hx hx' := by
    by_cases hj : j = i <;> by_cases hk : k = i
    · rw [hj, hk]
    · subst hj
      rw [Function.update_self] at hx
      rw [Function.update_of_ne hk] at hx'
      exact absurd hx (hother k x hk hx').1
    · subst hk
      rw [Function.update_self] at hx'
      rw [Function.update_of_ne hj] at hx
      exact absurd hx' (hother j x hj hx).1
    · rw [Function.update_of_ne hj] at hx
      rw [Function.update_of_ne hk] at hx'
      exact h.disjoint j k x hx hx'

/-- **Linking a fresh node at the front** of queue `i`. -/
theorem pushFront (h : Family next prev q) {x : α} (hx : ∀ j, x ∉ q j) (i : ι) :
    Family (Function.update next x (q i).head?)
      (setAt (Function.update prev x none) (q i).head? (some x))
      (Function.update q i (x :: q i)) := by
  have hhead : (q i).head? ≠ some x := fun e => hx i (List.mem_of_mem_head? e)
  refine h.replace ?_ (List.nodup_cons.mpr ⟨hx i, h.nodup i⟩) ?_
  · refine ⟨by rw [setAt_of_ne hhead, Function.update_self], by simp, ?_⟩
    refine ((h.seg i).set_head (h.nodup i) (some x)).congr (fun y hy => ?_) (fun y hy => ?_)
    · exact Function.update_of_ne (fun e : y = x => hx i (e ▸ hy)) _ _
    · have hyx : y ≠ x := fun e => hx i (e ▸ hy)
      cases hq : (q i).head? with
      | none => rw [List.head?_eq_none_iff] at hq; rw [hq] at hy; simp at hy
      | some z => simp [Function.update_apply, hyx]
  · intro j y hj hy
    have hyx : y ≠ x := fun e => hx j (e ▸ hy)
    have hyi : y ∉ q i := fun hm => hj (h.disjoint j i y hy hm)
    refine ⟨by simp [hyx, hyi], Function.update_of_ne hyx _ _, ?_⟩
    rw [setAt_of_ne (fun e => hyi (List.mem_of_mem_head? e)), Function.update_of_ne hyx]

/-- **Linking a fresh node at the back** of queue `i`. -/
theorem pushBack (h : Family next prev q) {x : α} (hx : ∀ j, x ∉ q j) (i : ι) :
    Family (setAt (Function.update next x none) (q i).getLast? (some x))
      (Function.update prev x (q i).getLast?)
      (Function.update q i (q i ++ [x])) := by
  have hlast : (q i).getLast? ≠ some x := fun e => hx i (List.mem_of_getLast? e)
  refine h.replace ?_ ?_ ?_
  · rw [seg_append]
    refine ⟨?_, by simp, by rw [setAt_of_ne hlast]; simp, trivial⟩
    refine ((h.seg i).set_last (h.nodup i) (some x)).congr (fun y hy => ?_) (fun y hy => ?_)
    · have hyx : y ≠ x := fun e => hx i (e ▸ hy)
      cases hq : (q i).getLast? with
      | none => rw [List.getLast?_eq_none_iff] at hq; rw [hq] at hy; simp at hy
      | some z => simp [Function.update_apply, hyx]
    · exact Function.update_of_ne (fun e : y = x => hx i (e ▸ hy)) _ _
  · exact (h.nodup i).append (List.nodup_singleton x) (by simpa using hx i)
  · intro j y hj hy
    have hyx : y ≠ x := fun e => hx j (e ▸ hy)
    have hyi : y ∉ q i := fun hm => hj (h.disjoint j i y hy hm)
    refine ⟨by simp [hyx, hyi], ?_, Function.update_of_ne hyx _ _⟩
    rw [setAt_of_ne (fun e => hyi (List.mem_of_getLast? e)), Function.update_of_ne hyx]

/-- **Unlinking a node**: its neighbours are pointed at each other, and it leaves the queue. -/
theorem remove (h : Family next prev q) {i : ι} {x : α} {l₁ l₂ : List α}
    (hq : q i = l₁ ++ x :: l₂) :
    Family (setAt next (prev x) (next x)) (setAt prev (next x) (prev x))
      (Function.update q i (l₁ ++ l₂)) := by
  obtain ⟨hp, hn⟩ := h.neighbours hq
  have hd := h.nodup i
  have hs := h.seg i
  rw [hq] at hd hs
  rw [seg_append, seg_cons] at hs
  rw [List.nodup_append, List.nodup_cons] at hd
  obtain ⟨hd₁, ⟨hx₂, hd₂⟩, hdis⟩ := hd
  have h₁₂ : ∀ y ∈ l₁, y ∉ l₂ := fun y hy hm => hdis y hy y (List.mem_cons_of_mem x hm) rfl
  rw [hp, hn]
  refine h.replace ?_ ?_ ?_
  · rw [seg_append]
    constructor
    · refine (hs.1.set_last hd₁ (l₂.head?.or none)).congr (fun y hy => ?_) (fun y hy => ?_)
      · simp
      · exact setAt_of_ne (fun e => h₁₂ y hy (List.mem_of_mem_head? e))
    · refine (hs.2.2.2.set_head hd₂ (l₁.getLast?.or none)).congr (fun y hy => ?_) (fun y hy => ?_)
      · exact setAt_of_ne (fun e => h₁₂ y (List.mem_of_getLast? e) hy)
      · simp
  · exact hd₁.append hd₂ (fun y hy hm => h₁₂ y hy hm)
  · intro j y hj hy
    have hyi : y ∉ q i := fun hm => hj (h.disjoint j i y hy hm)
    rw [hq] at hyi
    simp only [List.mem_append, List.mem_cons, not_or] at hyi
    refine ⟨by simp [hyi], ?_, ?_⟩
    · exact setAt_of_ne (fun e => hyi.1 (List.mem_of_getLast? e))
    · exact setAt_of_ne (fun e => hyi.2.2 (List.mem_of_mem_head? e))

/-- **Exchanging a node with its predecessor** `y`: the node moves one place towards the front. -/
theorem swapPrev (h : Family next prev q) {i : ι} {x y : α} {l₁ l₂ : List α}
    (hq : q i = l₁ ++ y :: x :: l₂) :
    Family
      (setAt (Function.update (Function.update next y (next x)) x (some y)) (prev y) (some x))
      (Function.update (Function.update (setAt prev (next x) (some y)) x (prev y)) y (some x))
      (Function.update q i (l₁ ++ x :: y :: l₂)) := by
  have hp := (h.neighbours hq).1
  have hn : next x = l₂.head? :=
    (h.neighbours (show q i = (l₁ ++ [y]) ++ x :: l₂ by rw [hq]; simp)).2
  have hd := h.nodup i
  have hs := h.seg i
  rw [hq] at hd hs
  rw [seg_append, seg_cons, seg_cons] at hs
  rw [List.nodup_append, List.nodup_cons, List.nodup_cons] at hd
  obtain ⟨hd₁, ⟨hy₂, hx₂, hd₂⟩, hdis⟩ := hd
  have hxy : x ≠ y := fun e => hy₂ (by simp [e])
  have hy₂ : y ∉ l₂ := fun hm => hy₂ (List.mem_cons_of_mem x hm)
  have hy₁ : y ∉ l₁ := fun hm => hdis y hm y (by simp) rfl
  have hx₁ : x ∉ l₁ := fun hm => hdis x hm x (by simp) rfl
  have h₁₂ : ∀ z ∈ l₁, z ∉ l₂ := fun z hz hm => hdis z hz z (by simp [hm]) rfl
  have hhead : ∀ z ∈ l₁, l₂.head? ≠ some z := fun z hz e => h₁₂ z hz (List.mem_of_mem_head? e)
  have hlast : ∀ z, z ∉ l₁ → l₁.getLast? ≠ some z := fun z hz e => hz (List.mem_of_getLast? e)
  rw [hp, hn]
  refine h.replace ?_ ?_ ?_
  · rw [seg_append, seg_cons, seg_cons]
    refine ⟨?_, ⟨?_, ?_, ?_, ?_, ?_⟩⟩
    · refine (hs.1.set_last hd₁ (some x)).congr (fun z hz => ?_) (fun z hz => ?_)
      · have hzx : z ≠ x := fun e => hx₁ (e ▸ hz)
        have hzy : z ≠ y := fun e => hy₁ (e ▸ hz)
        cases hl : l₁.getLast? with
        | none => rw [List.getLast?_eq_none_iff] at hl; rw [hl] at hz; simp at hz
        | some w => simp [Function.update_apply, hzx, hzy]
      · have hzx : z ≠ x := fun e => hx₁ (e ▸ hz)
        have hzy : z ≠ y := fun e => hy₁ (e ▸ hz)
        rw [Function.update_of_ne hzy, Function.update_of_ne hzx, setAt_of_ne (hhead z hz)]
    · rw [Function.update_of_ne hxy, Function.update_self]; simp
    · rw [setAt_of_ne (hlast x hx₁), Function.update_self]; simp
    · rw [Function.update_self]
    · rw [setAt_of_ne (hlast y hy₁), Function.update_of_ne (Ne.symm hxy), Function.update_self]; simp
    · refine (hs.2.2.2.2.2.set_head hd₂ (some y)).congr (fun z hz => ?_) (fun z hz => ?_)
      · have hz₁ : z ∉ l₁ := fun hm => h₁₂ z hm hz
        have hzx : z ≠ x := fun e => hx₂ (e ▸ hz)
        have hzy : z ≠ y := fun e => hy₂ (e ▸ hz)
        rw [setAt_of_ne (hlast z hz₁), Function.update_of_ne hzx, Function.update_of_ne hzy]
      · have hzx : z ≠ x := fun e => hx₂ (e ▸ hz)
        have hzy : z ≠ y := fun e => hy₂ (e ▸ hz)
        rw [Function.update_of_ne hzy, Function.update_of_ne hzx]
  · rw [List.nodup_append, List.nodup_cons, List.nodup_cons]
    refine ⟨hd₁, ⟨by simp [hxy, hx₂], hy₂, hd₂⟩, fun z hz w hw e => ?_⟩
    subst e
    rcases List.mem_cons.mp hw with rfl | hw
    · exact hx₁ hz
    · rcases List.mem_cons.mp hw with rfl | hw
      · exact hy₁ hz
      · exact h₁₂ z hz hw
  · intro j z hj hz
    have hzi : z ∉ q i := fun hm => hj (h.disjoint j i z hz hm)
    rw [hq] at hzi
    simp only [List.mem_append, List.mem_cons, not_or] at hzi
    obtain ⟨hz₁, hzy, hzx, hz₂⟩ := hzi
    refine ⟨by simp [hz₁, hzx, hzy, hz₂], ?_, ?_⟩
    · rw [setAt_of_ne (hlast z hz₁), Function.update_of_ne hzx, Function.update_of_ne hzy]
    · rw [Function.update_of_ne hzy, Function.update_of_ne hzx,
        setAt_of_ne (fun e => hz₂ (List.mem_of_mem_head? e))]

end Family

/-! ## The ends of a queue after unlinking -/

section Ends

variable {next prev : α → Option α} {q : ι → List α} {i : ι} {x : α} {l₁ l₂ : List α}

/-- The head pointer after unlinking `x`: it moves on only when it pointed at `x`. -/
theorem Family.head_remove (h : Family next prev q) (hq : q i = l₁ ++ x :: l₂) :
    (if (q i).head? = some x then next x else (q i).head?) = (l₁ ++ l₂).head? := by
  obtain ⟨-, hn⟩ := h.neighbours hq
  have hd := h.nodup i
  rw [hq] at hd ⊢
  cases l₁ with
  | nil => simpa using hn
  | cons y ys =>
      have hyx : y ≠ x := by
        rintro rfl
        simp at hd
      simp [hyx]

/-- The tail pointer after unlinking `x`: it moves back only when it pointed at `x`. -/
theorem Family.last_remove (h : Family next prev q) (hq : q i = l₁ ++ x :: l₂) :
    (if (q i).getLast? = some x then prev x else (q i).getLast?) = (l₁ ++ l₂).getLast? := by
  obtain ⟨hp, -⟩ := h.neighbours hq
  have hd := h.nodup i
  rw [hq] at hd ⊢
  rcases List.eq_nil_or_concat l₂ with rfl | ⟨ys, y, rfl⟩
  · simpa using hp
  · have hyx : y ≠ x := by
      rintro rfl
      simp [List.nodup_append] at hd
    simp [hyx, List.getLast?_append, List.getLast?_cons]

end Ends

end DoublyLinked
