import Mathlib.Algebra.Order.BigOperators.Group.Finset
import Memcached.Lists
import Memcached.System

/-! # The hash table as a map

`assoc.c` on its own: insertion, deletion, lookup, expansion and the migration of one bucket after
the other, in any order. The buckets of the two tables hold a finite set of items, and a lookup
finds the item of a key wherever it has got to.

* **`HashTable`** — the finite set of items that the buckets hold.
* **`TableOp.InRange`** — a table whose bucket numbers fit an `int`.
* **`hashTable_refines`**, **`hashTable_loses`** — such a table is a map, and a larger one is not. -/

namespace Memcached

open SinglyLinked (Chains)
open CNumber (Bytes)
open Transition (Run)

variable {cfg : Settings} {s s' : Store} {P : Finset Ptr} {q : Bucket → List Ptr} {p : Ptr}
  {key : Bytes}

/-! ## The invariant -/

/-- **The hash table holds the items `P`**, each in the chain of its key's bucket. -/
structure HashTable (cfg : Settings) (s : Store) (P : Finset Ptr) (q : Bucket → List Ptr) :
    Prop where
  /-- The buckets lead to the chains. -/
  chains : Chains s.hNext s.hashtable q
  /-- Where an item is. -/
  mem_chain : ∀ p b, p ∈ q b ↔ p ∈ P ∧ s.bucketOf (cfg.hash (s.key p)) = b
  /-- Two items have different keys. -/
  key_inj : ∀ p p', p ∈ P → p' ∈ P → s.key p = s.key p' → p = p'
  /-- `hash_items` counts them. -/
  hashItems : s.hashItems = P.card
  /-- While the table expands, there are buckets left to migrate. -/
  expandBucket : s.expanding = true → s.expandBucket < 2 ^ (s.hashpower - 1)
  /-- A table that expands has been doubled. -/
  hashpower : 1 ≤ s.hashpower

namespace HashTable

/-- A chain is no longer than the table. -/
theorem length_le (h : HashTable cfg s P q) (b : Bucket) : (q b).length ≤ s.hashItems := by
  rw [h.hashItems, ← List.toFinset_card_of_nodup (h.chains.nodup b)]
  exact Finset.card_le_card fun p hp => ((h.mem_chain p b).mp (List.mem_toFinset.mp hp)).1

/-- A walk along a bucket finds its chain. -/
theorem chainList_eq (h : HashTable cfg s P q) (b : Bucket) : s.chainList b = q b := by
  rw [Store.chainList, h.chains.head_eq]
  exact SinglyLinked.walk_eq (h.chains.seg b) (h.length_le b)

/-- Nothing is kept in front of the table. -/
theorem outside_eq_nil (h : HashTable cfg s P q) (i : ℕ) : q (.outside i) = [] := by
  refine List.eq_nil_iff_forall_not_mem.mpr fun p hp => ?_
  have hb := ((h.mem_chain p _).mp hp).2
  rw [Store.bucketOf] at hb
  split at hb <;> exact absurd hb (by simp)

/-- **`assoc_find` finds the item with the key.** -/
theorem assocFind_eq_some (h : HashTable cfg s P q) :
    s.assocFind key (cfg.hash key) = some p ↔ p ∈ P ∧ s.key p = key := by
  have hfind : s.assocFind key (cfg.hash key)
      = (q (s.bucketOf (cfg.hash key))).find? (s.hasKey key) := by
    rw [Store.assocFind, h.chains.head_eq]
    exact SinglyLinked.find_eq (h.chains.seg _) (h.length_le _)
  rw [hfind]
  have hiff : ∀ r, (q (s.bucketOf (cfg.hash key))).find? (s.hasKey key) = some r →
      r ∈ P ∧ s.key r = key := fun r e =>
    ⟨((h.mem_chain r _).mp (List.mem_of_find?_eq_some e)).1,
      by simpa [Store.hasKey] using List.find?_some e⟩
  constructor
  · exact hiff p
  · rintro ⟨hp, rfl⟩
    have hmem : p ∈ q (s.bucketOf (cfg.hash (s.key p))) := (h.mem_chain p _).mpr ⟨hp, rfl⟩
    cases e : (q (s.bucketOf (cfg.hash (s.key p)))).find? (s.hasKey (s.key p)) with
    | none => exact absurd (List.find?_eq_none.mp e p hmem) (by simp [Store.hasKey])
    | some r =>
        obtain ⟨hr, hk⟩ := hiff r e
        rw [h.key_inj r p hr hp hk]

/-- `_hashitem_before` finds an item and its predecessor on the chain. -/
theorem hashitemBefore_eq (h : HashTable cfg s P q) (hp : p ∈ P) {l₁ l₂ : List Ptr}
    (hq : q (s.bucketOf (cfg.hash (s.key p))) = l₁ ++ p :: l₂) :
    s.hashitemBefore (s.key p) (cfg.hash (s.key p)) = (l₁.getLast?, some p) := by
  have hd := h.chains.nodup (s.bucketOf (cfg.hash (s.key p)))
  have hlen := h.length_le (s.bucketOf (cfg.hash (s.key p)))
  have hseg := h.chains.seg (s.bucketOf (cfg.hash (s.key p)))
  rw [hq] at hd hlen hseg
  rw [Store.hashitemBefore, h.chains.head_eq, hq,
    SinglyLinked.before_eq none hseg hlen (fun y hy => ?_) (by simp [Store.hasKey])]
  · simp
  · have hy' : y ∈ q (s.bucketOf (cfg.hash (s.key p))) := by simp [hq, hy]
    by_contra hk
    obtain rfl : y = p := h.key_inj y p ((h.mem_chain y _).mp hy').1 hp
      (by simpa [Store.hasKey] using hk)
    exact (List.nodup_append.mp hd).2.2 y hy y (by simp) rfl

end HashTable

/-! ## Insertion and deletion -/

namespace HashTable

/-- **`assoc_insert`** of an item whose key is not in the table. -/
theorem assocInsert (h : HashTable cfg s P q) (hp : p ∉ P)
    (hkey : ∀ r ∈ P, s.key r ≠ s.key p) :
    ∃ q', HashTable cfg (s.assocInsert p (cfg.hash (s.key p))) (insert p P) q' := by
  have hout : ∀ b, p ∉ q b := fun b hm => hp ((h.mem_chain p b).mp hm).1
  refine ⟨_, h.chains.insert hout (s.bucketOf (cfg.hash (s.key p))), fun r b => ?_,
    fun r r' hr hr' hk => ?_, ?_, h.expandBucket, h.hashpower⟩
  · show _ ↔ r ∈ insert p P ∧ s.bucketOf (cfg.hash (s.key r)) = b
    by_cases hb : b = s.bucketOf (cfg.hash (s.key p))
    · subst hb
      rw [Function.update_self, List.mem_cons, h.mem_chain, Finset.mem_insert]
      constructor
      · rintro (rfl | ⟨hr, he⟩)
        · exact ⟨Or.inl rfl, rfl⟩
        · exact ⟨Or.inr hr, he⟩
      · rintro ⟨rfl | hr, he⟩
        · exact Or.inl rfl
        · exact Or.inr ⟨hr, he⟩
    · rw [Function.update_of_ne hb, h.mem_chain, Finset.mem_insert]
      refine ⟨fun hr => ⟨Or.inr hr.1, hr.2⟩, ?_⟩
      rintro ⟨rfl | hr, he⟩
      · exact absurd he.symm hb
      · exact ⟨hr, he⟩
  · have hk : s.key r = s.key r' := hk
    rcases Finset.mem_insert.mp hr with e | hm <;> rcases Finset.mem_insert.mp hr' with e' | hm'
    · exact e.trans e'.symm
    · exact absurd (hk.symm.trans (congrArg s.key e)) (hkey r' hm')
    · exact absurd (hk.trans (congrArg s.key e')) (hkey r hm)
    · exact h.key_inj r r' hm hm' hk
  · show s.hashItems + 1 = _
    rw [Finset.card_insert_of_notMem hp, h.hashItems]

/-- **`assoc_delete`** of the key of an item in the table. -/
theorem assocDelete (h : HashTable cfg s P q) (hp : p ∈ P) :
    ∃ q', HashTable cfg (s.assocDelete (s.key p) (cfg.hash (s.key p))) (P.erase p) q' := by
  obtain ⟨l₁, l₂, hq⟩ := List.append_of_mem ((h.mem_chain p _).mpr ⟨hp, rfl⟩)
  have hd := h.chains.nodup (s.bucketOf (cfg.hash (s.key p)))
  rw [Store.assocDelete, h.hashitemBefore_eq hp hq]
  refine ⟨_, h.chains.remove hq, fun r b => ?_, fun r r' hr hr' hk => ?_, ?_, h.expandBucket,
    h.hashpower⟩
  · show _ ↔ r ∈ P.erase p ∧ s.bucketOf (cfg.hash (s.key r)) = b
    rw [hq] at hd
    have hp₁ : p ∉ l₁ ++ l₂ := by
      rw [List.nodup_append, List.nodup_cons] at hd
      rw [List.mem_append, not_or]
      exact ⟨fun hm => hd.2.2 p hm p (by simp) rfl, hd.2.1.1⟩
    by_cases hb : b = s.bucketOf (cfg.hash (s.key p))
    · subst hb
      have hm := h.mem_chain r (s.bucketOf (cfg.hash (s.key p)))
      rw [hq] at hm
      rw [Function.update_self, Finset.mem_erase, and_assoc, ← hm]
      constructor
      · intro hr
        refine ⟨fun e => hp₁ (e ▸ hr), ?_⟩
        rcases List.mem_append.mp hr with hr | hr <;> simp [hr]
      · rintro ⟨hne, hr⟩
        simpa [hne] using hr
    · rw [Function.update_of_ne hb, h.mem_chain, Finset.mem_erase]
      exact ⟨fun hr => ⟨⟨fun e => hb (by rw [← hr.2, e]), hr.1⟩, hr.2⟩, fun hr => ⟨hr.1.2, hr.2⟩⟩
  · exact h.key_inj r r' (Finset.mem_of_mem_erase hr) (Finset.mem_of_mem_erase hr') hk
  · show s.hashItems - 1 = _
    rw [Finset.card_erase_of_mem hp, h.hashItems]

/-! ## Expansion -/

/-- The chains when the table in use has become the old one. -/
def demoted (q : Bucket → List Ptr) : Bucket → List Ptr
  | .primary _ => []
  | .old i => q (.primary i)
  | .outside _ => []

/-- **`assoc_expand`**: the table in use becomes the old one, with nothing migrated yet. -/
theorem assocExpand (h : HashTable cfg s P q) (hoff : s.expanding = false) (callocOk : Bool) :
    ∃ q', HashTable cfg (s.assocExpand callocOk) P q' := by
  cases callocOk with
  | false => exact ⟨q, h⟩
  | true =>
      refine ⟨demoted q,
        ⟨fun b => ?_, fun b => ?_, fun b => ?_, fun b b' x hx hx' => ?_⟩, fun p b => ?_, h.key_inj,
        h.hashItems, fun _ => Nat.two_pow_pos _, Nat.le_add_left 1 _⟩
      · cases b with
        | primary i => rfl
        | old i => exact h.chains.head_eq (.primary i)
        | outside i => exact (h.chains.head_eq (.outside i)).trans (by rw [h.outside_eq_nil]; rfl)
      · cases b with
        | primary i | outside i => trivial
        | old i => exact h.chains.seg (.primary i)
      · cases b with
        | primary i | outside i => exact List.nodup_nil
        | old i => exact h.chains.nodup (.primary i)
      · cases b with
        | primary i | outside i => exact absurd hx (by simp [demoted])
        | old i =>
            cases b' with
            | primary j | outside j => exact absurd hx' (by simp [demoted])
            | old j => rw [Bucket.primary.inj (h.chains.disjoint _ _ x hx hx')]
      · have hold : (s.assocExpand true).bucketOf (cfg.hash (s.key p))
            = .old (cfg.hash (s.key p) &&& hashmask s.hashpower) := by
          simp [Store.bucketOf, Store.assocExpand]
        have hnew : s.bucketOf (cfg.hash (s.key p))
            = .primary (cfg.hash (s.key p) &&& hashmask s.hashpower) := by
          simp [Store.bucketOf, hoff]
        show _ ↔ p ∈ P ∧ (s.assocExpand true).bucketOf (cfg.hash (s.key p)) = b
        rw [hold]
        cases b with
        | primary i | outside i => simp [demoted]
        | old i =>
            have := h.mem_chain p (.primary i)
            rw [hnew] at this
            simpa [demoted] using this

end HashTable

/-! ## Migration -/

/-- The loop of the migration keeps everything but the links. -/
theorem migrateChain_frame (cfg : Settings) (n : ℕ) (it : Option Ptr) (s : Store) :
    ∃ a b, Store.migrateChain cfg n it s = { s with hNext := a, hashtable := b } := by
  induction n generalizing it s with
  | zero => exact ⟨_, _, rfl⟩
  | succ n ih =>
      cases it with
      | none => exact ⟨_, _, rfl⟩
      | some it =>
          rw [Store.migrateChain]
          obtain ⟨a, b, e⟩ := ih (s.hNext it) { s with
            hNext := Function.update s.hNext it (s.hashtable (.ofInt
              (CNumber.toInt32 (cfg.hash (s.key it) &&& hashmask s.hashpower : ℕ))))
            hashtable := Function.update s.hashtable (.ofInt
              (CNumber.toInt32 (cfg.hash (s.key it) &&& hashmask s.hashpower : ℕ))) (some it) }
          exact ⟨a, b, e⟩

/-- An index that an `int` can hold is one of the table. -/
theorem Bucket.ofInt_toInt32 {n : ℕ} (h : n < 2 ^ 31) :
    Bucket.ofInt (CNumber.toInt32 n) = .primary n := by
  rw [CNumber.toInt32_of_bounds (by omega) (by omega), Bucket.ofInt, if_pos (by omega)]
  rfl

/-- **The loop of the migration**: the rest `l` of the old bucket `e` ends up in the new buckets. -/
theorem chains_migrateChain (cfg : Settings) {l : List Ptr} {n e : ℕ} (hn : l.length ≤ n)
    (hl : q (.old e) = l) (hfit : ∀ p ∈ l, cfg.hash (s.key p) &&& hashmask s.hashpower < 2 ^ 31)
    (h : Chains s.hNext (Function.update s.hashtable (.old e) l.head?) q) :
    ∃ q', Chains (Store.migrateChain cfg n l.head? s).hNext
        (Function.update (Store.migrateChain cfg n l.head? s).hashtable (.old e) none) q' ∧
      ∀ p b, p ∈ q' b ↔ b ≠ .old e ∧ p ∈ q b ∨
        p ∈ l ∧ b = .primary (cfg.hash (s.key p) &&& hashmask s.hashpower) := by
  -- by induction on the rest of the old bucket; what has moved is in the new ones
  induction l generalizing s q n with
  | nil =>
      have hrun : Store.migrateChain cfg n none s = s := by cases n <;> rfl
      refine ⟨q, by rw [List.head?_nil, hrun]; exact h, fun p b => ?_⟩
      constructor
      · intro hm
        refine Or.inl ⟨?_, hm⟩
        rintro rfl
        simp [hl] at hm
      · rintro (hm | hm)
        · exact hm.2
        · simp at hm
  | cons x l ih =>
      obtain ⟨n, rfl⟩ := Nat.exists_eq_succ_of_ne_zero (by rintro rfl; simp at hn : n ≠ 0)
      set b₀ := Bucket.primary (cfg.hash (s.key x) &&& hashmask s.hashpower) with hb₀
      have hne : b₀ ≠ .old e := by simp [hb₀]
      have hnext : s.hNext x = l.head? := by
        have := h.seg (.old e)
        rw [hl] at this
        exact this.1
      have hx : x ∉ l := (List.nodup_cons.mp (hl ▸ h.nodup (.old e))).1
      -- `x` leaves the old bucket and enters the new one
      have hrem := h.remove (i := .old e) (show _ = [] ++ x :: l from hl)
      simp only [List.getLast?_nil, Option.isNone_none, if_true, DoublyLinked.setAt,
        Function.update_idem, List.nil_append, hnext] at hrem
      have hout : ∀ b, x ∉ Function.update q (.old e) l b := by
        intro b hm
        by_cases hb : b = .old e
        · subst hb
          rw [Function.update_self] at hm
          exact hx hm
        · rw [Function.update_of_ne hb] at hm
          exact hb (h.disjoint b (.old e) x hm (by simp [hl]))
      have hins := hrem.insert hout b₀
      rw [Function.update_idem, Function.update_of_ne hne,
        Function.update_comm hne.symm] at hins
      obtain ⟨q', hc, hm⟩ := ih (s := { s with
          hNext := Function.update s.hNext x (s.hashtable b₀)
          hashtable := Function.update s.hashtable b₀ (some x) })
        (n := n) (by simpa using hn) (by rw [Function.update_of_ne hne.symm, Function.update_self])
        (fun p hp => hfit p (List.mem_cons_of_mem x hp)) hins
      refine ⟨q', ?_, fun p b => ?_⟩
      · rw [List.head?_cons, Store.migrateChain, hnext,
          Bucket.ofInt_toInt32 (hfit x List.mem_cons_self)]
        exact hc
      · rw [hm]
        by_cases hb : b = b₀
        · subst hb
          rw [Function.update_self, Function.update_of_ne hne]
          by_cases hpx : p = x
          · simp [hpx, hb₀]
          · simp [hpx, hb₀]
        · rw [Function.update_of_ne hb]
          by_cases hbe : b = .old e
          · subst hbe
            simp
          · rw [Function.update_of_ne hbe]
            by_cases hpx : p = x
            · subst hpx
              simp [hbe, ← hb₀, hb, hx]
            · simp [hpx, hbe]

/-- The part of a hash value that selects an old bucket. -/
theorem and_hashmask (hv n : ℕ) : hv &&& hashmask n = hv % 2 ^ n := Nat.and_two_pow_sub_one_eq_mod hv n

/-- **A round of the maintenance thread**, if the places of the items it moves are ones that the
`int bucket` can hold, and the `unsigned int expand_bucket` does not wrap. -/
theorem HashTable.migrateBucket (h : HashTable cfg s P q)
    (hwrap : s.expanding = true → s.expandBucket + 1 < 2 ^ 32)
    (hfit : s.expanding = true → ∀ p ∈ s.chainList (.old s.expandBucket),
      cfg.hash (s.key p) &&& hashmask s.hashpower < 2 ^ 31) :
    ∃ q', HashTable cfg (s.migrateBucket cfg) P q' := by
  rw [Store.migrateBucket]
  by_cases hexp : s.expanding = true
  swap
  · rw [if_neg hexp]
    exact ⟨q, h⟩
  rw [if_pos hexp]
  have hlt := h.expandBucket hexp
  have hfit := hfit hexp
  rw [h.chainList_eq] at hfit
  have hchains : Chains s.hNext
      (Function.update s.hashtable (.old s.expandBucket) (q (.old s.expandBucket)).head?) q := by
    rw [← h.chains.head_eq, Function.update_eq_self]
    exact h.chains
  obtain ⟨q', hc, hm⟩ := chains_migrateChain cfg (h.length_le (.old s.expandBucket)) rfl hfit
    hchains
  rw [← h.chains.head_eq] at hc
  obtain ⟨a, b, e⟩ := migrateChain_frame cfg s.hashItems (s.hashtable (.old s.expandBucket)) s
  rw [e] at hc ⊢
  simp only [Nat.mod_eq_of_lt (hwrap hexp)]
  refine ⟨q', hc, fun p c => ?_, h.key_inj, h.hashItems, fun hon => ?_, h.hashpower⟩
  · rw [hm, h.mem_chain, h.mem_chain]
    set hv := cfg.hash (s.key p) with hhv
    have hbefore : s.bucketOf hv = if s.expandBucket ≤ hv % 2 ^ (s.hashpower - 1)
        then .old (hv % 2 ^ (s.hashpower - 1)) else .primary (hv % 2 ^ s.hashpower) := by
      simp only [Store.bucketOf, hexp, Bool.true_and, decide_eq_true_eq, and_hashmask, ge_iff_le]
    have hafter : Store.bucketOf { s with
          hNext := a
          hashtable := Function.update b (.old s.expandBucket) none
          expandBucket := s.expandBucket + 1
          expanding := decide (s.expandBucket + 1 ≠ 2 ^ (s.hashpower - 1)) } hv
        = if s.expandBucket + 1 ≤ hv % 2 ^ (s.hashpower - 1)
          then .old (hv % 2 ^ (s.hashpower - 1)) else .primary (hv % 2 ^ s.hashpower) := by
      have hlt' : hv % 2 ^ (s.hashpower - 1) < 2 ^ (s.hashpower - 1) :=
        Nat.mod_lt _ (Nat.two_pow_pos _)
      simp only [Store.bucketOf, and_hashmask, Bool.and_eq_true, decide_eq_true_eq, ge_iff_le]
      by_cases hc : s.expandBucket + 1 ≤ hv % 2 ^ (s.hashpower - 1)
      · rw [if_pos hc, if_pos ⟨by omega, hc⟩]
      · rw [if_neg hc, if_neg fun hc' => hc hc'.2]
    show _ ↔ p ∈ P ∧ Store.bucketOf _ hv = c
    rw [hafter, hbefore, and_hashmask]
    by_cases hp : p ∈ P
    swap
    · simp [hp]
    simp only [hp, true_and]
    rcases Nat.lt_trichotomy (hv % 2 ^ (s.hashpower - 1)) s.expandBucket with hc | hc | hc
    · rw [if_neg (by omega), if_neg (by omega)]
      constructor
      · rintro (⟨-, rfl⟩ | ⟨hc', -⟩)
        · rfl
        · exact absurd hc' (by simp)
      · rintro rfl
        exact Or.inl ⟨by simp, rfl⟩
    · rw [if_pos (by omega), if_neg (by omega), hc]
      constructor
      · rintro (⟨hne, rfl⟩ | ⟨-, rfl⟩)
        · exact absurd rfl hne
        · rfl
      · rintro rfl
        exact Or.inr ⟨rfl, rfl⟩
    · rw [if_pos (by omega), if_pos (by omega)]
      constructor
      · rintro (⟨-, rfl⟩ | ⟨hc', -⟩)
        · rfl
        · exact absurd (Bucket.old.inj hc') (by omega)
      · rintro rfl
        exact Or.inl ⟨fun hc' => absurd (Bucket.old.inj hc') (by omega), rfl⟩
  · have hon : s.expandBucket + 1 ≠ 2 ^ (s.hashpower - 1) := by simpa using hon
    show s.expandBucket + 1 < 2 ^ (s.hashpower - 1)
    omega

/-! ## Runs -/

/-- What can happen to the table. -/
inductive TableOp
  /-- `assoc_insert` of the item at `p`, whose header holds `key`. -/
  | insert (p : Ptr) (key : Bytes)
  /-- `assoc_delete`. -/
  | delete (key : Bytes)
  /-- `assoc_find`. -/
  | find (key : Bytes)
  /-- `assoc_expand`, with the outcome of its `calloc`. -/
  | expand (callocOk : Bool)
  /-- A round of `assoc_maintenance_thread`. -/
  | migrate

/-- The table after an operation. -/
def Store.tableExec (cfg : Settings) (s : Store) : TableOp → Store
  | .insert p key => ({ s with key := Function.update s.key p key }).assocInsert p (cfg.hash key)
  | .delete key => s.assocDelete key (cfg.hash key)
  | .find _ => s
  | .expand callocOk => s.assocExpand callocOk
  | .migrate => s.migrateBucket cfg

/-- The finite map that the table stands for. -/
abbrev TableMap := Bytes → Option Ptr

/-- The map after an operation. -/
def TableMap.exec (m : TableMap) : TableOp → TableMap
  | .insert p key => Function.update m key (some p)
  | .delete key => Function.update m key none
  | _ => m

/-- A table that `calloc` can give: fewer than `2 ^ 64` bytes. -/
def TableFits (hashpower : ℕ) : Prop := hashpower < 61

/-- When an operation is called: an insertion for a new key with an item that is not in the table, a
deletion for a key that is, an expansion when none is going on. -/
def TableOp.Enabled (s : Store) (m : TableMap) : TableOp → Prop
  | .insert p key => m key = none ∧ ∀ k, m k ≠ some p
  | .delete key => (m key).isSome
  | .expand callocOk => s.expanding = false ∧ (callocOk = true → TableFits (s.hashpower + 1))
  | _ => True

/-- **An operation that keeps to its variables**: `hash_items` and `expand_bucket` do not wrap, and
no item of the bucket that is migrated goes to a place beyond the `int bucket`. -/
def TableOp.InRange (cfg : Settings) (s : Store) : TableOp → Prop
  | .insert _ _ => s.hashItems + 1 < 2 ^ 32
  | .migrate => s.expanding = true → s.expandBucket + 1 < 2 ^ 32 ∧
      ∀ p ∈ s.chainList (.old s.expandBucket),
        cfg.hash (s.key p) &&& hashmask s.hashpower < 2 ^ 31
  | _ => True

/-- A step of the table, and of the map beside it. -/
def TableStep (cfg : Settings) (t : Store × TableMap) (op : TableOp) (t' : Store × TableMap) :
    Prop :=
  op.Enabled t.1 t.2 ∧ t' = (t.1.tableExec cfg op, t.2.exec op)

/-- The table at start-up, with `2 ^ n` buckets. -/
def Store.initTable (n : ℕ) : Store := { Store.init with hashpower := n }

/-- **The table agrees with a map.** -/
structure TableAgrees (cfg : Settings) (s : Store) (m : TableMap) : Prop where
  /-- `assoc_find` returns what the map holds. -/
  find : ∀ key, s.assocFind key (cfg.hash key) = m key
  /-- The chain of a bucket is linked from the bucket to its end. -/
  chain : ∀ b, SinglyLinked.Seg s.hNext (s.chainList b) ∧ s.hashtable b = (s.chainList b).head?
  /-- A present item is once in one chain of one of the tables. -/
  count : ∀ p key, m key = some p →
    ∀ b, (s.chainList b).count p = if b = s.bucketOf (cfg.hash key) then 1 else 0
  /-- Nothing else is in the tables. -/
  present : ∀ b, ∀ p ∈ s.chainList b, ∃ key, m key = some p
  /-- The bucket of a hash value is one that its table has. -/
  bounds : ∀ hv, match s.bucketOf hv with
    | .primary i => i < 2 ^ s.hashpower
    | .old i => i < 2 ^ (s.hashpower - 1)
    | .outside _ => False
  /-- `hash_items` is the number of present items, and an `unsigned int` holds it. -/
  hashItems : ∃ P : Finset Ptr, (∀ p, p ∈ P ↔ ∃ key, m key = some p) ∧ s.hashItems = P.card ∧
    s.hashItems < 2 ^ 32
  /-- When the last bucket has been migrated, nothing is left in the old table. -/
  migrated : s.expanding = false → ∀ i, s.hashtable (.old i) = none

/-- The table holds the items of the map. -/
def TableInv (cfg : Settings) (t : Store × TableMap) : Prop :=
  ∃ P q, HashTable cfg t.1 P q ∧ ∀ key p, t.2 key = some p ↔ p ∈ P ∧ t.1.key p = key

/-- The invariant makes the table agree with the map. -/
theorem TableInv.agrees {m : TableMap} (h : TableInv cfg (s, m)) (hcount : s.hashItems < 2 ^ 32) :
    TableAgrees cfg s m := by
  obtain ⟨P, q, h, hm⟩ := h
  have h : HashTable cfg s P q := h
  have hm : ∀ key p, m key = some p ↔ p ∈ P ∧ s.key p = key := hm
  refine
    { find := fun key => ?_
      chain := fun b => ?_
      count := fun p key hp b => ?_
      present := fun b p hp => ?_
      bounds := fun hv => ?_
      hashItems := ⟨P, fun p => ?_, h.hashItems, hcount⟩
      migrated := fun hoff i => ?_ }
  · ext p
    rw [h.assocFind_eq_some, hm]
  · rw [h.chainList_eq]
    exact ⟨h.chains.seg b, h.chains.head_eq b⟩
  · obtain ⟨hpP, hk⟩ := (hm key p).mp hp
    subst hk
    rw [h.chainList_eq]
    have hmem := h.mem_chain p b
    rw [and_iff_right hpP] at hmem
    split
    · exact List.count_eq_one_of_mem (h.chains.nodup b) (hmem.mpr (Eq.symm ‹_›))
    · exact List.count_eq_zero_of_not_mem fun hc => absurd (hmem.mp hc).symm ‹_›
  · rw [h.chainList_eq] at hp
    exact ⟨s.key p, (hm _ p).mpr ⟨((h.mem_chain p b).mp hp).1, rfl⟩⟩
  · simp only [Store.bucketOf, and_hashmask]
    split
    · rename_i i hi
      split at hi
      · exact absurd hi (by simp)
      · rw [← Bucket.primary.inj hi]
        exact Nat.mod_lt _ (Nat.two_pow_pos _)
    · rename_i i hi
      split at hi
      · rw [← Bucket.old.inj hi]
        exact Nat.mod_lt _ (Nat.two_pow_pos _)
      · exact absurd hi (by simp)
    · rename_i i hi
      split at hi <;> exact absurd hi (by simp)
  · exact ⟨fun hp => ⟨s.key p, (hm _ p).mpr ⟨hp, rfl⟩⟩, fun ⟨key, hk⟩ => ((hm key p).mp hk).1⟩
  · have hnil : q (.old i) = [] := by
      refine List.eq_nil_iff_forall_not_mem.mpr fun p hp => ?_
      have := ((h.mem_chain p _).mp hp).2
      simp [Store.bucketOf, hoff] at this
    rw [h.chains.head_eq, hnil]
    rfl

/-- The table starts empty. -/
theorem tableInv_init (cfg : Settings) {n : ℕ} (hn : 1 ≤ n) :
    TableInv cfg (Store.initTable n, fun _ => none) :=
  ⟨∅, fun _ => [],
    { chains := ⟨fun _ => rfl, fun _ => trivial, fun _ => List.nodup_nil,
        fun _ _ _ h => absurd h (by simp)⟩
      mem_chain := by simp
      key_inj := by simp
      hashItems := rfl
      expandBucket := fun h => Bool.noConfusion h
      hashpower := hn }, by simp⟩

/-- The operations on the table leave the keys alone. -/
theorem key_assocDelete (s : Store) (key : Bytes) (hv : ℕ) :
    (s.assocDelete key hv).key = s.key := by
  obtain ⟨a, b, n, e⟩ := assocDelete_frame (s := s) key hv
  rw [e]

/-- **An operation keeps the table and the map in agreement.** -/
theorem TableInv.step {t t' : Store × TableMap} {op : TableOp} (h : TableInv cfg t)
    (hst : TableStep cfg t op t') (hrange : op.InRange cfg t.1) : TableInv cfg t' := by
  obtain ⟨s, m⟩ := t
  obtain ⟨hen, rfl⟩ := hst
  obtain ⟨P, q, h, hm⟩ := h
  have h : HashTable cfg s P q := h
  have hm : ∀ key p, m key = some p ↔ p ∈ P ∧ s.key p = key := hm
  cases op with
  | find key => exact ⟨P, q, h, hm⟩
  | expand callocOk =>
      -- only the layout changes: the items and their keys are the same
      obtain ⟨q', h'⟩ := h.assocExpand hen.1 callocOk
      refine ⟨P, q', h', ?_⟩
      cases callocOk <;> exact hm
  | migrate =>
      obtain ⟨q', h'⟩ := h.migrateBucket (fun hexp => (hrange hexp).1) fun hexp => (hrange hexp).2
      refine ⟨P, q', h', ?_⟩
      -- a migration moves pointers and writes no key
      have hkey : (s.migrateBucket cfg).key = s.key := by
        rw [Store.migrateBucket]
        split
        · obtain ⟨a, b, e⟩ := migrateChain_frame cfg s.hashItems
            (s.hashtable (.old s.expandBucket)) s
          rw [e]
        · rfl
      intro key p
      show m key = some p ↔ p ∈ P ∧ (s.migrateBucket cfg).key p = key
      rw [hkey]
      exact hm key p
  | delete key =>
      obtain ⟨p, hp⟩ : ∃ p, m key = some p := Option.isSome_iff_exists.mp hen
      obtain ⟨hpP, hk⟩ := (hm key p).mp hp
      subst hk
      obtain ⟨q', h'⟩ := h.assocDelete hpP
      refine ⟨P.erase p, q', h', fun k r => ?_⟩
      show Function.update m (s.key p) none k = some r ↔
        r ∈ P.erase p ∧ (s.assocDelete (s.key p) (cfg.hash (s.key p))).key r = k
      rw [key_assocDelete, Finset.mem_erase]
      -- no other item has the key that is deleted
      by_cases hk : k = s.key p
      · subst hk
        rw [Function.update_self]
        exact ⟨fun hc => absurd hc (by simp), fun hr =>
          absurd (h.key_inj r p hr.1.2 hpP hr.2) hr.1.1⟩
      · rw [Function.update_of_ne hk, hm]
        refine ⟨fun hr => ⟨⟨?_, hr.1⟩, hr.2⟩, fun hr => ⟨hr.1.2, hr.2⟩⟩
        rintro rfl
        exact hk hr.2.symm
  | insert p key =>
      obtain ⟨hnone, hp⟩ : m key = none ∧ ∀ k, m k ≠ some p := hen
      have hp : p ∉ P := fun hc => hp (s.key p) ((hm _ p).mpr ⟨hc, rfl⟩)
      -- the key is written while the item is outside the table
      set s₁ : Store := { s with key := Function.update s.key p key } with hs₁
      have hkeep : ∀ r ∈ P, s₁.key r = s.key r := fun r hr =>
        Function.update_of_ne (fun e : r = p => hp (e ▸ hr)) ..
      have hself : s₁.key p = key := Function.update_self ..
      have h₁ : HashTable cfg s₁ P q :=
        { chains := h.chains
          mem_chain := fun r b => by
            rw [h.mem_chain]
            refine and_congr_right fun hr => ?_
            rw [hkeep r hr]
            exact Iff.rfl
          key_inj := fun r r' hr hr' e =>
            h.key_inj r r' hr hr' ((hkeep r hr).symm.trans (e.trans (hkeep r' hr')))
          hashItems := h.hashItems
          expandBucket := h.expandBucket
          hashpower := h.hashpower }
      have hfresh : ∀ r ∈ P, s₁.key r ≠ s₁.key p := by
        intro r hr e
        rw [hkeep r hr, hself] at e
        have := (hm key r).mpr ⟨hr, e⟩
        rw [hnone] at this
        exact absurd this (by simp)
      obtain ⟨q', h'⟩ := h₁.assocInsert hp hfresh
      rw [hself] at h'
      refine ⟨insert p P, q', h', fun k r => ?_⟩
      show Function.update m key (some p) k = some r ↔ r ∈ insert p P ∧ s₁.key r = k
      rw [Finset.mem_insert]
      by_cases hr : r = p
      · subst hr
        rw [hself]
        by_cases hk : k = key
        · simp [hk]
        · rw [Function.update_of_ne hk, hm]
          exact ⟨fun hc => absurd hc.1 hp, fun hc => absurd hc.2.symm hk⟩
      · by_cases hk : k = key
        · subst hk
          rw [Function.update_self]
          refine ⟨fun e => absurd (Option.some.inj e).symm hr, fun hc => ?_⟩
          have hrP := hc.1.resolve_left hr
          exact absurd (hc.2.trans hself.symm) (hfresh r hrP)
        · rw [Function.update_of_ne hk, hm]
          constructor
          · exact fun hc => ⟨Or.inr hc.1, (hkeep r hc.1).trans hc.2⟩
          · intro hc
            have hrP := hc.1.resolve_left hr
            exact ⟨hrP, (hkeep r hrP).symm.trans hc.2⟩

/-- `hash_items` does not wrap. -/
theorem hashItems_step {t t' : Store × TableMap} {op : TableOp} (h : t.1.hashItems < 2 ^ 32)
    (hst : TableStep cfg t op t') (hrange : op.InRange cfg t.1) : t'.1.hashItems < 2 ^ 32 := by
  obtain ⟨s, m⟩ := t
  obtain ⟨-, rfl⟩ := hst
  cases op with
  | insert p key => exact hrange
  | find key => exact h
  | expand callocOk => cases callocOk <;> exact h
  | delete key =>
      show (s.assocDelete key (cfg.hash key)).hashItems < 2 ^ 32
      rw [Store.assocDelete]
      split
      · exact (Nat.sub_le _ _).trans_lt h
      · exact h
  | migrate =>
      show (s.migrateBucket cfg).hashItems < 2 ^ 32
      rw [Store.migrateBucket]
      split
      · obtain ⟨a, b, e⟩ := migrateChain_frame cfg s.hashItems (s.hashtable (.old s.expandBucket)) s
        rw [e]
        exact h
      · exact h

/-- **The hash table refines a finite map**: after any sequence of insertions, deletions, lookups,
expansions and migration steps that keep to their variables, it agrees with the map of what was
inserted and not deleted. -/
theorem hashTable_refines {n : ℕ} (hn : 1 ≤ n ∧ TableFits n) {ops : List TableOp} {m : TableMap}
    (hr : Run (fun t op t' => TableStep cfg t op t' ∧ op.InRange cfg t.1)
      (Store.initTable n, fun _ => none) ops (s, m)) :
    TableAgrees cfg s m := by
  have hinv : TableInv cfg (s, m) ∧ s.hashItems < 2 ^ 32 :=
    hr.invariant (P := fun t => TableInv cfg t ∧ t.1.hashItems < 2 ^ 32)
      ⟨tableInv_init cfg hn.1, show 0 < 2 ^ 32 by decide⟩
      fun h hst => ⟨h.1.step hst.1 hst.2, hashItems_step h.2 hst.1 hst.2⟩
  exact hinv.1.agrees hinv.2

/-- Up to `2 ^ 31` buckets, the migration keeps to its variables. -/
theorem inRange_migrate (h : s.hashpower ≤ 31)
    (hlt : s.expanding = true → s.expandBucket < 2 ^ (s.hashpower - 1)) :
    TableOp.InRange cfg s .migrate := by
  intro hexp
  have hpow : 2 ^ (s.hashpower - 1) ≤ 2 ^ 30 := Nat.pow_le_pow_right (by decide) (by omega)
  have hbucket := hlt hexp
  refine ⟨by omega, fun p _ => ?_⟩
  rw [and_hashmask]
  calc cfg.hash (s.key p) % 2 ^ s.hashpower < 2 ^ s.hashpower := Nat.mod_lt _ (Nat.two_pow_pos _)
    _ ≤ 2 ^ 31 := Nat.pow_le_pow_right (by decide) h

/-- Settings with the hash value `hv` for every key. -/
def Settings.hashing (hv : ℕ) : Settings := { Settings.small with hash := fun _ => hv }

/-- An item is inserted, the table expands, and its first bucket is migrated. -/
def expandedOps : List TableOp := [.insert (.chunk 0) [107], .expand true, .migrate]

/-- The table in a run of `expandedOps`. -/
def expandedTable (n hv : ℕ) : Store :=
  expandedOps.foldl (fun s op => s.tableExec (.hashing hv) op) (Store.initTable n)

/-- The run of the example, on a table of any size. -/
theorem run_expandedOps {n hv : ℕ} (hn : n < 60) :
    Run (fun t op t' => TableStep (.hashing hv) t op t' ∧
        (n ≤ 30 → op.InRange (.hashing hv) t.1))
      (Store.initTable n, fun _ => none) expandedOps
      (expandedTable n hv, Function.update (fun _ => none) [107] (some (.chunk 0))) := by
  have hmigrate : n ≤ 30 → TableOp.InRange (.hashing hv)
      (((Store.initTable n).tableExec (.hashing hv) (.insert (.chunk 0) [107])).tableExec
        (.hashing hv) (.expand true)) .migrate :=
    fun hle => inRange_migrate (show n + 1 ≤ 31 by omega)
      fun _ => show 0 < 2 ^ (n + 1 - 1) from Nat.two_pow_pos _
  exact .cons (t := ((Store.initTable n).tableExec (.hashing hv) (.insert (.chunk 0) [107]), _))
    ⟨⟨⟨rfl, by simp⟩, rfl⟩, fun _ => show 0 + 1 < 2 ^ 32 by decide⟩
    (.cons ⟨⟨⟨rfl, fun _ => show n + 1 < 61 by omega⟩, rfl⟩, fun _ => trivial⟩
      (.single ⟨⟨trivial, rfl⟩, hmigrate⟩))

/-- In the middle of an expansion, an item that has moved to the upper half of the new table. -/
theorem hashTable_refines_expanding : TableAgrees (.hashing (2 ^ 16)) (expandedTable 16 (2 ^ 16))
    (Function.update (fun _ => none) [107] (some (.chunk 0))) :=
  hashTable_refines ⟨by decide, by unfold TableFits; decide⟩
    ((run_expandedOps (n := 16) (by decide)).mono (P := fun _ => True) trivial
      fun _ h => ⟨⟨h.1, h.2 (by decide)⟩, trivial⟩)

/-- **An item falls out of the table**: of `2 ^ 32` buckets the upper half is out of reach of an
`int`, and the migration moves an item with such a hash value to memory in front of the table. -/
theorem hashTable_loses : ¬ ∀ (cfg : Settings) (n : ℕ), 1 ≤ n ∧ TableFits n →
    ∀ (ops : List TableOp) (s : Store) (m : TableMap),
      Run (TableStep cfg) (Store.initTable n, fun _ => none) ops (s, m) → TableAgrees cfg s m := by
  intro hall
  have hagrees := hall (.hashing (2 ^ 31)) 31 ⟨by decide, by unfold TableFits; decide⟩ _ _ _
    ((run_expandedOps (by decide)).mono (P := fun _ => True) trivial fun _ h => ⟨h.1, trivial⟩)
  have hfind := hagrees.find [107]
  rw [Function.update_self] at hfind
  exact absurd hfind (by decide +kernel)

end Memcached
