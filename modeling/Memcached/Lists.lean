import Memcached.Invariant

/-! # The lists, walked

The LRU lists, free lists and hash chains as a reader of the pointers finds them, and that these
are the lists of the invariant.

* **`lruList`**, **`freeList`**, **`chainList`** — the walks.
* **`lruList_eq`**, **`freeList_eq`**, **`chainList_eq`** — what they read. -/

namespace Memcached

open CNumber (Bytes)

namespace Store

variable (s : Store)

/-- LRU list `c` from its head, crawler included. -/
def lruList (c : ℕ) : List Ptr := SinglyLinked.walk s.next (s.sizes c + 1) (s.heads c)

/-- The free list of class `id`. -/
def freeList (id : ℕ) : List Ptr :=
  SinglyLinked.walk s.next (s.slabclass id).slCurr (s.slabclass id).slots

/-- The chain of bucket `b`. -/
def chainList (b : Bucket) : List Ptr := SinglyLinked.walk s.hNext s.hashItems (s.hashtable b)

end Store

variable {cfg : Settings} {s : Store} {g : Ghost} {L : Layout} {p : Ptr}

namespace WellFormed

/-- An LRU list holds the items of its class, and a crawler at most. -/
theorem length_lru_le (h : WellFormed cfg s g L) (c : ℕ) :
    (L.queue (.lru c)).length ≤ s.sizes c + 1 := by
  have hnd := h.family.nodup (.lru c)
  have hle : (L.queue (.lru c)).length ≤ ((L.queue (.lru c)).erase (.crawler c)).length + 1 := by
    rw [List.length_erase]
    split <;> omega
  refine hle.trans (Nat.succ_le_succ ?_)
  rw [h.sizes, ← List.toFinset_card_of_nodup (hnd.erase _)]
  refine Finset.card_le_card fun p hp => ?_
  have hm := List.mem_toFinset.mp hp
  obtain ⟨hl, hc⟩ := (h.mem_lru p c).mp (List.mem_of_mem_erase hm)
  refine Finset.mem_filter.mpr ⟨(h.mem_linked p).mpr ⟨?_, hl⟩, hc⟩
  cases p with
  | chunk a => rfl
  | crawler i =>
      obtain rfl : i = c := (h.crawler i hl).2.1.symm.trans hc
      exact absurd rfl ((hnd.mem_erase_iff).mp hm).1

/-- Reading an LRU list gives its queue. -/
theorem lruList_eq (h : WellFormed cfg s g L) (c : ℕ) : s.lruList c = L.queue (.lru c) := by
  rw [Store.lruList, h.heads]
  exact SinglyLinked.walk_eq (.of_doubly (h.family.seg _)) (h.length_lru_le c)

/-- Reading a free list gives its queue. -/
theorem freeList_eq (h : WellFormed cfg s g L) (id : ℕ) : s.freeList id = L.queue (.free id) := by
  rw [Store.freeList, h.slots, h.slCurr]
  exact SinglyLinked.walk_eq (.of_doubly (h.family.seg _)) le_rfl

/-- Reading a hash chain gives its chain. -/
theorem chainList_eq (h : WellFormed cfg s g L) (b : Bucket) : s.chainList b = L.chain b := by
  rw [Store.chainList, h.chains.head_eq]
  exact SinglyLinked.walk_eq (h.chains.seg b) (h.length_chain_le b)

/-- A linked item is on the LRU list of its class. -/
theorem mem_lruList (h : WellFormed cfg s g L) (hp : p.isChunk = true) (c : ℕ) :
    p ∈ s.lruList c ↔ s.Linked p ∧ s.slabsClsid p = c := by
  rw [h.lruList_eq, h.mem_lru, Store.Linked, and_iff_right hp]

/-- A linked item is on the chain of its key's bucket. -/
theorem mem_chainList (h : WellFormed cfg s g L) (b : Bucket) :
    p ∈ s.chainList b ↔ s.Linked p ∧ s.bucketOf (cfg.hash (s.key p)) = b := by
  rw [h.chainList_eq, h.mem_chain]

end WellFormed

end Memcached
