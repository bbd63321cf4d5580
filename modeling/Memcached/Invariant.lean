import Memcached.Crawler

/-! # The store invariant

What holds of the store between any two steps: the shape of the LRU lists, free lists and hash
chains, who is on them, the counters, and the reference count of every item. Two things the
program itself does not record are kept beside the store, in `Ghost`: how many references its
callers hold to each item, and the chunk `do_item_alloc` has in hand.

* **`Ghost`** — the references of the callers and the chunk in hand.
* **`WellFormed`** — the shape of the lists and chains, for a given layout.
* **`Inv`** — there is such a layout. -/

namespace Memcached

open DoublyLinked (Family setAt)
open SinglyLinked (Chains)
open CNumber (Bytes)

/-! ## Auxiliary state -/

/-- A doubly linked list through `next` and `prev`: an LRU list, or a slab class's free list. -/
inductive Queue
  | lru (c : ℕ)
  | free (id : ℕ)
  deriving DecidableEq

/-- The part of the state that the program leaves to its callers. -/
structure Ghost where
  /-- The number of references callers hold to an item, not counting the hash table's. -/
  handles : Ptr → ℕ
  /-- The chunk that `do_item_alloc` has taken and not initialised yet. -/
  spare : Option Ptr

namespace Ghost

/-- Nobody holds anything. -/
def empty : Ghost := ⟨fun _ => 0, none⟩

/-- One more reference to `p` is held. -/
def hold (g : Ghost) (p : Ptr) : Ghost :=
  { g with handles := Function.update g.handles p (g.handles p + 1) }

/-- One reference to `p` is given back. -/
def drop (g : Ghost) (p : Ptr) : Ghost :=
  { g with handles := Function.update g.handles p (g.handles p - 1) }

/-- The chunk in hand changes. -/
def withSpare (g : Ghost) (o : Option Ptr) : Ghost := { g with spare := o }

variable (g : Ghost) (p : Ptr)

/-- One more reference. -/
@[simp] theorem handles_hold_self : (g.hold p).handles p = g.handles p + 1 :=
  Function.update_self ..

/-- One reference less. -/
@[simp] theorem handles_drop_self : (g.drop p).handles p = g.handles p - 1 :=
  Function.update_self ..

/-- The references to another item stay. -/
theorem handles_hold_of_ne {p q : Ptr} (h : q ≠ p) : (g.hold p).handles q = g.handles q :=
  Function.update_of_ne h ..

/-- The references to another item stay. -/
theorem handles_drop_of_ne {p q : Ptr} (h : q ≠ p) : (g.drop p).handles q = g.handles q :=
  Function.update_of_ne h ..

/-- A reference does not touch the spare chunk. -/
@[simp] theorem spare_hold : (g.hold p).spare = g.spare := rfl

/-- A reference given back does not touch the spare chunk. -/
@[simp] theorem spare_drop : (g.drop p).spare = g.spare := rfl

/-- Taking a reference, then giving it back. -/
@[simp] theorem drop_hold : (g.hold p).drop p = g := by
  simp [drop, hold]

/-- The order in which references are taken does not matter. -/
theorem hold_comm (g : Ghost) (p q : Ptr) : (g.hold p).hold q = (g.hold q).hold p := by
  by_cases h : p = q
  · rw [h]
  · simp only [hold, Function.update_of_ne h, Function.update_of_ne (Ne.symm h)]
    rw [Function.update_comm h]

end Ghost

/-- The lists that the pointers of a store form. -/
structure Layout where
  /-- The LRU lists and free lists, head first. -/
  queue : Queue → List Ptr
  /-- The hash chains. -/
  chain : Bucket → List Ptr
  /-- The items in the hash table. -/
  linked : Finset Ptr

namespace Store

/-- The item is linked, or some caller refers to it. -/
def InUse (s : Store) (g : Ghost) (p : Ptr) : Prop := s.Linked p ∨ 0 < g.handles p

/-- The references to an item: one for its place in the hash table, and the callers'. -/
def refs (s : Store) (g : Ghost) (p : Ptr) : ℕ :=
  g.handles p + if (s.itFlags p).linked then 1 else 0

/-- The chunk lies in a page some slab class owns. -/
def InPage (cfg : Settings) (s : Store) (p : Ptr) : Prop :=
  ∃ id, ∃ base ∈ (s.slabclass id).slabList, p.inRange base (cfg.pageLen id) = true

end Store

/-! ## The invariant -/

/-- The pointers of the LRU lists and free lists form the lists `q`. -/
structure LruLists (s : Store) (q : Queue → List Ptr) : Prop where
  /-- LRU lists and free lists are doubly linked. -/
  family : Family s.next s.prev q
  /-- `heads` points at the first item of every LRU list. -/
  heads : ∀ c, s.heads c = (q (.lru c)).head?
  /-- `tails` points at the last item. -/
  tails : ∀ c, s.tails c = (q (.lru c)).getLast?

/-- **The store is well formed**: its pointers form the lists of `L`, and flags, counters and
reference counts agree with them. -/
structure WellFormed (cfg : Settings) (s : Store) (g : Ghost) (L : Layout) : Prop extends
    LruLists s L.queue where
  /-- `slots` points at the first chunk of every free list. -/
  slots : ∀ id, (s.slabclass id).slots = (L.queue (.free id)).head?
  /-- `sl_curr` counts the free chunks. -/
  slCurr : ∀ id, (s.slabclass id).slCurr = (L.queue (.free id)).length
  /-- The buckets lead to the hash chains. -/
  chains : Chains s.hNext s.hashtable L.chain
  /-- An item is on the LRU list of its class exactly if its flag says so. -/
  mem_lru : ∀ p c, p ∈ L.queue (.lru c) ↔ (s.itFlags p).linked = true ∧ s.slabsClsid p = c
  /-- An item is on the chain of its key's bucket exactly if it is linked. -/
  mem_chain : ∀ p b, p ∈ L.chain b ↔ s.Linked p ∧ s.bucketOf (cfg.hash (s.key p)) = b
  /-- What `linked` holds. -/
  mem_linked : ∀ p, p ∈ L.linked ↔ s.Linked p
  /-- Free chunks are neither linked nor held. -/
  mem_free : ∀ p id, p ∈ L.queue (.free id) →
    p.isChunk = true ∧ (s.itFlags p).linked = false ∧ g.handles p = 0
  /-- Two linked items have different keys. -/
  key_inj : ∀ p q, s.Linked p → s.Linked q → s.key p = s.key q → p = q
  /-- The header of a crawler that is in its list. -/
  crawler : ∀ i, (s.itFlags (.crawler i)).linked = true →
    s.itFlags (.crawler i) = { linked := true } ∧ s.slabsClsid (.crawler i) = i ∧
      s.time (.crawler i) = 0 ∧ s.nbytes (.crawler i) = 0 ∧ s.key (.crawler i) = []
  /-- Callers refer to real items. -/
  isChunk_of_handles : ∀ p, 0 < g.handles p → p.isChunk = true
  /-- The chunk in hand is in nobody else's. -/
  spare : ∀ p, g.spare = some p → p.isChunk = true ∧ (s.itFlags p).linked = false ∧
    g.handles p = 0 ∧ ∀ id, p ∉ L.queue (.free id)
  /-- `sizes` counts the linked items of every class. -/
  sizes : ∀ c, s.sizes c = (L.linked.filter fun p => s.slabsClsid p = c).card
  /-- `hash_items` counts the linked items. -/
  hashItems : s.hashItems = L.linked.card
  /-- `stats.curr_items` counts the linked items. -/
  currItems : s.currItems = L.linked.card
  /-- `stats.curr_bytes` adds up their sizes. -/
  currBytes : s.currBytes = ∑ p ∈ L.linked, s.itemNtotal p
  /-- An item in use is not marked free. -/
  notSlabbed : ∀ p, s.InUse g p → (s.itFlags p).slabbed = false
  /-- An item in use has a class. -/
  clsid : ∀ p, s.InUse g p → 1 ≤ s.slabsClsid p ∧ s.slabsClsid p ≤ cfg.powerLargest
  /-- **`refcount` is the number of references.** -/
  refcount : ∀ p, s.InUse g p → s.refcount p = s.refs g p
  /-- The references to an item fit into its counter. -/
  refs_lt : ∀ p, s.InUse g p → s.refs g p < refcountModulus
  /-- A value has room for its CRLF. -/
  two_le_nbytes : ∀ p, s.InUse g p → 2 ≤ s.nbytes p
  /-- `nbytes` is the length of the value. -/
  length_data : ∀ p, s.InUse g p → (s.data p).length = s.nbytes p
  /-- Items carry a CAS id exactly if the server uses them. -/
  casFlag : ∀ p, s.InUse g p → (s.itFlags p).cas = cfg.useCas
  /-- Every chunk that is in use, free or in hand lies in a page. -/
  page : ∀ p, s.InUse g p ∨ (∃ id, p ∈ L.queue (.free id)) ∨ g.spare = some p → s.InPage cfg p
  /-- The value of a linked item ends with CRLF. -/
  crlf : ∀ p, s.Linked p → ∃ v, s.data p = v ++ crlf
  /-- A linked item was accessed between start-up and now. -/
  time : ∀ p, s.Linked p → 1 ≤ s.time p ∧ s.time p ≤ s.currentTime
  /-- LRU lists are sorted by access time. -/
  sorted : ∀ c, (L.queue (.lru c)).Pairwise fun p q =>
    p.isChunk = true → q.isChunk = true → s.time q ≤ s.time p
  /-- The clock started past the update interval. -/
  clock : itemUpdateInterval + 2 ≤ s.currentTime

/-- **The store invariant.** -/
def Inv (cfg : Settings) (s : Store) (g : Ghost) : Prop := ∃ L, WellFormed cfg s g L

/-- The lists at start-up. -/
def Layout.empty : Layout := ⟨fun _ => [], fun _ => [], ∅⟩

/-- The invariant holds at start-up. -/
theorem inv_init (cfg : Settings) : Inv cfg Store.init .empty := by
  have hno : ∀ p, ¬ Store.init.Linked p := fun p h => Bool.noConfusion h.2
  have huse : ∀ p, ¬ Store.init.InUse .empty p := fun p h =>
    h.elim (hno p) (fun h => absurd h (lt_irrefl 0))
  exact ⟨.empty,
    { family := ⟨fun _ => trivial, fun _ => List.nodup_nil, fun _ _ _ h => absurd h (by simp [Layout.empty])⟩
      heads := fun _ => rfl
      tails := fun _ => rfl
      slots := fun _ => rfl
      slCurr := fun _ => rfl
      chains := ⟨fun _ => rfl, fun _ => trivial, fun _ => List.nodup_nil,
        fun _ _ _ h => absurd h (by simp [Layout.empty])⟩
      mem_lru := fun p c => by simp [Layout.empty, Store.init]
      mem_chain := fun p b => by simp [Layout.empty, hno]
      mem_linked := fun p => by simp [Layout.empty, hno]
      mem_free := fun p id h => absurd h (by simp [Layout.empty])
      key_inj := fun p _ h => absurd h (hno p)
      crawler := fun i h => Bool.noConfusion h
      isChunk_of_handles := fun p h => absurd h (lt_irrefl 0)
      spare := fun p h => by simp [Ghost.empty] at h
      sizes := fun c => rfl
      hashItems := rfl
      currItems := rfl
      currBytes := rfl
      notSlabbed := fun p h => absurd h (huse p)
      clsid := fun p h => absurd h (huse p)
      refcount := fun p h => absurd h (huse p)
      refs_lt := fun p h => absurd h (huse p)
      two_le_nbytes := fun p h => absurd h (huse p)
      length_data := fun p h => absurd h (huse p)
      casFlag := fun p h => absurd h (huse p)
      page := by
        rintro p (h | ⟨id, h⟩ | h)
        · exact absurd h (huse p)
        · simp [Layout.empty] at h
        · simp [Ghost.empty] at h
      crlf := fun p h => absurd h (hno p)
      time := fun p h => absurd h (hno p)
      sorted := fun _ => List.Pairwise.nil
      clock := le_rfl }⟩

/-! ## Consequences -/

namespace WellFormed

variable {cfg : Settings} {s : Store} {g : Ghost} {L : Layout} {p : Ptr}

/-- What is in use is a chunk. -/
theorem isChunk_of_inUse (h : WellFormed cfg s g L) (hp : s.InUse g p) : p.isChunk = true :=
  hp.elim (fun hl => hl.1) (h.isChunk_of_handles p)

/-- What is in use is on no free list. -/
theorem not_free_of_inUse (h : WellFormed cfg s g L) (hp : s.InUse g p) (id : ℕ) :
    p ∉ L.queue (.free id) := by
  intro hm
  obtain ⟨-, hl, h0⟩ := h.mem_free p id hm
  rcases hp with hp | hp
  · exact absurd hp.2 (by simp [hl])
  · omega

/-- An item that is not marked linked is on no LRU list. -/
theorem not_lru (h : WellFormed cfg s g L) (hp : (s.itFlags p).linked = false) (c : ℕ) :
    p ∉ L.queue (.lru c) :=
  fun hm => absurd ((h.mem_lru p c).mp hm).1 (by simp [hp])

/-- The references to a linked item. -/
theorem refs_of_linked (hp : s.Linked p) : s.refs g p = g.handles p + 1 := by
  rw [Store.refs, if_pos hp.2]

/-- The counter of a linked item. -/
theorem refcount_of_linked (h : WellFormed cfg s g L) (hp : s.Linked p) :
    s.refcount p = g.handles p + 1 :=
  (h.refcount p (Or.inl hp)).trans (refs_of_linked hp)

/-- A chain is no longer than the table. -/
theorem length_chain_le (h : WellFormed cfg s g L) (b : Bucket) :
    (L.chain b).length ≤ s.hashItems := by
  rw [h.hashItems, ← List.toFinset_card_of_nodup (h.chains.nodup b)]
  refine Finset.card_le_card fun p hp => ?_
  exact (h.mem_linked p).mpr ((h.mem_chain p b).mp (List.mem_toFinset.mp hp)).1

/-- `assoc_find` searches the chain of the key's bucket. -/
theorem assocFind_eq (h : WellFormed cfg s g L) (key : Bytes) (hv : ℕ) :
    s.assocFind key hv = (L.chain (s.bucketOf hv)).find? (s.hasKey key) := by
  rw [Store.assocFind, h.chains.head_eq]
  exact SinglyLinked.find_eq (h.chains.seg _) (h.length_chain_le _)

/-- **`assoc_find` finds the linked item with the key.** -/
theorem assocFind_eq_some (h : WellFormed cfg s g L) {key : Bytes} :
    s.assocFind key (cfg.hash key) = some p ↔ s.Linked p ∧ s.key p = key := by
  rw [h.assocFind_eq]
  have hiff : ∀ q, q ∈ L.chain (s.bucketOf (cfg.hash key)) → s.hasKey key q = true →
      s.Linked q ∧ s.key q = key := fun q hm hk =>
    ⟨((h.mem_chain q _).mp hm).1, by simpa [Store.hasKey] using hk⟩
  constructor
  · intro e
    exact hiff p (List.mem_of_find?_eq_some e) (by simpa using List.find?_some e)
  · rintro ⟨hl, rfl⟩
    have hmem : p ∈ L.chain (s.bucketOf (cfg.hash (s.key p))) := (h.mem_chain p _).mpr ⟨hl, rfl⟩
    cases e : (L.chain (s.bucketOf (cfg.hash (s.key p)))).find? (s.hasKey (s.key p)) with
    | none => exact absurd (List.find?_eq_none.mp e p hmem) (by simp [Store.hasKey])
    | some q =>
        obtain ⟨hq, hkey⟩ := hiff q (List.mem_of_find?_eq_some e) (by simpa using List.find?_some e)
        rw [h.key_inj q p hq hl hkey]

/-- `assoc_find` finds nothing where no linked item has the key. -/
theorem assocFind_eq_none (h : WellFormed cfg s g L) {key : Bytes} :
    s.assocFind key (cfg.hash key) = none ↔ ∀ p, s.Linked p → s.key p ≠ key := by
  constructor
  · intro e p hl hk
    have := h.assocFind_eq_some.mpr ⟨hl, hk⟩
    rw [e] at this
    exact absurd this (by simp)
  · intro hno
    cases e : s.assocFind key (cfg.hash key) with
    | none => rfl
    | some p =>
        obtain ⟨hl, hk⟩ := h.assocFind_eq_some.mp e
        exact absurd hk (hno p hl)

/-- `_hashitem_before` finds a linked item and its predecessor on the chain. -/
theorem hashitemBefore_eq (h : WellFormed cfg s g L) (hp : s.Linked p) {l₁ l₂ : List Ptr}
    (hq : L.chain (s.bucketOf (cfg.hash (s.key p))) = l₁ ++ p :: l₂) :
    s.hashitemBefore (s.key p) (cfg.hash (s.key p)) = (l₁.getLast?, some p) := by
  have hd := h.chains.nodup (s.bucketOf (cfg.hash (s.key p)))
  have hlen := h.length_chain_le (s.bucketOf (cfg.hash (s.key p)))
  have hseg := h.chains.seg (s.bucketOf (cfg.hash (s.key p)))
  rw [hq] at hd hlen hseg
  rw [Store.hashitemBefore, h.chains.head_eq, hq,
    SinglyLinked.before_eq none hseg hlen (fun y hy => ?_) (by simp [Store.hasKey])]
  · simp
  · have hy' : y ∈ L.chain (s.bucketOf (cfg.hash (s.key p))) := by simp [hq, hy]
    obtain ⟨hl, -⟩ := (h.mem_chain y _).mp hy'
    by_contra hk
    obtain rfl : y = p := h.key_inj y p hl hp (by simpa [Store.hasKey] using hk)
    exact (List.nodup_append.mp hd).2.2 y hy y (by simp) rfl

end WellFormed

end Memcached
