import Memcached.Lib.SinglyLinked
import Memcached.Lib.CNumber

/-! # The data of the store

The global state that `items.c`, `assoc.c` and `slabs.c` share, as one record `Store`, and the
settings fixed at start-up, `Settings`. Item headers are kept field by field: `s.next p` is
`p->next`, and an assignment `p->next = v` is a `Function.update` of that field. Two items never
share memory, so this is the heap of the program seen one field at a time.

* **`Store`** — the shared state.
* **`Settings`** — what is fixed at start-up.
* **`ItFlags`**, **`SlabClass`**, **`Bucket`** — its parts. -/

namespace Memcached

open CNumber (Bytes)

/-! ## Constants -/

/-- `ITEM_UPDATE_INTERVAL`: an item is moved in its LRU list at most once in this many seconds. -/
def itemUpdateInterval : ℕ := 60

/-- `LARGEST_ID`: the number of LRU lists. -/
def largestId : ℕ := 200

/-- There are more than two lists. -/
theorem two_lt_largestId : 2 < largestId := by decide

/-- `REALTIME_MAXDELTA`: thirty days. -/
def realtimeMaxdelta : ℤ := 60 * 60 * 24 * 30

/-- `sizeof(item)`. -/
def sizeofItem : ℕ := 48

/-- The number of values of the `unsigned short` reference counter. -/
def refcountModulus : ℕ := 65536

/-- The CRLF that ends every stored value. -/
def crlf : Bytes := [13, 10]

/-! ## Pointers and item headers -/

/-- A pointer to an item header: a chunk of a slab page, by its address, or the crawler
pseudo-item of an LRU list. -/
inductive Ptr
  | chunk (addr : ℕ)
  | crawler (clsid : ℕ)
  deriving DecidableEq, Repr

/-- The pointer leads into a slab page. -/
def Ptr.isChunk : Ptr → Bool
  | .chunk _ => true
  | .crawler _ => false

/-- The header lies in the `len` bytes from `base` on. -/
def Ptr.inRange (base len : ℕ) : Ptr → Bool
  | .chunk a => decide (base ≤ a) && decide (a < base + len)
  | .crawler _ => false

/-- `it_flags`, one field a bit. -/
structure ItFlags where
  /-- `ITEM_LINKED`, in the hash table and an LRU list; on a crawler, "enabled". -/
  linked : Bool := false
  /-- `ITEM_CAS`, the header is followed by a CAS id. -/
  cas : Bool := false
  /-- `ITEM_SLABBED`, on a free list of the slab allocator. -/
  slabbed : Bool := false
  /-- `ITEM_FETCHED`, looked up since it was linked. -/
  fetched : Bool := false
  deriving DecidableEq, Repr, Inhabited

namespace ItFlags

variable (fl : ItFlags)

/-- `it_flags |= ITEM_LINKED`. -/
def setLinked : ItFlags := { fl with linked := true }

/-- `it_flags &= ~ITEM_LINKED`. -/
def clearLinked : ItFlags := { fl with linked := false }

/-- `it_flags |= ITEM_SLABBED`. -/
def setSlabbed : ItFlags := { fl with slabbed := true }

/-- `it_flags |= ITEM_FETCHED`. -/
def setFetched : ItFlags := { fl with fetched := true }

@[simp] theorem linked_setLinked : fl.setLinked.linked = true := rfl

@[simp] theorem linked_clearLinked : fl.clearLinked.linked = false := rfl

@[simp] theorem linked_setSlabbed : fl.setSlabbed.linked = fl.linked := rfl

@[simp] theorem linked_setFetched : fl.setFetched.linked = fl.linked := rfl

@[simp] theorem cas_setLinked : fl.setLinked.cas = fl.cas := rfl

@[simp] theorem cas_clearLinked : fl.clearLinked.cas = fl.cas := rfl

@[simp] theorem cas_setSlabbed : fl.setSlabbed.cas = fl.cas := rfl

@[simp] theorem cas_setFetched : fl.setFetched.cas = fl.cas := rfl

@[simp] theorem slabbed_setLinked : fl.setLinked.slabbed = fl.slabbed := rfl

@[simp] theorem slabbed_clearLinked : fl.clearLinked.slabbed = fl.slabbed := rfl

@[simp] theorem slabbed_setFetched : fl.setFetched.slabbed = fl.slabbed := rfl

end ItFlags

/-- The counters of one LRU list that `do_item_alloc` and the crawler keep. -/
structure ItemStats where
  evicted : ℕ := 0
  evictedNonzero : ℕ := 0
  evictedTime : ℕ := 0
  reclaimed : ℕ := 0
  outofmemory : ℕ := 0
  tailrepairs : ℕ := 0
  expiredUnfetched : ℕ := 0
  evictedUnfetched : ℕ := 0
  crawlerReclaimed : ℕ := 0
  lrutailReflocked : ℕ := 0
  deriving DecidableEq, Repr, Inhabited

/-- A bucket of the hash table: of the table in use, or of the one being migrated from. -/
inductive Bucket
  | primary (i : ℕ)
  | old (i : ℕ)
  /-- What a negative index of `primary_hashtable` reaches: memory in front of the table. -/
  | outside (i : ℕ)
  deriving DecidableEq, Repr

/-- The changing part of `slabclass_t`. -/
structure SlabClass where
  /-- `slots`, the first free chunk. -/
  slots : Option Ptr := none
  /-- `sl_curr`, the number of free chunks. -/
  slCurr : ℕ := 0
  /-- `slab_list[0 .. slabs)`, the addresses of the pages. -/
  slabList : List ℕ := []
  /-- `list_size`, the room in `slab_list`. -/
  listSize : ℕ := 0
  /-- `requested`, the bytes asked for in the chunks handed out. -/
  requested : ℤ := 0
  /-- `killing`, one more than the index of the page that is being moved away, `0` for none. -/
  killing : ℕ := 0
  deriving Inhabited

namespace SlabClass

variable (p : SlabClass)

/-- `slabs`, the number of pages. -/
def slabs : ℕ := p.slabList.length

/-- A chunk is put in front of the free list. -/
def push (ptr : Ptr) (size : ℕ) : SlabClass :=
  { p with slots := some ptr, slCurr := p.slCurr + 1, requested := p.requested - size }

/-- The first chunk is taken off the free list, `slots` being the next one. -/
def pop (slots : Option Ptr) (size : ℕ) : SlabClass :=
  { p with slots := slots, slCurr := p.slCurr - 1, requested := p.requested + size }

/-- A page is entered into `slab_list`. -/
def addSlab (ptr : ℕ) : SlabClass := { p with slabList := p.slabList ++ [ptr] }

@[simp] theorem slots_push (ptr : Ptr) (size : ℕ) : (p.push ptr size).slots = some ptr := rfl

@[simp] theorem slCurr_push (ptr : Ptr) (size : ℕ) : (p.push ptr size).slCurr = p.slCurr + 1 := rfl

@[simp] theorem slabList_push (ptr : Ptr) (size : ℕ) :
    (p.push ptr size).slabList = p.slabList := rfl

@[simp] theorem slots_pop (o : Option Ptr) (size : ℕ) : (p.pop o size).slots = o := rfl

@[simp] theorem slCurr_pop (o : Option Ptr) (size : ℕ) : (p.pop o size).slCurr = p.slCurr - 1 := rfl

@[simp] theorem slabList_pop (o : Option Ptr) (size : ℕ) :
    (p.pop o size).slabList = p.slabList := rfl

@[simp] theorem slots_addSlab (ptr : ℕ) : (p.addSlab ptr).slots = p.slots := rfl

@[simp] theorem slCurr_addSlab (ptr : ℕ) : (p.addSlab ptr).slCurr = p.slCurr := rfl

@[simp] theorem slabList_addSlab (ptr : ℕ) : (p.addSlab ptr).slabList = p.slabList ++ [ptr] := rfl

end SlabClass

/-- `slab_rebal`. -/
structure SlabRebalance where
  slabStart : ℕ := 0
  slabEnd : ℕ := 0
  slabPos : ℕ := 0
  sClsid : ℤ := 0
  dClsid : ℤ := 0
  busyItems : ℕ := 0
  done : ℕ := 0
  deriving DecidableEq, Repr, Inhabited

/-! ## Settings -/

/-- The settings and tables fixed once the server has started. -/
structure Settings where
  /-- `settings.use_cas`. -/
  useCas : Bool
  /-- `settings.evict_to_free`. -/
  evictToFree : Bool
  /-- `settings.tail_repair_time`, `0` when tail repair is off. -/
  tailRepairTime : ℕ
  /-- `settings.slab_automove`. -/
  slabAutomove : ℕ
  /-- `settings.slab_reassign`. -/
  slabReassign : Bool
  /-- `settings.item_size_max`. -/
  itemSizeMax : ℕ
  /-- `mem_limit`. -/
  memLimit : ℕ
  /-- `process_started`. -/
  processStarted : ℤ
  /-- The hash function chosen at start-up. -/
  hash : Bytes → ℕ
  /-- `slabclass[id].size`. -/
  slabSize : ℕ → ℕ
  /-- `slabclass[id].perslab`. -/
  perslab : ℕ → ℕ
  /-- `power_largest`. -/
  powerLargest : ℕ
  /-- Chunks are not empty. -/
  slabSize_pos : ∀ id, 0 < slabSize id
  /-- The chunks of a class fit into a page of the largest size. -/
  perslab_fits : ∀ id, slabSize id * perslab id ≤ itemSizeMax
  /-- Every class has an LRU list, as `item_link_q` asserts. -/
  powerLargest_lt : powerLargest < largestId

/-- The length of a page of class `id`. -/
def Settings.pageLen (cfg : Settings) (id : ℕ) : ℕ :=
  if cfg.slabReassign then cfg.itemSizeMax else cfg.slabSize id * cfg.perslab id

/-! ## The store -/

/-- The global state: item headers, LRU lists, hash table, slab classes, statistics and clock. -/
structure Store where
  /-- `it->next`, of an LRU list or a free list. -/
  next : Ptr → Option Ptr
  /-- `it->prev`. -/
  prev : Ptr → Option Ptr
  /-- `it->h_next`. -/
  hNext : Ptr → Option Ptr
  /-- `it->time`, the last access. -/
  time : Ptr → ℕ
  /-- `it->exptime`, `0` for never. -/
  exptime : Ptr → ℕ
  /-- `it->nbytes`, the length of the value with its CRLF. -/
  nbytes : Ptr → ℕ
  /-- `it->refcount`, below `refcountModulus`. -/
  refcount : Ptr → ℕ
  /-- `it->it_flags`. -/
  itFlags : Ptr → ItFlags
  /-- `it->slabs_clsid`. -/
  slabsClsid : Ptr → ℕ
  /-- `it->data->cas`. -/
  cas : Ptr → ℕ
  /-- The `it->nkey` bytes at `ITEM_key(it)`. -/
  key : Ptr → Bytes
  /-- The `it->nsuffix` bytes at `ITEM_suffix(it)`. -/
  suffix : Ptr → Bytes
  /-- The `it->nbytes` bytes at `ITEM_data(it)`. -/
  data : Ptr → Bytes
  /-- `heads`. -/
  heads : ℕ → Option Ptr
  /-- `tails`. -/
  tails : ℕ → Option Ptr
  /-- `sizes`. The source's `unsigned int`s hold these numbers, and the two counts of items below,
  modulo `2 ^ 32`. -/
  sizes : ℕ → ℕ
  /-- `itemstats`. -/
  itemstats : ℕ → ItemStats
  /-- The counter behind `get_cas_id`. -/
  casId : ℕ
  /-- `crawler_count`. -/
  crawlerCount : ℕ
  /-- `crawlers[i].remaining`. -/
  remaining : ℕ → ℕ
  /-- `primary_hashtable` and `old_hashtable`. -/
  hashtable : Bucket → Option Ptr
  /-- `hashpower`. -/
  hashpower : ℕ
  /-- `expanding`. -/
  expanding : Bool
  /-- `started_expanding`. -/
  startedExpanding : Bool
  /-- `expand_bucket`. -/
  expandBucket : ℕ
  /-- `hash_items`. -/
  hashItems : ℕ
  /-- `slabclass`. -/
  slabclass : ℕ → SlabClass
  /-- `mem_malloced`. -/
  memMalloced : ℕ
  /-- `slab_rebalance_signal`. -/
  slabRebalanceSignal : ℕ
  /-- `slab_rebal`. -/
  slabRebal : SlabRebalance
  /-- `cur` of `slabs_reassign_pick_any`. -/
  pickAnyCur : ℕ
  /-- `stats.curr_items`. -/
  currItems : ℕ
  /-- `stats.total_items`. -/
  totalItems : ℕ
  /-- `stats.curr_bytes`. -/
  currBytes : ℕ
  /-- `current_time`. -/
  currentTime : ℕ
  /-- `settings.oldest_live`. -/
  oldestLive : ℕ

/-- The store at start-up. `process_started` lies `ITEM_UPDATE_INTERVAL + 2` seconds back, so the
clock starts there. -/
def Store.init : Store where
  next _ := none
  prev _ := none
  hNext _ := none
  time _ := 0
  exptime _ := 0
  nbytes _ := 0
  refcount _ := 0
  itFlags _ := {}
  slabsClsid _ := 0
  cas _ := 0
  key _ := []
  suffix _ := []
  data _ := []
  heads _ := none
  tails _ := none
  sizes _ := 0
  itemstats _ := {}
  casId := 0
  crawlerCount := 0
  remaining _ := 0
  hashtable _ := none
  hashpower := 16
  expanding := false
  startedExpanding := false
  expandBucket := 0
  hashItems := 0
  slabclass _ := {}
  memMalloced := 0
  slabRebalanceSignal := 0
  slabRebal := {}
  pickAnyCur := 0
  currItems := 0
  totalItems := 0
  currBytes := 0
  currentTime := itemUpdateInterval + 2
  oldestLive := 0

namespace Store

variable (s : Store) (it : Ptr)

/-! ## Item macros -/

/-- `it->nkey`. -/
def nkey : ℕ := (s.key it).length

/-- `it->nsuffix`. -/
def nsuffix : ℕ := (s.suffix it).length

/-- `ITEM_get_cas(it)`. -/
def itemGetCas : ℕ := if (s.itFlags it).cas then s.cas it else 0

/-- `ITEM_set_cas(it, v)`. -/
def itemSetCas (v : ℕ) : Store :=
  { s with cas := if (s.itFlags it).cas then Function.update s.cas it v else s.cas }

/-- `ITEM_ntotal(it)`. -/
def itemNtotal : ℕ :=
  sizeofItem + s.nkey it + 1 + s.nsuffix it + s.nbytes it
    + (if (s.itFlags it).cas then 8 else 0)

/-- `refcount_incr(&it->refcount)`; the returned count is the new `refcount`. -/
def refcountIncr : Store :=
  { s with refcount := Function.update s.refcount it ((s.refcount it + 1) % refcountModulus) }

/-- `refcount_decr(&it->refcount)`. -/
def refcountDecr : Store :=
  { s with
    refcount := Function.update s.refcount it
      ((s.refcount it + (refcountModulus - 1)) % refcountModulus) }

/-- `it->it_flags = fl`. -/
def setFlags (fl : ItFlags) : Store :=
  { s with itFlags := Function.update s.itFlags it fl }

/-- The item lies in the page the slab mover is emptying. -/
def inRebalPage : Bool :=
  match it with
  | .chunk a =>
      s.slabRebalanceSignal != 0 && decide (s.slabRebal.slabStart ≤ a)
        && decide (a < s.slabRebal.slabEnd)
  | .crawler _ => false

/-- `it` is a real item that is in the hash table and an LRU list. -/
def Linked : Prop := it.isChunk = true ∧ (s.itFlags it).linked = true

instance : Decidable (s.Linked it) := inferInstanceAs (Decidable (_ ∧ _))

end Store

end Memcached
