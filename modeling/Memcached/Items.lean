import Memcached.Assoc

/-! # Items

`items.c`: the LRU lists, linking and unlinking, lookup with lazy expiry, allocation with reclaim
and eviction, and the walk of `flush_all`. A function that takes `cache_lock` itself and its
`_nolock` twin have the same effect on the store; which locks are held where is the subject of
`Memcached.Sections`.

* **`doItemGet`**, **`doItemTouch`** — lookups.
* **`doItemAlloc`** — allocation, with the tail scan `allocScan`.
* **`doItemLink`**, **`doItemUnlink`**, **`doItemRemove`** — the life of an item.
* **`doItemFlushExpired`** — the walk of `flush_all`. -/

namespace Memcached

open DoublyLinked (setAt)
open CNumber (Bytes)

/-- `item_make_header`: the suffix `" <flags> <length>\r\n"` of an item, and the size of the item
without its CAS id. -/
def itemMakeHeader (nkey : ℕ) (flags : ℤ) (nbytes : ℕ) : Bytes × ℕ :=
  let suffix := 32 :: CNumber.formatInt flags ++ 32 :: CNumber.decDigits (nbytes - 2) ++ crlf
  (suffix, sizeofItem + nkey + suffix.length + nbytes)

/-- The first `n` bytes of a chunk's memory, as an item finds them that does not write them. -/
def fitBytes (n : ℕ) (mem : Bytes) : Bytes := mem.take n ++ List.replicate (n - mem.length) 0

namespace Store

/-- Write the value bytes of an item. -/
def setData (s : Store) (it : Ptr) (d : Bytes) : Store :=
  { s with data := Function.update s.data it d }

/-- `it->exptime = exptime`. -/
def setExptime (s : Store) (it : Ptr) (exptime : ℕ) : Store :=
  { s with exptime := Function.update s.exptime it exptime }

/-! ## LRU lists -/

/-- `item_link_q`: the item becomes the head of the list of its class. -/
def itemLinkQ (s : Store) (it : Ptr) : Store :=
  let c := s.slabsClsid it
  { s with
    prev := setAt (Function.update s.prev it none) (s.heads c) (some it)
    next := Function.update s.next it (s.heads c)
    heads := Function.update s.heads c (some it)
    tails := Function.update s.tails c (if s.tails c = none then some it else s.tails c)
    sizes := Function.update s.sizes c (s.sizes c + 1) }

/-- `item_unlink_q`: take the item out of the list of its class. -/
def itemUnlinkQ (s : Store) (it : Ptr) : Store :=
  let c := s.slabsClsid it
  { s with
    heads := Function.update s.heads c (if s.heads c = some it then s.next it else s.heads c)
    tails := Function.update s.tails c (if s.tails c = some it then s.prev it else s.tails c)
    prev := setAt s.prev (s.next it) (s.prev it)
    next := setAt s.next (s.prev it) (s.next it)
    sizes := Function.update s.sizes c (s.sizes c - 1) }

/-! ## References -/

/-- `item_free`: the chunk goes back to the free list of its class. -/
def itemFree (cfg : Settings) (s : Store) (it : Ptr) : Store :=
  doSlabsFree cfg { s with slabsClsid := Function.update s.slabsClsid it 0 } it (s.itemNtotal it)
    (s.slabsClsid it)

/-- `do_item_remove`: give a reference back; the last one frees the item. -/
def doItemRemove (cfg : Settings) (s : Store) (it : Ptr) : Store :=
  let s := s.refcountDecr it
  if s.refcount it = 0 then s.itemFree cfg it else s

/-! ## Linking and unlinking -/

/-- `ITEM_set_cas(it, (settings.use_cas) ? get_cas_id() : 0)`. -/
def setFreshCas (cfg : Settings) (s : Store) (it : Ptr) : Store :=
  let s := { s with casId := if cfg.useCas then s.casId + 1 else s.casId }
  s.itemSetCas it (if cfg.useCas then s.casId else 0)

/-- The part of `do_item_link` before the lists: flag, access time, statistics and CAS id. -/
def linkStats (cfg : Settings) (s : Store) (it : Ptr) : Store :=
  let s := s.setFlags it (s.itFlags it).setLinked
  let s := { s with
    time := Function.update s.time it s.currentTime
    currBytes := s.currBytes + s.itemNtotal it
    currItems := s.currItems + 1
    totalItems := s.totalItems + 1 }
  s.setFreshCas cfg it

/-- `do_item_link`: enter the item into the hash table and the LRU list. -/
def doItemLink (cfg : Settings) (s : Store) (it : Ptr) (hv : ℕ) : Store :=
  let s := s.linkStats cfg it
  let s := s.assocInsert it hv
  let s := s.itemLinkQ it
  s.refcountIncr it

/-- The flag and the statistics of `do_item_unlink`. -/
def unlinkStats (s : Store) (it : Ptr) : Store :=
  let s := s.setFlags it (s.itFlags it).clearLinked
  { s with
    currBytes := s.currBytes - s.itemNtotal it
    currItems := s.currItems - 1 }

/-- The part of `do_item_unlink` before the link's reference is given back: the item leaves the
hash table and the LRU list. -/
def unlinkIndex (s : Store) (it : Ptr) (hv : ℕ) : Store :=
  let s := s.unlinkStats it
  let s := s.assocDelete (s.key it) hv
  s.itemUnlinkQ it

/-- `do_item_unlink` and `do_item_unlink_nolock`. -/
def doItemUnlink (cfg : Settings) (s : Store) (it : Ptr) (hv : ℕ) : Store :=
  if (s.itFlags it).linked then (s.unlinkIndex it hv).doItemRemove cfg it else s

/-- `do_item_update` and `do_item_update_nolock`: an item not moved for `ITEM_UPDATE_INTERVAL`
seconds becomes the head of its LRU list. -/
def doItemUpdate (s : Store) (it : Ptr) : Store :=
  if s.time it < s.currentTime - itemUpdateInterval ∧ (s.itFlags it).linked then
    let s := s.itemUnlinkQ it
    let s := { s with time := Function.update s.time it s.currentTime }
    s.itemLinkQ it
  else s

/-- `do_item_replace`. -/
def doItemReplace (cfg : Settings) (s : Store) (it newIt : Ptr) (hv : ℕ) : Store :=
  (s.doItemUnlink cfg it hv).doItemLink cfg newIt hv

/-! ## Lookup -/

/-- `do_item_get` finds the item flushed: a flush point in the past covers its access time. -/
def flushed (s : Store) (it : Ptr) : Bool :=
  s.oldestLive != 0 && decide (s.oldestLive ≤ s.currentTime)
    && decide (s.time it ≤ s.oldestLive)

/-- `do_item_get` finds the item expired. -/
def expired (s : Store) (it : Ptr) : Bool :=
  s.exptime it != 0 && decide (s.exptime it ≤ s.currentTime)

/-- `do_item_get`: find an item and take a reference to it. An item in the page being moved, a
flushed and an expired one are unlinked instead. -/
def doItemGet (cfg : Settings) (s : Store) (key : Bytes) (hv : ℕ) : Store × Option Ptr :=
  match s.assocFind key hv with
  | none => (s, none)
  | some it =>
      let s := s.refcountIncr it
      -- each of the three gives back the reference of the hash table and the one taken above
      if s.inRebalPage it then ((s.doItemUnlink cfg it hv).doItemRemove cfg it, none)
      else if s.flushed it then ((s.doItemUnlink cfg it hv).doItemRemove cfg it, none)
      else if s.expired it then ((s.doItemUnlink cfg it hv).doItemRemove cfg it, none)
      else (s.setFlags it (s.itFlags it).setFetched, some it)

/-- `do_item_touch`. -/
def doItemTouch (cfg : Settings) (s : Store) (key : Bytes) (exptime hv : ℕ) :
    Store × Option Ptr :=
  match s.doItemGet cfg key hv with
  | (s, none) => (s, none)
  | (s, some it) => (s.setExptime it exptime, some it)

/-! ## Allocation -/

/-- Change the counters of LRU list `id`. -/
def bumpStats (s : Store) (id : ℕ) (f : ItemStats → ItemStats) : Store :=
  { s with itemstats := Function.update s.itemstats id (f (s.itemstats id)) }

/-- The test by which `do_item_alloc` skips a crawler pseudo-item. -/
def isCrawler (s : Store) (it : Ptr) : Bool :=
  s.nbytes it == 0 && s.nkey it == 0 && s.itFlags it == { linked := true }

/-- The test by which `do_item_alloc` and the LRU crawler take an item for dead. -/
def reclaimable (s : Store) (it : Ptr) : Bool :=
  (s.exptime it != 0 && decide (s.exptime it < s.currentTime))
    || (decide (s.time it ≤ s.oldestLive) && decide (s.oldestLive ≤ s.currentTime))

/-- An item at the LRU tail is taken over: its memory is charged to the new item and it is
unlinked. -/
def stealItem (cfg : Settings) (s : Store) (it : Ptr) (ntotal hv : ℕ) : Store :=
  let s := s.slabsAdjustMemRequested (s.slabsClsid it) (s.itemNtotal it) ntotal
  let s := s.doItemUnlink cfg it hv
  { s with slabsClsid := Function.update s.slabsClsid it 0 }

/-- How the tail scan of `do_item_alloc` ends. -/
structure ScanResult where
  /-- The store after the scan. -/
  store : Store
  /-- `it`, the chunk found. -/
  item : Option Ptr
  /-- `tried_alloc`. -/
  triedAlloc : Bool
  /-- `tries == 0 || search == NULL`: nothing in the tail could be looked at. -/
  exhausted : Bool

/-- The last round of the tail scan, on an item nobody refers to: reclaim it if it is dead, else
allocate, else evict it. -/
def scanTake (cfg : Settings) (env : AllocEnv) (ntotal id : ℕ) (s : Store) (search : Ptr)
    (hv : ℕ) : ScanResult :=
  if s.reclaimable search then
    let s := s.bumpStats id fun st =>
      { st with
        reclaimed := st.reclaimed + 1
        expiredUnfetched :=
          if (s.itFlags search).fetched then st.expiredUnfetched else st.expiredUnfetched + 1 }
    -- the chunk keeps its memory: `slabs_adjust_mem_requested` instead of a free and an allocation
    ⟨(s.stealItem cfg search ntotal hv).refcountDecr search, some search, false, false⟩
  else
    match s.doSlabsAlloc cfg ntotal id env with
    | (s, some it) => ⟨s.refcountDecr search, some it, false, false⟩
    | (s, none) =>
        if cfg.evictToFree then
          let s := s.bumpStats id fun st =>
            { st with
              evicted := st.evicted + 1
              evictedTime := s.currentTime - s.time search
              evictedNonzero :=
                if s.exptime search ≠ 0 then st.evictedNonzero + 1 else st.evictedNonzero
              evictedUnfetched :=
                if (s.itFlags search).fetched then st.evictedUnfetched
                else st.evictedUnfetched + 1 }
          let s := s.stealItem cfg search ntotal hv
          -- in the angry birds mode every eviction asks for a page
          let s := if cfg.slabAutomove = 2 then s.slabsReassign cfg (-1) id env.rebalLockFree else s
          ⟨s.refcountDecr search, some search, true, false⟩
        else
          let s := s.bumpStats id fun st => { st with outofmemory := st.outofmemory + 1 }
          ⟨s.refcountDecr search, none, true, false⟩

/-- One referenced item met by the tail scan: it is moved to the head of the list, and unlinked
when tail repair is on and finds its reference leaked. -/
def scanReflocked (cfg : Settings) (id : ℕ) (s : Store) (search : Ptr) (hv : ℕ) : Store :=
  let s := s.doItemUpdate search
  let s := s.refcountDecr search
  let s := s.bumpStats id fun st => { st with lrutailReflocked := st.lrutailReflocked + 1 }
  -- a reference held for this long is taken for one that leaked
  if cfg.tailRepairTime ≠ 0 ∧ s.time search + cfg.tailRepairTime < s.currentTime then
    let s := s.bumpStats id fun st => { st with tailrepairs := st.tailrepairs + 1 }
    let s := { s with refcount := Function.update s.refcount search 1 }
    s.doItemUnlink cfg search hv
  else s

/-- The tail scan of `do_item_alloc`. `tries` counts the items that may still be looked at,
`reflocked` is `tries_lrutail_reflocked`; `fuel` bounds the rounds, of which those that skip a
crawler leave both counters as they are. -/
def allocScan (cfg : Settings) (env : AllocEnv) (ntotal id curHv : ℕ) :
    ℕ → Store → ℕ → ℕ → Option Ptr → ScanResult
  | 0, s, _, _, _ => ⟨s, none, false, true⟩
  | _ + 1, s, _, _, none => ⟨s, none, false, true⟩
  | _ + 1, s, 0, _, some _ => ⟨s, none, false, true⟩
  | fuel + 1, s, tries + 1, reflocked, some search =>
      let nextIt := s.prev search
      let hv := cfg.hash (s.key search)
      -- `tries++` undoes what the loop takes off
      if s.isCrawler search then
        allocScan cfg env ntotal id curHv fuel s (tries + 1) reflocked nextIt
      -- the lock of the key that is stored is held already
      else if hv = curHv ∨ env.trylock hv = false then
        allocScan cfg env ntotal id curHv fuel s tries reflocked nextIt
      else
        let s := s.refcountIncr search
        -- somebody else has the item
        if s.refcount search ≠ 2 then
          let s := s.scanReflocked cfg id search hv
          if reflocked - 1 < 1 then ⟨s, none, false, false⟩
          else allocScan cfg env ntotal id curHv fuel s (tries + 1) (reflocked - 1) nextIt
        else s.scanTake cfg env ntotal id search hv

/-- The end of `do_item_alloc`: the chunk becomes an unlinked item with one reference. -/
def initItem (cfg : Settings) (s : Store) (it : Ptr) (id : ℕ) (key : Bytes) (flags : ℤ)
    (exptime nbytes : ℕ) : Store :=
  { s with
    refcount := Function.update s.refcount it 1
    next := Function.update s.next it none
    prev := Function.update s.prev it none
    hNext := Function.update s.hNext it none
    slabsClsid := Function.update s.slabsClsid it id
    itFlags := Function.update s.itFlags it { cas := cfg.useCas }
    key := Function.update s.key it key
    nbytes := Function.update s.nbytes it nbytes
    -- the memory of the value is what the chunk held
    data := Function.update s.data it (fitBytes nbytes (s.data it))
    exptime := Function.update s.exptime it exptime
    suffix := Function.update s.suffix it (itemMakeHeader (key.length + 1) flags nbytes).1 }

/-- The size `do_item_alloc` asks for. -/
def allocNtotal (cfg : Settings) (key : Bytes) (flags : ℤ) (nbytes : ℕ) : ℕ :=
  (itemMakeHeader (key.length + 1) flags nbytes).2 + if cfg.useCas then 8 else 0

/-- The rounds of the tail scan: five looked at, a thousand referenced ones, the crawler, and the
round that ends it. -/
def scanFuel : ℕ := 5 + 1000 + 1 + 1

/-- `do_item_alloc`. -/
def doItemAlloc (cfg : Settings) (env : AllocEnv) (s : Store) (key : Bytes) (flags : ℤ)
    (exptime nbytes curHv : ℕ) : Store × Option Ptr :=
  let ntotal := allocNtotal cfg key flags nbytes
  let id := slabsClsidOf cfg ntotal
  if id = 0 then (s, none)
  else
    let r := s.allocScan cfg env ntotal id curHv scanFuel 5 1000 (s.tails id)
    let (s, it) :=
      -- no tail item could be looked at
      if r.triedAlloc = false ∧ r.exhausted then r.store.doSlabsAlloc cfg ntotal id env
      else (r.store, r.item)
    match it with
    | none =>
        (s.bumpStats id fun st => { st with outofmemory := st.outofmemory + 1 }, none)
    | some it => (s.initItem cfg it id key flags exptime nbytes, some it)

/-! ## flush_all -/

/-- The walk of `do_item_flush_expired` through one LRU list: it ends at the first item older than
the flush point, or at a crawler pseudo-item. -/
def flushQueue (cfg : Settings) : ℕ → Store → Option Ptr → Store
  | 0, s, _ => s
  | _ + 1, s, none => s
  | fuel + 1, s, some iter =>
      if s.time iter ≠ 0 ∧ s.oldestLive ≤ s.time iter then
        -- the pointer is read before the item may be freed
        let next := s.next iter
        let s :=
          if (s.itFlags iter).slabbed then s else s.doItemUnlink cfg iter (cfg.hash (s.key iter))
        flushQueue cfg fuel s next
      else s

/-- `do_item_flush_expired`. -/
def doItemFlushExpired (cfg : Settings) (s : Store) : Store :=
  if s.oldestLive = 0 then s
  else
    -- one walk for each class, with its size as a bound
    (List.range largestId).foldl (fun s i => flushQueue cfg (s.sizes i + 1) s (s.heads i)) s

end Store

end Memcached
