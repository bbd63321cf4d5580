import Memcached.Items

/-! # The LRU crawler

A pseudo-item per LRU list that travels from the tail to the head. Each step of
`item_crawler_thread` swaps it with the item in front of it and evaluates that item.

* **`crawlerLinkQ`**, **`crawlerUnlinkQ`**, **`crawlerCrawlQ`** — the pseudo-item enters, leaves and
  moves.
* **`crawlStep`** — one step of `item_crawler_thread` on one list. -/

namespace Memcached

open DoublyLinked (setAt)

namespace Store

/-- `crawler_link_q`: the pseudo-item becomes the tail of its list. -/
def crawlerLinkQ (s : Store) (it : Ptr) : Store :=
  let c := s.slabsClsid it
  { s with
    prev := Function.update s.prev it (s.tails c)
    next := setAt (Function.update s.next it none) (s.tails c) (some it)
    tails := Function.update s.tails c (some it)
    heads := Function.update s.heads c (if s.heads c = none then some it else s.heads c) }

/-- `crawler_unlink_q`: take the pseudo-item out of its list. -/
def crawlerUnlinkQ (s : Store) (it : Ptr) : Store :=
  let c := s.slabsClsid it
  { s with
    heads := Function.update s.heads c (if s.heads c = some it then s.next it else s.heads c)
    tails := Function.update s.tails c (if s.tails c = some it then s.prev it else s.tails c)
    prev := setAt s.prev (s.next it) (s.prev it)
    next := setAt s.next (s.prev it) (s.next it) }

/-- `crawler_crawl_q`: swap the pseudo-item with the item in front of it and return that item; at
the head the list is detached from the pseudo-item instead. -/
def crawlerCrawlQ (s : Store) (it : Ptr) : Store × Option Ptr :=
  let c := s.slabsClsid it
  match s.prev it with
  -- at the head; the pseudo-item itself keeps its pointers
  | none =>
      ({ s with
         heads := Function.update s.heads c (if (s.next it).isSome then s.next it else s.heads c)
         prev := setAt s.prev (s.next it) none }, none)
  | some p =>
      ({ s with
         heads := Function.update s.heads c (if s.heads c = some p then some it else s.heads c)
         tails := Function.update s.tails c (if s.tails c = some it then some p else s.tails c)
         -- `p` and the pseudo-item change places, so both neighbours are relinked
         next := setAt (Function.update (Function.update s.next p (s.next it)) it (some p))
           (s.prev p) (some it)
         prev := Function.update (Function.update (setAt s.prev (s.next it) (some p))
           it (s.prev p)) p (some it) }, some p)

/-- `item_crawler_evaluate`: a dead item is unlinked and released, else the crawler's reference is
given back. -/
def itemCrawlerEvaluate (cfg : Settings) (s : Store) (search : Ptr) (hv i : ℕ) : Store :=
  if s.reclaimable search then
    let s := s.bumpStats i fun st =>
      { st with
        crawlerReclaimed := st.crawlerReclaimed + 1
        expiredUnfetched :=
          if (s.itFlags search).fetched then st.expiredUnfetched else st.expiredUnfetched + 1 }
    (s.doItemUnlink cfg search hv).doItemRemove cfg search
  else s.refcountDecr search

/-- `lru_crawler_crawl` for one class: the pseudo-item enters the list if that is not empty. -/
def crawlStart (s : Store) (sid tocrawl : ℕ) : Store :=
  if s.tails sid = none then s
  else
    -- a key and a value of no bytes, by which `isCrawler` knows it
    let it := Ptr.crawler sid
    let s := { s with
      nbytes := Function.update s.nbytes it 0
      key := Function.update s.key it []
      itFlags := Function.update s.itFlags it { linked := true }
      next := Function.update s.next it none
      prev := Function.update s.prev it none
      time := Function.update s.time it 0
      remaining := Function.update s.remaining sid tocrawl
      slabsClsid := Function.update s.slabsClsid it sid }
    let s := s.crawlerLinkQ it
    { s with crawlerCount := s.crawlerCount + 1 }

/-- The crawler is done with list `i`. -/
def crawlStop (s : Store) (i : ℕ) : Store :=
  let s := s.setFlags (.crawler i) {}
  ({ s with crawlerCount := s.crawlerCount - 1 }).crawlerUnlinkQ (.crawler i)

/-- The round of `item_crawler_thread` on list `i`; `trylock` is the outcome of `item_trylock`. -/
def crawlStep (cfg : Settings) (trylock : Bool) (s : Store) (i : ℕ) : Store :=
  if s.itFlags (.crawler i) ≠ { linked := true } then s
  else
    match s.crawlerCrawlQ (.crawler i) with
    | (s, none) => s.crawlStop i
    | (s, some search) =>
        let left := s.remaining i
        let s := { s with remaining := Function.update s.remaining i (left - 1) }
        -- `remaining` of 0 means no limit
        if left ≠ 0 ∧ left - 1 < 1 then s.crawlStop i
        else if trylock = false then s
        else
          let s := s.refcountIncr search
          -- somebody uses the item, so it is left alone
          if s.refcount search ≠ 2 then s.refcountDecr search
          else s.itemCrawlerEvaluate cfg search (cfg.hash (s.key search)) i

end Store

end Memcached
