import Memcached.LruOrder

/-! # The sizes of the items

`stats sizes` walks all LRU lists and counts the items by their size, rounded up to a multiple of 32
bytes. The pseudo-items of the crawlers are counted with them.

* **`doItemStatsSizes`** — the loop.
* **`statsSizes_counts`** — what the histogram counts. -/

namespace Memcached

open Transition (Run)

/-- `num_buckets`. -/
def numBuckets : ℕ := 32768

namespace Store

/-- The bucket of an item. -/
def sizeBucket (s : Store) (iter : Ptr) : ℕ :=
  s.itemNtotal iter / 32 + if s.itemNtotal iter % 32 ≠ 0 then 1 else 0

/-- One item is counted, by an `unsigned int`. -/
def countSize (s : Store) (histogram : ℕ → ℕ) (iter : Ptr) : ℕ → ℕ :=
  if s.sizeBucket iter < numBuckets then
    Function.update histogram (s.sizeBucket iter) ((histogram (s.sizeBucket iter) + 1) % 2 ^ 32)
  else histogram

/-- The loop on one list; `none` where it has not ended after `fuel` items. -/
def countSizes (s : Store) : ℕ → Option Ptr → (ℕ → ℕ) → Option (ℕ → ℕ)
  | 0, _, _ => none
  | _ + 1, none, histogram => some histogram
  | fuel + 1, some iter, histogram => countSizes s fuel (s.next iter) (s.countSize histogram iter)

/-- The histogram of `do_item_stats_sizes`, with `calloc` succeeding. -/
def doItemStatsSizes (s : Store) (fuel : ℕ) : Option (ℕ → ℕ) :=
  (List.range largestId).foldlM (fun histogram i => s.countSizes fuel (s.heads i) histogram)
    fun _ => 0

/-- The items on all lists. -/
def allListed (s : Store) : List Ptr := (List.range largestId).flatMap s.lruList

end Store

variable {n : ℕ} {cfg : Settings} {w : World n} {s : Store} {g : Ghost} {L : Layout} {p : Ptr}
  {l : List Ptr} {histogram : ℕ → ℕ} {fuel b : ℕ}

/-! ## Counting -/

namespace Store

/-- The loop counts the items of the list. -/
theorem countSizes_eq (hseg : SinglyLinked.Seg s.next l) (hfuel : l.length < fuel) :
    s.countSizes fuel l.head? histogram = some (l.foldl s.countSize histogram) := by
  induction l generalizing fuel histogram with
  | nil =>
      obtain ⟨fuel, rfl⟩ := Nat.exists_eq_add_one_of_ne_zero (Nat.ne_zero_of_lt hfuel)
      rfl
  | cons p l ih =>
      obtain ⟨fuel, rfl⟩ := Nat.exists_eq_add_one_of_ne_zero (Nat.ne_zero_of_lt hfuel)
      rw [List.length_cons] at hfuel
      rw [List.head?_cons, countSizes, hseg.1, ih hseg.2 (by omega), List.foldl_cons]

/-- **A bucket counts the items of its size.** -/
theorem foldl_countSize (hb : b < numBuckets) (l : List Ptr) (histogram : ℕ → ℕ) :
    l.foldl s.countSize histogram b % 2 ^ 32
      = (histogram b + l.countP fun p => s.sizeBucket p = b) % 2 ^ 32 := by
  induction l generalizing histogram with
  | nil => rfl
  | cons p l ih =>
      rw [List.foldl_cons, ih, List.countP_cons]
      by_cases hp : s.sizeBucket p = b
      · have hcount : s.countSize histogram p b = (histogram b + 1) % 2 ^ 32 := by
          rw [countSize, if_pos (hp ▸ hb), hp, Function.update_self]
        rw [hcount, Nat.mod_add_mod]
        simp [hp, Nat.add_assoc, Nat.add_comm 1]
      · have hcount : s.countSize histogram p b = histogram b := by
          rw [countSize]
          split_ifs
          · rw [Function.update_of_ne (Ne.symm hp)]
          · rfl
        rw [hcount]
        simp [hp]

/-- A bucket stays in range. -/
theorem foldl_countSize_lt (hb : histogram b < 2 ^ 32) (l : List Ptr) :
    l.foldl s.countSize histogram b < 2 ^ 32 := by
  induction l generalizing histogram with
  | nil => exact hb
  | cons p l ih =>
      refine ih ?_
      rw [countSize]
      split_ifs
      · by_cases hp : b = s.sizeBucket p
        · rw [hp, Function.update_self]
          omega
        · rwa [Function.update_of_ne hp]
      · exact hb

end Store

namespace WellFormed

/-- The histogram counts the items of all the lists. -/
theorem doItemStatsSizes_eq (h : WellFormed cfg s g L)
    (hfuel : ∀ c < largestId, (s.lruList c).length < fuel) :
    s.doItemStatsSizes fuel = some (s.allListed.foldl s.countSize fun _ => 0) := by
  have hall : ∀ (cs : List ℕ) (histogram : ℕ → ℕ), (∀ c ∈ cs, c < largestId) →
      cs.foldlM (fun histogram i => s.countSizes fuel (s.heads i) histogram) histogram
        = some ((cs.flatMap s.lruList).foldl s.countSize histogram) := fun cs => by
    induction cs with
    | nil => exact fun _ _ => rfl
    | cons c cs ih =>
        intro histogram hcs
        have hseg : SinglyLinked.Seg s.next (s.lruList c) :=
          h.lruList_eq c ▸ .of_doubly (h.family.seg _)
        have hhead : s.heads c = (s.lruList c).head? := h.lruList_eq c ▸ h.heads c
        rw [List.foldlM_cons, hhead, Store.countSizes_eq hseg (hfuel c (hcs c List.mem_cons_self)),
          List.flatMap_cons, List.foldl_append]
        exact ih _ fun d hd => hcs d (List.mem_cons_of_mem c hd)
  exact hall _ _ fun c hc => List.mem_range.mp hc

/-- **Every list holds its items once**, and no two hold the same. -/
theorem nodup_allListed (h : WellFormed cfg s g L) : s.allListed.Nodup := by
  refine List.nodup_flatMap.mpr ⟨fun c _ => ?_, ?_⟩
  · rw [h.lruList_eq]
    exact h.family.nodup _
  · refine List.nodup_range.imp fun {c d} hcd => ?_
    rw [Function.onFun, List.disjoint_left, h.lruList_eq, h.lruList_eq]
    intro p hp hp'
    have := h.family.disjoint _ _ p hp hp'
    exact hcd (Queue.lru.inj this)

/-- What is in the lists: the linked items, and the crawlers. -/
theorem mem_allListed (h : WellFormed cfg s g L) :
    p ∈ s.allListed ↔ s.Linked p ∨ ∃ i < largestId, p = .crawler i ∧ s.Crawling i := by
  rw [Store.allListed, List.mem_flatMap]
  simp only [List.mem_range, h.lruList_eq, h.mem_lru]
  cases p with
  | chunk a =>
      constructor
      · rintro ⟨c, -, hl, -⟩
        exact .inl ⟨rfl, hl⟩
      · rintro (hl | ⟨i, -, hi, -⟩)
        · have := (h.clsid _ (.inl hl)).2
          exact ⟨_, this.trans_lt cfg.powerLargest_lt, hl.2, rfl⟩
        · cases hi
  | crawler i =>
      constructor
      · rintro ⟨c, hc, hl, hcls⟩
        obtain ⟨hfl, hi, -⟩ := h.crawler i hl
        exact .inr ⟨i, by omega, rfl, hfl⟩
      · rintro (hl | ⟨j, hj, hji, hfl⟩)
        · exact absurd hl.1 (by simp [Ptr.isChunk])
        · obtain rfl := Ptr.crawler.inj hji
          have hl : (s.itFlags (.crawler i)).linked = true := by rw [hfl]
          exact ⟨i, hj, hl, (h.crawler i hl).2.1⟩

/-- What a bucket counts: the linked items of its size, and the crawlers. -/
theorem countP_allListed (h : WellFormed cfg s g L) (P : Ptr → Prop) [DecidablePred P] :
    s.allListed.countP (fun p => P p)
      = (L.linked.filter P).card
        + ((Finset.range largestId).filter fun i => s.itFlags (.crawler i) = { linked := true } ∧
            P (.crawler i)).card := by
  have hcard : (s.allListed.toFinset.filter P).card = s.allListed.countP (fun p => P p) := by
    rw [List.countP_eq_length_filter, ← List.toFinset_card_of_nodup (h.nodup_allListed.filter _),
      List.toFinset_filter]
    simp
  have hsplit : s.allListed.toFinset.filter P = L.linked.filter P ∪
      ((Finset.range largestId).filter fun i => s.itFlags (.crawler i) = { linked := true } ∧
        P (.crawler i)).image Ptr.crawler := by
    ext p
    simp only [Finset.mem_filter, List.mem_toFinset, h.mem_allListed, Finset.mem_union, h.mem_linked,
      Finset.mem_image, Finset.mem_range]
    constructor
    · rintro ⟨hl | ⟨i, hi, rfl, hfl⟩, hP⟩
      · exact .inl ⟨hl, hP⟩
      · exact .inr ⟨i, ⟨hi, hfl, hP⟩, rfl⟩
    · rintro (⟨hl, hP⟩ | ⟨i, ⟨hi, hfl, hP⟩, rfl⟩)
      · exact ⟨.inl hl, hP⟩
      · exact ⟨.inr ⟨i, hi, rfl, hfl⟩, hP⟩
  have hdisj : Disjoint (L.linked.filter P)
      (((Finset.range largestId).filter fun i => s.itFlags (.crawler i) = { linked := true } ∧
        P (.crawler i)).image Ptr.crawler) := by
    rw [Finset.disjoint_left]
    intro p hp hp'
    obtain ⟨i, -, rfl⟩ := Finset.mem_image.mp hp'
    have hl := (h.mem_linked _).mp (Finset.mem_filter.mp hp).1
    exact absurd hl.1 (by simp [Ptr.isChunk])
  rw [← hcard, hsplit, Finset.card_union_of_disjoint hdisj,
    Finset.card_image_of_injective _ fun _ _ => Ptr.crawler.inj]

end WellFormed

/-- **What `stats sizes` counts**: in each bucket the items of its size that are linked, each once, and
the crawlers that are at work, as if they were items. -/
theorem statsSizes_counts {ls : List (Op n × Reply)}
    (hr : Run (World.SafeStep cfg) (World.init n) ls w)
    (hfuel : ∀ c < largestId, (w.store.lruList c).length < fuel) :
    ∃ linked : Finset Ptr, (∀ p, p ∈ linked ↔ w.store.Linked p) ∧ w.store.currItems = linked.card ∧
      ∃ histogram, w.store.doItemStatsSizes fuel = some histogram ∧
        ∀ b < numBuckets, histogram b = ((linked.filter fun p => w.store.sizeBucket p = b).card
          + ((Finset.range largestId).filter fun i => w.store.itFlags (.crawler i) = { linked := true } ∧
              w.store.sizeBucket (.crawler i) = b).card) % 2 ^ 32 := by
  obtain ⟨L, hwf⟩ := (World.ok_of_run hr).inv
  refine ⟨L.linked, hwf.mem_linked, hwf.currItems, _, hwf.doItemStatsSizes_eq hfuel, fun b hb => ?_⟩
  have hcount := w.store.foldl_countSize hb w.store.allListed fun _ => 0
  -- the counters are kept below 2 ^ 32 all along
  rw [Nat.mod_eq_of_lt (w.store.foldl_countSize_lt (by simp) _), Nat.zero_add,
    hwf.countP_allListed] at hcount
  exact hcount

/-- One item, and a crawler behind it. -/
theorem statsSizes_counts_crawled :
    ∃ linked : Finset Ptr, ∃ histogram,
      ((World.seeded (0 : Fin 1) [107] [53, 13, 10]).execs .small
        [.lruCrawl 1 0]).1.store.doItemStatsSizes 3 = some histogram ∧ firstChunk ∈ linked ∧
      linked.card = 1 := by
  obtain ⟨ls, hrun⟩ := World.run_seeded (n := 1) (i := 0) (k := [107]) (d := [53, 13, 10])
    (by decide) (by decide +kernel)
  obtain ⟨linked, hlinked, hcurr, histogram, hsizes, -⟩ := statsSizes_counts
    (hrun.append (World.run_execs_safe [.lruCrawl 1 0] rfl (by decide +kernel)))
    (show ∀ c < largestId, _ < 3 by decide +kernel)
  exact ⟨linked, histogram, hsizes, (hlinked _).mpr (by decide +kernel), hcurr.symm.trans
    (by decide +kernel)⟩

end Memcached
