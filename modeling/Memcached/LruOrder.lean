import Mathlib.Data.Set.Card
import Memcached.Lists
import Memcached.SystemInvariant

/-! # LRU lists and their crawlers

The order of the LRU lists, which `do_item_flush_expired` relies on, and the pseudo-items in them,
which `lru_crawler_crawl` puts there and the crawler thread moves and takes out. A request that
comes before the crawler thread has woken up to an earlier one finds `lru_crawler_lock` free.

* **`LruFormed`**, **`LruSorted`** — what the lists look like.
* **`lruFormed_of_run`**, **`lruSorted_of_run`** — in which runs they do.
* **`lruFormed_fails`**, **`lruSorted_fails`** — a run in which they do not. -/

namespace Memcached

open CNumber (Bytes)
open Transition (Run)

variable {n : ℕ} {cfg : Settings} {w w' : World n} {s s' : Store} {g g' : Ghost} {e : Event}
  {p q : Ptr}

/-! ## Lists -/

namespace Store

/-- The crawler of class `i` is enabled: `crawlers[i].it_flags == 1`. -/
def Crawling (s : Store) (i : ℕ) : Prop := s.itFlags (.crawler i) = { linked := true }

/-- **The LRU lists and their crawlers are well formed.** -/
structure LruFormed (s : Store) : Prop where
  /-- The list from `heads[c]` is linked both ways, ends in `tails[c]`, and has no item twice. -/
  list : ∀ c, DoublyLinked.Seg s.next s.prev none (s.lruList c) none ∧
    s.heads c = (s.lruList c).head? ∧ s.tails c = (s.lruList c).getLast? ∧ (s.lruList c).Nodup
  /-- A crawler is in a list exactly if it is enabled. -/
  crawling_iff : ∀ i, (∃ c, Ptr.crawler i ∈ s.lruList c) ↔ s.Crawling i
  /-- A crawler is in one list at most. -/
  crawler_unique : ∀ i c c', Ptr.crawler i ∈ s.lruList c → Ptr.crawler i ∈ s.lruList c' → c = c'
  /-- `crawler_count` counts the crawlers that are enabled. -/
  crawlerCount : {i | s.Crawling i}.Finite ∧ {i | s.Crawling i}.ncard = s.crawlerCount

/-- Items met in this order have been accessed one after the other. -/
def Aged (s : Store) (l : List Ptr) : Prop :=
  l.Pairwise fun p q => p.isChunk = true → q.isChunk = true → s.time q ≤ s.time p

instance (s : Store) (l : List Ptr) : Decidable (s.Aged l) :=
  inferInstanceAs (Decidable (List.Pairwise _ _))

/-- **Every LRU list is sorted by access time**, however far one walks. -/
def LruSorted (s : Store) : Prop :=
  ∀ c steps, s.Aged (SinglyLinked.walk s.next steps (s.heads c))

end Store

/-! ## Enabled crawlers are counted -/

/-- The flags of the crawlers, and `crawler_count`. -/
def Store.crawlers (s : Store) : (ℕ → ItFlags) × ℕ :=
  (fun i => s.itFlags (.crawler i), s.crawlerCount)

/-- A write to the flags of a chunk. -/
theorem crawlers_update {fl : ItFlags} (hp : p.isChunk = true) {t : Store}
    (hf : t.itFlags = Function.update s.itFlags p fl) (hc : t.crawlerCount = s.crawlerCount) :
    t.crawlers = s.crawlers := by
  rw [Store.crawlers, Store.crawlers, hf, hc]
  refine Prod.ext (funext fun i => ?_) rfl
  exact Function.update_of_ne (WellFormed.ne_crawler hp i).symm ..

/-- A chunk that is freed is no crawler. -/
theorem crawlers_doSlabsFree (cfg : Settings) (s : Store) (hp : p.isChunk = true) (size id : ℕ) :
    (s.doSlabsFree cfg p size id).crawlers = s.crawlers := by
  rw [Store.doSlabsFree]
  split
  · rfl
  · exact crawlers_update hp rfl rfl

/-- The chunks of a page are no crawlers. -/
theorem crawlers_splitPage (cfg : Settings) (s : Store) (id n ptr : ℕ) :
    (Store.splitSlabPageIntoFreelist cfg id n ptr s).crawlers = s.crawlers := by
  induction n generalizing ptr s with
  | zero => rfl
  | succ n ih => exact (ih _ _).trans (crawlers_doSlabsFree cfg s rfl 0 id)

/-- A chunk that is handed out is no crawler. -/
theorem crawlers_doSlabsAlloc (cfg : Settings) (s : Store) (size id : ℕ) (env : AllocEnv) :
    (s.doSlabsAlloc cfg size id env).1.crawlers = s.crawlers := by
  have hgrow : (s.growSlabList id env.reallocOk).1.crawlers = s.crawlers := by
    rw [Store.growSlabList]
    split
    · split <;> rfl
    · rfl
  have hpage : (s.doSlabsNewslab cfg id env).1.crawlers = s.crawlers := by
    rw [Store.doSlabsNewslab]
    split
    · rfl
    revert hgrow
    rcases s.growSlabList id env.reallocOk with ⟨t, ok⟩
    intro hgrow
    cases ok with
    | false => exact hgrow
    | true =>
        cases env.page with
        | none => exact hgrow
        | some ptr => exact (crawlers_splitPage cfg _ id (cfg.perslab id) ptr).trans hgrow
  have hnew : (if (s.slabclass id).slCurr ≠ 0 then (s, true)
      else s.doSlabsNewslab cfg id env).1.crawlers = s.crawlers := by
    split
    · rfl
    · exact hpage
  rw [Store.doSlabsAlloc]
  split
  · rfl
  revert hnew
  rcases (if (s.slabclass id).slCurr ≠ 0 then (s, true) else s.doSlabsNewslab cfg id env)
    with ⟨t, ok⟩
  intro hnew
  simp only
  split
  · exact hnew
  · split
    · split <;> exact hnew
    · exact hnew

/-- **What is no crawler's step leaves the crawlers alone.** -/
theorem Prim.crawlers (hm : Prim cfg s g e s' g') (h : Inv cfg s g) (he : e ≠ .crawl) :
    s'.crawlers = s.crawlers := by
  obtain ⟨L, hwf⟩ := h
  cases hm with
  | deref hp =>
      rename_i p
      have hc := hwf.isChunk_of_handles p hp
      show (if (s.refcountDecr p).refcount p = 0 then (s.refcountDecr p).itemFree cfg p
        else s.refcountDecr p).crawlers = _
      split
      · exact crawlers_doSlabsFree cfg _ hc _ _
      · rfl
  | fetch hu => exact crawlers_update (hwf.isChunk_of_inUse hu) rfl rfl
  | unlink hp =>
      rename_i p
      obtain ⟨a, b, n, e⟩ := assocDelete_frame (s := s.unlinkStats p) (s.key p)
        (cfg.hash (s.key p))
      show (((s.unlinkStats p).assocDelete (s.key p) (cfg.hash (s.key p))).itemUnlinkQ p).crawlers
        = _
      rw [e]
      exact crawlers_update hp.1 rfl rfl
  | link hp => exact crawlers_update (hwf.isChunk_of_handles _ hp) rfl rfl
  | refresh hu =>
      rw [Store.doItemUpdate]
      split <;> rfl
  | alloc hf hs =>
      have hst := congrArg Prod.fst hs
      subst hst
      exact crawlers_doSlabsAlloc ..
  | create hs => exact crawlers_update (hwf.spare _ hs).1 rfl rfl
  | crawlStart | crawlSwap | crawlStop => exact absurd rfl he
  | other hq =>
      have hfl : s'.itFlags = s.itFlags := by
        have := congrArg (fun t : Store => t.itFlags) hq.core
        exact this
      rw [Store.crawlers, Store.crawlers, hfl, hq.crawlerCount]
  | _ => rfl

/-- `crawler_count` counts the crawlers that are enabled. -/
def Store.CrawlersCounted (s : Store) : Prop :=
  {i | s.Crawling i}.Finite ∧ {i | s.Crawling i}.ncard = s.crawlerCount

/-- The count depends on the crawlers only. -/
theorem Store.CrawlersCounted.congr (h : s.CrawlersCounted) (e : s'.crawlers = s.crawlers) :
    s'.CrawlersCounted := by
  have hset : {i | s'.Crawling i} = {i | s.Crawling i} := by
    ext i
    exact Eq.congr (congrFun (congrArg Prod.fst e) i) rfl
  have hcount : s'.crawlerCount = s.crawlerCount := congrArg Prod.snd e
  rw [CrawlersCounted, hset, hcount]
  exact h

/-- A crawler that stops is no longer counted. -/
theorem Store.CrawlersCounted.crawlStop (h : s.CrawlersCounted) {i : ℕ} (hi : s.Crawling i) :
    (s.crawlStop i).CrawlersCounted := by
  have hset : {j | (s.crawlStop i).Crawling j} = {j | s.Crawling j} \ {i} := by
    ext j
    show Function.update s.itFlags (.crawler i) {} (.crawler j) = { linked := true } ↔
      s.Crawling j ∧ j ≠ i
    by_cases e : j = i
    · subst e
      simp
    · rw [Function.update_of_ne (by simpa using e)]
      exact (and_iff_left e).symm
  have hcount : (s.crawlStop i).crawlerCount = s.crawlerCount - 1 := rfl
  rw [CrawlersCounted, hset, hcount]
  have hmem : i ∈ {j | s.Crawling j} := hi
  exact ⟨h.1.sdiff, by rw [Set.ncard_sdiff_singleton_of_mem hmem, h.2]⟩

/-- **A step keeps the count of the crawlers.** -/
theorem Prim.crawlersCounted (hm : Prim cfg s g e s' g') (h : Inv cfg s g)
    (hc : s.CrawlersCounted) : s'.CrawlersCounted := by
  by_cases he : e = .crawl
  swap
  · exact hc.congr (hm.crawlers h he)
  subst he
  obtain ⟨L, hwf⟩ := h
  cases hm with
  | crawlStart hoff n =>
      rename_i i
      rw [Store.crawlStart]
      split
      · exact hc
      have hnot : i ∉ {j | s.Crawling j} := fun hi => by
        have hl := congrArg ItFlags.linked hi
        rw [hoff] at hl
        exact absurd hl (by simp)
      have hset : {j | Function.update s.itFlags (.crawler i) { linked := true } (.crawler j)
          = { linked := true }} = insert i {j | s.Crawling j} := by
        ext j
        by_cases e : j = i
        · subst e
          simp
        · simp only [Set.mem_ofPred_eq, Set.mem_insert_iff, e, false_or]
          rw [Function.update_of_ne (by simpa using e)]
          rfl
      exact ⟨hset ▸ hc.1.insert i, by
        show Set.ncard {j | Function.update s.itFlags (.crawler i) { linked := true } (.crawler j)
          = { linked := true }} = s.crawlerCount + 1
        rw [hset, Set.ncard_insert_of_notMem hnot hc.1, hc.2]⟩
  | crawlSwap hon hy =>
      refine hc.congr ?_
      rw [Store.crawlerCrawlQ]
      split <;> rfl
  | crawlStop hon => exact hc.crawlStop (hwf.crawler _ hon).1

/-! ## Runs -/

/-- The lists of a well formed store, as they are walked. -/
theorem WellFormed.lruFormed {L : Layout} (h : WellFormed cfg s g L) (hc : s.CrawlersCounted) :
    s.LruFormed where
  list c := by
    rw [h.lruList_eq]
    exact ⟨h.family.seg _, h.heads c, h.tails c, h.family.nodup _⟩
  crawling_iff i := by
    constructor
    · rintro ⟨c, hm⟩
      rw [h.lruList_eq] at hm
      exact (h.crawler i ((h.mem_lru _ c).mp hm).1).1
    · intro hi
      refine ⟨s.slabsClsid (.crawler i), ?_⟩
      rw [h.lruList_eq]
      exact (h.mem_lru _ _).mpr ⟨congrArg ItFlags.linked hi, rfl⟩
  crawler_unique i c c' hm hm' := by
    rw [h.lruList_eq] at hm hm'
    exact Queue.lru.inj (h.family.disjoint _ _ _ hm hm')
  crawlerCount := hc

/-- A well formed list is sorted. -/
theorem WellFormed.lruSorted {L : Layout} (h : WellFormed cfg s g L) : s.LruSorted := by
  intro c steps
  rw [h.heads, SinglyLinked.walk_eq_take (.of_doubly (h.family.seg _))]
  exact (h.sorted c).sublist (List.take_sublist _ _)

/-- A step that goes well keeps the count of the crawlers. -/
theorem World.Ok.crawlersCounted (h : w.Ok cfg) {l : Op n × Reply} (hst : w.SafeStep cfg l w')
    (hc : w.store.CrawlersCounted) : w'.store.CrawlersCounted := by
  obtain ⟨⟨hen, he⟩, hs⟩ := hst
  obtain rfl := (congrArg Prod.fst he).symm
  have htrace : ∀ {s : Store} {evs : List Event} {s' : Store} {g g' : Ghost},
      Trace cfg s g evs s' g' → Inv cfg s g → s.CrawlersCounted → s'.CrawlersCounted :=
    fun ht hI h0 => ht.preserves (P := fun s _ => s.CrawlersCounted) hI h0
      fun hm _ hI hc => hm.crawlersCounted hI hc
  by_cases hop : l.1.Global
  · cases hl : l.1 with
    | flushAll exptime =>
        obtain ⟨evs, ht, -⟩ := Trace.flushAll h.inv exptime
        exact htrace ht (h.inv.congr rfl) hc
    | clock now => exact hc
    | rebalance signal slabStart slabEnd => exact hc
    | _ =>
        rw [hl] at hop
        exact hop.elim
  · obtain ⟨evs, ht, -⟩ := h.effect hen hs hop
    exact htrace ht h.inv hc

/-- **The LRU lists and their crawlers are well formed** in every state that steps lead to that go
well, those of requests to the crawlers among them. -/
theorem lruFormed_of_run {ls : List (Op n × Reply)}
    (hr : Run (World.SafeStep cfg) (World.init n) ls w) : w.store.LruFormed := by
  have hinv : w.Ok cfg ∧ w.store.CrawlersCounted := by
    refine hr.invariant (P := fun w => w.Ok cfg ∧ w.store.CrawlersCounted)
      ⟨World.ok_init cfg n, ?_⟩ fun h hst => ⟨h.1.step hst, h.1.crawlersCounted hst h.2⟩
    have hset : {i | (World.init n).store.Crawling i} = ∅ :=
      Set.eq_empty_of_forall_notMem fun i hi => Bool.noConfusion (congrArg ItFlags.linked hi)
    rw [Store.CrawlersCounted, hset]
    exact ⟨Set.finite_empty, Set.ncard_empty ℕ⟩
  obtain ⟨L, hwf⟩ := hinv.1.inv
  exact hwf.lruFormed hinv.2

/-- A script of steps that are enabled is a run. -/
theorem World.run_of_ready (ops : List (Op n))
    (h : w.checkAll cfg (fun w op => w.ready op) ops = true) :
    Run (World.Step cfg) w (w.execs cfg ops).2 (w.execs cfg ops).1 :=
  (World.run_execs (S := fun _ _ => True) (fun _ _ h => ⟨h, trivial⟩) h).mono
    (P := fun _ => True) trivial fun _ h => ⟨h.1, trivial⟩

/-- A connection sets one key. -/
def setOps (i : Fin n) (k : UInt8) (p : Ptr) : List (Op n) :=
  .itemAlloc i [k] 0 0 3 (.quick none) :: uploadOps i p .set [53, 13, 10] 0

/-- A request, and a round of the crawler. -/
theorem lruFormed_crawled :
    ((World.seeded (0 : Fin 1) [107] [53, 13, 10]).execs .small
      [.lruCrawl 1 0, .crawl 1 true]).1.store.LruFormed := by
  obtain ⟨ls, hrun⟩ := World.run_seeded (n := 1) (i := 0) (k := [107]) (d := [53, 13, 10])
    (by decide) (by decide +kernel)
  exact lruFormed_of_run (hrun.append (World.run_execs_safe _ rfl (by decide +kernel)))

/-- **A request that comes before the crawler thread has woken up to an earlier one** links a
crawler that is in its list: it follows itself there, and is counted twice. -/
theorem lruFormed_fails : ¬ ∀ (cfg : Settings) (n : ℕ) (ls : List (Op n × Reply)) (w : World n),
    Run (World.Step cfg) (World.init n) ls w → w.store.LruFormed := by
  intro hall
  obtain ⟨ls, hrun⟩ := World.run_seeded (n := 1) (i := 0) (k := [107]) (d := [53, 13, 10])
    (by decide) (by decide +kernel)
  have hseg := ((hall .small 1 _ _ ((World.run_of_safe hrun).append
    (World.run_of_ready [.lruCrawl 1 0, .lruCrawl 1 0] (by decide +kernel)))).list 1).1
  have hlist : Store.lruList (((World.seeded (0 : Fin 1) [107] [53, 13, 10]).execs .small
      [.lruCrawl 1 0, .lruCrawl 1 0]).1.store) 1 = [firstChunk, .crawler 1] := by decide +kernel
  rw [hlist] at hseg
  exact absurd hseg.2.2.2.1 (by decide +kernel)

/-- **The LRU lists are sorted by access time** in every state that steps lead to that go well. -/
theorem lruSorted_of_run {ls : List (Op n × Reply)}
    (hr : Run (World.SafeStep cfg) (World.init n) ls w) : w.store.LruSorted := by
  obtain ⟨L, hwf⟩ := (World.ok_of_run hr).inv
  exact hwf.lruSorted

/-- A list of two items, the crawler behind them. -/
theorem lruSorted_crawled :
    ((World.seeded (0 : Fin 1) [107] [53, 13, 10]).execs .small
      (.clock 63 :: setOps 0 108 (.chunk 768) ++ [.lruCrawl 1 0])).1.store.LruSorted := by
  obtain ⟨ls, hrun⟩ := World.run_seeded (n := 1) (i := 0) (k := [107]) (d := [53, 13, 10])
    (by decide) (by decide +kernel)
  exact lruSorted_of_run (hrun.append (World.run_execs_safe _ rfl (by decide +kernel)))

/-- Three items are set, one a second; the crawler is asked for twice before it moves; the item in
front of it is deleted. -/
def crawledTwice (i : Fin n) : List (Op n) :=
  .clock 63 :: setOps i 108 (.chunk 768) ++ .clock 64 :: setOps i 109 (.chunk 640)
    ++ [.lruCrawl 1 0, .lruCrawl 1 0, .itemGet i [107] false, .itemUnlink i firstChunk,
      .itemRemove i firstChunk, .crawl 1 false, .crawl 1 false]

/-- **A crawler that follows itself closes the list to a ring**: walking it, one meets a newer item
after an older one. -/
theorem lruSorted_fails : ¬ ∀ (cfg : Settings) (n : ℕ) (ls : List (Op n × Reply)) (w : World n),
    Run (World.Step cfg) (World.init n) ls w → w.store.LruSorted := by
  intro hall
  obtain ⟨ls, hrun⟩ := World.run_seeded (n := 1) (i := 0) (k := [107]) (d := [53, 13, 10])
    (by decide) (by decide +kernel)
  have haged := hall .small 1 _ _ ((World.run_of_safe hrun).append
    (World.run_of_ready (crawledTwice 0) (by decide +kernel))) 1 5
  exact absurd haged (by decide +kernel)

end Memcached
