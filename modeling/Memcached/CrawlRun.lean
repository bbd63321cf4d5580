import Memcached.LruOrder

/-! # A crawl covers its list

The rounds of `item_crawler_thread` on one list, from the pseudo-item at its tail to the one that
takes it out, when nobody else is at work: which items they look at, and which they remove.

* **`crawlRounds`** — the rounds until the pseudo-item is taken out.
* **`crawl_covers`** — they look at every item once, in order, and take out the dead ones. -/

namespace Memcached

open Transition (Run)

variable {cfg : Settings} {s s' : Store} {g : Ghost} {L L' : Layout} {i : ℕ} {p y : Ptr}
  {l l₁ l₂ : List Ptr}

namespace Store

/-- The items of an LRU list, without the pseudo-item. -/
def lruItems (s : Store) (c : ℕ) : List Ptr := (s.lruList c).filter Ptr.isChunk

/-- The item that the next round on list `i` looks at. -/
def crawlExamines (s : Store) (i : ℕ) : Option Ptr :=
  if s.itFlags (.crawler i) ≠ { linked := true } then none
  else
    match (s.crawlerCrawlQ (.crawler i)).2 with
    | none => none
    | some search => if s.remaining i ≠ 0 ∧ s.remaining i - 1 < 1 then none else some search

/-- The store after some rounds on list `i`, with no lock taken. -/
def crawlRounds (cfg : Settings) (i : ℕ) : ℕ → Store → Store
  | 0, s => s
  | n + 1, s => crawlRounds cfg i n (s.crawlStep cfg true i)

/-- The items that some rounds on list `i` look at, in turn. -/
def crawlTrail (cfg : Settings) (i : ℕ) : ℕ → Store → List Ptr
  | 0, _ => []
  | n + 1, s => (s.crawlExamines i).toList ++ crawlTrail cfg i n (s.crawlStep cfg true i)

/-- Nobody refers to the item, and it is dead. -/
def crawlRemoves (s : Store) (p : Ptr) : Bool := s.reclaimable p && s.refcount p == 1

/-- The items of `l`, linked both ways, are LRU list `c`. -/
def ListFormed (s : Store) (c : ℕ) (l : List Ptr) : Prop :=
  DoublyLinked.Seg s.next s.prev none l none ∧ s.heads c = l.head? ∧ s.tails c = l.getLast? ∧
    l.Nodup

/-- Giving back a reference leaves what the crawlers have to do. -/
theorem remaining_doItemRemove (cfg : Settings) (s : Store) (p : Ptr) :
    (s.doItemRemove cfg p).remaining = s.remaining := by
  show (if (s.refcountDecr p).refcount p = 0 then (s.refcountDecr p).itemFree cfg p
    else s.refcountDecr p).remaining = _
  split
  · rw [Store.itemFree, Store.doSlabsFree]
    split <;> rfl
  · rfl

/-- Unlinking leaves what the crawlers have to do. -/
theorem remaining_doItemUnlink (cfg : Settings) (s : Store) (p : Ptr) (hv : ℕ) :
    (s.doItemUnlink cfg p hv).remaining = s.remaining := by
  rw [Store.doItemUnlink]
  split
  · obtain ⟨a, b, n, e⟩ := assocDelete_frame (s := s.unlinkStats p) ((s.unlinkStats p).key p) hv
    refine (remaining_doItemRemove cfg _ p).trans ?_
    show (((s.unlinkStats p).assocDelete ((s.unlinkStats p).key p) hv).itemUnlinkQ p).remaining = _
    rw [e]
    rfl
  · rfl

end Store

/-! ## One round -/

/-- Steps that are no crawler's leave the crawlers alone. -/
theorem Trace.crawlers {evs : List Event} {g' : Ghost} (ht : Trace cfg s g evs s' g')
    (h : Inv cfg s g) (he : Event.crawl ∉ evs) : s'.crawlers = s.crawlers := by
  induction ht with
  | nil => rfl
  | cons hm ht ih =>
      exact (ih (hm.inv h) fun hc => he (List.mem_cons_of_mem _ hc)).trans
        (hm.crawlers h fun hc => he (hc ▸ List.mem_cons_self ..))

/-- The pointers of a store form one family of LRU lists. -/
theorem LruLists.unique {q q' : Queue → List Ptr} (h : LruLists s q) (h' : LruLists s q') (c : ℕ) :
    q (.lru c) = q' (.lru c) := by
  set n := (q (.lru c)).length + (q' (.lru c)).length
  have e := SinglyLinked.walk_eq (n := n) (.of_doubly (h.family.seg (.lru c))) (by omega)
  have e' := SinglyLinked.walk_eq (n := n) (.of_doubly (h'.family.seg (.lru c))) (by omega)
  rw [← h.heads] at e
  rw [← h'.heads] at e'
  exact e.symm.trans e'

namespace WellFormed

/-- The pseudo-item in a list is enabled. -/
theorem crawling_of_mem (h : WellFormed cfg s g L) (hm : Ptr.crawler i ∈ L.queue (.lru i)) :
    s.itFlags (.crawler i) = { linked := true } ∧ s.slabsClsid (.crawler i) = i :=
  have hl := ((h.mem_lru _ i).mp hm).1
  ⟨(h.crawler i hl).1, (h.crawler i hl).2.1⟩

/-- What is on the list beside the pseudo-item is a linked item. -/
theorem linked_of_mem (h : WellFormed cfg s g L) (hp : p ∈ L.queue (.lru i))
    (hne : p ≠ .crawler i) : s.Linked p := by
  obtain ⟨hfl, hcl⟩ := (h.mem_lru p i).mp hp
  refine ⟨?_, hfl⟩
  cases p with
  | chunk a => rfl
  | crawler j =>
      obtain rfl : j = i := (h.crawler j hfl).2.1.symm.trans hcl
      exact absurd rfl hne

/-- The items of a list with its pseudo-item. -/
theorem lruItems_eq (h : WellFormed cfg s g L) (l₁ l₂ : List Ptr)
    (hq : L.queue (.lru i) = l₁ ++ .crawler i :: l₂) :
    s.lruItems i = l₁ ++ l₂ := by
  have hnd := h.family.nodup (.lru i)
  have hall : ∀ p ∈ l₁ ++ l₂, p.isChunk = true := by
    intro p hp
    refine (h.linked_of_mem (i := i) (by rw [hq]; simp at hp ⊢; tauto) ?_).1
    rintro rfl
    rw [hq] at hnd
    simp only [List.nodup_append, List.nodup_cons, List.mem_append, List.mem_cons] at hnd hp
    obtain hp | hp := hp
    · exact hnd.2.2 _ hp _ (Or.inl rfl) rfl
    · exact hnd.2.1.1 hp
  rw [Store.lruItems, h.lruList_eq, hq, List.filter_append, List.filter_cons_of_neg (by simp [Ptr.isChunk]),
    ← List.filter_append, List.filter_eq_self.mpr hall]

/-- **The crawler stops**: the pseudo-item leaves the list. -/
theorem crawlStop_queue (h : WellFormed cfg s g L) (l₁ l₂ : List Ptr)
    (hq : L.queue (.lru i) = l₁ ++ .crawler i :: l₂) :
    ∃ L', WellFormed cfg (s.crawlStop i) g L' ∧ L'.queue (.lru i) = l₁ ++ l₂ ∧
      ∀ c, c ≠ i → L'.queue (.lru c) = L.queue (.lru c) := by
  obtain ⟨hon, hcl⟩ := h.crawling_of_mem (i := i) (by simp [hq])
  obtain ⟨L', h'⟩ := h.crawlStop (i := i) (by rw [hon])
  have hlists : LruLists
      { s.setFlags (.crawler i) {} with crawlerCount := s.crawlerCount - 1 } L.queue :=
    ⟨h.family, h.heads, h.tails⟩
  have hun : LruLists (s.crawlStop i) (Function.update L.queue (.lru i) (l₁ ++ l₂)) :=
    hlists.crawlerUnlinkQ hcl hq
  refine ⟨L', h', ?_, fun c hc => ?_⟩
  · rw [h'.toLruLists.unique hun, Function.update_self]
  · rw [h'.toLruLists.unique hun, Function.update_of_ne (by simpa using hc)]

/-- The round that finds the pseudo-item at the head. -/
theorem crawlStep_head (h : WellFormed cfg s g L) (hq : L.queue (.lru i) = .crawler i :: l₂) :
    s.crawlStep cfg true i = s.crawlStop i ∧ s.crawlExamines i = none := by
  obtain ⟨hon, hcl⟩ := h.crawling_of_mem (i := i) (by simp [hq])
  obtain ⟨hnone, hstop⟩ := h.toLruLists.crawlerCrawlQ_head hcl hq
  rw [Store.crawlStep, Store.crawlExamines, if_neg (not_not.mpr hon), if_neg (not_not.mpr hon)]
  revert hnone hstop
  cases s.crawlerCrawlQ (.crawler i) with
  | mk t o =>
      rintro rfl hstop
      exact ⟨hstop, rfl⟩

/-- What `crawler_crawl_q` leaves alone. -/
theorem crawlerCrawlQ_frame (s : Store) (p : Ptr) :
    ∃ nx pv hd tl, (s.crawlerCrawlQ p).1
      = { s with next := nx, prev := pv, heads := hd, tails := tl } := by
  rw [Store.crawlerCrawlQ]
  cases s.prev p with
  | none => exact ⟨_, _, _, _, rfl⟩
  | some x => exact ⟨_, _, _, _, rfl⟩

/-- The round that reaches the limit behind `y`. -/
theorem crawlStep_limit (h : WellFormed cfg s g L)
    (hq : L.queue (.lru i) = l₁ ++ y :: .crawler i :: l₂) (hlim : s.remaining i = 1) :
    s.crawlExamines i = none ∧ ∃ L', WellFormed cfg (s.crawlStep cfg true i) g L' ∧
      L'.queue (.lru i) = l₁ ++ y :: l₂ ∧
      (s.crawlStep cfg true i).itFlags (.crawler i) = {} ∧
      (s.crawlStep cfg true i).crawlerCount = s.crawlerCount - 1 := by
  obtain ⟨hon, -⟩ := h.crawling_of_mem (i := i) (by simp [hq])
  obtain ⟨hsome, h₁⟩ := h.crawlSwap (by rw [hon]) hq
  obtain ⟨nx, pv, hd, tl, hf⟩ := crawlerCrawlQ_frame s (.crawler i)
  have hstep : s.crawlStep cfg true i = Store.crawlStop
      { (s.crawlerCrawlQ (.crawler i)).1 with
        remaining := Function.update s.remaining i (s.remaining i - 1) } i ∧
      s.crawlExamines i = none := by
    rw [Store.crawlStep, Store.crawlExamines, if_neg (not_not.mpr hon), if_neg (not_not.mpr hon)]
    revert hsome hf
    cases s.crawlerCrawlQ (.crawler i) with
    | mk t o =>
        rintro rfl rfl
        simp [hlim]
  rw [hstep.1]
  refine ⟨hstep.2, ?_⟩
  obtain ⟨L', h', hl, -⟩ := WellFormed.crawlStop_queue (i := i)
    (show WellFormed cfg { (s.crawlerCrawlQ (.crawler i)).1 with
      remaining := Function.update s.remaining i (s.remaining i - 1) } g _ from { h₁ with })
    l₁ (y :: l₂) (Function.update_self ..)
  refine ⟨L', h', hl, Function.update_self .., ?_⟩
  show (s.crawlerCrawlQ (.crawler i)).1.crawlerCount - 1 = _
  rw [hf]

/-- What the next round does to the item in front of the pseudo-item, when it does not stop there:
the item goes behind the pseudo-item, or away. -/
theorem crawlStep_examine (h : WellFormed cfg s g L)
    (hq : L.queue (.lru i) = l₁ ++ y :: .crawler i :: l₂) (hlim : s.remaining i ≠ 1) :
    s.crawlExamines i = some y ∧ ∃ L', WellFormed cfg (s.crawlStep cfg true i) g L' ∧
      L'.queue (.lru i)
        = l₁ ++ .crawler i :: (if s.crawlRemoves y = true then l₂ else y :: l₂) ∧
      (s.crawlStep cfg true i).remaining i = s.remaining i - 1 ∧
      (s.crawlStep cfg true i).crawlers = s.crawlers := by
  obtain ⟨hon, -⟩ := h.crawling_of_mem (i := i) (by simp [hq])
  have hy := h.linked_of_crawlSwap hq
  obtain ⟨hsome, h₁⟩ := h.crawlSwap (by rw [hon]) hq
  obtain ⟨nx, pv, hd, tl, hf⟩ := crawlerCrawlQ_frame s (.crawler i)
  have hno : ¬ (s.remaining i ≠ 0 ∧ s.remaining i - 1 < 1) := by omega
  -- the store behind the swap
  set t : Store := { (s.crawlerCrawlQ (.crawler i)).1 with
    remaining := Function.update s.remaining i (s.remaining i - 1) } with ht
  have hstep : (s.crawlStep cfg true i = if (t.refcountIncr y).refcount y ≠ 2 then
        (t.refcountIncr y).refcountDecr y
      else (t.refcountIncr y).itemCrawlerEvaluate cfg y (cfg.hash (s.key y)) i) ∧
      s.crawlExamines i = some y := by
    rw [Store.crawlStep, Store.crawlExamines, if_neg (not_not.mpr hon), if_neg (not_not.mpr hon)]
    revert hsome hf ht
    cases s.crawlerCrawlQ (.crawler i) with
    | mk u o =>
        rintro rfl rfl ht
        simp only [if_neg hno] at ht ⊢
        rw [ht]
        exact ⟨rfl, trivial⟩
  rw [hstep.1]
  refine ⟨hstep.2, ?_⟩
  have ht' : t = { s with
      next := nx, prev := pv, heads := hd, tails := tl,
      remaining := Function.update s.remaining i (s.remaining i - 1) } := by
    rw [ht, hf]
  have h₂ : WellFormed cfg t g _ := { h₁ with }
  have hqt : Function.update L.queue (.lru i) (l₁ ++ .crawler i :: y :: l₂) (.lru i)
      = l₁ ++ .crawler i :: y :: l₂ := Function.update_self ..
  clear_value t
  have hrem : t.remaining i = s.remaining i - 1 := by
    rw [ht']
    exact Function.update_self ..
  have hyt : t.Linked y := by
    rw [ht']
    exact hy
  have hdead : t.reclaimable y = s.reclaimable y := by
    rw [ht']
    rfl
  have hcrawlers : t.crawlers = s.crawlers := by
    rw [ht']
    rfl
  have hrefs : t.refcount y = g.handles y + 1 := by
    rw [ht']
    exact h.refcount_of_linked hy
  have hlt := h.refs_lt y (Or.inl hy)
  rw [refs_of_linked hy] at hlt
  have hcancel : (t.refcountIncr y).refcountDecr y = t :=
    refcountDecr_refcountIncr (by rw [hrefs]; omega)
  have hself : (t.refcountIncr y).refcount y = (g.handles y + 2) % refcountModulus := by
    show Function.update t.refcount y _ y = _
    rw [Function.update_self, hrefs]
  have hone : s.refcount y = 1 ↔ (t.refcountIncr y).refcount y = 2 := by
    rw [h.refcount_of_linked hy, hself, refcountModulus] at *
    omega
  have hstay : s.crawlRemoves y = false → ∃ L', WellFormed cfg t g L' ∧
      L'.queue (.lru i) = l₁ ++ .crawler i :: (if s.crawlRemoves y = true then l₂ else y :: l₂) ∧
      t.remaining i = s.remaining i - 1 ∧ t.crawlers = s.crawlers := by
    intro hkeep
    refine ⟨_, h₂, ?_, hrem, hcrawlers⟩
    rw [if_neg (by simp [hkeep])]
    exact hqt
  by_cases hheld : (t.refcountIncr y).refcount y ≠ 2
  · -- somebody holds it: the reference is given back
    rw [if_pos hheld, hcancel]
    exact hstay (by simp [Store.crawlRemoves, hone.not.mpr hheld])
  rw [if_neg hheld, Store.itemCrawlerEvaluate]
  rw [not_not] at hheld
  have hdead' : (t.refcountIncr y).reclaimable y = s.reclaimable y := hdead
  rw [hdead']
  by_cases hrec : s.reclaimable y = true
  · rw [if_pos hrec]
    have hremoves : s.crawlRemoves y = true := by
      simp [Store.crawlRemoves, hrec, hone.mpr hheld]
    have hroom : t.refs g y + 1 < refcountModulus := by
      rw [refs_of_linked hyt]
      rw [hself, refcountModulus] at hheld
      rw [refcountModulus] at hlt ⊢
      omega
    have h₃ := h₂.refcountIncr (Or.inl hyt) hroom
    set u := (t.refcountIncr y).bumpStats i fun st =>
      { st with
        crawlerReclaimed := st.crawlerReclaimed + 1
        expiredUnfetched :=
          if ((t.refcountIncr y).itFlags y).fetched then st.expiredUnfetched
          else st.expiredUnfetched + 1 } with hu
    have h₄ : WellFormed cfg u (g.hold y) _ := { h₃ with }
    have hyu : u.Linked y := hyt
    have hkey : cfg.hash (s.key y) = cfg.hash (u.key y) := by
      rw [hu, ht']
      rfl
    have hcu : u.crawlers = s.crawlers := hcrawlers
    have hru : u.remaining i = s.remaining i - 1 := hrem
    clear_value u
    obtain ⟨L₅, h₅, e₅⟩ := h₄.doItemUnlink hyu
    obtain ⟨L₆, h₆, e₆⟩ := h₅.doItemRemove (p := y) (by simp)
    have htrace := (Trace.doItemUnlink cfg (g.hold y) hyu).append (.single (.deref_hold y))
    rw [Ghost.drop_hold] at h₆
    rw [hkey]
    refine ⟨L₆, h₆, ?_, ?_, (htrace.crawlers ⟨_, h₄⟩ (by simp)).trans hcu⟩
    · rw [e₆, e₅, if_pos hremoves]
      refine (congrArg (List.erase · y) hqt).trans ?_
      have hnd := h.family.nodup (.lru i)
      rw [hq] at hnd
      simp only [List.nodup_append, List.nodup_cons, List.mem_cons, not_or] at hnd
      rw [List.erase_append_right _ fun hm => hnd.2.2 y hm y (Or.inl rfl) rfl,
        List.erase_cons_tail (by simpa using Ne.symm hnd.2.1.1.1), List.erase_cons_head]
    · rw [Store.remaining_doItemRemove, Store.remaining_doItemUnlink, hru]
  · rw [if_neg hrec, hcancel]
    exact hstay (by simp [Store.crawlRemoves, hrec])

/-- A list with its pseudo-item, after which an item is left. -/
theorem lruItems_examine (h' : WellFormed cfg s' g L') {b : Bool}
    (hq' : L'.queue (.lru i) = l₁ ++ .crawler i :: (if b = true then l₂ else y :: l₂)) :
    (s'.lruItems i).Sublist (l₁ ++ y :: l₂) := by
  rw [h'.lruItems_eq _ _ hq']
  refine (List.append_sublist_append_left l₁).mpr ?_
  split
  · exact List.sublist_cons_self y l₂
  · exact List.Sublist.refl _

end WellFormed

/-- **A round of the crawler** keeps the store well formed, and the items of its list in order. -/
theorem Inv.crawlStep (h : Inv cfg s g) (i : ℕ) : Inv cfg (s.crawlStep cfg true i) g ∧
    ((s.crawlStep cfg true i).lruItems i).Sublist (s.lruItems i) := by
  by_cases hon : s.itFlags (.crawler i) = { linked := true }
  swap
  · rw [Store.crawlStep, if_pos hon]
    exact ⟨h, List.Sublist.refl _⟩
  obtain ⟨L, hwf⟩ := h
  have hmem : Ptr.crawler i ∈ L.queue (.lru i) :=
    (hwf.mem_lru _ i).mpr ⟨by rw [hon], (hwf.crawler i (by rw [hon])).2.1⟩
  obtain ⟨l₁, l₂, hq⟩ := DoublyLinked.Family.exists_split hmem
  rcases List.eq_nil_or_concat l₁ with rfl | ⟨l, y, rfl⟩
  · -- at the head
    rw [List.nil_append] at hq
    rw [(hwf.crawlStep_head hq).1]
    obtain ⟨L', h', hl, -⟩ := hwf.crawlStop_queue [] _ hq
    refine ⟨⟨L', h'⟩, ?_⟩
    rw [hwf.lruItems_eq [] _ hq, Store.lruItems, h'.lruList_eq, hl]
    exact List.filter_sublist
  rw [List.concat_eq_append, List.append_assoc] at hq
  have hq₀ : L.queue (.lru i) = (l ++ [y]) ++ .crawler i :: l₂ := by simpa using hq
  rw [hwf.lruItems_eq _ _ hq₀, List.append_assoc]
  by_cases hlim : s.remaining i = 1
  · obtain ⟨-, L', h', hl, -⟩ := hwf.crawlStep_limit hq hlim
    refine ⟨⟨L', h'⟩, ?_⟩
    rw [Store.lruItems, h'.lruList_eq, hl]
    exact List.filter_sublist
  · obtain ⟨-, L', h', hl, -⟩ := hwf.crawlStep_examine hq hlim
    exact ⟨⟨L', h'⟩, h'.lruItems_examine hl⟩

/-- **`crawler_crawl_q`** keeps the list well formed, and its items in order. -/
theorem Inv.crawlerCrawlQ (h : Inv cfg s g) (hon : s.itFlags (.crawler i) = { linked := true }) :
    ∃ l, (s.crawlerCrawlQ (.crawler i)).1.ListFormed i l ∧ l.filter Ptr.isChunk = s.lruItems i := by
  obtain ⟨L, hwf⟩ := h
  have hcl := (hwf.crawler i (by rw [hon])).2.1
  have hmem : Ptr.crawler i ∈ L.queue (.lru i) := (hwf.mem_lru _ i).mpr ⟨by rw [hon], hcl⟩
  have hformed : ∀ {t : Store} {L' : Layout}, WellFormed cfg t g L' →
      t.ListFormed i (L'.queue (.lru i)) := fun h' =>
    ⟨h'.family.seg _, h'.heads i, h'.tails i, h'.family.nodup _⟩
  obtain ⟨l₁, l₂, hq⟩ := DoublyLinked.Family.exists_split hmem
  rcases List.eq_nil_or_concat l₁ with rfl | ⟨l, y, rfl⟩
  · -- at the head: the list behind the pseudo-item, if there is one
    rw [List.nil_append] at hq
    have hitems := hwf.lruItems_eq [] _ hq
    have hold := hformed hwf
    rw [hq] at hold
    obtain ⟨hseg, hhead, htail, hnd⟩ := hold
    obtain ⟨hprev, hnext, hrest⟩ := hseg
    rw [Store.crawlerCrawlQ, hprev, hcl]
    rcases l₂ with _ | ⟨x, l₂⟩
    · have hnone : s.next (.crawler i) = none := by simpa using hnext
      refine ⟨[.crawler i], ⟨⟨?_, hnext, trivial⟩, ?_, htail, hnd⟩, hitems.symm ▸ rfl⟩
      · simpa [hnone] using hprev
      · simpa [hnone] using hhead
    · have hsome : s.next (.crawler i) = some x := by simpa using hnext
      have hnd' := (List.nodup_cons.mp hnd).2
      have hseg' := hrest.set_head hnd' none
      refine ⟨x :: l₂, ⟨?_, ?_, ?_, hnd'⟩, ?_⟩
      · simpa [hsome] using hseg'
      · simp [hsome]
      · simpa [List.getLast?_cons] using htail
      · rw [hitems, List.nil_append]
        refine List.filter_eq_self.mpr fun p hp => ?_
        exact (hwf.linked_of_mem (i := i) (by rw [hq]; exact List.mem_cons_of_mem _ hp)
          fun e => (List.nodup_cons.mp hnd).1 (e ▸ hp)).1
  · rw [List.concat_eq_append, List.append_assoc] at hq
    obtain ⟨-, h₁⟩ := hwf.crawlSwap (by rw [hon]) hq
    have hq' : Function.update L.queue (.lru i) (l ++ .crawler i :: y :: l₂) (.lru i)
        = l ++ .crawler i :: y :: l₂ := Function.update_self ..
    refine ⟨_, hformed h₁, ?_⟩
    have hitems := h₁.lruItems_eq l (y :: l₂) hq'
    rw [Store.lruItems, h₁.lruList_eq] at hitems
    rw [hitems, hwf.lruItems_eq (l ++ [y]) l₂ (by simpa using hq)]
    simp

/-- **Rounds of the crawler** keep the store well formed, and the items of its list in order. -/
theorem Inv.crawlRounds (h : Inv cfg s g) (i n : ℕ) : Inv cfg (s.crawlRounds cfg i n) g ∧
    ((s.crawlRounds cfg i n).lruItems i).Sublist (s.lruItems i) := by
  induction n generalizing s with
  | zero => exact ⟨h, List.Sublist.refl _⟩
  | succ n ih =>
      obtain ⟨h₁, hsub₁⟩ := h.crawlStep i
      -- the rounds that follow start from a well formed store
      obtain ⟨h₂, hsub₂⟩ := ih h₁
      exact ⟨h₂, hsub₂.trans hsub₁⟩

/-! ## All rounds -/

/-- What the crawler would remove, after a round: the items that are still linked stay what they
were. -/
theorem Inv.crawlRemoves_eq (h : Inv cfg s g) (hp : s.Linked p)
    (hp' : (s.crawlStep cfg true i).Linked p) :
    (s.crawlStep cfg true i).crawlRemoves p = s.crawlRemoves p := by
  obtain ⟨evs, ht, he⟩ := Trace.crawlStep h true i
  have hno : ∀ e ∈ evs, ¬ e.Rewrites p := fun e hm hc => by
    have := he e hm
    cases e <;> first | exact hc | exact this
  obtain ⟨-, b, t, hi, hb, htm⟩ := ht.item_eq h hno (Or.inl hp')
  obtain rfl : b = (s.item p).linked := by
    refine hb.resolve_right fun hc => ?_
    have hbt : b = true := (congrArg Item.linked hi).symm.trans hp'.2
    exact absurd hbt (by simp [hc.2])
  obtain rfl := htm.resolve_right fun hc => he _ hc.1
  have hrec := reclaimable_of_item hi ht.currentTime ht.oldestLive
  obtain ⟨L, hwf⟩ := id h
  obtain ⟨L', hwf'⟩ := ht.inv h
  rw [Store.crawlRemoves, Store.crawlRemoves, hrec, hwf.refcount_of_linked hp,
    hwf'.refcount_of_linked hp']

/-- **The rounds of a crawl**: the pseudo-item passes the items in front of it, all of them or as many
as the limit leaves, and is taken out. -/
theorem WellFormed.crawlRounds_spec (h : WellFormed cfg s g L)
    (hq : L.queue (.lru i) = l₁ ++ .crawler i :: l₂) :
    ∃ n, ∃ L', WellFormed cfg (s.crawlRounds cfg i n) g L' ∧
      (s.crawlRounds cfg i n).itFlags (.crawler i) = {} ∧
      (s.crawlRounds cfg i n).crawlerCount = s.crawlerCount - 1 ∧
      s.crawlTrail cfg i n
        = (if s.remaining i = 0 then l₁.reverse else l₁.reverse.take (s.remaining i - 1)) ∧
      (s.remaining i = 0 → n = l₁.length + 1 ∧
        L'.queue (.lru i) = l₁.filter (fun p => !s.crawlRemoves p) ++ l₂) := by
  -- by induction from the end of `l₁`: the pseudo-item goes towards the head
  induction l₁ using List.reverseRecOn generalizing s L l₂ with
  | nil =>
      obtain ⟨hstep, hnone⟩ := h.crawlStep_head hq
      obtain ⟨L', h', hl, -⟩ := h.crawlStop_queue _ _ hq
      have hrounds : s.crawlRounds cfg i 1 = s.crawlStop i := hstep
      refine ⟨1, L', hrounds ▸ h', ?_, ?_, ?_, fun _ => ⟨rfl, hl⟩⟩
      · rw [hrounds]
        exact Function.update_self ..
      · rw [hrounds]
        rfl
      · simp [Store.crawlTrail, hnone]
  | append_singleton l y ih =>
      rw [List.append_assoc] at hq
      by_cases hlim : s.remaining i = 1
      · obtain ⟨hnone, L', h', hl, hoff, hcount⟩ := h.crawlStep_limit hq hlim
        refine ⟨1, L', h', hoff, hcount, ?_, fun h0 => by omega⟩
        simp [Store.crawlTrail, hnone, hlim]
      · obtain ⟨hsome, L₁, h₁, hl, hrem, hcrawlers⟩ := h.crawlStep_examine hq hlim
        obtain ⟨n, L', h', hoff, hcount, htrail, hall⟩ := ih h₁ hl
        have hcount₁ : (s.crawlStep cfg true i).crawlerCount = s.crawlerCount :=
          congrArg Prod.snd hcrawlers
        refine ⟨n + 1, L', h', hoff, hcount.trans (by rw [hcount₁]), ?_, fun h0 => ?_⟩
        · rw [Store.crawlTrail, hsome, htrail, hrem, List.reverse_append]
          by_cases h0 : s.remaining i = 0
          · simp [h0]
          · obtain ⟨r, hr⟩ : ∃ r, s.remaining i = r + 2 := ⟨s.remaining i - 2, by omega⟩
            simp [hr]
        · obtain ⟨rfl, hl'⟩ := hall (by rw [hrem, h0])
          refine ⟨by simp, hl'.trans ?_⟩
          have hnd := h.family.nodup (.lru i)
          rw [hq] at hnd
          have hsame : ∀ p ∈ l, (s.crawlStep cfg true i).crawlRemoves p = s.crawlRemoves p := by
            intro p hp
            have hne : p ≠ .crawler i := by
              rintro rfl
              exact (List.nodup_append.mp hnd).2.2 _ hp (.crawler i) (by simp) rfl
            exact Inv.crawlRemoves_eq ⟨L, h⟩ (h.linked_of_mem (i := i) (by simp [hq, hp]) hne)
              (h₁.linked_of_mem (i := i) (by simp [hl, hp]) hne)
          rw [List.filter_append, List.append_assoc,
            List.filter_congr fun p hp => congrArg (! ·) (hsame p hp)]
          congr 1
          cases hy : s.crawlRemoves y <;> simp [hy]

/-- **One LRU crawl covers its list.** Each round keeps the store well formed and the items in order,
and so does `crawler_crawl_q` in it. Without a limit the rounds look at every item once, from the tail
to the head, and remove exactly those that nobody refers to and that are dead; with one they look at
fewer items than that. Then the pseudo-item is out of the list, and one crawler less is counted. -/
theorem crawl_covers (h : Inv cfg s g) (hq : s.lruList i = l ++ [.crawler i])
    (hcount : s.crawlerCount ≠ 0) :
    (∀ n, Inv cfg (s.crawlRounds cfg i n) g ∧
      ((s.crawlRounds cfg i n).lruItems i).Sublist (s.lruItems i) ∧
      ((s.crawlRounds cfg i n).itFlags (.crawler i) = { linked := true } →
        ∃ l', ((s.crawlRounds cfg i n).crawlerCrawlQ (.crawler i)).1.ListFormed i l' ∧
          l'.filter Ptr.isChunk = (s.crawlRounds cfg i n).lruItems i)) ∧
    ∃ n, (s.crawlRounds cfg i n).itFlags (.crawler i) = {} ∧
      .crawler i ∉ (s.crawlRounds cfg i n).lruList i ∧
      (s.crawlRounds cfg i n).crawlerCount + 1 = s.crawlerCount ∧
      (s.remaining i = 0 → s.crawlTrail cfg i n = l.reverse ∧
        (s.crawlRounds cfg i n).lruList i = l.filter fun p => !s.crawlRemoves p) ∧
      (s.remaining i ≠ 0 → s.crawlTrail cfg i n = l.reverse.take (s.remaining i - 1)) := by
  refine ⟨fun n => ⟨(h.crawlRounds i n).1, (h.crawlRounds i n).2, fun hon =>
    (h.crawlRounds i n).1.crawlerCrawlQ hon⟩, ?_⟩
  obtain ⟨L, hwf⟩ := h
  rw [hwf.lruList_eq] at hq
  obtain ⟨n, L', h', hoff, hless, htrail, hall⟩ := hwf.crawlRounds_spec hq
  refine ⟨n, hoff, fun hm => ?_, by omega, fun h0 => ?_, fun h0 => ?_⟩
  · rw [h'.lruList_eq, h'.mem_lru, hoff] at hm
    exact absurd hm.1 (by simp)
  · rw [htrail, if_pos h0, h'.lruList_eq, (hall h0).2, List.append_nil]
    exact ⟨rfl, rfl⟩
  · rw [htrail, if_neg h0]

/-- Two keys, of which the second has expired, and a crawl of their class. -/
def crawlExpired (tocrawl : ℕ) : World 1 :=
  let i : Fin 1 := Fin.last 0
  (World.twoKeys.execs .small [.itemTouch i [109] 1 false, .itemRemove i (.chunk 768), .clock 100,
    .lruCrawl 1 tocrawl]).1

/-- Both items are examined, and the expired one is removed; with `tocrawl = 2` the crawl ends after
the first one. -/
theorem crawl_covers_expired :
    (∃ n, (crawlExpired 0).store.crawlTrail .small 1 n = [firstChunk, .chunk 768] ∧
      ((crawlExpired 0).store.crawlRounds .small 1 n).lruList 1 = [firstChunk]) ∧
    ∃ n, (crawlExpired 2).store.crawlTrail .small 1 n = [firstChunk] ∧
      ((crawlExpired 2).store.crawlRounds .small 1 n).itFlags (.crawler 1) = {} := by
  obtain ⟨ls, hrun⟩ := World.run_twoKeys
  have hall := World.ok_of_run (hrun.append (World.run_execs_safe (w := World.twoKeys)
    [.itemTouch 0 [109] 1 false, .itemRemove 0 (.chunk 768), .clock 100, .lruCrawl 1 0] rfl
    (by decide +kernel)))
  have htwo := World.ok_of_run (hrun.append (World.run_execs_safe (w := World.twoKeys)
    [.itemTouch 0 [109] 1 false, .itemRemove 0 (.chunk 768), .clock 100, .lruCrawl 1 2] rfl
    (by decide +kernel)))
  constructor
  · obtain ⟨n, -, -, -, h0, -⟩ := (crawl_covers (i := 1) (l := [.chunk 768, firstChunk]) hall.inv
      (by decide +kernel) (by decide +kernel)).2
    obtain ⟨htrail, hlist⟩ := h0 (by decide +kernel)
    refine ⟨n, htrail, hlist.trans ?_⟩
    decide +kernel
  · obtain ⟨n, hoff, -, -, -, h0⟩ := (crawl_covers (i := 1) (l := [.chunk 768, firstChunk]) htwo.inv
      (by decide +kernel) (by decide +kernel)).2
    have hremaining : (crawlExpired 2).store.remaining 1 = 2 := by decide +kernel
    have htrail : (crawlExpired 2).store.crawlTrail .small 1 n =
        [Ptr.chunk 768, firstChunk].reverse.take ((crawlExpired 2).store.remaining 1 - 1) :=
      h0 (show (crawlExpired 2).store.remaining 1 ≠ 0 by omega)
    rw [hremaining] at htrail
    exact ⟨n, htrail, hoff⟩

end Memcached
