import Memcached.InvariantSlabs

/-! # The crawler keeps the invariant

A pseudo-item enters its LRU list at the tail, changes places with the item in front of it, and
leaves the list again.

* **`Inv.crawlStart`**, **`Inv.crawlStop`**, **`Inv.crawlerCrawlQ`** — the pseudo-item enters,
  leaves and moves. -/

namespace Memcached

open DoublyLinked (Family setAt)

variable {cfg : Settings} {s : Store} {g : Ghost} {L : Layout}

namespace LruLists

variable {q : Queue → List Ptr} {p : Ptr}

/-- `crawler_link_q` puts a pseudo-item at the end of a list. -/
theorem crawlerLinkQ (h : LruLists s q) (hp : ∀ j, p ∉ q j) :
    LruLists (s.crawlerLinkQ p)
      (Function.update q (.lru (s.slabsClsid p)) (q (.lru (s.slabsClsid p)) ++ [p])) where
  family := by
    have hf := h.family.pushBack hp (.lru (s.slabsClsid p))
    rw [← h.tails] at hf
    exact hf
  heads c := by
    by_cases e : c = s.slabsClsid p
    · subst e
      simp only [Store.crawlerLinkQ, Function.update_self, h.heads]
      cases q (.lru (s.slabsClsid p)) <;> simp
    · simp [Store.crawlerLinkQ, Function.update_of_ne, e, h.heads c]
  tails c := by
    by_cases e : c = s.slabsClsid p
    · subst e; simp [Store.crawlerLinkQ]
    · simp [Store.crawlerLinkQ, Function.update_of_ne, e, h.tails c]

/-- `crawler_unlink_q` takes a pseudo-item out of its list. -/
theorem crawlerUnlinkQ (h : LruLists s q) {c : ℕ} (hc : s.slabsClsid p = c) {l₁ l₂ : List Ptr}
    (hq : q (.lru c) = l₁ ++ p :: l₂) :
    LruLists (s.crawlerUnlinkQ p) (Function.update q (.lru c) (l₁ ++ l₂)) := by
  subst hc
  have h' := h.itemUnlinkQ hq
  exact ⟨h'.family, h'.heads, h'.tails⟩

/-- At the head of a list, `crawler_crawl_q` has nothing to look at, and what it does to the list
`crawler_unlink_q` would do too. -/
theorem crawlerCrawlQ_head (h : LruLists s q) {i : ℕ} (hc : s.slabsClsid (.crawler i) = i)
    {l : List Ptr} (hq : q (.lru i) = .crawler i :: l) :
    (s.crawlerCrawlQ (.crawler i)).2 = none ∧
      (s.crawlerCrawlQ (.crawler i)).1.crawlStop i = s.crawlStop i := by
  obtain ⟨hprev, -⟩ := h.family.neighbours (show q (.lru i) = [] ++ .crawler i :: l from hq)
  have hhead : s.heads i = some (.crawler i) := by rw [h.heads, hq]; rfl
  have hself : s.next (.crawler i) ≠ some (.crawler i) := h.family.next_ne_self (i := .lru i) (by
    simp [hq])
  rw [Store.crawlerCrawlQ, hprev]
  refine ⟨rfl, ?_⟩
  cases hn : s.next (.crawler i) with
  | none => simp [Store.crawlStop, Store.crawlerUnlinkQ, Store.setFlags, hc, hn, hhead]
  | some x =>
      have hx : x ≠ .crawler i := fun e => hself (e ▸ hn)
      have hp : Function.update s.prev x none (.crawler i) = none := by
        rw [Function.update_of_ne hx.symm, hprev]; rfl
      have hp' : s.prev (.crawler i) = none := hprev
      simp [Store.crawlStop, Store.crawlerUnlinkQ, Store.setFlags, hc, hn, hhead, hp, hp', hx]

/-- `crawler_crawl_q` behind `y`: the two change places. -/
theorem crawlerCrawlQ (h : LruLists s q) {c : ℕ} (hc : s.slabsClsid p = c) {l₁ l₂ : List Ptr}
    {y : Ptr} (hq : q (.lru c) = l₁ ++ y :: p :: l₂) :
    (s.crawlerCrawlQ p).2 = some y ∧
      LruLists (s.crawlerCrawlQ p).1 (Function.update q (.lru c) (l₁ ++ p :: y :: l₂)) := by
  subst hc
  have hq' : q (.lru (s.slabsClsid p)) = (l₁ ++ [y]) ++ p :: l₂ := by simp [hq]
  obtain ⟨hprev, -⟩ := h.family.neighbours hq'
  rw [List.getLast?_concat] at hprev
  have hnd := h.family.nodup (.lru (s.slabsClsid p))
  rw [hq] at hnd
  rw [Store.crawlerCrawlQ, hprev]
  refine ⟨rfl, h.family.swapPrev hq, fun c => ?_, fun c => ?_⟩
  · by_cases e : c = s.slabsClsid p
    · subst e
      simp only [Function.update_self, h.heads, hq]
      cases l₁ with
      | nil => simp
      | cons x xs =>
          have : x ≠ y := by
            rintro rfl
            simp at hnd
          simp [this]
    · simp [Function.update_of_ne, e, h.heads c]
  · by_cases e : c = s.slabsClsid p
    · subst e
      simp only [Function.update_self, h.tails, hq]
      rcases List.eq_nil_or_concat l₂ with rfl | ⟨xs, x, rfl⟩
      · simp [List.getLast?_append]
      · have : x ≠ p := by
          rintro rfl
          simp [List.nodup_append] at hnd
        simp [List.getLast?_append, List.getLast?_cons, this]
    · simp [Function.update_of_ne, e, h.tails c]

end LruLists

namespace WellFormed

/-- A pseudo-item is none of the server's items. -/
theorem ne_crawler {p : Ptr} (hp : p.isChunk = true) (i : ℕ) : p ≠ .crawler i := by
  rintro rfl
  simp [Ptr.isChunk] at hp

/-- The flags of a pseudo-item make no item linked. -/
theorem linked_crawlerFlags (i : ℕ) (flags : ItFlags) (q : Ptr) :
    (s.setFlags (.crawler i) flags).Linked q ↔ s.Linked q := by
  by_cases e : q = .crawler i
  · subst e; simp [Store.Linked, Ptr.isChunk]
  · simp [Store.Linked, Store.setFlags, Function.update_of_ne e]

/-- The flags of a pseudo-item make no item one in use, and it is none itself. -/
theorem inUse_crawlerFlags (h : WellFormed cfg s g L) {i : ℕ} {flags : ItFlags} {q : Ptr}
    (hq : (s.setFlags (.crawler i) flags).InUse g q) : q ≠ .crawler i ∧ s.InUse g q := by
  have hq' : s.InUse g q := hq.imp_left (linked_crawlerFlags i flags q).mp
  exact ⟨ne_crawler (h.isChunk_of_inUse hq') i, hq'⟩

/-- The flags of a pseudo-item are no reference to an item. -/
theorem refs_crawlerFlags {i : ℕ} {flags : ItFlags} {q : Ptr} (hq : q ≠ .crawler i) :
    (s.setFlags (.crawler i) flags).refs g q = s.refs g q := by
  simp [Store.refs, Store.setFlags, Function.update_of_ne hq]

/-- A pseudo-item at the tail of its list keeps the lists sorted, whatever its access time. -/
theorem sorted_concat_crawler {f : Queue → List Ptr} {time : Ptr → ℕ}
    (hs : ∀ d, (f (.lru d)).Pairwise fun q r =>
      q.isChunk = true → r.isChunk = true → time r ≤ time q) (i now c : ℕ) :
    (Function.update f (.lru i) (f (.lru i) ++ [.crawler i]) (.lru c)).Pairwise fun q r =>
      q.isChunk = true → r.isChunk = true →
        Function.update time (.crawler i) now r ≤ Function.update time (.crawler i) now q := by
  have hold : ∀ d, (f (.lru d)).Pairwise fun q r => q.isChunk = true → r.isChunk = true →
      Function.update time (.crawler i) now r ≤ Function.update time (.crawler i) now q :=
    fun d => (hs d).imp fun {q r} hqr hq hr => by
      rw [Function.update_of_ne (ne_crawler hq i), Function.update_of_ne (ne_crawler hr i)]
      exact hqr hq hr
  by_cases e : c = i
  · subst e
    rw [Function.update_self, List.pairwise_append]
    exact ⟨hold c, List.pairwise_singleton .., fun q _ r hr _ hc => by
      rw [List.mem_singleton.mp hr] at hc
      simp [Ptr.isChunk] at hc⟩
  · rw [Function.update_of_ne (by simpa using e)]
    exact hold c

/-- Starting the crawler on a list it is not on. -/
theorem crawlStart (h : WellFormed cfg s g L) {i : ℕ}
    (hoff : (s.itFlags (.crawler i)).linked = false) (n : ℕ) :
    ∃ L', WellFormed cfg (s.crawlStart i n) g L' := by
  rw [Store.crawlStart]
  split
  · exact ⟨L, h⟩
  -- a crawler that is off is on no list: it is not linked, and no chunk
  have hnot : ∀ j, Ptr.crawler i ∉ L.queue j := by
    rintro (c | id) hm
    · exact h.not_lru hoff c hm
    · exact ne_crawler (h.mem_free _ id hm).1 i rfl
  have hother : ∀ {α : Type} (f : Ptr → α) (v : α) {q : Ptr}, q ≠ .crawler i →
      Function.update f (.crawler i) v q = f q := fun f v q e => Function.update_of_ne e ..
  have hlinked : ∀ q, (s.setFlags (.crawler i) { linked := true }).Linked q ↔ s.Linked q :=
    linked_crawlerFlags i _
  have huse : ∀ q, (s.setFlags (.crawler i) { linked := true }).InUse g q →
      q ≠ .crawler i ∧ s.InUse g q := fun q => h.inUse_crawlerFlags
  have hlru : LruLists
      { s with
        nbytes := Function.update s.nbytes (.crawler i) 0
        key := Function.update s.key (.crawler i) []
        itFlags := Function.update s.itFlags (.crawler i) { linked := true }
        next := Function.update s.next (.crawler i) none
        prev := Function.update s.prev (.crawler i) none
        time := Function.update s.time (.crawler i) 0
        remaining := Function.update s.remaining i n
        slabsClsid := Function.update s.slabsClsid (.crawler i) i } L.queue :=
    ⟨h.family.congr (fun j x hx => hother _ _ fun e => hnot j (e ▸ hx))
      (fun j x hx => hother _ _ fun e => hnot j (e ▸ hx)), h.heads, h.tails⟩
  have hlink := hlru.crawlerLinkQ (p := .crawler i) hnot
  simp only [Function.update_self] at hlink
  -- `crawler_link_q` appends it at the tail of the list of its class
  refine ⟨{ L with queue := Function.update L.queue (.lru i) (L.queue (.lru i) ++ [.crawler i]) },
    ?_⟩
  exact
    { h with
      toLruLists := ⟨hlink.family, hlink.heads, hlink.tails⟩
      slots := fun id => by simp only [update_lru_free]; exact h.slots id
      slCurr := fun id => by simp only [update_lru_free]; exact h.slCurr id
      mem_lru := fun q d => by
        refine mem_update_lru (P := fun d =>
          (Function.update s.itFlags (.crawler i) { linked := true } q).linked = true ∧
            Function.update s.slabsClsid (.crawler i) i q = d) (fun d hd => ?_) ?_ d
        · by_cases e : q = .crawler i
          · subst e; simp [hnot, Ne.symm hd]
          · rw [hother _ _ e, hother _ _ e]; exact h.mem_lru q d
        · by_cases e : q = .crawler i
          · subst e; simp
          · rw [hother _ _ e, hother _ _ e, ← h.mem_lru]; simp [e]
      -- the hash table holds chunks only, so the crawler item changes no bucket
      mem_chain := fun q b => by
        refine Iff.trans ?_ (and_congr_left' (hlinked q).symm)
        refine (h.mem_chain q b).trans (and_congr_right fun hq => ?_)
        show _ ↔ s.bucketOf (cfg.hash (Function.update s.key (.crawler i) [] q)) = b
        rw [hother _ _ (ne_crawler hq.1 i)]
      mem_linked := fun q => (h.mem_linked q).trans (hlinked q).symm
      mem_free := fun q id hm => by
        simp only [update_lru_free] at hm
        obtain ⟨h₁, h₂, h₃⟩ := h.mem_free q id hm
        exact ⟨h₁, (congrArg _ (hother _ _ (ne_crawler h₁ i))).trans h₂, h₃⟩
      key_inj := fun q r hq hr hk => by
        have hq' := (hlinked q).mp hq
        have hr' := (hlinked r).mp hr
        exact h.key_inj q r hq' hr' ((hother _ _ (ne_crawler hq'.1 i)).symm.trans
          (hk.trans (hother _ _ (ne_crawler hr'.1 i))))
      crawler := fun j hj => by
        by_cases e : j = i
        · subst e
          exact ⟨Function.update_self .., Function.update_self .., Function.update_self ..,
            Function.update_self .., Function.update_self ..⟩
        · have e' : Ptr.crawler j ≠ .crawler i := by simpa using e
          obtain ⟨h₁, h₂, h₃, h₄, h₅⟩ := h.crawler j ((congrArg _ (hother _ _ e')).symm.trans hj)
          exact ⟨(hother _ _ e').trans h₁, (hother _ _ e').trans h₂, (hother _ _ e').trans h₃,
            (hother _ _ e').trans h₄, (hother _ _ e').trans h₅⟩
      spare := fun q hs => by
        obtain ⟨h₁, h₂, h₃, h₄⟩ := h.spare q hs
        exact ⟨h₁, (congrArg _ (hother _ _ (ne_crawler h₁ i))).trans h₂, h₃,
          fun id => by simpa using h₄ id⟩
      sizes := fun c => (h.sizes c).trans (congrArg _ (Finset.filter_congr fun q hq => by
        have e := ne_crawler ((h.mem_linked q).mp hq).1 i
        exact (Eq.congr (hother s.slabsClsid i e) rfl).symm))
      currBytes := h.currBytes.trans (Finset.sum_congr rfl fun q hq => by
        have e := ne_crawler ((h.mem_linked q).mp hq).1 i
        simp [Store.itemNtotal, Store.nkey, Store.nsuffix, Store.crawlerLinkQ,
          Function.update_of_ne e])
      notSlabbed := fun q hq => (congrArg _ (hother _ _ (huse q hq).1)).trans
        (h.notSlabbed q (huse q hq).2)
      clsid := fun q hq => by
        show 1 ≤ Function.update s.slabsClsid (.crawler i) i q ∧
          Function.update s.slabsClsid (.crawler i) i q ≤ cfg.powerLargest
        rw [hother _ _ (huse q hq).1]
        exact h.clsid q (huse q hq).2
      refcount := fun q hq =>
        (h.refcount q (huse q hq).2).trans (refs_crawlerFlags (huse q hq).1).symm
      refs_lt := fun q hq =>
        (refs_crawlerFlags (huse q hq).1).trans_lt (h.refs_lt q (huse q hq).2)
      two_le_nbytes := fun q hq => (h.two_le_nbytes q (huse q hq).2).trans
        (hother _ _ (huse q hq).1).ge
      length_data := fun q hq => (h.length_data q (huse q hq).2).trans
        (hother _ _ (huse q hq).1).symm
      casFlag := fun q hq => (congrArg _ (hother _ _ (huse q hq).1)).trans
        (h.casFlag q (huse q hq).2)
      page := fun q hq => h.page q (by
        simp only [update_lru_free] at hq
        exact hq.imp_left fun hq => (huse q hq).2)
      crlf := fun q hq => h.crlf q ((hlinked q).mp hq)
      time := fun q hq => by
        have hq' := (hlinked q).mp hq
        show 1 ≤ Function.update s.time (.crawler i) 0 q ∧
          Function.update s.time (.crawler i) 0 q ≤ s.currentTime
        rw [hother _ _ (ne_crawler hq'.1 i)]
        exact h.time q hq'
      sorted := sorted_concat_crawler h.sorted i 0 }

/-- Taking the crawler off its list. -/
theorem crawlStop (h : WellFormed cfg s g L) {i : ℕ}
    (hon : (s.itFlags (.crawler i)).linked = true) :
    ∃ L', WellFormed cfg (s.crawlStop i) g L' := by
  have hcl := (h.crawler i hon).2.1
  obtain ⟨l₁, l₂, hl⟩ := Family.exists_split ((h.mem_lru (.crawler i) i).mpr ⟨hon, hcl⟩)
  have hnd := h.family.nodup (.lru i)
  rw [hl] at hnd
  have hother : ∀ {q : Ptr}, q ≠ .crawler i →
      (s.setFlags (.crawler i) {}).itFlags q = s.itFlags q := fun e => Function.update_of_ne e ..
  have hself : (s.setFlags (.crawler i) {}).itFlags (.crawler i) = {} := Function.update_self ..
  have hlinked : ∀ q, (s.setFlags (.crawler i) {}).Linked q ↔ s.Linked q :=
    linked_crawlerFlags i _
  have huse : ∀ q, (s.setFlags (.crawler i) {}).InUse g q → q ≠ .crawler i ∧ s.InUse g q :=
    fun q => h.inUse_crawlerFlags
  have hlru : LruLists
      { s.setFlags (.crawler i) {} with crawlerCount := s.crawlerCount - 1 } L.queue :=
    ⟨h.family, h.heads, h.tails⟩
  have hunlink : LruLists (s.crawlStop i) (Function.update L.queue (.lru i) (l₁ ++ l₂)) :=
    hlru.crawlerUnlinkQ hcl hl
  refine ⟨{ L with queue := Function.update L.queue (.lru i) (l₁ ++ l₂) }, ?_⟩
  exact
    { h with
      toLruLists := hunlink
      slots := fun id => by simp only [update_lru_free]; exact h.slots id
      slCurr := fun id => by simp only [update_lru_free]; exact h.slCurr id
      mem_lru := fun q d => by
        refine mem_update_lru (P := fun d =>
          ((s.setFlags (.crawler i) {}).itFlags q).linked = true ∧ s.slabsClsid q = d)
          (fun d hd => ?_) ?_ d
        · by_cases e : q = .crawler i
          · subst e; simp [h.mem_lru, hcl, hself, Ne.symm hd]
          · rw [hother e]; exact h.mem_lru q d
        · by_cases e : q = .crawler i
          · subst e
            simp only [hself, Bool.false_eq_true, false_and, iff_false]
            exact (List.nodup_middle.mp hnd |> List.nodup_cons.mp).1
          · rw [hother e, ← h.mem_lru q, hl]; simp [e]
      mem_chain := fun q b => (h.mem_chain q b).trans (and_congr_left' (hlinked q).symm)
      mem_linked := fun q => (h.mem_linked q).trans (hlinked q).symm
      mem_free := fun q id hm => by
        simp only [update_lru_free] at hm
        obtain ⟨h₁, h₂, h₃⟩ := h.mem_free q id hm
        exact ⟨h₁, (congrArg _ (hother (ne_crawler h₁ i))).trans h₂, h₃⟩
      key_inj := fun q r hq hr => h.key_inj q r ((hlinked q).mp hq) ((hlinked r).mp hr)
      crawler := fun j hj => by
        by_cases e : j = i
        · subst e
          have : ((s.setFlags (.crawler j) {}).itFlags (.crawler j)).linked = true := hj
          simp [hself] at this
        · have e' : Ptr.crawler j ≠ .crawler i := by simpa using e
          obtain ⟨h₁, h₂⟩ := h.crawler j ((congrArg _ (hother e')).symm.trans hj)
          exact ⟨(hother e').trans h₁, h₂⟩
      spare := fun q hs => by
        obtain ⟨h₁, h₂, h₃, h₄⟩ := h.spare q hs
        exact ⟨h₁, (congrArg _ (hother (ne_crawler h₁ i))).trans h₂, h₃,
          fun id => by simpa using h₄ id⟩
      currBytes := h.currBytes.trans (Finset.sum_congr rfl fun q hq => by
        have e := ne_crawler ((h.mem_linked q).mp hq).1 i
        show s.itemNtotal q = sizeofItem + s.nkey q + 1 + s.nsuffix q + s.nbytes q
          + if ((s.setFlags (.crawler i) {}).itFlags q).cas then 8 else 0
        rw [hother e]
        rfl)
      notSlabbed := fun q hq => (congrArg _ (hother (huse q hq).1)).trans
        (h.notSlabbed q (huse q hq).2)
      clsid := fun q hq => h.clsid q (huse q hq).2
      refcount := fun q hq =>
        (h.refcount q (huse q hq).2).trans (refs_crawlerFlags (huse q hq).1).symm
      refs_lt := fun q hq =>
        (refs_crawlerFlags (huse q hq).1).trans_lt (h.refs_lt q (huse q hq).2)
      two_le_nbytes := fun q hq => h.two_le_nbytes q (huse q hq).2
      length_data := fun q hq => h.length_data q (huse q hq).2
      casFlag := fun q hq => (congrArg _ (hother (huse q hq).1)).trans
        (h.casFlag q (huse q hq).2)
      page := fun q hq => h.page q (by
        simp only [update_lru_free] at hq
        exact hq.imp_left fun hq => (huse q hq).2)
      crlf := fun q hq => h.crlf q ((hlinked q).mp hq)
      time := fun q hq => h.time q ((hlinked q).mp hq)
      sorted := fun c => sorted_remove h.sorted hl c }

/-- The crawler moves one place towards the head. -/
theorem crawlSwap (h : WellFormed cfg s g L) {i : ℕ}
    (hon : (s.itFlags (.crawler i)).linked = true) {l₁ l₂ : List Ptr} {y : Ptr}
    (hl : L.queue (.lru i) = l₁ ++ y :: .crawler i :: l₂) :
    (s.crawlerCrawlQ (.crawler i)).2 = some y ∧
      WellFormed cfg (s.crawlerCrawlQ (.crawler i)).1 g
        { L with queue := Function.update L.queue (.lru i) (l₁ ++ .crawler i :: y :: l₂) } := by
  have hcl := (h.crawler i hon).2.1
  obtain ⟨hsome, hlru⟩ := h.toLruLists.crawlerCrawlQ hcl hl
  have hframe : { s with
      next := (s.crawlerCrawlQ (.crawler i)).1.next
      prev := (s.crawlerCrawlQ (.crawler i)).1.prev
      heads := (s.crawlerCrawlQ (.crawler i)).1.heads
      tails := (s.crawlerCrawlQ (.crawler i)).1.tails } = (s.crawlerCrawlQ (.crawler i)).1 := by
    rw [Store.crawlerCrawlQ]
    cases s.prev (.crawler i) <;> rfl
  refine ⟨hsome, ?_⟩
  rw [← hframe] at hlru ⊢
  exact
    { h with
      toLruLists := ⟨hlru.family, hlru.heads, hlru.tails⟩
      slots := fun id => by simp only [update_lru_free]; exact h.slots id
      slCurr := fun id => by simp only [update_lru_free]; exact h.slCurr id
      mem_lru := fun q d => by
        refine mem_update_lru (fun d _ => h.mem_lru q d) ?_ d
        rw [← h.mem_lru q, hl]
        simp [or_left_comm]
      mem_free := fun q id hm => by
        simp only [update_lru_free] at hm
        exact h.mem_free q id hm
      spare := fun q hs => by
        simp only [update_lru_free]
        exact h.spare q hs
      page := fun q hq => h.page q (by
        simp only [update_lru_free] at hq
        exact hq)
      sorted := fun c => by
        show (Function.update L.queue (.lru i) (l₁ ++ .crawler i :: y :: l₂) (.lru c)).Pairwise _
        by_cases e : c = i
        · have hs := h.sorted c
          subst e
          rw [hl, List.pairwise_append, List.pairwise_cons, List.pairwise_cons] at hs
          obtain ⟨h₁, ⟨hy, -, h₂⟩, h₁₂⟩ := hs
          rw [Function.update_self, List.pairwise_append, List.pairwise_cons, List.pairwise_cons]
          refine ⟨h₁, ⟨fun _ _ hc => by simp [Ptr.isChunk] at hc,
            fun r hr => hy r (List.mem_cons_of_mem _ hr), h₂⟩, fun a ha b hb => h₁₂ a ha b ?_⟩
          simp only [List.mem_cons] at hb ⊢
          tauto
        · rw [Function.update_of_ne (by simpa using e)]
          exact h.sorted c }

/-- What the crawler looks at is a linked item. -/
theorem linked_of_crawlSwap (h : WellFormed cfg s g L) {i : ℕ} {l₁ l₂ : List Ptr} {y : Ptr}
    (hl : L.queue (.lru i) = l₁ ++ y :: .crawler i :: l₂) : s.Linked y := by
  have hy : y ∈ L.queue (.lru i) := by simp [hl]
  obtain ⟨hfl, hcl⟩ := (h.mem_lru y i).mp hy
  refine ⟨?_, hfl⟩
  cases y with
  | chunk a => rfl
  | crawler j =>
      have hji : j = i := (h.crawler j hfl).2.1.symm.trans hcl
      have hnd := h.family.nodup (.lru i)
      rw [hl, hji] at hnd
      simp [List.nodup_append] at hnd

end WellFormed

end Memcached
