import Memcached.InvariantCrawler
import Memcached.Commands

/-! # What the operations leave alone

The part of an item that can be seen, `Store.item`, and for each operation of `items.c` and
`slabs.c` what becomes of it; and likewise for the clock, the counters and the pages.

* **`item_doItemLink`**, **`item_doItemUpdate`** and others — what an operation makes of an item.
* **`globals_doSlabsAlloc`** and others — what it leaves of the counters. -/

namespace Memcached

open CNumber (Bytes)

/-! ## Items -/

/-- What can be seen of an item. -/
structure Item where
  key : Bytes
  suffix : Bytes
  data : Bytes
  nbytes : ℕ
  exptime : ℕ
  time : ℕ
  /-- `ITEM_get_cas`. -/
  cas : ℕ
  /-- In the hash table and an LRU list. -/
  linked : Bool
  deriving DecidableEq

/-- The item at `p`. -/
def Store.item (s : Store) (p : Ptr) : Item :=
  ⟨s.key p, s.suffix p, s.data p, s.nbytes p, s.exptime p, s.time p, s.itemGetCas p,
    (s.itFlags p).linked⟩

variable {cfg : Settings} {s s' : Store} {g : Ghost} {p q : Ptr}

/-! ## Items after an operation -/

/-- Freeing a chunk changes no item in use. -/
theorem item_doSlabsFree {size id : ℕ} (hq : q ≠ p) :
    (s.doSlabsFree cfg p size id).item q = s.item q := by
  rw [Store.doSlabsFree]
  split
  · rfl
  · simp [Store.item, Store.itemGetCas, Function.update_of_ne hq]

/-- Giving back a reference changes no item that is still in use. -/
theorem item_doItemRemove (h : Inv cfg s g) (hp : 0 < g.handles p)
    (hq : (s.doItemRemove cfg p).InUse (g.drop p) q) :
    s.InUse g q ∧ (s.doItemRemove cfg p).item q = s.item q := by
  obtain ⟨L, h⟩ := h
  have hcl := h.clsid p (Or.inr hp)
  rcases h.doItemRemove_cases hp with ⟨h1, hl, e⟩ | ⟨-, e⟩
  · rw [e] at hq ⊢
    have hflag : ((s.refcountDecr p).itemFree cfg p).itFlags q
        = if q = p then (s.itFlags p).setSlabbed else s.itFlags q := by
      rw [Store.itemFree, Store.doSlabsFree, if_neg (by simp [Store.refcountDecr]; omega)]
      simp only [Function.update_apply]
      rfl
    have hqp : q ≠ p := by
      rintro rfl
      rcases hq with hq | hq
      · have := hq.2
        rw [hflag, if_pos rfl] at this
        simp [hl] at this
      · simp [h1] at hq
    rw [if_neg hqp] at hflag
    refine ⟨?_, ?_⟩
    · rw [Store.InUse, Ghost.handles_drop_of_ne g hqp] at hq
      exact hq.imp_left fun hq => ⟨hq.1, hflag ▸ hq.2⟩
    · exact item_doSlabsFree hqp
  · rw [e] at hq ⊢
    exact ⟨WellFormed.inUse_of_drop hq, rfl⟩

/-- What does not touch the core changes no item. -/
theorem item_of_core (e : s'.core = s.core) (q : Ptr) : s'.item q = s.item q := by
  have := congrArg (fun t : Store => t.item q) e
  exact this

/-- A chunk that is freed is as linked as it was. -/
theorem linked_doSlabsFree (size id : ℕ) (q : Ptr) :
    ((s.doSlabsFree cfg p size id).itFlags q).linked = (s.itFlags q).linked := by
  rw [Store.doSlabsFree]
  split
  · rfl
  · exact update_field ItFlags.linked (by simp) q

/-- Cutting a page into chunks changes nothing elsewhere. -/
theorem item_splitPage {id n ptr : ℕ} (hq : ∀ k < n, q ≠ .chunk (ptr + k * cfg.slabSize id)) :
    (Store.splitSlabPageIntoFreelist cfg id n ptr s).item q = s.item q := by
  induction n generalizing ptr s with
  | zero => rfl
  | succ n ih =>
      rw [Store.splitSlabPageIntoFreelist, ih fun k hk => ?_]
      · exact item_doSlabsFree (by simpa using hq 0 (by omega))
      · have := hq (k + 1) (by omega)
        rwa [show ptr + (k + 1) * cfg.slabSize id
          = ptr + cfg.slabSize id + k * cfg.slabSize id by ring] at this

/-- The chunks of a page that are freed are as linked as they were. -/
theorem linked_splitPage (id n ptr : ℕ) (q : Ptr) :
    ((Store.splitSlabPageIntoFreelist cfg id n ptr s).itFlags q).linked
      = (s.itFlags q).linked := by
  induction n generalizing ptr s with
  | zero => rfl
  | succ n ih => rw [Store.splitSlabPageIntoFreelist, ih, linked_doSlabsFree]

/-- A new page changes no item outside of it, and holds no linked one. -/
theorem item_addPage (cfg : Settings) (s : Store) (id ptr : ℕ) (q : Ptr) :
    (q.inRange ptr (cfg.pageLen id) = false → (s.addPage cfg id ptr).item q = s.item q) ∧
      (q.inRange ptr (cfg.pageLen id) = true → ((s.addPage cfg id ptr).itFlags q).linked = false) := by
  constructor
  · intro hr
    show (Store.splitSlabPageIntoFreelist cfg id (cfg.perslab id) ptr
      (s.clearPage ptr (cfg.pageLen id))).item q = _
    rw [item_splitPage fun k hk => ?_]
    · simp [Store.item, Store.itemGetCas, Store.clearPage, hr]
    · rintro rfl
      rw [inRange_of_lt_perslab ptr hk] at hr
      exact absurd hr (by simp)
  · intro hr
    show ((Store.splitSlabPageIntoFreelist cfg id (cfg.perslab id) ptr
      (s.clearPage ptr (cfg.pageLen id))).itFlags q).linked = false
    rw [linked_splitPage]
    simp [Store.clearPage, hr]

/-- `do_slabs_newslab` changes no item in use. -/
theorem item_doSlabsNewslab (h : Inv cfg s g) {id : ℕ} {env : AllocEnv}
    (hf : env.Fresh cfg s id) :
    (s.InUse g q → (s.doSlabsNewslab cfg id env).1.item q = s.item q) ∧
      ((s.doSlabsNewslab cfg id env).1.InUse g q → s.InUse g q) := by
  rw [Store.doSlabsNewslab]
  split
  · exact ⟨fun _ => rfl, fun hq => hq⟩
  have hcore := growSlabList_core s id env.reallocOk
  revert hcore
  rcases s.growSlabList id env.reallocOk with ⟨t, ok⟩
  intro hcore
  have hitem := item_of_core hcore q
  have huse : t.InUse g q → s.InUse g q := fun hq => hq.imp_left fun hq =>
    ⟨hq.1, (congrArg Item.linked hitem).symm.trans hq.2⟩
  cases ok with
  | false => exact ⟨fun _ => hitem, huse⟩
  | true =>
      cases hpage : env.page with
      | none => exact ⟨fun _ => hitem, huse⟩
      | some ptr =>
          obtain ⟨hout, hin⟩ := item_addPage cfg t id ptr q
          cases hr : q.inRange ptr (cfg.pageLen id) with
          | false =>
              refine ⟨fun _ => (hout hr).trans hitem, fun hq => huse (hq.imp_left fun hq => ?_)⟩
              exact ⟨hq.1, (congrArg Item.linked (hout hr)).symm.trans hq.2⟩
          | true =>
              obtain ⟨L, h⟩ := h
              refine ⟨fun hq => ?_, fun hq => Or.inr (hq.resolve_left fun hq => ?_)⟩
              · exact absurd (h.page q (Or.inl hq)) ((hf ptr hpage).not_inPage hr)
              · exact absurd hq.2 (by simpa using hin hr)

/-- `do_slabs_alloc` changes no item in use. -/
theorem item_doSlabsAlloc (h : Inv cfg s g) {id : ℕ} {env : AllocEnv}
    (hf : env.Fresh cfg s id) (size : ℕ) (q : Ptr) :
    (s.InUse g q → (s.doSlabsAlloc cfg size id env).1.item q = s.item q) ∧
      ((s.doSlabsAlloc cfg size id env).1.InUse g q → s.InUse g q) := by
  rw [Store.doSlabsAlloc]
  split
  · exact ⟨fun _ => rfl, fun hq => hq⟩
  have hnew : (s.InUse g q → (if (s.slabclass id).slCurr ≠ 0 then (s, true)
        else s.doSlabsNewslab cfg id env).1.item q = s.item q) ∧
      ((if (s.slabclass id).slCurr ≠ 0 then (s, true)
        else s.doSlabsNewslab cfg id env).1.InUse g q → s.InUse g q) := by
    split
    · exact ⟨fun _ => rfl, fun hq => hq⟩
    · exact item_doSlabsNewslab h hf
  revert hnew
  rcases (if (s.slabclass id).slCurr ≠ 0 then (s, true) else s.doSlabsNewslab cfg id env)
    with ⟨t, ok⟩
  intro hnew
  simp only
  split
  · exact hnew
  · split
    · split <;> exact hnew
    · exact hnew

/-- `ITEM_FETCHED` is no part of what an item is. -/
theorem item_setFetched (q : Ptr) :
    (s.setFlags p (s.itFlags p).setFetched).item q = s.item q := by
  have hl := update_field (m := s.itFlags) (a := p) ItFlags.linked
    (ItFlags.linked_setFetched (s.itFlags p)) q
  have hc := update_field (m := s.itFlags) (a := p) ItFlags.cas
    (ItFlags.cas_setFetched (s.itFlags p)) q
  simp [Store.item, Store.itemGetCas, Store.setFlags, hl, hc]

/-- `assoc_delete` writes to the hash table only. -/
theorem assocDelete_frame (key : Bytes) (hv : ℕ) :
    ∃ a b n, s.assocDelete key hv = { s with hNext := a, hashtable := b, hashItems := n } := by
  rw [Store.assocDelete]
  split
  · exact ⟨_, _, _, rfl⟩
  · exact ⟨s.hNext, s.hashtable, s.hashItems, rfl⟩

/-- `do_item_unlink` clears the flag of its item. -/
theorem item_unlinkIndex (hv : ℕ) (q : Ptr) :
    (s.unlinkIndex p hv).item q
      = if q = p then { s.item q with linked := false } else s.item q := by
  obtain ⟨a, b, n, e⟩ := assocDelete_frame (s := s.unlinkStats p) ((s.unlinkStats p).key p) hv
  rw [show s.unlinkIndex p hv = ((s.unlinkStats p).assocDelete ((s.unlinkStats p).key p)
    hv).itemUnlinkQ p from rfl, e]
  by_cases hq : q = p
  · subst hq
    simp [Store.item, Store.itemGetCas, Store.itemUnlinkQ, Store.unlinkStats, Store.setFlags]
  · simp [Store.item, Store.itemGetCas, Store.itemUnlinkQ, Store.unlinkStats, Store.setFlags, hq]

/-- `do_item_link` writes the flag, the time and the CAS id of its item. -/
theorem item_doItemLink (hc : (s.itFlags p).cas = cfg.useCas) (hv : ℕ) (q : Ptr) :
    (s.doItemLink cfg p hv).item q =
      if q = p then
        { s.item q with
          linked := true
          time := s.currentTime
          cas := if cfg.useCas then s.casId + 1 else 0 }
      else s.item q := by
  by_cases hq : q = p
  · subst hq
    by_cases hu : cfg.useCas = true <;>
    simp [Store.item, Store.itemGetCas, Store.doItemLink, Store.refcountIncr, Store.itemLinkQ,
      Store.assocInsert, Store.linkStats, Store.setFreshCas, Store.itemSetCas, Store.setFlags, hc, hu]
  · by_cases hu : cfg.useCas = true <;>
    simp [Store.item, Store.itemGetCas, Store.doItemLink, Store.refcountIncr, Store.itemLinkQ,
      Store.assocInsert, Store.linkStats, Store.setFreshCas, Store.itemSetCas, Store.setFlags, hc,
      hu, hq]

/-- `do_item_update` writes the time, of an item that has not been moved for a minute. -/
theorem item_doItemUpdate (q : Ptr) :
    (s.doItemUpdate p).item q =
      if q = p ∧ (s.item q).time < s.currentTime - itemUpdateInterval ∧ (s.item q).linked = true then
        { s.item q with time := s.currentTime }
      else s.item q := by
  rw [Store.doItemUpdate]
  by_cases hq : q = p
  · subst hq
    by_cases hc : s.time q < s.currentTime - itemUpdateInterval ∧ (s.itFlags q).linked = true
    · rw [if_pos hc, if_pos ⟨rfl, hc⟩]
      simp [Store.item, Store.itemGetCas, Store.itemLinkQ, Store.itemUnlinkQ]
    · rw [if_neg hc, if_neg fun h => hc h.2]
  · have hno : ¬ (q = p ∧ (s.item q).time < s.currentTime - itemUpdateInterval ∧
        (s.item q).linked = true) := fun h => hq h.1
    rw [if_neg hno]
    split
    · simp [Store.item, Store.itemGetCas, Store.itemLinkQ, Store.itemUnlinkQ, hq]
    · rfl

/-- `exptime` of one item. -/
theorem item_setExptime (exptime : ℕ) (q : Ptr) :
    (s.setExptime p exptime).item q
      = if q = p then { s.item q with exptime := exptime } else s.item q := by
  by_cases hq : q = p
  · subst hq
    simp [Store.item, Store.setExptime]
    rfl
  · simp [Store.item, Store.setExptime, hq]
    rfl

/-- The value of one item. -/
theorem item_setData (d : Bytes) (q : Ptr) :
    (s.setData p d).item q = if q = p then { s.item q with data := d } else s.item q := by
  by_cases hq : q = p
  · subst hq
    simp [Store.item, Store.setData]
    rfl
  · simp [Store.item, Store.setData, hq]
    rfl

/-- The CAS id of one item. -/
theorem item_itemSetCas (hc : (s.itFlags p).cas = cfg.useCas) (v : ℕ) (q : Ptr) :
    (s.itemSetCas p v).item q
      = if q = p then { s.item q with cas := if cfg.useCas then v else 0 } else s.item q := by
  by_cases hq : q = p
  · subst hq
    by_cases hu : cfg.useCas = true <;>
    simp [Store.item, Store.itemGetCas, Store.itemSetCas, hc, hu]
  · by_cases hu : cfg.useCas = true <;>
    simp [Store.item, Store.itemGetCas, Store.itemSetCas, hc, hu, hq]

/-- The CAS id of one item, from `get_cas_id`. -/
theorem item_setFreshCas (hc : (s.itFlags p).cas = cfg.useCas) (q : Ptr) :
    (s.setFreshCas cfg p).item q
      = if q = p then { s.item q with cas := if cfg.useCas then s.casId + 1 else 0 }
        else s.item q := by
  by_cases hq : q = p
  · subst hq
    by_cases hu : cfg.useCas = true <;>
    simp [Store.item, Store.itemGetCas, Store.setFreshCas, Store.itemSetCas, hc, hu]
  · by_cases hu : cfg.useCas = true <;>
    simp [Store.item, Store.itemGetCas, Store.setFreshCas, Store.itemSetCas, hc, hu, hq]

/-- A crawler that starts changes no item. -/
theorem item_crawlStart (i n : ℕ) (hq : q.isChunk = true) :
    (s.crawlStart i n).item q = s.item q := by
  have e : q ≠ .crawler i := WellFormed.ne_crawler hq i
  rw [Store.crawlStart]
  split
  · rfl
  · simp [Store.item, Store.itemGetCas, Store.crawlerLinkQ, e]

/-- A crawler that stops changes no item. -/
theorem item_crawlStop (i : ℕ) (hq : q.isChunk = true) : (s.crawlStop i).item q = s.item q := by
  have e : q ≠ .crawler i := WellFormed.ne_crawler hq i
  simp [Store.item, Store.itemGetCas, Store.crawlStop, Store.crawlerUnlinkQ, Store.setFlags, e]

/-- The crawler moves and changes no item. -/
theorem item_crawlerCrawlQ (c q : Ptr) : (s.crawlerCrawlQ c).1.item q = s.item q := by
  rw [Store.crawlerCrawlQ]
  split <;> rfl

/-! ## Everything else -/

/-- The clock, the counters and settings that sections read, and the page being moved. -/
structure Globals where
  casId : ℕ
  currentTime : ℕ
  oldestLive : ℕ
  slabStart : ℕ
  slabEnd : ℕ
  deriving DecidableEq

/-- The globals of a store. -/
def Store.globals (s : Store) : Globals :=
  ⟨s.casId, s.currentTime, s.oldestLive, s.slabRebal.slabStart, s.slabRebal.slabEnd⟩

/-- `do_slabs_free` touches no global counter. -/
theorem globals_doSlabsFree (cfg : Settings) (s : Store) (p : Ptr) (size id : ℕ) :
    (s.doSlabsFree cfg p size id).globals = s.globals ∧
      (s.doSlabsFree cfg p size id).slabRebalanceSignal = s.slabRebalanceSignal := by
  rw [Store.doSlabsFree]
  split <;> exact ⟨rfl, rfl⟩

/-- A page that is cut into chunks touches no global counter. -/
theorem globals_splitPage (cfg : Settings) (s : Store) (id n ptr : ℕ) :
    (Store.splitSlabPageIntoFreelist cfg id n ptr s).globals = s.globals ∧
      (Store.splitSlabPageIntoFreelist cfg id n ptr s).slabRebalanceSignal
        = s.slabRebalanceSignal := by
  induction n generalizing ptr s with
  | zero => exact ⟨rfl, rfl⟩
  | succ n ih =>
      have hfree := globals_doSlabsFree cfg s (.chunk ptr) 0 id
      have hrest := ih (s.doSlabsFree cfg (.chunk ptr) 0 id) (ptr + cfg.slabSize id)
      exact ⟨hrest.1.trans hfree.1, hrest.2.trans hfree.2⟩

/-- A new page touches no global counter. -/
theorem globals_doSlabsNewslab (cfg : Settings) (s : Store) (id : ℕ) (env : AllocEnv) :
    (s.doSlabsNewslab cfg id env).1.globals = s.globals ∧
      (s.doSlabsNewslab cfg id env).1.slabRebalanceSignal = s.slabRebalanceSignal := by
  rw [Store.doSlabsNewslab]
  split
  · exact ⟨rfl, rfl⟩
  have hgrow : (s.growSlabList id env.reallocOk).1.globals = s.globals ∧
      (s.growSlabList id env.reallocOk).1.slabRebalanceSignal = s.slabRebalanceSignal := by
    rw [Store.growSlabList]
    split
    · split <;> exact ⟨rfl, rfl⟩
    · exact ⟨rfl, rfl⟩
  revert hgrow
  rcases s.growSlabList id env.reallocOk with ⟨t, ok⟩
  intro hgrow
  cases ok with
  | false => exact hgrow
  | true =>
      cases env.page with
      | none => exact hgrow
      | some ptr =>
          have := globals_splitPage cfg (t.clearPage ptr (cfg.pageLen id)) id (cfg.perslab id) ptr
          exact ⟨this.1.trans hgrow.1, this.2.trans hgrow.2⟩

/-- `do_slabs_alloc` touches no global counter. -/
theorem globals_doSlabsAlloc (cfg : Settings) (s : Store) (size id : ℕ) (env : AllocEnv) :
    (s.doSlabsAlloc cfg size id env).1.globals = s.globals ∧
      (s.doSlabsAlloc cfg size id env).1.slabRebalanceSignal = s.slabRebalanceSignal := by
  rw [Store.doSlabsAlloc]
  split
  · exact ⟨rfl, rfl⟩
  have hnew : (if (s.slabclass id).slCurr ≠ 0 then (s, true)
        else s.doSlabsNewslab cfg id env).1.globals = s.globals ∧
      (if (s.slabclass id).slCurr ≠ 0 then (s, true)
        else s.doSlabsNewslab cfg id env).1.slabRebalanceSignal = s.slabRebalanceSignal := by
    split
    · exact ⟨rfl, rfl⟩
    · exact globals_doSlabsNewslab cfg s id env
  revert hnew
  rcases (if (s.slabclass id).slCurr ≠ 0 then (s, true) else s.doSlabsNewslab cfg id env)
    with ⟨t, ok⟩
  intro hnew
  simp only
  split
  · exact hnew
  · split
    · split <;> exact hnew
    · exact hnew

/-- `slabs_reassign_pick_any` moves its cursor only. -/
theorem slabsReassignPickAny_frame (cfg : Settings) (dst : ℤ) (n : ℕ) (s : Store) :
    ∃ a, (Store.slabsReassignPickAny cfg dst n s).1 = { s with pickAnyCur := a } := by
  induction n generalizing s with
  | zero => exact ⟨_, rfl⟩
  | succ n ih =>
      rw [Store.slabsReassignPickAny]
      simp only
      generalize (if s.pickAnyCur + 1 > cfg.powerLargest then 1 else s.pickAnyCur + 1) = cur
      split
      · obtain ⟨a, e⟩ := ih { s with pickAnyCur := cur }
        exact ⟨a, e⟩
      · split
        · exact ⟨cur, rfl⟩
        · obtain ⟨a, e⟩ := ih { s with pickAnyCur := cur }
          exact ⟨a, e⟩

/-- **What `do_slabs_reassign` does**: it posts a request at most, and only when none is pending. -/
theorem doSlabsReassign_cases (cfg : Settings) (src dst : ℤ) (s : Store) :
    (∃ a, s.doSlabsReassign cfg src dst = { s with pickAnyCur := a }) ∨
      s.slabRebalanceSignal = 0 ∧ ∃ a src', s.doSlabsReassign cfg src dst =
        { s with
          pickAnyCur := a
          slabRebal := { s.slabRebal with sClsid := src', dClsid := dst }
          slabRebalanceSignal := 1 } := by
  rw [Store.doSlabsReassign]
  split
  · exact Or.inl ⟨s.pickAnyCur, rfl⟩
  rename_i hsig
  have hpick : ∃ a, (if src = -1 then Store.slabsReassignPickAny cfg dst cfg.powerLargest s
      else (s, src)).1 = { s with pickAnyCur := a } := by
    split
    · exact slabsReassignPickAny_frame cfg dst _ s
    · exact ⟨s.pickAnyCur, rfl⟩
  revert hpick
  rcases (if src = -1 then Store.slabsReassignPickAny cfg dst cfg.powerLargest s else (s, src))
    with ⟨t, src'⟩
  rintro ⟨a, rfl⟩
  simp only
  split
  · exact Or.inl ⟨a, rfl⟩
  · split
    · exact Or.inl ⟨a, rfl⟩
    · exact Or.inr ⟨by omega, a, src', rfl⟩

/-- Freeing a chunk enters no page. -/
theorem slabList_doSlabsFree (cfg : Settings) (s : Store) (p : Ptr) (size id id' : ℕ) :
    ((s.doSlabsFree cfg p size id).slabclass id').slabList = (s.slabclass id').slabList := by
  rw [Store.doSlabsFree]
  split
  · rfl
  · exact update_field SlabClass.slabList (by simp) id'

end Memcached
