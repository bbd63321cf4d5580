import Memcached.Frames

/-! # What a section of code does to the items

Every critical section of the program is a run of the elementary steps of `Prim`, each labelled with
an `Event`. A step keeps the invariant, and its event tells what becomes of every item in use.

* **`Event`**, **`Prim`** — the elementary steps and their labels.
* **`Trace`** — a run of them.
* **`Trace.item_eq`** — what becomes of an item. -/

namespace Memcached

open CNumber (Bytes)

/-! ## Events -/

/-- An elementary step, as far as it concerns items. -/
inductive Event
  /-- A reference is taken. -/
  | ref (p : Ptr)
  /-- A reference is given back. -/
  | deref (p : Ptr)
  /-- `ITEM_FETCHED` is set. -/
  | fetch (p : Ptr)
  /-- The item leaves the hash table; the table's reference passes to the caller. -/
  | unlink (p : Ptr)
  /-- The item enters the hash table under `key`. -/
  | link (p : Ptr) (key : Bytes)
  /-- `do_item_update`. -/
  | refresh (p : Ptr)
  /-- The expiry time is set. -/
  | touch (p : Ptr) (exptime : ℕ)
  /-- The value of an unlinked item is written. -/
  | write (p : Ptr) (d : Bytes)
  /-- The CAS id is set. -/
  | setCas (p : Ptr) (v : ℕ)
  /-- The value of a linked item is overwritten, and it gets a fresh CAS id. -/
  | inPlace (p : Ptr) (d : Bytes)
  /-- The chunk of an unlinked item is taken over. -/
  | discard (p : Ptr)
  /-- `do_slabs_alloc` is asked for a chunk. -/
  | alloc (o : Option Ptr)
  /-- The chunk in hand becomes an item. -/
  | create (p : Ptr) (key : Bytes) (flags : ℤ) (exptime nbytes : ℕ)
  /-- The crawler moves. -/
  | crawl
  /-- Statistics, or a request to another thread. -/
  | other

/-- Only statistics and requests to other threads change; a page that is being moved stays the
same, and so do the crawlers. -/
structure Quiet (s s' : Store) : Prop where
  core : s'.core = s.core
  slabStart : s'.slabRebal.slabStart = s.slabRebal.slabStart
  slabEnd : s'.slabRebal.slabEnd = s.slabRebal.slabEnd
  signal : s.slabRebalanceSignal ≠ 0 → s'.slabRebalanceSignal = s.slabRebalanceSignal
  crawlerCount : s'.crawlerCount = s.crawlerCount

/-- **The elementary steps**, each with what it relies on. -/
inductive Prim (cfg : Settings) : Store → Ghost → Event → Store → Ghost → Prop
  | ref {s g p} (hu : s.InUse g p) (hlt : s.refs g p + 1 < refcountModulus) :
      Prim cfg s g (.ref p) (s.refcountIncr p) (g.hold p)
  | deref {s g p} (hp : 0 < g.handles p) :
      Prim cfg s g (.deref p) (s.doItemRemove cfg p) (g.drop p)
  | fetch {s g p} (hu : s.InUse g p) :
      Prim cfg s g (.fetch p) (s.setFlags p (s.itFlags p).setFetched) g
  | unlink {s g p} (hp : s.Linked p) :
      Prim cfg s g (.unlink p) (s.unlinkIndex p (cfg.hash (s.key p))) (g.hold p)
  | link {s g p} (hp : 0 < g.handles p) (hl : (s.itFlags p).linked = false)
      (hkey : ∀ q, s.Linked q → s.key q ≠ s.key p) (hlt : s.refs g p + 1 < refcountModulus)
      (hcrlf : ∃ v, s.data p = v ++ crlf) :
      Prim cfg s g (.link p (s.key p)) (s.doItemLink cfg p (cfg.hash (s.key p))) g
  | refresh {s g p} (hu : s.InUse g p) : Prim cfg s g (.refresh p) (s.doItemUpdate p) g
  | touch {s g p} (hu : s.InUse g p) (exptime : ℕ) :
      Prim cfg s g (.touch p exptime) (s.setExptime p exptime) g
  | write {s g p d} (hp : 0 < g.handles p) (hl : (s.itFlags p).linked = false)
      (hd : d.length = s.nbytes p) : Prim cfg s g (.write p d) (s.setData p d) g
  | setCas {s g p} (hu : s.InUse g p) (v : ℕ) : Prim cfg s g (.setCas p v) (s.itemSetCas p v) g
  | inPlace {s g p d} (hp : s.Linked p) (hd : d.length = s.nbytes p)
      (hcrlf : ∃ v, d = v ++ crlf) :
      Prim cfg s g (.inPlace p d) ((s.setFreshCas cfg p).setData p d) g
  | discard {s g p} (hp : g.handles p = 1) (hl : (s.itFlags p).linked = false) (r c : ℕ) :
      Prim cfg s g (.discard p)
        { s with
          refcount := Function.update s.refcount p r
          slabsClsid := Function.update s.slabsClsid p c } ((g.drop p).withSpare (some p))
  | alloc {s s' g size id env o} (hf : AllocEnv.Fresh cfg s id env)
      (he : s.doSlabsAlloc cfg size id env = (s', o)) :
      Prim cfg s g (.alloc o) s' (match o with | some p => g.withSpare (some p) | none => g)
  | create {s g p id} (hs : g.spare = some p) (hid : 1 ≤ id ∧ id ≤ cfg.powerLargest)
      (key : Bytes) (flags : ℤ) (exptime : ℕ) {nbytes : ℕ} (hn : 2 ≤ nbytes) :
      Prim cfg s g (.create p key flags exptime nbytes)
        (s.initItem cfg p id key flags exptime nbytes) ((g.withSpare none).hold p)
  | crawlStart {s g i} (hoff : (s.itFlags (.crawler i)).linked = false) (n : ℕ) :
      Prim cfg s g .crawl (s.crawlStart i n) g
  | crawlSwap {s g i y} (hon : (s.itFlags (.crawler i)).linked = true)
      (hy : (s.crawlerCrawlQ (.crawler i)).2 = some y) :
      Prim cfg s g .crawl (s.crawlerCrawlQ (.crawler i)).1 g
  | crawlStop {s g i} (hon : (s.itFlags (.crawler i)).linked = true) :
      Prim cfg s g .crawl (s.crawlStop i) g
  | other {s s' g} (hq : Quiet s s') : Prim cfg s g .other s' g

variable {cfg : Settings} {s s' s'' : Store} {g g' g'' : Ghost} {e : Event} {p q : Ptr}

/-- The list of the crawler, when `crawler_crawl_q` finds an item to look at. -/
theorem WellFormed.exists_swap {L : Layout} (h : WellFormed cfg s g L) {i : ℕ} {y : Ptr}
    (hon : (s.itFlags (.crawler i)).linked = true)
    (hy : (s.crawlerCrawlQ (.crawler i)).2 = some y) :
    ∃ l₁ l₂, L.queue (.lru i) = l₁ ++ y :: .crawler i :: l₂ := by
  have hcl := (h.crawler i hon).2.1
  obtain ⟨l₁, l₂, hl⟩ := DoublyLinked.Family.exists_split
    ((h.mem_lru (.crawler i) i).mpr ⟨hon, hcl⟩)
  rcases List.eq_nil_or_concat l₁ with rfl | ⟨l, x, rfl⟩
  · have := (h.toLruLists.crawlerCrawlQ_head hcl hl).1
    rw [this] at hy
    exact absurd hy (by simp)
  · rw [List.concat_eq_append, List.append_assoc] at hl
    have := (h.toLruLists.crawlerCrawlQ hcl hl).1
    rw [this] at hy
    obtain rfl : x = y := by simpa using hy
    exact ⟨l, l₂, hl⟩

namespace Prim

/-- **An elementary step keeps the invariant.** -/
theorem inv (hm : Prim cfg s g e s' g') (h : Inv cfg s g) : Inv cfg s' g' := by
  cases hm with
  | deref hp =>
      obtain ⟨L, h⟩ := h
      obtain ⟨L', h', -⟩ := h.doItemRemove hp
      exact ⟨L', h'⟩
  | alloc hf he => exact h.doSlabsAlloc hf he
  | touch hu exptime => exact h.congr rfl
  | setCas hu v => exact h.congr rfl
  | other hq => exact h.congr (Store.shape_of_core hq.core)
  | ref hu hlt => obtain ⟨L, h⟩ := h; exact ⟨L, h.refcountIncr hu hlt⟩
  | fetch hu => obtain ⟨L, h⟩ := h; exact ⟨L, h.setFetched hu⟩
  | unlink hp =>
      obtain ⟨L, h⟩ := h
      obtain ⟨L', h', -⟩ := h.unlinkIndex hp
      exact ⟨L', h'⟩
  | link hp hl hkey hlt hcrlf => obtain ⟨L, h⟩ := h; exact h.doItemLink hp hl hkey hlt hcrlf
  | refresh hu => obtain ⟨L, h⟩ := h; exact h.doItemUpdate hu
  | write hp hl hd =>
      obtain ⟨L, h⟩ := h
      exact ⟨L, h.setData hd fun hlk => absurd hlk.2 (by simp [hl])⟩
  | inPlace hp hd hcrlf =>
      rename_i p d
      obtain ⟨L, h⟩ : Inv cfg (s.setFreshCas cfg p) g := h.congr rfl
      exact ⟨L, h.setData hd fun _ => hcrlf⟩
  | discard hp hl r c => obtain ⟨L, h⟩ := h; exact ⟨L, h.discard hp hl r c⟩
  | create hs hid key flags exptime hn =>
      obtain ⟨L, h⟩ := h; exact ⟨L, h.initItem hs hid key flags exptime hn⟩
  | crawlStart hoff n => obtain ⟨L, h⟩ := h; exact h.crawlStart hoff n
  | crawlSwap hon hy =>
      obtain ⟨L, h⟩ := h
      obtain ⟨l₁, l₂, hl⟩ := h.exists_swap hon hy
      exact ⟨_, (h.crawlSwap hon hl).2⟩
  | crawlStop hon => obtain ⟨L, h⟩ := h; exact h.crawlStop hon

end Prim

/-! ## What becomes of an item -/

namespace Event

/-- What a step makes of the item `i` at `q`. -/
def item (cfg : Settings) (s : Store) (q : Ptr) (i : Item) : Event → Item
  | unlink p => if q = p then { i with linked := false } else i
  | link p _ =>
      if q = p then
        { i with
          linked := true
          time := s.currentTime
          cas := if cfg.useCas then s.casId + 1 else 0 }
      else i
  | refresh p =>
      if q = p ∧ i.time < s.currentTime - itemUpdateInterval ∧ i.linked = true then
        { i with time := s.currentTime }
      else i
  | touch p exptime => if q = p then { i with exptime := exptime } else i
  | write p d => if q = p then { i with data := d } else i
  | setCas p v => if q = p then { i with cas := if cfg.useCas then v else 0 } else i
  | inPlace p d =>
      if q = p then { i with data := d, cas := if cfg.useCas then s.casId + 1 else 0 } else i
  | create p key flags exptime nbytes =>
      if q = p then
        { key := key
          suffix := (itemMakeHeader (key.length + 1) flags nbytes).1
          data := fitBytes nbytes (s.data p)
          nbytes := nbytes
          exptime := exptime
          time := s.time p
          cas := if cfg.useCas then s.cas p else 0
          linked := false }
      else i
  | _ => i

/-- The step makes `q` an item. -/
def Creates (q : Ptr) : Event → Prop
  | create p _ _ _ _ => q = p
  | _ => False

/-- The step changes more of `q` than its flag and its access time. -/
def Rewrites (q : Ptr) : Event → Prop
  | link p _ | touch p _ | write p _ | setCas p _ | inPlace p _ | create p _ _ _ _ => q = p
  | _ => False

/-- How many CAS ids the step takes. -/
def casIds (cfg : Settings) : Event → ℕ
  | link _ _ | inPlace _ _ => if cfg.useCas then 1 else 0
  | _ => 0

end Event

namespace Prim

/-- What is in use after a step was in use before, unless the step made it an item. -/
theorem inUse (hm : Prim cfg s g e s' g') (h : Inv cfg s g) (hq : s'.InUse g' q) :
    s.InUse g q ∨ e.Creates q := by
  have hback : ∀ {t : Store}, (t.item q).linked = (s.item q).linked → t.InUse g q → s.InUse g q :=
    fun e hq => hq.imp_left fun hq => ⟨hq.1, e.symm.trans hq.2⟩
  have hchunk : ∀ {t : Store}, (t.InUse g q) → q.isChunk = true := fun hq =>
    hq.elim (fun hq => hq.1) (h.choose_spec.isChunk_of_handles q)
  cases hm with
  | ref hu hlt => exact Or.inl (WellFormed.inUse_hold hu hq)
  | deref hp => exact Or.inl (item_doItemRemove h hp hq).1
  | fetch hu => exact Or.inl (hback (congrArg Item.linked (item_setFetched q)) hq)
  | unlink hp =>
      rename_i p
      refine Or.inl ?_
      by_cases e : q = p
      · exact e ▸ Or.inl hp
      · rw [Store.InUse, Ghost.handles_hold_of_ne g e] at hq
        exact hback (congrArg Item.linked ((item_unlinkIndex _ q).trans (if_neg e))) hq
  | link hp hl hkey hlt hcrlf =>
      rename_i p
      refine Or.inl ?_
      by_cases e : q = p
      · exact e ▸ Or.inr hp
      · obtain ⟨L, h⟩ := h
        exact hback (congrArg Item.linked
          ((item_doItemLink (h.casFlag p (Or.inr hp)) _ q).trans (if_neg e))) hq
  | refresh hu =>
      refine Or.inl (hback ?_ hq)
      rw [item_doItemUpdate]
      split <;> rfl
  | touch hu exptime => exact Or.inl hq
  | write hp hl hd => exact Or.inl hq
  | setCas hu v => exact Or.inl hq
  | inPlace hp hd hcrlf => exact Or.inl hq
  | discard hp hl r c => exact Or.inl (WellFormed.inUse_of_drop hq)
  | alloc hf he =>
      rename_i size id env o
      have hs := congrArg Prod.fst he
      subst hs
      refine Or.inl ((item_doSlabsAlloc h hf size q).2 ?_)
      cases o <;> exact hq
  | create hs hid key flags exptime hn =>
      rename_i p id nbytes
      by_cases e : q = p
      · exact Or.inr e
      · rw [Store.InUse, Ghost.handles_hold_of_ne _ e] at hq
        refine Or.inl (hq.imp_left fun hq => ⟨hq.1, ?_⟩)
        rw [← hq.2]
        exact congrArg ItFlags.linked (Function.update_of_ne e ..).symm
  | crawlStart hoff n => exact Or.inl (hback (congrArg Item.linked (item_crawlStart _ n (hchunk hq))) hq)
  | crawlSwap hon hy => exact Or.inl (hback (congrArg Item.linked (item_crawlerCrawlQ _ q)) hq)
  | crawlStop hon => exact Or.inl (hback (congrArg Item.linked (item_crawlStop _ (hchunk hq))) hq)
  | other hq' => exact Or.inl (hback (congrArg Item.linked (item_of_core hq'.core q)) hq)

/-- **What a step makes of the items in use.** -/
theorem item (hm : Prim cfg s g e s' g') (h : Inv cfg s g) (hq : s'.InUse g' q) :
    s'.item q = e.item cfg s q (s.item q) := by
  have huse := hm.inUse h hq
  obtain ⟨L, hwf⟩ := id h
  cases hm with
  | ref hu hlt => rfl
  | deref hp => exact (item_doItemRemove h hp hq).2
  | fetch hu => exact item_setFetched q
  | unlink hp => exact item_unlinkIndex _ q
  | link hp hl hkey hlt hcrlf => exact item_doItemLink (hwf.casFlag _ (Or.inr hp)) _ q
  | refresh hu => exact item_doItemUpdate q
  | touch hu exptime => exact item_setExptime exptime q
  | write hp hl hd => exact item_setData _ q
  | setCas hu v => exact item_itemSetCas (hwf.casFlag _ hu) v q
  | inPlace hp hd hcrlf =>
      rename_i p d
      rw [item_setData, item_setFreshCas (hwf.casFlag _ (Or.inl hp))]
      simp only [Event.item]
      split <;> rfl
  | discard hp hl r c => rfl
  | alloc hf he =>
      rename_i size id env o
      have hs := congrArg Prod.fst he
      subst hs
      exact (item_doSlabsAlloc h hf size q).1 (huse.resolve_right fun hc => hc)
  | create hs hid key flags exptime hn =>
      rename_i p id nbytes
      by_cases e : q = p
      · subst e
        simp [Event.item, Store.item, Store.itemGetCas, Store.initItem]
      · simp [Event.item, Store.item, Store.itemGetCas, Store.initItem, e]
  | crawlStart hoff n =>
      exact item_crawlStart _ n (hwf.isChunk_of_inUse (huse.resolve_right fun hc => hc))
  | crawlSwap hon hy => exact item_crawlerCrawlQ _ q
  | crawlStop hon => exact item_crawlStop _ (hwf.isChunk_of_inUse (huse.resolve_right fun hc => hc))
  | other hq' => exact item_of_core hq'.core q

end Prim

namespace Prim

/-- Only `unlink` takes an item out of the hash table. -/
theorem linked (hm : Prim cfg s g e s' g') (h : Inv cfg s g) (hq : s.Linked q)
    (he : e ≠ .unlink q) : s'.Linked q := by
  refine ⟨hq.1, ?_⟩
  have hu : s.InUse g q := Or.inl hq
  have hflag : ∀ {t : Store}, t.item q = s.item q → (t.itFlags q).linked = true := fun e =>
    (congrArg Item.linked e).trans hq.2
  cases hm with
  | ref hu hlt => exact hq.2
  | deref hp =>
      rename_i p
      obtain ⟨L, hwf⟩ := h
      rcases hwf.doItemRemove_cases hp with ⟨-, hl, e⟩ | ⟨-, e⟩
      · have hne : q ≠ p := by
          rintro rfl
          exact absurd hq.2 (by simp [hl])
        rw [e]
        exact (congrArg Item.linked (item_doSlabsFree hne)).trans hq.2
      · rw [e]
        exact hq.2
  | fetch hu => exact hflag (item_setFetched q)
  | unlink hp => exact hflag ((item_unlinkIndex _ q).trans (if_neg fun hc => he (congrArg Event.unlink hc.symm)))
  | link hp hl hkey hlt hcrlf =>
      rename_i p
      obtain ⟨L, hwf⟩ := h
      refine hflag ((item_doItemLink (hwf.casFlag p (Or.inr hp)) _ q).trans (if_neg ?_))
      rintro rfl
      exact absurd hq.2 (by simp [hl])
  | refresh hu =>
      refine (congrArg Item.linked (item_doItemUpdate q)).trans ?_
      split <;> exact hq.2
  | touch hu exptime => exact hq.2
  | write hp hl hd => exact hq.2
  | setCas hu v => exact hq.2
  | inPlace hp hd hcrlf => exact hq.2
  | discard hp hl r c => exact hq.2
  | alloc hf hs =>
      rename_i size id env o
      obtain rfl := congrArg Prod.fst hs
      exact hflag ((item_doSlabsAlloc h hf size q).1 hu)
  | create hs hid key flags exptime hn =>
      rename_i p id nbytes
      obtain ⟨L, hwf⟩ := h
      have hne : q ≠ p := by
        rintro rfl
        exact absurd hq.2 (by simp [(hwf.spare q hs).2.1])
      exact (congrArg ItFlags.linked (Function.update_of_ne hne ..)).trans hq.2
  | crawlStart hoff n => exact hflag (item_crawlStart _ n hq.1)
  | crawlSwap hon hy => exact hflag (item_crawlerCrawlQ _ q)
  | crawlStop hon => exact hflag (item_crawlStop _ hq.1)
  | other hq' => exact hflag (item_of_core hq'.core q)

end Prim

namespace Prim

/-- Only `link` puts an item into the hash table. -/
theorem linked_or_link (hm : Prim cfg s g e s' g') (h : Inv cfg s g) (hq : s'.Linked q) :
    s.Linked q ∨ ∃ key, e = .link q key := by
  have hi := congrArg Item.linked (hm.item h (Or.inl hq))
  have hl : (e.item cfg s q (s.item q)).linked = true := hi.symm.trans hq.2
  have hback : (s.item q).linked = true → s.Linked q := fun hl => ⟨hq.1, hl⟩
  cases e with
  | link p key =>
      by_cases hp : q = p
      · exact Or.inr ⟨key, by rw [hp]⟩
      · rw [Event.item, if_neg hp] at hl
        exact Or.inl (hback hl)
  | unlink p | refresh p | touch p _ | write p _ | setCas p _ | inPlace p _ | create p _ _ _ _ =>
      rw [Event.item] at hl
      split at hl
      · first | exact Or.inl (hback hl) | exact absurd hl (by simp)
      · exact Or.inl (hback hl)
  | _ => exact Or.inl (hback hl)

end Prim

/-! ## What a step does to the rest -/

namespace Event

/-- How a step changes the references callers hold. -/
def handles (g : Ghost) : Event → Ghost
  | ref p | unlink p | create p _ _ _ _ => g.hold p
  | deref p | discard p => g.drop p
  | _ => g

end Event

namespace Prim

/-- What an event does to the references. -/
theorem handles (hm : Prim cfg s g e s' g') : g'.handles = (e.handles g).handles := by
  cases hm with
  | alloc hf he => rename_i o; cases o <;> rfl
  | _ => rfl

/-- What an event does to the global counters. -/
theorem globals (hm : Prim cfg s g e s' g') :
    s'.globals = { s.globals with casId := s.casId + e.casIds cfg } := by
  cases hm with
  | deref hp =>
      rename_i p
      show (if (s.refcountDecr p).refcount p = 0 then (s.refcountDecr p).itemFree cfg p
        else s.refcountDecr p).globals = _
      split
      · exact (globals_doSlabsFree ..).1
      · rfl
  | unlink hp =>
      rename_i p
      obtain ⟨a, b, n, e⟩ := assocDelete_frame (s := s.unlinkStats p) (s.key p)
        (cfg.hash (s.key p))
      show (((s.unlinkStats p).assocDelete (s.key p) (cfg.hash (s.key p))).itemUnlinkQ p).globals = _
      rw [e]
      rfl
  | link hp hl hkey hlt hcrlf =>
      simp only [Event.casIds]
      by_cases hu : cfg.useCas = true <;>
      simp [Store.globals, Store.doItemLink, Store.refcountIncr, Store.itemLinkQ,
        Store.assocInsert, Store.linkStats, Store.setFreshCas, Store.itemSetCas, Store.setFlags, hu]
  | refresh hu =>
      rw [Store.doItemUpdate]
      split <;> rfl
  | inPlace hp hd hcrlf =>
      simp only [Event.casIds]
      by_cases hu : cfg.useCas = true <;>
      simp [Store.globals, Store.setData, Store.setFreshCas, Store.itemSetCas, hu]
  | alloc hf he =>
      have := globals_doSlabsAlloc cfg s
      have hs := congrArg Prod.fst he
      subst hs
      exact (this _ _ _).1
  | crawlStart hoff n =>
      rw [Store.crawlStart]
      split <;> rfl
  | crawlSwap hon hy =>
      rw [Store.crawlerCrawlQ]
      split <;> rfl
  | other hq =>
      have h₁ := congrArg (fun t : Store => t.casId) hq.core
      have h₂ := congrArg (fun t : Store => t.currentTime) hq.core
      have h₃ := congrArg (fun t : Store => t.oldestLive) hq.core
      simp only [Store.core] at h₁ h₂ h₃
      simp [Store.globals, h₁, h₂, h₃, hq.slabStart, hq.slabEnd, Event.casIds]
  | _ => rfl

end Prim

/-! ## Pages -/

/-- Only `do_slabs_alloc` enters pages. -/
theorem Prim.slabList (hm : Prim cfg s g e s' g') (he : ∀ o, e ≠ .alloc o) (id : ℕ) :
    (s'.slabclass id).slabList = (s.slabclass id).slabList := by
  cases hm with
  | deref hp =>
      rename_i p
      show (Store.slabclass (if (s.refcountDecr p).refcount p = 0
        then (s.refcountDecr p).itemFree cfg p else s.refcountDecr p) id).slabList = _
      split
      · exact slabList_doSlabsFree ..
      · rfl
  | unlink hp =>
      rename_i p
      obtain ⟨a, b, n, e⟩ := assocDelete_frame (s := s.unlinkStats p) (s.key p)
        (cfg.hash (s.key p))
      show (Store.slabclass (((s.unlinkStats p).assocDelete (s.key p)
        (cfg.hash (s.key p))).itemUnlinkQ p) id).slabList = _
      rw [e]
      rfl
  | refresh hu =>
      rw [Store.doItemUpdate]
      split <;> rfl
  | alloc hf h => exact absurd rfl (he _)
  | crawlStart hoff n =>
      rw [Store.crawlStart]
      split <;> rfl
  | crawlSwap hon hy =>
      rw [Store.crawlerCrawlQ]
      split <;> rfl
  | other hq =>
      have := congrArg (fun t : Store => (t.slabclass id).slabList) hq.core
      exact this
  | _ => rfl

/-! ## Traces -/

/-- **A run of elementary steps**, with their events. -/
inductive Trace (cfg : Settings) : Store → Ghost → List Event → Store → Ghost → Prop
  | nil {s : Store} {g : Ghost} : Trace cfg s g [] s g
  | cons {s s' s'' : Store} {g g' g'' : Ghost} {e : Event} {es : List Event}
      (hm : Prim cfg s g e s' g') (ht : Trace cfg s' g' es s'' g'') :
      Trace cfg s g (e :: es) s'' g''

namespace Trace

variable {es es' : List Event}

/-- One event is a trace. -/
theorem single (hm : Prim cfg s g e s' g') : Trace cfg s g [e] s' g' := .cons hm .nil

/-- Traces one after the other. -/
theorem append (h : Trace cfg s g es s' g') (h' : Trace cfg s' g' es' s'' g'') :
    Trace cfg s g (es ++ es') s'' g'' := by
  induction h with
  | nil => exact h'
  | cons hm _ ih => exact .cons hm (ih h')

/-- A run in two parts. -/
theorem split (h : Trace cfg s g (es ++ es') s'' g'') :
    ∃ t f, Trace cfg s g es t f ∧ Trace cfg t f es' s'' g'' := by
  induction es generalizing s g with
  | nil => exact ⟨s, g, .nil, h⟩
  | cons e es ih =>
      cases h with
      | cons hm ht =>
          obtain ⟨t, f, h₁, h₂⟩ := ih ht
          exact ⟨t, f, .cons hm h₁, h₂⟩

/-- **A property that every step keeps holds at the end.** -/
theorem preserves {P : Store → Ghost → Prop} (h : Trace cfg s g es s' g') (hI : Inv cfg s g)
    (hP : P s g)
    (hstep : ∀ {t f e t' f'}, Prim cfg t f e t' f' → e ∈ es → Inv cfg t f → P t f → P t' f') :
    P s' g' := by
  induction h with
  | nil => exact hP
  | cons hm _ ih =>
      refine ih (hm.inv hI) (hstep hm (by simp) hI hP) fun hm' he => hstep hm' ?_
      exact List.mem_cons_of_mem _ he

/-- **A run of steps keeps the invariant.** -/
theorem inv (h : Trace cfg s g es s' g') (hI : Inv cfg s g) : Inv cfg s' g' := by
  induction h with
  | nil => exact hI
  | cons hm _ ih => exact ih (hm.inv hI)

/-- Only `unlink` takes an item out of the hash table. -/
theorem linked (h : Trace cfg s g es s' g') (hI : Inv cfg s g) (hq : s.Linked q)
    (he : .unlink q ∉ es) : s'.Linked q := by
  refine h.preserves (P := fun t _ => t.Linked q) hI hq fun hm hmem hIt ht => ?_
  exact hm.linked hIt ht fun hc => he (hc ▸ hmem)

/-- Only `link` puts an item into the hash table. -/
theorem linked_or_link (h : Trace cfg s g es s' g') (hI : Inv cfg s g) (hq : s'.Linked q) :
    s.Linked q ∨ ∃ key, .link q key ∈ es := by
  induction h with
  | nil => exact Or.inl hq
  | cons hm _ ih =>
      rcases ih (hm.inv hI) hq with hq | ⟨key, hk⟩
      · exact (hm.linked_or_link hI hq).imp_right fun ⟨key, e⟩ => ⟨key, by simp [e]⟩
      · exact Or.inr ⟨key, List.mem_cons_of_mem _ hk⟩

/-- The clock stands still. -/
theorem currentTime (h : Trace cfg s g es s' g') : s'.currentTime = s.currentTime := by
  induction h with
  | nil => rfl
  | cons hm _ ih => exact ih.trans (congrArg Globals.currentTime hm.globals)

/-- The flush point stays. -/
theorem oldestLive (h : Trace cfg s g es s' g') : s'.oldestLive = s.oldestLive := by
  induction h with
  | nil => rfl
  | cons hm _ ih => exact ih.trans (congrArg Globals.oldestLive hm.globals)

/-- No CAS ids are taken. -/
theorem casId_eq (h : Trace cfg s g es s' g') (he : ∀ e ∈ es, e.casIds cfg = 0) :
    s'.casId = s.casId := by
  induction h with
  | nil => rfl
  | cons hm _ ih =>
      have hc := congrArg Globals.casId hm.globals
      simp only [Store.globals, he _ List.mem_cons_self, Nat.add_zero] at hc
      exact (ih fun e hm' => he e (List.mem_cons_of_mem _ hm')).trans hc

/-- **An item that no step rewrites** keeps all but its flag, which only `unlink` clears, and its
access time, which only `refresh` renews. -/
theorem item_eq (h : Trace cfg s g es s' g') (hI : Inv cfg s g) (he : ∀ e ∈ es, ¬ e.Rewrites q)
    (hu : s'.InUse g' q) :
    s.InUse g q ∧ ∃ b t, s'.item q = { s.item q with linked := b, time := t } ∧
      (b = (s.item q).linked ∨ .unlink q ∈ es ∧ b = false) ∧
      (t = (s.item q).time ∨ .refresh q ∈ es ∧ t = s.currentTime) := by
  induction h with
  | nil => exact ⟨hu, _, _, rfl, Or.inl rfl, Or.inl rfl⟩
  | cons hm ht ih =>
      rename_i s s₁ s₂ g g₁ g₂ e es
      obtain ⟨hu₁, b, t, hitem, hb, htm⟩ :=
        ih (hm.inv hI) (fun e' he' => he e' (List.mem_cons_of_mem _ he')) hu
      have hne := he e (by simp)
      have hu₀ : s.InUse g q := (hm.inUse hI hu₁).resolve_right fun hc => hne (by
        cases e <;> first | exact hc.elim | exact hc)
      have hnow : s₁.currentTime = s.currentTime := congrArg Globals.currentTime hm.globals
      refine ⟨hu₀, b, t, ?_⟩
      have hi := hm.item hI hu₁
      have hback : (∃ b₁ t₁, s₁.item q = { s.item q with linked := b₁, time := t₁ } ∧
          (b₁ = (s.item q).linked ∨ e = .unlink q ∧ b₁ = false) ∧
          (t₁ = (s.item q).time ∨ e = .refresh q ∧ t₁ = s.currentTime)) := by
        rw [hi]
        cases e with
        | unlink p =>
            by_cases hp : q = p
            · subst hp
              exact ⟨_, _, if_pos rfl, Or.inr ⟨rfl, rfl⟩, Or.inl rfl⟩
            · exact ⟨_, _, if_neg hp, Or.inl rfl, Or.inl rfl⟩
        | refresh p =>
            simp only [Event.item]
            split
            · rename_i hc
              obtain ⟨rfl, -⟩ := hc
              exact ⟨_, _, rfl, Or.inl rfl, Or.inr ⟨rfl, rfl⟩⟩
            · exact ⟨_, _, rfl, Or.inl rfl, Or.inl rfl⟩
        | link p _ | touch p _ | write p _ | setCas p _ | inPlace p _ | create p _ _ _ _ =>
            exact ⟨_, _, if_neg hne, Or.inl rfl, Or.inl rfl⟩
        | _ => exact ⟨_, _, rfl, Or.inl rfl, Or.inl rfl⟩
      obtain ⟨b₁, t₁, hi₁, hb₁, ht₁⟩ := hback
      rw [hi₁] at hitem hb htm
      refine ⟨hitem, ?_, ?_⟩
      · rcases hb with rfl | ⟨hm', rfl⟩
        · exact hb₁.imp_right fun hc => ⟨by simp [hc.1], hc.2⟩
        · exact Or.inr ⟨List.mem_cons_of_mem _ hm', rfl⟩
      · rcases htm with rfl | ⟨hm', rfl⟩
        · exact ht₁.imp_right fun hc => ⟨by simp [hc.1], hc.2⟩
        · exact Or.inr ⟨List.mem_cons_of_mem _ hm', hnow⟩

/-- An item linked last. -/
theorem item_link {key : Bytes} (h : Trace cfg s g (es ++ [.link p key]) s' g')
    (hI : Inv cfg s g) :
    ∃ t f, Trace cfg s g es t f ∧ t.key p = key ∧ s'.Linked p ∧
      s'.item p = { t.item p with
        linked := true
        time := s.currentTime
        cas := if cfg.useCas then t.casId + 1 else 0 } := by
  obtain ⟨t, f, h₁, h₂⟩ := h.split
  cases h₂ with
  | cons hm h₃ =>
      cases h₃
      have hI₁ := h₁.inv hI
      have hu : s'.InUse g' p := by
        cases hm with
        | link hp => exact Or.inr hp
      have hi := hm.item hI₁ hu
      rw [Event.item, if_pos rfl, h₁.currentTime] at hi
      have hchunk : p.isChunk = true := (hm.inv hI₁).choose_spec.isChunk_of_inUse hu
      refine ⟨t, f, h₁, ?_, ⟨hchunk, congrArg Item.linked hi⟩, hi⟩
      cases hm
      rfl

/-- Without an allocation the pages stay. -/
theorem slabList (h : Trace cfg s g es s' g') (he : ∀ o, Event.alloc o ∉ es) (id : ℕ) :
    (s'.slabclass id).slabList = (s.slabclass id).slabList := by
  induction h with
  | nil => rfl
  | cons hm _ ih =>
      rw [ih fun o ho => he o (List.mem_cons_of_mem _ ho),
        hm.slabList (fun o ho => he o (by simp [ho]))]

end Trace

end Memcached
