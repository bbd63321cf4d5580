import Memcached.Events

/-! # The sections as traces

Lookup, unlinking, allocation, storing, arithmetic, flushing and crawling, each as a run of
elementary steps, with the events it can have.

* **`getResult_doItemGet`** — how a lookup ends.
* **`scanOutcome_allocScan`**, **`allocResult_doItemAlloc`** — how an allocation ends. -/

namespace Memcached

open CNumber (Bytes)

variable {cfg : Settings} {s s' : Store} {g g' : Ghost} {p q : Ptr}

/-! ## Unlinking and lookup -/

/-- Giving back a reference just taken. -/
theorem Prim.deref_hold (p : Ptr) : Prim cfg s (g.hold p) (.deref p) (s.doItemRemove cfg p) g := by
  have h : Prim cfg s (g.hold p) (.deref p) (s.doItemRemove cfg p) ((g.hold p).drop p) :=
    .deref (by simp)
  rwa [Ghost.drop_hold] at h

/-- `do_item_unlink` on a linked item. -/
theorem Trace.doItemUnlink (cfg : Settings) (g : Ghost) (hp : s.Linked p) :
    Trace cfg s g [.unlink p, .deref p] (s.doItemUnlink cfg p (cfg.hash (s.key p))) g := by
  rw [Store.doItemUnlink, if_pos hp.2]
  exact .cons (.unlink hp) (.single (.deref_hold p))

/-- What `do_item_unlink` makes of the items that are still in use. -/
theorem item_doItemUnlink (h : Inv cfg s g) (hp : s.Linked p)
    (hu : (s.doItemUnlink cfg p (cfg.hash (s.key p))).InUse g q) :
    s.InUse g q ∧ (s.doItemUnlink cfg p (cfg.hash (s.key p))).item q =
      if q = p then { s.item q with linked := false } else s.item q := by
  have h₁ : Prim cfg s g (.unlink p) (s.unlinkIndex p (cfg.hash (s.key p))) (g.hold p) := .unlink hp
  have h₂ : Prim cfg (s.unlinkIndex p (cfg.hash (s.key p))) (g.hold p) (.deref p)
      (s.doItemUnlink cfg p (cfg.hash (s.key p))) g := by
    rw [Store.doItemUnlink, if_pos hp.2]
    exact .deref_hold p
  have hu₁ := (h₂.inUse (h₁.inv h) hu).resolve_right fun hc => hc
  have hu₀ := (h₁.inUse h hu₁).resolve_right fun hc => hc
  exact ⟨hu₀, (h₂.item (h₁.inv h) hu).trans (h₁.item h hu₁)⟩

/-- `do_item_get` returns nothing for an item in this state: it is in the page being moved, a flush
point covers it, or it has expired. -/
def Store.dead (s : Store) (p : Ptr) : Bool := s.inRebalPage p || s.flushed p || s.expired p

/-- `do_item_get` when `assoc_find` finds an item. -/
theorem Store.doItemGet_eq {key : Bytes} {hv : ℕ} (hfind : s.assocFind key hv = some p) :
    s.doItemGet cfg key hv =
      if s.dead p then
        (((s.refcountIncr p).doItemUnlink cfg p hv).doItemRemove cfg p, none)
      else ((s.refcountIncr p).setFlags p (s.itFlags p).setFetched, some p) := by
  rw [doItemGet, hfind]
  show (if s.inRebalPage p = true then _ else if s.flushed p = true then _
    else if s.expired p = true then _ else _) = _
  rw [dead]
  cases s.inRebalPage p <;> cases s.flushed p <;> cases s.expired p <;> rfl

/-- The counter of an item that is found has room for one more reference. -/
def Store.Room (cfg : Settings) (s : Store) (key : Bytes) : Prop :=
  ∀ p, s.assocFind key (cfg.hash key) = some p → s.refcount p + 1 < refcountModulus

/-- What a lookup does to an item it finds dead. -/
def Event.Buries (s : Store) (key : Bytes) : Event → Prop
  | ref _ | deref _ => True
  | unlink p => s.Linked p ∧ s.key p = key ∧ s.dead p = true
  | _ => False

/-- **How `do_item_get` ends.** -/
inductive GetResult (cfg : Settings) (s : Store) (g : Ghost) (key : Bytes) :
    Store × Option Ptr → Prop
  /-- There is no item with the key, or it was dead and is gone now. -/
  | miss (s' : Store) (evs : List Event) (ht : Trace cfg s g evs s' g)
      (he : ∀ e ∈ evs, e.Buries s key) (hdead : ∀ q, s.Linked q → s.key q = key → s.dead q = true)
      (hno : ∀ q, s'.Linked q → s'.key q ≠ key) : GetResult cfg s g key (s', none)
  /-- The item with the key is returned. -/
  | hit (s' : Store) (p : Ptr) (hp : s.Linked p) (hk : s.key p = key) (hd : s.dead p = false)
      (hs : s' = (s.refcountIncr p).setFlags p (s.itFlags p).setFetched)
      (ht : Trace cfg s g [.ref p, .fetch p] s' (g.hold p)) :
      GetResult cfg s g key (s', some p)

/-- **`do_item_get`.** -/
theorem getResult_doItemGet (h : Inv cfg s g) {key : Bytes} (hroom : s.Room cfg key) :
    GetResult cfg s g key (s.doItemGet cfg key (cfg.hash key)) := by
  obtain ⟨L, hwf⟩ := id h
  cases hfind : s.assocFind key (cfg.hash key) with
  | none =>
      rw [Store.doItemGet, hfind]
      have hno := hwf.assocFind_eq_none.mp hfind
      exact .miss s [] .nil (by simp) (fun q hq hk => absurd hk (hno q hq)) hno
  | some p =>
      obtain ⟨hp, hk⟩ := hwf.assocFind_eq_some.mp hfind
      have hu : s.InUse g p := Or.inl hp
      have hlt := hroom p hfind
      rw [hwf.refcount p hu] at hlt
      have href : Prim cfg s g (.ref p) (s.refcountIncr p) (g.hold p) := .ref hu hlt
      have huniq : ∀ q, s.Linked q → s.key q = key → q = p := fun q hq hkq =>
        hwf.key_inj q p hq hp (hkq.trans hk.symm)
      rw [Store.doItemGet_eq hfind]
      cases hd : s.dead p with
      | true =>
          have hp₁ : (s.refcountIncr p).Linked p := hp
          have hk₁ : (s.refcountIncr p).key p = key := hk
          have hun := Trace.doItemUnlink cfg (g.hold p) hp₁
          have hitem := fun {q} => item_doItemUnlink (q := q) (href.inv h) hp₁
          rw [hk₁] at hun hitem
          set s₂ := (s.refcountIncr p).doItemUnlink cfg p (cfg.hash key)
          have hde : Prim cfg s₂ (g.hold p) (.deref p) (s₂.doItemRemove cfg p) g := .deref_hold p
          have hI₂ := hun.inv (href.inv h)
          refine .miss _ _ (.cons href (hun.append (.single hde)))
            (by simp [Event.Buries, hp, hk, hd]) (fun q hq hkq => huniq q hq hkq ▸ hd) ?_
          intro q hq hkq
          have hi₃ := hde.item hI₂ (Or.inl hq)
          have hu₂ := (hde.inUse hI₂ (Or.inl hq)).resolve_right fun hc => hc
          obtain ⟨-, hi₂⟩ := hitem hu₂
          have hi : (s₂.doItemRemove cfg p).item q = s₂.item q := hi₃
          by_cases e : q = p
          · rw [if_pos e] at hi₂
            exact absurd hq.2 (by
              have := congrArg Item.linked (hi.trans hi₂)
              simpa [Store.item] using this)
          · rw [if_neg e] at hi₂
            have hiq : (s₂.doItemRemove cfg p).item q = s.item q := hi.trans hi₂
            exact e (huniq q ⟨hq.1, (congrArg Item.linked hiq).symm.trans hq.2⟩
              ((congrArg Item.key hiq).symm.trans hkq))
      | false =>
          exact .hit _ p hp hk hd rfl (.cons href (.single (.fetch (Or.inl hp))))

/-! ## Requests to the slab mover -/

/-- `slabs_reassign` posts a request at most, and only when none is pending. -/
theorem slabsReassign_frame (cfg : Settings) (src dst : ℤ) (lockFree : Bool) (s : Store) :
    ∃ a b c, s.slabsReassign cfg src dst lockFree =
        { s with pickAnyCur := a, slabRebal := b, slabRebalanceSignal := c } ∧
      b.slabStart = s.slabRebal.slabStart ∧ b.slabEnd = s.slabRebal.slabEnd ∧
      (s.slabRebalanceSignal ≠ 0 → c = s.slabRebalanceSignal) := by
  rw [Store.slabsReassign]
  split
  · rcases doSlabsReassign_cases cfg src dst s with ⟨a, e⟩ | ⟨hsig, a, src', e⟩
    · exact ⟨a, s.slabRebal, s.slabRebalanceSignal, e, rfl, rfl, fun _ => rfl⟩
    · exact ⟨a, _, 1, e, rfl, rfl, fun h => absurd hsig h⟩
  · exact ⟨s.pickAnyCur, s.slabRebal, s.slabRebalanceSignal, rfl, rfl, rfl, fun _ => rfl⟩

/-- A change of the statistics of an LRU list. -/
theorem quiet_bumpStats (s : Store) (id : ℕ) (f : ItemStats → ItemStats) :
    Quiet s (s.bumpStats id f) := ⟨rfl, rfl, rfl, fun _ => rfl, rfl⟩

/-- `slabs_adjust_mem_requested` is a matter of statistics. -/
theorem quiet_slabsAdjustMemRequested (s : Store) (id old ntotal : ℕ) :
    Quiet s (s.slabsAdjustMemRequested id old ntotal) := by
  refine ⟨?_, rfl, rfl, fun _ => rfl, rfl⟩
  simp only [Store.core, Store.slabsAdjustMemRequested, Store.setSlabclass]
  congr 1
  funext id'
  by_cases e : id' = id
  · subst e; simp
  · simp [Function.update_of_ne e]

/-! ## Allocation -/

/-- What `do_item_alloc` does to the items there are: it may take over one that nobody holds, to
make room, and renews the access time of held ones, of those in `busy`. -/
def Event.Allocs (cfg : Settings) (s : Store) (g : Ghost) (curHv : ℕ) (busy : List Ptr) :
    Event → Prop
  | ref _ | deref _ | alloc _ | discard _ | other => True
  | refresh q => q ∈ busy ∧ 0 < g.handles q ∧ cfg.hash (s.key q) ≠ curHv
  | unlink p => s.Linked p ∧ g.handles p = 0 ∧ cfg.hash (s.key p) ≠ curHv ∧
      (s.reclaimable p = true ∨ cfg.evictToFree = true)
  | _ => False

/-- The items that the tail scan finds referenced, in the order in which it meets them. -/
def Store.scanBusy (cfg : Settings) (env : AllocEnv) (id curHv : ℕ) :
    ℕ → Store → ℕ → ℕ → Option Ptr → List Ptr
  | 0, _, _, _, _ => []
  | _ + 1, _, _, _, none => []
  | _ + 1, _, 0, _, some _ => []
  | fuel + 1, s, tries + 1, reflocked, some search =>
      let nextIt := s.prev search
      let hv := cfg.hash (s.key search)
      if s.isCrawler search then
        scanBusy cfg env id curHv fuel s (tries + 1) reflocked nextIt
      else if hv = curHv ∨ env.trylock hv = false then
        scanBusy cfg env id curHv fuel s tries reflocked nextIt
      else
        let s := s.refcountIncr search
        if s.refcount search ≠ 2 then
          let s := s.scanReflocked cfg id search hv
          search ::
            if reflocked - 1 < 1 then []
            else scanBusy cfg env id curHv fuel s (tries + 1) (reflocked - 1) nextIt
        else []

/-- The items whose access time `do_item_alloc` may renew. -/
def Store.allocBusy (cfg : Settings) (env : AllocEnv) (s : Store) (key : Bytes) (flags : ℤ)
    (nbytes curHv : ℕ) : List Ptr :=
  let id := slabsClsidOf cfg (Store.allocNtotal cfg key flags nbytes)
  if id = 0 then [] else s.scanBusy cfg env id curHv scanFuel 5 1000 (s.tails id)

/-- An item that is moved in its list while a reference to it is taken and given back. -/
theorem refcountDecr_doItemUpdate (h : s.refcount p < refcountModulus) :
    ((s.refcountIncr p).doItemUpdate p).refcountDecr p = s.doItemUpdate p := by
  have hr : ((s.refcount p + 1) % refcountModulus + (refcountModulus - 1)) % refcountModulus
      = s.refcount p := by
    rw [refcountModulus] at *; omega
  have hself : Function.update (Function.update s.refcount p
      ((s.refcount p + 1) % refcountModulus)) p
      (((s.refcount p + 1) % refcountModulus + (refcountModulus - 1)) % refcountModulus)
      = s.refcount := by
    rw [Function.update_idem, hr, Function.update_eq_self]
  have key : ∀ t : Store, t.refcount = s.refcount →
      Store.refcountDecr { t with
        refcount := Function.update s.refcount p ((s.refcount p + 1) % refcountModulus) } p = t := by
    intro t ht
    simp only [Store.refcountDecr, Function.update_self, hself]
    rw [← ht]
  rw [Store.doItemUpdate, Store.doItemUpdate]
  by_cases hc : s.time p < s.currentTime - itemUpdateInterval ∧ (s.itFlags p).linked = true
  · rw [if_pos hc, if_pos (show (s.refcountIncr p).time p < (s.refcountIncr p).currentTime -
      itemUpdateInterval ∧ ((s.refcountIncr p).itFlags p).linked = true from hc)]
    exact key (Store.itemLinkQ
      { s.itemUnlinkQ p with time := Function.update s.time p s.currentTime } p) rfl
  · rw [if_neg hc, if_neg (show ¬ ((s.refcountIncr p).time p < (s.refcountIncr p).currentTime -
      itemUpdateInterval ∧ ((s.refcountIncr p).itFlags p).linked = true) from hc)]
    exact key s rfl

/-- A held item met by the tail scan, tail repair being off. -/
theorem Trace.scanReflocked (h : Inv cfg s g) (hrep : cfg.tailRepairTime = 0) (hp : s.InUse g p)
    (id hv : ℕ) :
    Trace cfg s g [.refresh p, .other] ((s.refcountIncr p).scanReflocked cfg id p hv) g := by
  obtain ⟨L, hwf⟩ := h
  have hlt : s.refcount p < refcountModulus := by
    rw [hwf.refcount p hp]; exact hwf.refs_lt p hp
  have e : (s.refcountIncr p).scanReflocked cfg id p hv = (s.doItemUpdate p).bumpStats id
      fun st => { st with lrutailReflocked := st.lrutailReflocked + 1 } := by
    rw [Store.scanReflocked, refcountDecr_doItemUpdate hlt]
    exact if_neg fun hc => hc.1 hrep
  rw [e]
  exact .cons (.refresh hp) (.single (.other (quiet_bumpStats ..)))

/-- A held item met by the tail scan keeps its flags, as all do. -/
theorem itFlags_scanReflocked (hrep : cfg.tailRepairTime = 0) (id hv : ℕ) :
    (s.scanReflocked cfg id p hv).itFlags = s.itFlags := by
  have hup : (s.doItemUpdate p).itFlags = s.itFlags := by
    rw [Store.doItemUpdate]
    split <;> rfl
  rw [Store.scanReflocked, if_neg fun hc => hc.1 hrep]
  exact hup

/-- **How the tail scan of `do_item_alloc` ends.** -/
inductive ScanOutcome (cfg : Settings) (s : Store) (g : Ghost) (curHv : ℕ) (busy : List Ptr)
    (r : Store.ScanResult) : Prop
  /-- No chunk was found. -/
  | nothing (evs : List Event) (ht : Trace cfg s g evs r.store g)
      (he : ∀ e ∈ evs, e.Allocs cfg s g curHv busy)
      (hi : r.item = none) (hex : r.exhausted = true → ∀ o, .alloc o ∉ evs)
  /-- A chunk was taken off the free list or from an item nobody held. -/
  | found (p : Ptr) (evs : List Event) (ht : Trace cfg s g evs r.store (g.withSpare (some p)))
      (he : ∀ e ∈ evs, e.Allocs cfg s g curHv busy)
      (hi : r.item = some p) (hex : r.exhausted = false) (h0 : g.handles p = 0)

/-- Taking over an item nobody else holds. -/
theorem Trace.steal (h : Inv cfg s (g.hold p)) (hp : s.Linked p) (h0 : g.handles p = 0)
    (id ntotal : ℕ) (f : ItemStats → ItemStats) (src dst : ℤ) (b lockFree : Bool) :
    Trace cfg s (g.hold p) [.other, .other, .unlink p, .deref p, .discard p, .other]
      ((if b then ((s.bumpStats id f).stealItem cfg p ntotal
          (cfg.hash (s.key p))).slabsReassign cfg src dst lockFree
        else (s.bumpStats id f).stealItem cfg p ntotal (cfg.hash (s.key p))).refcountDecr p)
      (g.withSpare (some p)) := by
  set s₁ := s.bumpStats id f
  set s₂ := s₁.slabsAdjustMemRequested (s₁.slabsClsid p) (s₁.itemNtotal p) ntotal with hs₂
  have hp₂ : s₂.Linked p := hp
  set t := s₂.doItemUnlink cfg p (cfg.hash (s.key p)) with ht
  have hpre : Trace cfg s (g.hold p) [.other, .other, .unlink p, .deref p] t (g.hold p) :=
    .cons (.other (quiet_bumpStats s id f))
      (.cons (.other (quiet_slabsAdjustMemRequested s₁ _ _ ntotal)) (.doItemUnlink cfg _ hp₂))
  have hlinked : (t.itFlags p).linked = false := by
    have hI₂ : Inv cfg s₂ (g.hold p) := (Trace.inv (.cons (.other (quiet_bumpStats s id f))
      (.single (.other (quiet_slabsAdjustMemRequested s₁ _ _ ntotal)))) h)
    have := (item_doItemUnlink (q := p) hI₂ hp₂ (Or.inr (by simp))).2
    rw [if_pos rfl] at this
    exact congrArg Item.linked this
  have hdisc : Prim cfg t (g.hold p) (.discard p) _ (((g.hold p).drop p).withSpare (some p)) :=
    .discard (by simp [h0]) hlinked ((t.refcount p + (refcountModulus - 1)) % refcountModulus) 0
  rw [Ghost.drop_hold] at hdisc
  refine hpre.append (.cons hdisc (.single (.other ?_)))
  cases b with
  | false => exact ⟨rfl, rfl, rfl, fun _ => rfl, rfl⟩
  | true =>
      obtain ⟨a, b, c, e, h₁, h₂, h₃⟩ := slabsReassign_frame cfg src dst lockFree
        { t with slabsClsid := Function.update t.slabsClsid p 0 }
      show Quiet _ (Store.refcountDecr (Store.slabsReassign cfg
        { t with slabsClsid := Function.update t.slabsClsid p 0 } src dst lockFree) p)
      rw [e]
      exact ⟨rfl, h₁, h₂, h₃, rfl⟩

/-- Giving back a reference to a linked item only counts. -/
theorem doItemRemove_of_linked (h : Inv cfg s g) (hp : s.Linked p) (hh : 0 < g.handles p) :
    s.doItemRemove cfg p = s.refcountDecr p := by
  obtain ⟨L, h⟩ := h
  rcases h.doItemRemove_cases hh with ⟨-, hl, -⟩ | ⟨-, e⟩
  · exact absurd hp.2 (by simp [hl])
  · exact e

/-- A reference given back while a chunk is in hand. -/
theorem Ghost.drop_withSpare_hold (g : Ghost) (p : Ptr) (o : Option Ptr) :
    ((g.hold p).withSpare o).drop p = g.withSpare o := by
  simp [drop, hold, withSpare]

/-- Nobody holds what the slab allocator returns. -/
theorem handles_of_doSlabsAlloc (h : Inv cfg s g) {id : ℕ} {env : AllocEnv}
    (hf : env.Fresh cfg s id) {size : ℕ} (he : s.doSlabsAlloc cfg size id env = (s', some p)) :
    g.handles p = 0 := by
  obtain ⟨L, hwf⟩ := h.doSlabsAlloc hf he
  exact (hwf.spare p rfl).2.2.1

/-- The last round of the tail scan. -/
theorem scanOutcome_scanTake (h : Inv cfg s g) (hp : s.Linked p) (h0 : g.handles p = 0)
    {env : AllocEnv} {id : ℕ} (hf : env.Fresh cfg s id) (ntotal : ℕ) {curHv : ℕ}
    (hhash : cfg.hash (s.key p) ≠ curHv) (busy : List Ptr) :
    ScanOutcome cfg s g curHv busy
      ((s.refcountIncr p).scanTake cfg env ntotal id p (cfg.hash (s.key p))) := by
  have href : Prim cfg s g (.ref p) (s.refcountIncr p) (g.hold p) := by
    obtain ⟨L, hwf⟩ := h
    refine .ref (Or.inl hp) ?_
    rw [WellFormed.refs_of_linked hp, h0]
    decide
  have h₁ : Inv cfg (s.refcountIncr p) (g.hold p) := href.inv h
  have hf₁ : env.Fresh cfg (s.refcountIncr p) id := hf
  rw [Store.scanTake]
  split
  · rename_i hrec
    exact .found p _ (.cons href (Trace.steal h₁ hp h0 id ntotal _ 0 0 false false))
      (by simpa [Event.Allocs] using ⟨hp, h0, hhash, Or.inl hrec⟩) rfl rfl h0
  split
  · rename_i t it he
    have hm : Prim cfg (s.refcountIncr p) (g.hold p) (.alloc (some it)) t _ := .alloc hf₁ he
    have hpt : t.Linked p := hm.linked h₁ hp (by simp)
    have hd : Prim cfg t ((g.hold p).withSpare (some it)) (.deref p) (t.doItemRemove cfg p) _ :=
      .deref (by simp [Ghost.withSpare])
    rw [Ghost.drop_withSpare_hold, doItemRemove_of_linked (hm.inv h₁) hpt
      (by simp [Ghost.withSpare])] at hd
    have hfree := handles_of_doSlabsAlloc h₁ hf₁ he
    have hne : it ≠ p := by
      rintro rfl
      simp at hfree
    refine .found it [.ref p, .alloc (some it), .deref p] (.cons href (.cons hm (.single hd)))
      (by simp [Event.Allocs]) rfl rfl ?_
    rwa [Ghost.handles_hold_of_ne g hne] at hfree
  · rename_i t he
    have hm : Prim cfg (s.refcountIncr p) (g.hold p) (.alloc none) t (g.hold p) := .alloc hf₁ he
    have hpt : t.Linked p := hm.linked h₁ hp (by simp)
    have hkey : t.key p = s.key p := congrArg Item.key (hm.item h₁ (Or.inl hpt))
    split
    · rename_i hev
      have hst := Trace.steal (hm.inv h₁) hpt h0 id ntotal (fun st =>
        { st with
          evicted := st.evicted + 1
          evictedTime := t.currentTime - t.time p
          evictedNonzero :=
            if t.exptime p ≠ 0 then st.evictedNonzero + 1 else st.evictedNonzero
          evictedUnfetched :=
            if (t.itFlags p).fetched then st.evictedUnfetched
            else st.evictedUnfetched + 1 }) (-1) id (decide (cfg.slabAutomove = 2))
            env.rebalLockFree
      rw [hkey] at hst
      refine .found p [.ref p, .alloc none, .other, .other, .unlink p, .deref p, .discard p, .other]
        (.cons href (.cons hm ?_))
        (by simpa [Event.Allocs] using ⟨hp, h0, hhash, Or.inr hev⟩) rfl rfl h0
      by_cases ha : cfg.slabAutomove = 2
      · simpa only [decide_eq_true_eq, if_pos ha] using hst
      · simpa only [decide_eq_true_eq, if_neg ha] using hst
    · set f : ItemStats → ItemStats := fun st => { st with outofmemory := st.outofmemory + 1 }
      have hq : Prim cfg t (g.hold p) .other (t.bumpStats id f) (g.hold p) :=
        .other (quiet_bumpStats t id f)
      have hd : Prim cfg (t.bumpStats id f) (g.hold p) (.deref p) _ g := .deref_hold p
      rw [doItemRemove_of_linked (hq.inv (hm.inv h₁)) hpt (by simp)] at hd
      exact .nothing [.ref p, .alloc none, .other, .deref p]
        (.cons href (.cons hm (.cons hq (.single hd)))) (by simp [Event.Allocs]) rfl
        fun h => Bool.noConfusion h

/-- Tail repair gives no held reference away: it is off, or nobody holds an item that the tail scan
may look at. -/
def Store.NoRepair (cfg : Settings) (s : Store) (g : Ghost) (curHv : ℕ) : Prop :=
  cfg.tailRepairTime = 0 ∨ ∀ q, s.Linked q → cfg.hash (s.key q) ≠ curHv → g.handles q = 0

/-- What is in front of a listed item is listed. -/
theorem WellFormed.linked_of_prev {L : Layout} (h : WellFormed cfg s g L)
    (hp : (s.itFlags p).linked = true) (hq : s.prev p = some q) : (s.itFlags q).linked = true :=
  ((h.mem_lru q _).mp (h.family.mem_of_prev ((h.mem_lru p _).mpr ⟨hp, rfl⟩) hq)).1

/-- What the tail scan does not skip as a crawler is an item. -/
theorem WellFormed.linked_of_not_isCrawler {L : Layout} (h : WellFormed cfg s g L)
    (hp : (s.itFlags p).linked = true) (hc : s.isCrawler p = false) : s.Linked p := by
  refine ⟨?_, hp⟩
  cases p with
  | chunk a => rfl
  | crawler i =>
      obtain ⟨hfl, -, -, hn, hk⟩ := h.crawler i hp
      rw [Store.isCrawler, hfl, hn, Store.nkey, hk] at hc
      exact absurd hc (by decide)

/-- An item that keeps its header is reclaimable or not as before. -/
theorem reclaimable_of_item (hi : s'.item p = s.item p) (hn : s'.currentTime = s.currentTime)
    (ho : s'.oldestLive = s.oldestLive) : s'.reclaimable p = s.reclaimable p := by
  have h₁ : s'.exptime p = s.exptime p := congrArg Item.exptime hi
  have h₂ : s'.time p = s.time p := congrArg Item.time hi
  rw [Store.reclaimable, Store.reclaimable, h₁, h₂, hn, ho]

/-- A round of the scan on a held item, and the rest of the scan. -/
theorem ScanOutcome.cons {curHv : ℕ} {busy : List Ptr} {r : Store.ScanResult} (h : Inv cfg s g)
    (hq : 0 < g.handles q) (hh : cfg.hash (s.key q) ≠ curHv)
    (ht : Trace cfg s g [.refresh q, .other] s' g)
    (ho : ScanOutcome cfg s' g curHv busy r) : ScanOutcome cfg s g curHv (q :: busy) r := by
  have hback : ∀ e : Event, e.Allocs cfg s' g curHv busy → e.Allocs cfg s g curHv (q :: busy) := by
    intro e he
    cases e with
    | refresh p =>
        obtain ⟨-, b, t, hi, -⟩ := ht.item_eq h (q := p) (by simp [Event.Rewrites]) (Or.inr he.2.1)
        have hk : s'.key p = s.key p := congrArg Item.key hi
        exact ⟨List.mem_cons_of_mem _ he.1, he.2.1, hk ▸ he.2.2⟩
    | unlink p =>
        obtain ⟨hp, h0, hh, hw⟩ := he
        have hne : p ≠ q := by
          rintro rfl
          omega
        obtain ⟨-, b, t, hi, hb, htm⟩ := ht.item_eq h (q := p) (by simp [Event.Rewrites])
          (Or.inl hp)
        obtain rfl := hb.resolve_right (by simp)
        obtain rfl := htm.resolve_right (by simp [hne])
        have hi' : s'.item p = s.item p := hi
        have hk : s'.key p = s.key p := congrArg Item.key hi'
        rw [hk] at hh
        rw [reclaimable_of_item hi' ht.currentTime ht.oldestLive] at hw
        exact ⟨⟨hp.1, (congrArg Item.linked hi').symm.trans hp.2⟩, h0, hh, hw⟩
    | _ => exact he
  have hpre : ∀ e ∈ [Event.refresh q, .other], e.Allocs cfg s g curHv (q :: busy) := by
    simp [Event.Allocs, hq, hh]
  have hall : ∀ {evs : List Event}, (∀ e ∈ evs, e.Allocs cfg s' g curHv busy) →
      ∀ e ∈ [Event.refresh q, .other] ++ evs, e.Allocs cfg s g curHv (q :: busy) := fun he e hm =>
    (List.mem_append.mp hm).elim (hpre e) fun hm => hback e (he e hm)
  cases ho with
  | nothing evs ht' he hi hex =>
      exact .nothing _ (ht.append ht') (hall he) hi fun hx o => by simpa using hex hx o
  | found p evs ht' he hi hex h0 => exact .found p _ (ht.append ht') (hall he) hi hex h0

/-- **The tail scan of `do_item_alloc`.** -/
theorem scanOutcome_allocScan {env : AllocEnv} {id curHv : ℕ} (ntotal : ℕ) (h : Inv cfg s g)
    (hf : env.Fresh cfg s id) (hrep : s.NoRepair cfg g curHv) (fuel tries reflocked : ℕ)
    (search : Option Ptr) (hlink : ∀ p, search = some p → (s.itFlags p).linked = true) :
    ScanOutcome cfg s g curHv (s.scanBusy cfg env id curHv fuel tries reflocked search)
      (s.allocScan cfg env ntotal id curHv fuel tries reflocked search) := by
  -- by induction on the rounds; a round that goes on does so with an item further up the list
  induction fuel generalizing s tries reflocked search with
  | zero => exact .nothing [] .nil (by simp) rfl (by simp)
  | succ fuel ih =>
      cases search with
      | none => exact .nothing [] .nil (by simp) rfl (by simp)
      | some p =>
          cases tries with
          | zero => exact .nothing [] .nil (by simp) rfl (by simp)
          | succ tries =>
              have hI := h
              obtain ⟨L, hwf⟩ := hI
              have hl := hlink p rfl
              have hnext : ∀ q, s.prev p = some q → (s.itFlags q).linked = true := fun q =>
                hwf.linked_of_prev hl
              rw [Store.scanBusy, Store.allocScan]
              cases hc : s.isCrawler p with
              | true => exact ih h hf hrep _ _ _ hnext
              | false =>
                  simp only [Bool.false_eq_true, if_false]
                  have hp : s.Linked p := hwf.linked_of_not_isCrawler hl hc
                  split
                  · exact ih h hf hrep _ _ _ hnext
                  rename_i hv
                  have hhash : cfg.hash (s.key p) ≠ curHv := fun e => hv (Or.inl e)
                  have hcount : (s.refcountIncr p).refcount p
                      = (g.handles p + 1 + 1) % refcountModulus := by
                    rw [← hwf.refcount_of_linked hp]
                    exact Function.update_self ..
                  have hlt := hwf.refs_lt p (Or.inl hp)
                  rw [WellFormed.refs_of_linked hp] at hlt
                  by_cases h0 : g.handles p = 0
                  · have h2 : ¬ (s.refcountIncr p).refcount p ≠ 2 := by
                      rw [hcount, h0]; decide
                    rw [if_neg h2, if_neg h2]
                    exact scanOutcome_scanTake h hp h0 hf ntotal hhash []
                  · have h2 : (s.refcountIncr p).refcount p ≠ 2 := by
                      rw [hcount]
                      rw [refcountModulus] at *
                      omega
                    have hoff : cfg.tailRepairTime = 0 :=
                      hrep.resolve_right fun hno => h0 (hno p hp hhash)
                    have ht := Trace.scanReflocked h hoff (Or.inl hp) id (cfg.hash (s.key p))
                    have hpos := Nat.pos_of_ne_zero h0
                    rw [if_pos h2, if_pos h2]
                    split
                    · exact .cons h hpos hhash ht (.nothing [] .nil (by simp) rfl (by simp))
                    · refine .cons h hpos hhash ht (ih (ht.inv h) ?_ (Or.inl hoff) _ _ _ ?_)
                      · exact fun ptr hptr => (hf ptr hptr).congr (ht.slabList (by simp))
                      · rw [itFlags_scanReflocked hoff]
                        exact hnext

/-- **How `do_item_alloc` ends.** -/
inductive AllocResult (cfg : Settings) (s : Store) (g : Ghost) (curHv : ℕ) (busy : List Ptr)
    (key : Bytes) (flags : ℤ) (exptime nbytes : ℕ) : Store × Option Ptr → Prop
  /-- There is no memory. -/
  | fail (s' : Store) (evs : List Event) (ht : Trace cfg s g evs s' g)
      (he : ∀ e ∈ evs, e.Allocs cfg s g curHv busy) :
      AllocResult cfg s g curHv busy key flags exptime nbytes (s', none)
  /-- A new item, to which the caller has the only reference. -/
  | ok (s' : Store) (p : Ptr) (evs : List Event)
      (ht : Trace cfg s g (evs ++ [.create p key flags exptime nbytes]) s' (g.hold p))
      (he : ∀ e ∈ evs, e.Allocs cfg s g curHv busy) (h0 : g.handles p = 0) :
      AllocResult cfg s g curHv busy key flags exptime nbytes (s', some p)

/-- The tail of an LRU list is listed. -/
theorem WellFormed.linked_of_tail {L : Layout} (h : WellFormed cfg s g L) {id : ℕ}
    (hp : s.tails id = some p) : (s.itFlags p).linked = true :=
  ((h.mem_lru p id).mp (List.mem_of_getLast? ((h.tails id).symm.trans hp))).1

/-- **`do_item_alloc`.** -/
theorem allocResult_doItemAlloc (h : Inv cfg s g) (hs : g.spare = none) {env : AllocEnv}
    {key : Bytes} {flags : ℤ} {nbytes curHv : ℕ}
    (hf : env.Fresh cfg s (slabsClsidOf cfg (Store.allocNtotal cfg key flags nbytes)))
    (hrep : s.NoRepair cfg g curHv) (hn : 2 ≤ nbytes) (exptime : ℕ) :
    AllocResult cfg s g curHv (s.allocBusy cfg env key flags nbytes curHv) key flags exptime nbytes
      (s.doItemAlloc cfg env key flags exptime nbytes curHv) := by
  rw [Store.doItemAlloc, Store.allocBusy]
  set ntotal := Store.allocNtotal cfg key flags nbytes
  set id := slabsClsidOf cfg ntotal with hid
  by_cases h0 : id = 0
  · rw [if_pos h0, if_pos h0]
    exact .fail s [] .nil (by simp)
  rw [if_neg h0, if_neg h0]
  have hbounds : 1 ≤ id ∧ id ≤ cfg.powerLargest := slabsClsidOf_bounds h0
  have htail : ∀ p, s.tails id = some p → (s.itFlags p).linked = true := fun p =>
    h.choose_spec.linked_of_tail
  have hscan := scanOutcome_allocScan ntotal h hf hrep Store.scanFuel 5 1000 (s.tails id) htail
  set busy := s.scanBusy cfg env id curHv Store.scanFuel 5 1000 (s.tails id)
  generalize s.allocScan cfg env ntotal id curHv Store.scanFuel 5 1000 (s.tails id) = r at hscan
  -- a failure is counted, a chunk in hand becomes an item
  have hfail : ∀ {t : Store} {evs : List Event}, Trace cfg s g evs t g →
      (∀ e ∈ evs, e.Allocs cfg s g curHv busy) →
      AllocResult cfg s g curHv busy key flags exptime nbytes
        (t.bumpStats id fun st => { st with outofmemory := st.outofmemory + 1 }, none) :=
    fun ht he => .fail _ _ (ht.append (.single (.other (quiet_bumpStats ..))))
      fun e hm => (List.mem_append.mp hm).elim (he e) fun hm => by
        rw [List.mem_singleton.mp hm]; trivial
  have hok : ∀ {t : Store} {p : Ptr} {evs : List Event},
      Trace cfg s g evs t (g.withSpare (some p)) → (∀ e ∈ evs, e.Allocs cfg s g curHv busy) →
      g.handles p = 0 → AllocResult cfg s g curHv busy key flags exptime nbytes
        (t.initItem cfg p id key flags exptime nbytes, some p) := by
    intro t p evs ht he h0
    have hc : Prim cfg t (g.withSpare (some p)) (.create p key flags exptime nbytes) _ _ :=
      .create rfl hbounds key flags exptime hn
    rw [show (g.withSpare (some p)).withSpare none = g from by simp [Ghost.withSpare, ← hs]] at hc
    exact .ok _ p evs (ht.append (.single hc)) he h0
  cases hscan with
  | nothing evs ht he hi hex =>
      by_cases hx : r.triedAlloc = false ∧ r.exhausted = true
      · simp only [if_pos hx]
        have hf' : env.Fresh cfg r.store id := fun ptr hptr =>
          (hf ptr hptr).congr (ht.slabList (hex hx.2))
        cases hal : r.store.doSlabsAlloc cfg ntotal id env with
        | mk t o =>
            have hm : Prim cfg r.store g (.alloc o) t _ := .alloc hf' hal
            have he' : ∀ e ∈ evs ++ [.alloc o], e.Allocs cfg s g curHv busy := fun e hm =>
              (List.mem_append.mp hm).elim (he e) fun hm => by
                rw [List.mem_singleton.mp hm]; trivial
            cases o with
            | none => exact hfail (ht.append (.single hm)) he'
            | some p =>
                exact hok (ht.append (.single hm)) he' (handles_of_doSlabsAlloc (ht.inv h) hf' hal)
      · simp only [if_neg hx, hi]
        exact hfail ht he
  | found p evs ht he hi hex h0 =>
      have hx : ¬ (r.triedAlloc = false ∧ r.exhausted = true) := by simp [hex]
      simp only [if_neg hx, hi]
      exact hok ht he h0

end Memcached
