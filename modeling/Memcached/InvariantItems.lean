import Memcached.Invariant

/-! # The operations on items keep the invariant

One lemma for each elementary operation of `items.c`: taking and giving back a reference, freeing,
linking, unlinking and moving an item, and writing its fields.

* **`Inv.congr`** — what the invariant depends on.
* **`WellFormed.doItemLink`**, **`WellFormed.unlinkIndex`** — linking and unlinking.
* **`WellFormed.doItemRemove`**, **`WellFormed.doItemUpdate`** — giving back and moving. -/

namespace Memcached

open DoublyLinked (Family setAt)
open SinglyLinked (Chains)
open CNumber (Bytes)

/-! ## Fields the invariant does not speak of -/

namespace Store

/-- A store without statistics and requests to other threads. -/
def core (s : Store) : Store :=
  { s with
    itemstats := fun _ => {}
    crawlerCount := 0
    remaining := fun _ => 0
    startedExpanding := false
    slabclass := fun id => { s.slabclass id with requested := 0, listSize := 0 }
    memMalloced := 0
    slabRebalanceSignal := 0
    slabRebal := {}
    pickAnyCur := 0
    totalItems := 0 }

/-- A store without the fields that have no bearing on its shape either. -/
def shape (s : Store) : Store :=
  { s.core with
    exptime := fun _ => 0
    cas := fun _ => 0
    casId := 0
    oldestLive := 0 }

/-- Stores with the same core have the same shape. -/
theorem shape_of_core {s s' : Store} (e : s'.core = s.core) : s'.shape = s.shape := by
  rw [shape, shape, e]

end Store

/-- A record written with one field as before: nothing changes in that field. -/
theorem update_field {α β γ : Type*} [DecidableEq α] {m : α → β} {a : α} {v : β} (f : β → γ)
    (h : f v = f (m a)) (b : α) : f (Function.update m a v b) = f (m b) := by
  by_cases e : b = a
  · subst e; rw [Function.update_self, h]
  · rw [Function.update_of_ne e]

variable {cfg : Settings} {s s' : Store} {g : Ghost} {L : Layout} {p : Ptr}

/-- Only the shape matters to the layout. -/
theorem WellFormed.shape (h : WellFormed cfg s g L) : WellFormed cfg s.shape g L :=
  { h with }

/-- Only the shape matters to the layout. -/
theorem WellFormed.of_shape (h : WellFormed cfg s.shape g L) : WellFormed cfg s g L :=
  { h with }

/-- **A write outside the shape keeps the invariant.** -/
theorem Inv.congr (h : Inv cfg s g) (e : s'.shape = s.shape) : Inv cfg s' g := by
  obtain ⟨L, h⟩ := h
  exact ⟨L, .of_shape (e ▸ h.shape)⟩

/-! ## References -/

namespace WellFormed

/-- What is in use stays in use, and nothing else, when a reference to it is taken. -/
theorem inUse_hold (hp : s.InUse g p) {q : Ptr} (hq : s.InUse (g.hold p) q) : s.InUse g q := by
  by_cases e : q = p
  · exact e ▸ hp
  · rwa [Store.InUse, Ghost.handles_hold_of_ne g e] at hq

/-- What is in use without a reference is in use with it. -/
theorem inUse_of_drop {q : Ptr} (hq : s.InUse (g.drop p) q) : s.InUse g q := by
  by_cases e : q = p
  · subst e
    exact hq.imp_right fun h => by simp at h; omega
  · rwa [Store.InUse, Ghost.handles_drop_of_ne g e] at hq

/-- A change of `refcount` that follows a change of the handles to an item in use. -/
theorem setHandles (h : WellFormed cfg s g L) (hp : s.InUse g p) {n r : ℕ}
    (hr : r = n + if (s.itFlags p).linked then 1 else 0) (hlt : r < refcountModulus)
    (hn : s.Linked p ∨ 0 < n) :
    WellFormed cfg { s with refcount := Function.update s.refcount p r }
      { g with handles := Function.update g.handles p n } L := by
  have hback : ∀ q, s.InUse { g with handles := Function.update g.handles p n } q →
      s.InUse g q := by
    intro q hq
    by_cases e : q = p
    · exact e ▸ hp
    · simpa [Store.InUse, Function.update_of_ne e] using hq
  have hne : ∀ q, ¬ s.InUse g q → q ≠ p := fun q hq e => hq (e ▸ hp)
  exact
    { h with
      mem_free := fun q id hm => by
        have hq := hne q fun hu => h.not_free_of_inUse hu id hm
        simpa [Function.update_of_ne hq] using h.mem_free q id hm
      isChunk_of_handles := fun q hq => by
        by_cases e : q = p
        · exact e ▸ h.isChunk_of_inUse hp
        · exact h.isChunk_of_handles q (by simpa [Function.update_of_ne e] using hq)
      spare := fun q hq => by
        have hs := h.spare q hq
        have hqp := hne q fun hu => by
          rcases hu with hu | hu
          · exact absurd hu.2 (by simp [hs.2.1])
          · omega
        simpa [Function.update_of_ne hqp] using hs
      notSlabbed := fun q hq => h.notSlabbed q (hback q hq)
      clsid := fun q hq => h.clsid q (hback q hq)
      refcount := fun q hq => by
        by_cases e : q = p
        · subst e; simpa [Store.refs] using hr
        · simpa [Store.refs, Function.update_of_ne e] using h.refcount q (hback q hq)
      refs_lt := fun q hq => by
        by_cases e : q = p
        · subst e; simpa [Store.refs, ← hr] using hlt
        · simpa [Store.refs, Function.update_of_ne e] using h.refs_lt q (hback q hq)
      two_le_nbytes := fun q hq => h.two_le_nbytes q (hback q hq)
      length_data := fun q hq => h.length_data q (hback q hq)
      casFlag := fun q hq => h.casFlag q (hback q hq)
      page := fun q hq => h.page q (hq.imp_left (hback q)) }

/-- Taking a reference. -/
theorem refcountIncr (h : WellFormed cfg s g L) (hp : s.InUse g p)
    (hlt : s.refs g p + 1 < refcountModulus) :
    WellFormed cfg (s.refcountIncr p) (g.hold p) L := by
  have hr := h.refcount p hp
  have hmod : (s.refcount p + 1) % refcountModulus = s.refcount p + 1 :=
    Nat.mod_eq_of_lt (by omega)
  rw [Store.refcountIncr, hmod]
  refine h.setHandles hp ?_ (by omega) (Or.inr (by omega))
  rw [hr, Store.refs]; omega

/-- Giving back a reference that is not the last. -/
theorem refcountDecr (h : WellFormed cfg s g L) (hp : 0 < g.handles p) (hl : 2 ≤ s.refs g p) :
    WellFormed cfg (s.refcountDecr p) (g.drop p) L := by
  have hu : s.InUse g p := Or.inr hp
  have hr := h.refcount p hu
  have hlt := h.refs_lt p hu
  have hmod : (s.refcount p + (refcountModulus - 1)) % refcountModulus = s.refcount p - 1 := by
    rw [refcountModulus] at *; omega
  rw [Store.refcountDecr, hmod]
  refine h.setHandles hu ?_ (by omega) ?_
  · rw [hr, Store.refs]; omega
  · rw [Store.refs] at hl
    by_cases hlk : (s.itFlags p).linked = true
    · exact Or.inl ⟨h.isChunk_of_handles p hp, hlk⟩
    · rw [if_neg hlk] at hl; exact Or.inr (by omega)

/-- Giving back the last reference to an unlinked item: the chunk belongs to nobody, and its
counter and class may be anything. -/
theorem release (h : WellFormed cfg s g L) (hp : g.handles p = 1)
    (hl : (s.itFlags p).linked = false) (r c : ℕ) :
    WellFormed cfg
      { s with
        refcount := Function.update s.refcount p r
        slabsClsid := Function.update s.slabsClsid p c } (g.drop p) L := by
  have hu : s.InUse g p := Or.inr (by omega)
  have hchunk : p.isChunk = true := h.isChunk_of_inUse hu
  have hnl : p ∉ L.linked := fun hm => absurd ((h.mem_linked p).mp hm).2 (by simp [hl])
  have hback : ∀ q, s.InUse (g.drop p) q → q ≠ p ∧ s.InUse g q := by
    intro q hq
    refine ⟨?_, inUse_of_drop hq⟩
    rintro rfl
    rcases hq with hq | hq
    · exact absurd hq.2 (by simp [hl])
    · simp [hp] at hq
  exact
    { h with
      mem_lru := fun q d => by
        by_cases e : q = p
        · subst e
          simp [hl, h.not_lru hl d]
        · simpa [Function.update_of_ne e] using h.mem_lru q d
      mem_free := fun q id hm => by
        have e : q ≠ p := fun e => h.not_free_of_inUse hu id (e ▸ hm)
        rw [Ghost.handles_drop_of_ne g e]
        exact h.mem_free q id hm
      crawler := fun i hi => by
        have e : Ptr.crawler i ≠ p := by rintro rfl; simp [Ptr.isChunk] at hchunk
        simpa [Function.update_of_ne e] using h.crawler i hi
      isChunk_of_handles := fun q hq => by
        by_cases e : q = p
        · exact e ▸ hchunk
        · exact h.isChunk_of_handles q (by rwa [Ghost.handles_drop_of_ne g e] at hq)
      spare := fun q hq => by
        have hs := h.spare q hq
        have e : q ≠ p := by rintro rfl; omega
        rw [Ghost.handles_drop_of_ne g e]
        exact hs
      sizes := fun d => by
        rw [h.sizes d]
        refine congrArg _ (Finset.filter_congr fun q hq => ?_)
        have e : q ≠ p := by rintro rfl; exact hnl hq
        simp [Function.update_of_ne e]
      notSlabbed := fun q hq => h.notSlabbed q (hback q hq).2
      clsid := fun q hq => by
        simpa [Function.update_of_ne (hback q hq).1] using h.clsid q (hback q hq).2
      refcount := fun q hq => by
        simpa [Store.refs, Function.update_of_ne (hback q hq).1,
          Ghost.handles_drop_of_ne g (hback q hq).1] using h.refcount q (hback q hq).2
      refs_lt := fun q hq => by
        simpa [Store.refs, Ghost.handles_drop_of_ne g (hback q hq).1]
          using h.refs_lt q (hback q hq).2
      two_le_nbytes := fun q hq => h.two_le_nbytes q (hback q hq).2
      length_data := fun q hq => h.length_data q (hback q hq).2
      casFlag := fun q hq => h.casFlag q (hback q hq).2
      page := fun q hq => h.page q (hq.imp_left fun hq => (hback q hq).2) }

/-! ## Free lists -/

/-- `do_slabs_free`: a chunk nobody has becomes the first of a free list. -/
theorem doSlabsFree (h : WellFormed cfg s g L) (hchunk : p.isChunk = true)
    (hl : (s.itFlags p).linked = false) (hh : g.handles p = 0)
    (hfree : ∀ id, p ∉ L.queue (.free id)) (hspare : g.spare ≠ some p) (hpage : s.InPage cfg p)
    {id : ℕ} (hid : 1 ≤ id ∧ id ≤ cfg.powerLargest) (size : ℕ) :
    WellFormed cfg (s.doSlabsFree cfg p size id) g
      { L with queue := Function.update L.queue (.free id) (p :: L.queue (.free id)) } := by
  have hq : ∀ j, p ∉ L.queue j := by
    rintro (c | id')
    · exact h.not_lru hl c
    · exact hfree id'
  have hlru : ∀ c, Function.update L.queue (.free id) (p :: L.queue (.free id)) (.lru c)
      = L.queue (.lru c) := fun c => Function.update_of_ne (by simp) ..
  have hslab : ∀ id', (Function.update s.slabclass id
      ((s.slabclass id).push p size) id').slabList = (s.slabclass id').slabList :=
    update_field SlabClass.slabList (by simp)
  have hflags : ∀ q, (Function.update s.itFlags p (s.itFlags p).setSlabbed q).linked
      = (s.itFlags q).linked := update_field ItFlags.linked (by simp)
  have hcas : ∀ q, (Function.update s.itFlags p (s.itFlags p).setSlabbed q).cas
      = (s.itFlags q).cas := update_field ItFlags.cas (by simp)
  have hfam := h.family.pushFront hq (.free id)
  rw [← h.slots id] at hfam
  have hlinked : ∀ q, (s.setFlags p (s.itFlags p).setSlabbed).Linked q ↔ s.Linked q := fun q => by
    simp only [Store.Linked, Store.setFlags, hflags q]
  have huse : ∀ q, (s.setFlags p (s.itFlags p).setSlabbed).InUse g q → q ≠ p ∧ s.InUse g q := by
    intro q hu
    replace hu : s.InUse g q := hu.imp_left (hlinked q).mp
    refine ⟨?_, hu⟩
    rintro rfl
    rcases hu with hu | hu
    · exact absurd hu.2 (by simp [hl])
    · omega
  rw [Store.doSlabsFree, if_neg (by omega)]
  exact
    { h with
      family := hfam
      heads := fun c => by simp only [hlru]; exact h.heads c
      tails := fun c => by simp only [hlru]; exact h.tails c
      slots := fun id' => by
        by_cases e : id' = id
        · subst e; simp
        · simp [Function.update_of_ne, e, h.slots id']
      slCurr := fun id' => by
        by_cases e : id' = id
        · subst e; simp [h.slCurr]
        · simp [Function.update_of_ne, e, h.slCurr id']
      mem_lru := fun q c => by
        simp only [hlru, hflags q]
        exact h.mem_lru q c
      mem_chain := fun q b => (h.mem_chain q b).trans (and_congr_left' (hlinked q).symm)
      mem_linked := fun q => (h.mem_linked q).trans (hlinked q).symm
      mem_free := fun q id' hm => by
        simp only [hflags q]
        by_cases e : q = p
        · subst e; exact ⟨hchunk, hl, hh⟩
        · by_cases e' : id' = id
          · subst e'
            exact h.mem_free q id' (by simpa [e] using hm)
          · exact h.mem_free q id' (by simpa [Function.update_of_ne, e'] using hm)
      key_inj := fun q r hq hr => h.key_inj q r ((hlinked q).mp hq) ((hlinked r).mp hr)
      crawler := fun i hi => by
        have e : Ptr.crawler i ≠ p := by rintro rfl; simp [Ptr.isChunk] at hchunk
        simp only [Function.update_of_ne e] at hi ⊢
        exact h.crawler i hi
      spare := fun q hq => by
        have hqp : q ≠ p := fun e => hspare (e ▸ hq)
        simp only [hflags q]
        obtain ⟨h₁, h₂, h₃, h₄⟩ := h.spare q hq
        refine ⟨h₁, h₂, h₃, fun id' => ?_⟩
        by_cases e : id' = id
        · subst e; simpa [hqp] using h₄ id'
        · simpa [Function.update_of_ne, e] using h₄ id'
      currBytes := by
        simp only [Store.itemNtotal, hcas]
        exact h.currBytes
      notSlabbed := fun q hu => by
        simp only [Function.update_of_ne (huse q hu).1]
        exact h.notSlabbed q (huse q hu).2
      clsid := fun q hu => h.clsid q (huse q hu).2
      refcount := fun q hu => by
        simp only [Store.refs, hflags q]
        exact h.refcount q (huse q hu).2
      refs_lt := fun q hu => by
        simp only [Store.refs, hflags q]
        exact h.refs_lt q (huse q hu).2
      two_le_nbytes := fun q hu => h.two_le_nbytes q (huse q hu).2
      length_data := fun q hu => h.length_data q (huse q hu).2
      casFlag := fun q hu => by
        simp only [hcas q]
        exact h.casFlag q (huse q hu).2
      page := fun q hq => by
        simp only [Store.InPage, hslab]
        by_cases e : q = p
        · subst e; exact hpage
        · refine h.page q (hq.imp (fun hu => (huse q hu).2) (Or.imp_left ?_))
          rintro ⟨id', hm⟩
          refine ⟨id', ?_⟩
          by_cases e' : id' = id
          · subst e'; simpa [e] using hm
          · simpa [Function.update_of_ne, e'] using hm
      crlf := fun q hq => h.crlf q ((hlinked q).mp hq)
      time := fun q hq => h.time q ((hlinked q).mp hq)
      sorted := fun c => by simp only [hlru]; exact h.sorted c }

end WellFormed

/-- `item_free`, on a chunk nobody has. -/
theorem WellFormed.itemFree (h : WellFormed cfg s g L) (hp : g.handles p = 1)
    (hl : (s.itFlags p).linked = false) (hspare : g.spare ≠ some p) (r : ℕ) :
    ∃ L', WellFormed cfg
      (Store.itemFree cfg { s with refcount := Function.update s.refcount p r } p) (g.drop p) L' ∧
      ∀ c, L'.queue (.lru c) = L.queue (.lru c) := by
  have hu : s.InUse g p := Or.inr (by omega)
  have hrel := h.release hp hl r 0
  refine ⟨_, hrel.doSlabsFree (h.isChunk_of_inUse hu) hl (by simp [hp])
    (h.not_free_of_inUse hu) hspare (h.page p (Or.inl hu)) (h.clsid p hu) _, fun c => ?_⟩
  simp

/-- An item with callers is not in hand. -/
theorem WellFormed.spare_ne (h : WellFormed cfg s g L) (hp : s.InUse g p) : g.spare ≠ some p := by
  intro e
  obtain ⟨-, hl, h0, -⟩ := h.spare p e
  rcases hp with hp | hp
  · exact absurd hp.2 (by simp [hl])
  · omega

/-- What `do_item_remove` does: the last reference to an unlinked item frees it. -/
theorem WellFormed.doItemRemove_cases (h : WellFormed cfg s g L) (hp : 0 < g.handles p) :
    (g.handles p = 1 ∧ (s.itFlags p).linked = false ∧
      s.doItemRemove cfg p = (s.refcountDecr p).itemFree cfg p) ∨
    (2 ≤ s.refs g p ∧ s.doItemRemove cfg p = s.refcountDecr p) := by
  have hu : s.InUse g p := Or.inr hp
  have hr := h.refcount p hu
  have hlt := h.refs_lt p hu
  have hpos : 1 ≤ s.refs g p := by rw [Store.refs]; omega
  have hself : (s.refcountDecr p).refcount p = s.refs g p - 1 := by
    simp only [Store.refcountDecr, Function.update_self, hr]
    rw [refcountModulus] at *; omega
  have hdef : s.doItemRemove cfg p = if (s.refcountDecr p).refcount p = 0
      then (s.refcountDecr p).itemFree cfg p else s.refcountDecr p := rfl
  rw [hdef, hself]
  by_cases h1 : s.refs g p = 1
  · rw [Store.refs] at h1
    have hl : (s.itFlags p).linked = false := by
      by_contra hl
      rw [if_pos (by simpa using hl)] at h1
      omega
    rw [if_neg (by simp [hl])] at h1
    exact Or.inl ⟨h1, hl, if_pos (by rw [Store.refs, if_neg (by simp [hl])]; omega)⟩
  · exact Or.inr ⟨by omega, if_neg (by omega)⟩

/-- **`do_item_remove`** gives a reference back. -/
theorem WellFormed.doItemRemove (h : WellFormed cfg s g L) (hp : 0 < g.handles p) :
    ∃ L', WellFormed cfg (s.doItemRemove cfg p) (g.drop p) L' ∧
      ∀ c, L'.queue (.lru c) = L.queue (.lru c) := by
  rcases h.doItemRemove_cases hp with ⟨h1, hl, e⟩ | ⟨h2, e⟩
  · rw [e]
    exact h.itemFree h1 hl (h.spare_ne (Or.inr hp)) _
  · rw [e]
    exact ⟨L, h.refcountDecr hp h2, fun c => rfl⟩

/-! ## LRU lists -/

namespace LruLists

variable {q : Queue → List Ptr}

/-- `item_link_q` puts an item in front of the list of its class. -/
theorem itemLinkQ (h : LruLists s q) (hp : ∀ j, p ∉ q j) :
    LruLists (s.itemLinkQ p)
      (Function.update q (.lru (s.slabsClsid p)) (p :: q (.lru (s.slabsClsid p)))) where
  family := by
    have hf := h.family.pushFront hp (.lru (s.slabsClsid p))
    rw [← h.heads] at hf
    exact hf
  heads c := by
    by_cases e : c = s.slabsClsid p
    · subst e; simp [Store.itemLinkQ]
    · simp [Store.itemLinkQ, Function.update_of_ne, e, h.heads c]
  tails c := by
    by_cases e : c = s.slabsClsid p
    · subst e
      simp only [Store.itemLinkQ, Function.update_self, h.tails]
      cases q (.lru (s.slabsClsid p)) with
      | nil => rfl
      | cons x xs => simp [List.getLast?_cons]
    · simp [Store.itemLinkQ, Function.update_of_ne, e, h.tails c]

/-- `item_unlink_q` takes an item out of its list. -/
theorem itemUnlinkQ (h : LruLists s q) {l₁ l₂ : List Ptr}
    (hq : q (.lru (s.slabsClsid p)) = l₁ ++ p :: l₂) :
    LruLists (s.itemUnlinkQ p) (Function.update q (.lru (s.slabsClsid p)) (l₁ ++ l₂)) where
  family := h.family.remove hq
  heads c := by
    by_cases e : c = s.slabsClsid p
    · subst e
      simp only [Store.itemUnlinkQ, Function.update_self, h.heads]
      exact h.family.head_remove hq
    · simp [Store.itemUnlinkQ, Function.update_of_ne, e, h.heads c]
  tails c := by
    by_cases e : c = s.slabsClsid p
    · subst e
      simp only [Store.itemUnlinkQ, Function.update_self, h.tails]
      exact h.family.last_remove hq
    · simp [Store.itemUnlinkQ, Function.update_of_ne, e, h.tails c]

end LruLists

/-- Membership in the LRU lists after the list of class `c` was replaced. -/
theorem mem_update_lru {f : Queue → List Ptr} {c : ℕ} {l : List Ptr} {q : Ptr} {P : ℕ → Prop}
    (hother : ∀ d, d ≠ c → (q ∈ f (.lru d) ↔ P d)) (hc : q ∈ l ↔ P c) (d : ℕ) :
    q ∈ Function.update f (.lru c) l (.lru d) ↔ P d := by
  by_cases e : d = c
  · subst e; simpa using hc
  · simpa [Function.update_of_ne, e] using hother d e

/-- An LRU list is no free list. -/
@[simp] theorem update_lru_free {f : Queue → List Ptr} {c : ℕ} {l : List Ptr} {id : ℕ} :
    Function.update f (.lru c) l (.free id) = f (.free id) :=
  Function.update_of_ne (by simp) ..

/-- A free list is no LRU list. -/
@[simp] theorem update_free_lru {f : Queue → List Ptr} {c : ℕ} {l : List Ptr} {id : ℕ} :
    Function.update f (.free id) l (.lru c) = f (.lru c) :=
  Function.update_of_ne (by simp) ..

/-- Putting an item accessed just now in front of an LRU list keeps the lists sorted. -/
theorem sorted_cons {f : Queue → List Ptr} {time : Ptr → ℕ} {now : ℕ}
    (hs : ∀ d, (f (.lru d)).Pairwise fun q r =>
      q.isChunk = true → r.isChunk = true → time r ≤ time q)
    (hp : ∀ d, p ∉ f (.lru d)) (hle : ∀ d, ∀ r ∈ f (.lru d), r.isChunk = true → time r ≤ now)
    (i c : ℕ) :
    (Function.update f (.lru i) (p :: f (.lru i)) (.lru c)).Pairwise fun q r =>
      q.isChunk = true → r.isChunk = true →
        Function.update time p now r ≤ Function.update time p now q := by
  have hold : ∀ d, (f (.lru d)).Pairwise fun q r => q.isChunk = true → r.isChunk = true →
      Function.update time p now r ≤ Function.update time p now q := by
    intro d
    refine (hs d).imp_of_mem fun {q r} hq hr hqr => ?_
    have e : q ≠ p := by rintro rfl; exact hp d hq
    have e' : r ≠ p := by rintro rfl; exact hp d hr
    rwa [Function.update_of_ne e, Function.update_of_ne e']
  by_cases e : c = i
  · subst e
    rw [Function.update_self, List.pairwise_cons]
    refine ⟨fun r hr _ hc => ?_, hold c⟩
    have e' : r ≠ p := by rintro rfl; exact hp c hr
    rw [Function.update_self, Function.update_of_ne e']
    exact hle c r hr hc
  · rw [Function.update_of_ne (by simpa using e)]
    exact hold c

/-- Taking an item out of an LRU list keeps the lists sorted. -/
theorem sorted_remove {f : Queue → List Ptr} {R : Ptr → Ptr → Prop}
    (hs : ∀ d, (f (.lru d)).Pairwise R) {i : ℕ} {l₁ l₂ : List Ptr} (hl : f (.lru i) = l₁ ++ p :: l₂)
    (c : ℕ) : (Function.update f (.lru i) (l₁ ++ l₂) (.lru c)).Pairwise R := by
  by_cases e : c = i
  · have h := hs c
    subst e
    rw [hl] at h
    rw [Function.update_self]
    exact h.sublist (List.Sublist.append_left (List.sublist_cons_self p l₂) l₁)
  · rw [Function.update_of_ne (by simpa using e)]
    exact hs c

/-- A linked item was accessed no later than now. -/
theorem WellFormed.time_le (h : WellFormed cfg s g L) {d : ℕ} {q : Ptr} (hq : q ∈ L.queue (.lru d))
    (hc : q.isChunk = true) : s.time q ≤ s.currentTime :=
  (h.time q ⟨hc, ((h.mem_lru q d).mp hq).1⟩).2

/-- Who is in a list that an item was taken out of. -/
theorem mem_of_split {α : Type*} {p q : α} {l l₁ l₂ : List α} (hnd : l.Nodup)
    (hl : l = l₁ ++ p :: l₂) : q ∈ l₁ ++ l₂ ↔ q ≠ p ∧ q ∈ l := by
  rw [hl] at hnd
  obtain ⟨hp, -⟩ := List.nodup_cons.mp (List.nodup_middle.mp hnd)
  rw [hl]
  by_cases e : q = p
  · subst e
    simpa using hp
  · simp [e]

/-- The counts of the classes, when an item is taken out. -/
theorem update_card_erase {A : Finset Ptr} {class' : Ptr → ℕ} {count : ℕ → ℕ}
    (hcount : ∀ c, count c = (A.filter fun q => class' q = c).card) (hp : p ∈ A) (c : ℕ) :
    Function.update count (class' p) (count (class' p) - 1) c
      = ((A.erase p).filter fun q => class' q = c).card := by
  rw [Finset.filter_erase]
  by_cases e : c = class' p
  · subst e
    rw [Function.update_self, hcount, Finset.card_erase_of_mem (by simp [hp])]
  · rw [Function.update_of_ne e, hcount, Finset.erase_eq_of_notMem (by simp [Ne.symm e])]

/-- The counts of the classes, when an item is put in. -/
theorem update_card_insert {A : Finset Ptr} {class' : Ptr → ℕ} {count : ℕ → ℕ}
    (hcount : ∀ c, count c = (A.filter fun q => class' q = c).card) (hp : p ∉ A) (c : ℕ) :
    Function.update count (class' p) (count (class' p) + 1) c
      = ((insert p A).filter fun q => class' q = c).card := by
  rw [Finset.filter_insert]
  by_cases e : c = class' p
  · subst e
    rw [Function.update_self, hcount, if_pos rfl, Finset.card_insert_of_notMem (by simp [hp])]
  · rw [Function.update_of_ne e, hcount, if_neg (Ne.symm e)]

/-- Who is on the hash chains, when the chain of `p` has changed and no other item has joined the
table or left it. -/
theorem WellFormed.mem_update_chain (h : WellFormed cfg s g L) {l : List Ptr} {R : Ptr → Prop}
    (hR : ∀ q, q ≠ p → (R q ↔ s.Linked q)) (hp : p ∈ l ↔ R p)
    (hl : ∀ q, q ≠ p → (q ∈ l ↔ q ∈ L.chain (s.bucketOf (cfg.hash (s.key p))))) (q : Ptr) (b : Bucket) :
    q ∈ Function.update L.chain (s.bucketOf (cfg.hash (s.key p))) l b
      ↔ R q ∧ s.bucketOf (cfg.hash (s.key q)) = b := by
  by_cases e' : q = p
  · subst e'
    by_cases e : b = s.bucketOf (cfg.hash (s.key q))
    · subst e
      rw [Function.update_self, hp]
      simp
    · rw [Function.update_of_ne e]
      exact ⟨fun hq => absurd ((h.mem_chain q b).mp hq).2.symm e, fun hq => absurd hq.2.symm e⟩
  · by_cases e : b = s.bucketOf (cfg.hash (s.key p))
    · subst e
      rw [Function.update_self, hl q e', h.mem_chain, hR q e']
    · rw [Function.update_of_ne e, h.mem_chain, hR q e']

/-! ## Unlinking -/

section

/-- No other item is touched. -/
theorem itFlags_unlinkStats_of_ne {q : Ptr} (e : q ≠ p) :
    (s.unlinkStats p).itFlags q = s.itFlags q :=
  Function.update_of_ne e ..

theorem linked_unlinkStats_self : ((s.unlinkStats p).itFlags p).linked = false := by
  simp [Store.unlinkStats, Store.setFlags]

/-- The other items stay linked. -/
theorem linked_unlinkStats (q : Ptr) : (s.unlinkStats p).Linked q ↔ q ≠ p ∧ s.Linked q := by
  by_cases e : q = p
  · subst e
    simp [Store.Linked, linked_unlinkStats_self]
  · simp [Store.Linked, itFlags_unlinkStats_of_ne e, e]

/-- What is in use was in use before. -/
theorem inUse_unlinkStats (hp : s.Linked p) {q : Ptr} (hq : (s.unlinkStats p).InUse (g.hold p) q) :
    s.InUse g q := by
  by_cases e : q = p
  · subst e
    exact Or.inl hp
  · rw [Store.InUse, Ghost.handles_hold_of_ne g e] at hq
    exact hq.imp_left fun hq => ((linked_unlinkStats q).mp hq).2

/-- The reference of the hash table is in the caller's hands. -/
theorem refs_unlinkStats (hp : s.Linked p) (q : Ptr) :
    (s.unlinkStats p).refs (g.hold p) q = s.refs g q := by
  by_cases e : q = p
  · subst e
    simp [Store.refs, linked_unlinkStats_self, hp.2]
  · simp [Store.refs, itFlags_unlinkStats_of_ne e, Ghost.handles_hold_of_ne g e]

/-- A flag does not change a size. -/
theorem itemNtotal_unlinkStats : (s.unlinkStats p).itemNtotal = s.itemNtotal := by
  have hcas : ∀ q, ((s.unlinkStats p).itFlags q).cas = (s.itFlags q).cas :=
    update_field ItFlags.cas (by simp)
  funext q
  simp only [Store.itemNtotal, hcas q]
  rfl

end

namespace WellFormed

/-- `do_item_unlink` finds the item on its chain. -/
theorem unlinkIndex_eq (h : WellFormed cfg s g L) (hp : s.Linked p) {m₁ m₂ : List Ptr}
    (hm : L.chain (s.bucketOf (cfg.hash (s.key p))) = m₁ ++ p :: m₂) :
    s.unlinkIndex p (cfg.hash (s.key p)) =
      ((s.unlinkStats p).assocUnlink (cfg.hash (s.key p)) m₁.getLast? p).itemUnlinkQ p := by
  have hbefore : (s.unlinkStats p).hashitemBefore (s.key p) (cfg.hash (s.key p))
      = (m₁.getLast?, some p) := h.hashitemBefore_eq hp hm
  show ((s.unlinkStats p).assocDelete (s.key p) (cfg.hash (s.key p))).itemUnlinkQ p = _
  rw [Store.assocDelete, hbefore]

/-- A linked item is on the LRU list of its class, and nowhere else. -/
theorem mem_lru_iff (h : WellFormed cfg s g L) (hp : s.Linked p) (c : ℕ) :
    p ∈ L.queue (.lru c) ↔ s.slabsClsid p = c :=
  (h.mem_lru p c).trans (and_iff_right hp.2)

/-- **`do_item_unlink`, up to the release of the link's reference**: the item leaves the hash table
and its LRU list, and the reference that the table held is in the caller's hands. -/
theorem unlinkIndex (h : WellFormed cfg s g L) (hp : s.Linked p) :
    ∃ L', WellFormed cfg (s.unlinkIndex p (cfg.hash (s.key p))) (g.hold p) L' ∧
      ∀ c, L'.queue (.lru c) = (L.queue (.lru c)).erase p := by
  obtain ⟨l₁, l₂, hl⟩ := Family.exists_split ((h.mem_lru_iff hp _).mpr rfl)
  obtain ⟨m₁, m₂, hm⟩ := List.append_of_mem ((h.mem_chain p _).mpr ⟨hp, rfl⟩)
  have hlru : LruLists ((s.unlinkStats p).assocUnlink (cfg.hash (s.key p)) m₁.getLast? p) L.queue :=
    ⟨h.family, h.heads, h.tails⟩
  have hflags : ∀ q, q ≠ p → (s.unlinkStats p).itFlags q = s.itFlags q := fun q e =>
    itFlags_unlinkStats_of_ne e
  have hcas : ∀ q, ((s.unlinkStats p).itFlags q).cas = (s.itFlags q).cas :=
    update_field ItFlags.cas (by simp)
  have hslabbed : ∀ q, ((s.unlinkStats p).itFlags q).slabbed = (s.itFlags q).slabbed :=
    update_field ItFlags.slabbed (by simp)
  have huse : ∀ q, (s.unlinkStats p).InUse (g.hold p) q → s.InUse g q := fun q =>
    inUse_unlinkStats hp
  have hpl : p ∈ L.linked := (h.mem_linked p).mpr hp
  have hlru' : ∀ q, q ∈ l₁ ++ l₂ ↔ q ≠ p ∧ q ∈ L.queue (.lru (s.slabsClsid p)) := fun q =>
    mem_of_split (h.family.nodup _) hl
  have hchain' : ∀ q, q ∈ m₁ ++ m₂ ↔ q ≠ p ∧ q ∈ L.chain (s.bucketOf (cfg.hash (s.key p))) :=
    fun q => mem_of_split (h.chains.nodup _) hm
  rw [h.unlinkIndex_eq hp hm]
  -- the layout afterwards: the item is cut out of its LRU list, its chain and the linked items
  refine ⟨⟨Function.update L.queue (.lru (s.slabsClsid p)) (l₁ ++ l₂),
    Function.update L.chain (s.bucketOf (cfg.hash (s.key p))) (m₁ ++ m₂), L.linked.erase p⟩, ?_,
    fun c => ?_⟩
  swap
  · by_cases e : c = s.slabsClsid p
    · subst e
      have hnot : p ∉ l₁ := fun hc => ((hlru' p).mp (List.mem_append_left _ hc)).1 rfl
      rw [hl, List.erase_append_right _ hnot, List.erase_cons_head]
      exact Function.update_self ..
    · have hnot : p ∉ L.queue (.lru c) := fun hc => e ((h.mem_lru_iff hp c).mp hc).symm
      rw [List.erase_of_not_mem hnot]
      exact Function.update_of_ne (fun hc => e (Queue.lru.inj hc)) ..
  exact
    { h with
      toLruLists := hlru.itemUnlinkQ hl
      slots := fun id => by simp only [update_lru_free]; exact h.slots id
      slCurr := fun id => by simp only [update_lru_free]; exact h.slCurr id
      chains := h.chains.remove hm
      mem_lru := fun q d => by
        refine mem_update_lru (P := fun d => ((s.unlinkStats p).itFlags q).linked = true ∧
          s.slabsClsid q = d) (fun d hd => ?_) ?_ d
        · by_cases e : q = p
          · subst e; simp [linked_unlinkStats_self, h.mem_lru_iff hp, Ne.symm hd]
          · rw [hflags q e]; exact h.mem_lru q d
        · by_cases e : q = p
          · subst e; simp [linked_unlinkStats_self, hlru']
          · rw [hflags q e, ← h.mem_lru q, hlru']; simp [e]
      mem_chain := fun q b => by
        refine (h.mem_update_chain (R := (s.unlinkStats p).Linked) (fun q e => ?_) ?_ (fun q e => ?_)
          q b)
        · simp [linked_unlinkStats, e]
        · simp [linked_unlinkStats, hchain']
        · simp [hchain', e]
      mem_linked := fun q => by
        refine Finset.mem_erase.trans ?_
        rw [h.mem_linked]
        exact (linked_unlinkStats q).symm
      -- an item in use is on no free list, so none of the pointers below is `p`
      mem_free := fun q id hq => by
        simp only [update_lru_free] at hq
        have e : q ≠ p := by rintro rfl; exact h.not_free_of_inUse (Or.inl hp) id hq
        rw [Ghost.handles_hold_of_ne g e]
        exact ⟨(h.mem_free q id hq).1, (congrArg _ (hflags q e)).trans (h.mem_free q id hq).2.1,
          (h.mem_free q id hq).2.2⟩
      key_inj := fun q r hq hr =>
        h.key_inj q r ((linked_unlinkStats q).mp hq).2 ((linked_unlinkStats r).mp hr).2
      crawler := fun i hi => by
        have e : Ptr.crawler i ≠ p := by rintro rfl; exact absurd hp.1 (by simp [Ptr.isChunk])
        have hi' := (congrArg _ (hflags _ e)).symm.trans hi
        exact ⟨(hflags _ e).trans (h.crawler i hi').1, (h.crawler i hi').2⟩
      isChunk_of_handles := fun q hq => by
        by_cases e : q = p
        · exact e ▸ hp.1
        · exact h.isChunk_of_handles q (by rwa [Ghost.handles_hold_of_ne g e] at hq)
      spare := fun q hq => by
        have e : q ≠ p := by rintro rfl; exact h.spare_ne (Or.inl hp) hq
        obtain ⟨h₁, h₂, h₃, h₄⟩ := h.spare q hq
        exact ⟨h₁, (congrArg _ (hflags q e)).trans h₂,
          (Ghost.handles_hold_of_ne g e).trans h₃, fun id => by simpa using h₄ id⟩
      sizes := update_card_erase h.sizes hpl
      hashItems := by
        show s.hashItems - 1 = _
        rw [h.hashItems, Finset.card_erase_of_mem hpl]
      currItems := by
        show s.currItems - 1 = _
        rw [h.currItems, Finset.card_erase_of_mem hpl]
      currBytes := by
        have hsum := Finset.add_sum_erase L.linked s.itemNtotal hpl
        show s.currBytes - (s.unlinkStats p).itemNtotal p
          = ∑ q ∈ L.linked.erase p, (s.unlinkStats p).itemNtotal q
        rw [itemNtotal_unlinkStats, h.currBytes]
        omega
      notSlabbed := fun q hq => (hslabbed q).trans (h.notSlabbed q (huse q hq))
      clsid := fun q hq => h.clsid q (huse q hq)
      refcount := fun q hq => (h.refcount q (huse q hq)).trans (refs_unlinkStats hp q).symm
      refs_lt := fun q hq => (refs_unlinkStats hp q).trans_lt (h.refs_lt q (huse q hq))
      two_le_nbytes := fun q hq => h.two_le_nbytes q (huse q hq)
      length_data := fun q hq => h.length_data q (huse q hq)
      casFlag := fun q hq => (hcas q).trans (h.casFlag q (huse q hq))
      page := fun q hq => h.page q (by
        simp only [update_lru_free] at hq
        exact hq.imp_left (huse q))
      crlf := fun q hq => h.crlf q ((linked_unlinkStats q).mp hq).2
      time := fun q hq => h.time q ((linked_unlinkStats q).mp hq).2
      sorted := fun c => by
        exact sorted_remove h.sorted hl c }

/-! ## Linking -/

section

/-- No other item is touched. -/
theorem itFlags_linkStats_of_ne {q : Ptr} (e : q ≠ p) :
    (s.linkStats cfg p).itFlags q = s.itFlags q :=
  Function.update_of_ne e ..

theorem itFlags_linkStats_self : (s.linkStats cfg p).itFlags p = (s.itFlags p).setLinked :=
  Function.update_self ..

/-- The item joins those that are linked. -/
theorem linked_linkStats (hchunk : p.isChunk = true) (q : Ptr) :
    (s.linkStats cfg p).Linked q ↔ q = p ∨ s.Linked q := by
  by_cases e : q = p
  · subst e
    simp [Store.Linked, itFlags_linkStats_self, hchunk]
  · simp [Store.Linked, itFlags_linkStats_of_ne e, e]

/-- What is in use was in use before. -/
theorem inUse_linkStats (hp : s.InUse g p) (hchunk : p.isChunk = true) {q : Ptr}
    (hq : (s.linkStats cfg p).InUse g q) : s.InUse g q := by
  by_cases e : q = p
  · subst e
    exact hp
  · exact hq.imp_left fun hq => ((linked_linkStats hchunk q).mp hq).resolve_left e

/-- A flag does not change a size. -/
theorem itemNtotal_linkStats : (s.linkStats cfg p).itemNtotal = s.itemNtotal := by
  have hcas : ∀ q, ((s.linkStats cfg p).itFlags q).cas = (s.itFlags q).cas :=
    update_field ItFlags.cas (by simp)
  funext q
  simp only [Store.itemNtotal, hcas q]
  rfl

/-- The hash table has a reference of its own. -/
theorem refs_linkStats (hl : (s.itFlags p).linked = false) (q : Ptr) :
    (s.linkStats cfg p).refs g q = if q = p then s.refs g p + 1 else s.refs g q := by
  by_cases e : q = p
  · subst e
    simp [Store.refs, itFlags_linkStats_self, hl]
  · simp [Store.refs, itFlags_linkStats_of_ne e, e]

end

/-- **`do_item_link`**: a held item whose key no linked item has becomes the head of its LRU list
and the first of its bucket; the hash table's reference is added to its count. -/
theorem doItemLink (h : WellFormed cfg s g L) (hp : 0 < g.handles p)
    (hl : (s.itFlags p).linked = false) (hkey : ∀ q, s.Linked q → s.key q ≠ s.key p)
    (hlt : s.refs g p + 1 < refcountModulus) (hcrlf : ∃ v, s.data p = v ++ Memcached.crlf) :
    ∃ L', WellFormed cfg (s.doItemLink cfg p (cfg.hash (s.key p))) g L' := by
  have hu : s.InUse g p := Or.inr hp
  have hchunk : p.isChunk = true := h.isChunk_of_handles p hp
  have hq : ∀ j, p ∉ L.queue j := by
    rintro (c | id)
    · exact h.not_lru hl c
    · exact h.not_free_of_inUse hu id
  have hnl : ¬ s.Linked p := fun e => absurd e.2 (by simp [hl])
  have hpl : p ∉ L.linked := fun e => hnl ((h.mem_linked p).mp e)
  have hpc : ∀ b, p ∉ L.chain b := fun b e => hnl ((h.mem_chain p b).mp e).1
  have hlru : LruLists ((s.linkStats cfg p).assocInsert p (cfg.hash (s.key p))) L.queue :=
    ⟨h.family, h.heads, h.tails⟩
  replace hlru := hlru.itemLinkQ hq
  have hflags : ∀ q, q ≠ p → (s.linkStats cfg p).itFlags q = s.itFlags q := fun q e =>
    itFlags_linkStats_of_ne e
  have hcas : ∀ q, ((s.linkStats cfg p).itFlags q).cas = (s.itFlags q).cas :=
    update_field ItFlags.cas (by simp)
  have hslabbed : ∀ q, ((s.linkStats cfg p).itFlags q).slabbed = (s.itFlags q).slabbed :=
    update_field ItFlags.slabbed (by simp)
  have hlinked : ∀ q, (s.linkStats cfg p).Linked q ↔ q = p ∨ s.Linked q :=
    linked_linkStats hchunk
  have huse : ∀ q, (s.linkStats cfg p).InUse g q → s.InUse g q := fun q =>
    inUse_linkStats hu hchunk
  have htotal : (s.setFlags p (s.itFlags p).setLinked).itemNtotal = s.itemNtotal :=
    (itemNtotal_linkStats : (s.linkStats cfg p).itemNtotal = s.itemNtotal)
  have hr := h.refcount p hu
  -- the link takes one reference more, which the 16 bits hold
  have hmod : (s.refcount p + 1) % refcountModulus = s.refcount p + 1 :=
    Nat.mod_eq_of_lt (by omega)
  -- the layout afterwards: the item heads its LRU list and its chain
  refine ⟨⟨Function.update L.queue (.lru (s.slabsClsid p)) (p :: L.queue (.lru (s.slabsClsid p))),
    Function.update L.chain (s.bucketOf (cfg.hash (s.key p)))
      (p :: L.chain (s.bucketOf (cfg.hash (s.key p)))), insert p L.linked⟩, ?_⟩
  exact
    { h with
      toLruLists := ⟨hlru.family, hlru.heads, hlru.tails⟩
      slots := fun id => by simp only [update_lru_free]; exact h.slots id
      slCurr := fun id => by simp only [update_lru_free]; exact h.slCurr id
      chains := h.chains.insert hpc _
      mem_lru := fun q d => by
        refine mem_update_lru (P := fun d => ((s.linkStats cfg p).itFlags q).linked = true ∧
          s.slabsClsid q = d) (fun d hd => ?_) ?_ d
        · by_cases e : q = p
          · subst e; simp [h.not_lru hl d, Ne.symm hd]
          · rw [hflags q e]; exact h.mem_lru q d
        · by_cases e : q = p
          · subst e; simp [itFlags_linkStats_self]
          · rw [hflags q e, ← h.mem_lru q]; simp [e]
      mem_chain := fun q b => by
        refine (h.mem_update_chain (R := (s.linkStats cfg p).Linked) (fun q e => ?_) ?_ (fun q e => ?_)
          q b)
        · simp [hlinked, e]
        · simp [hlinked]
        · simp [e]
      mem_linked := fun q => by
        refine Finset.mem_insert.trans ?_
        rw [h.mem_linked]
        exact (hlinked q).symm
      mem_free := fun q id hm => by
        simp only [update_lru_free] at hm
        have e : q ≠ p := by rintro rfl; exact h.not_free_of_inUse hu id hm
        exact ⟨(h.mem_free q id hm).1, (congrArg _ (hflags q e)).trans (h.mem_free q id hm).2.1,
          (h.mem_free q id hm).2.2⟩
      key_inj := fun q r hq hr hk => by
        rcases (hlinked q).mp hq with e | hq <;> rcases (hlinked r).mp hr with e' | hr
        · rw [e, e']
        · exact absurd (hk.symm.trans (congrArg _ e)) (hkey r hr)
        · exact absurd (hk.trans (congrArg _ e')) (hkey q hq)
        · exact h.key_inj q r hq hr hk
      crawler := fun i hi => by
        have e : Ptr.crawler i ≠ p := by rintro rfl; simp [Ptr.isChunk] at hchunk
        have hi' := (congrArg _ (hflags _ e)).symm.trans hi
        obtain ⟨h₁, h₂, h₃, h₄⟩ := h.crawler i hi'
        exact ⟨(hflags _ e).trans h₁, h₂, (Function.update_of_ne e ..).trans h₃, h₄⟩
      spare := fun q hs => by
        have e : q ≠ p := by rintro rfl; exact h.spare_ne hu hs
        obtain ⟨h₁, h₂, h₃, h₄⟩ := h.spare q hs
        exact ⟨h₁, (congrArg _ (hflags q e)).trans h₂, h₃, fun id => by simpa using h₄ id⟩
      sizes := update_card_insert h.sizes hpl
      hashItems := by
        show s.hashItems + 1 = _
        rw [h.hashItems, Finset.card_insert_of_notMem hpl]
      currItems := by
        show s.currItems + 1 = _
        rw [h.currItems, Finset.card_insert_of_notMem hpl]
      currBytes := by
        show s.currBytes + (s.setFlags p (s.itFlags p).setLinked).itemNtotal p
          = ∑ q ∈ insert p L.linked, (s.linkStats cfg p).itemNtotal q
        rw [itemNtotal_linkStats, htotal, h.currBytes, Finset.sum_insert hpl, Nat.add_comm]
      notSlabbed := fun q hq => (hslabbed q).trans (h.notSlabbed q (huse q hq))
      clsid := fun q hq => h.clsid q (huse q hq)
      refcount := fun q hq => by
        show Function.update s.refcount p ((s.refcount p + 1) % refcountModulus) q
          = (s.linkStats cfg p).refs g q
        rw [refs_linkStats hl, Function.update_apply, hmod, hr]
        split
        · rfl
        · exact h.refcount q (huse q hq)
      refs_lt := fun q hq => by
        show (s.linkStats cfg p).refs g q < refcountModulus
        rw [refs_linkStats hl]
        split
        · exact hlt
        · exact h.refs_lt q (huse q hq)
      two_le_nbytes := fun q hq => h.two_le_nbytes q (huse q hq)
      length_data := fun q hq => h.length_data q (huse q hq)
      casFlag := fun q hq => (hcas q).trans (h.casFlag q (huse q hq))
      page := fun q hq => h.page q (by
        simp only [update_lru_free] at hq
        exact hq.imp_left (huse q))
      crlf := fun q hq => by
        rcases (hlinked q).mp hq with e | hq
        · subst e; exact hcrlf
        · exact h.crlf q hq
      time := fun q hq => by
        show 1 ≤ Function.update s.time p s.currentTime q ∧
          Function.update s.time p s.currentTime q ≤ s.currentTime
        by_cases e : q = p
        · subst e
          have := h.clock
          rw [itemUpdateInterval] at this
          rw [Function.update_self]; omega
        · rw [Function.update_of_ne e]
          exact h.time q (((hlinked q).mp hq).resolve_left e)
      sorted := fun c => by
        show (Function.update L.queue (.lru (s.slabsClsid p)) (p :: L.queue (.lru (s.slabsClsid p)))
          (.lru c)).Pairwise fun q r => q.isChunk = true → r.isChunk = true →
            Function.update s.time p s.currentTime r ≤ Function.update s.time p s.currentTime q
        exact sorted_cons h.sorted (fun d => hq (.lru d)) (fun _ _ hr hc => h.time_le hr hc) _ c }

/-- **`do_item_update`** moves an item to the head of its LRU list. -/
theorem doItemUpdate (h : WellFormed cfg s g L) (hp : s.InUse g p) :
    ∃ L', WellFormed cfg (s.doItemUpdate p) g L' := by
  rw [Store.doItemUpdate]
  split
  swap
  · exact ⟨L, h⟩
  rename_i hif
  have hlk : s.Linked p := ⟨h.isChunk_of_inUse hp, hif.2⟩
  obtain ⟨l₁, l₂, hl⟩ := Family.exists_split ((h.mem_lru_iff hlk _).mpr rfl)
  have hnd := h.family.nodup (.lru (s.slabsClsid p))
  rw [hl] at hnd
  obtain ⟨hnl, -⟩ := List.nodup_cons.mp (List.nodup_middle.mp hnd)
  have hq : ∀ j, p ∉ Function.update L.queue (.lru (s.slabsClsid p)) (l₁ ++ l₂) j := by
    rintro (c | id)
    · by_cases e : c = s.slabsClsid p
      · subst e; simpa using hnl
      · rw [Function.update_of_ne (by simpa using e), h.mem_lru_iff hlk]
        exact Ne.symm e
    · rw [update_lru_free]
      exact h.not_free_of_inUse hp id
  have hlru := h.toLruLists.itemUnlinkQ hl
  replace hlru : LruLists
      { s.itemUnlinkQ p with time := Function.update s.time p s.currentTime } _ :=
    ⟨hlru.family, hlru.heads, hlru.tails⟩
  replace hlru := hlru.itemLinkQ hq
  refine ⟨⟨Function.update (Function.update L.queue (.lru (s.slabsClsid p)) (l₁ ++ l₂))
    (.lru (s.slabsClsid p)) (p :: Function.update L.queue (.lru (s.slabsClsid p)) (l₁ ++ l₂)
      (.lru (s.slabsClsid p))), L.chain, L.linked⟩, ?_⟩
  exact
    { h with
      toLruLists := hlru
      slots := fun id => by simp only [update_lru_free]; exact h.slots id
      slCurr := fun id => by simp only [update_lru_free]; exact h.slCurr id
      mem_lru := fun q d => by
        rw [Function.update_idem, Function.update_self]
        refine mem_update_lru (fun d _ => h.mem_lru q d) ?_ d
        rw [← h.mem_lru q, hl]
        simp [or_left_comm]
      mem_free := fun q id hm => by
        simp only [update_lru_free] at hm
        exact h.mem_free q id hm
      crawler := fun i hi => by
        obtain ⟨h₁, h₂, h₃, h₄⟩ := h.crawler i hi
        have e : Ptr.crawler i ≠ p := by rintro rfl; exact absurd hlk.1 (by simp [Ptr.isChunk])
        exact ⟨h₁, h₂, (Function.update_of_ne e ..).trans h₃, h₄⟩
      spare := fun q hs => by
        simp only [update_lru_free]
        exact h.spare q hs
      sizes := fun c => by
        show Function.update (Function.update s.sizes (s.slabsClsid p)
            (s.sizes (s.slabsClsid p) - 1)) (s.slabsClsid p)
          (Function.update s.sizes (s.slabsClsid p) (s.sizes (s.slabsClsid p) - 1) (s.slabsClsid p)
            + 1) c = (L.linked.filter fun q => s.slabsClsid q = c).card
        rw [Function.update_idem, Function.update_self]
        by_cases e : c = s.slabsClsid p
        · have hpos : 0 < s.sizes (s.slabsClsid p) := by
            rw [h.sizes, Finset.card_pos]
            exact ⟨p, by simp [(h.mem_linked p).mpr hlk]⟩
          subst e
          rw [Function.update_self, Nat.sub_add_cancel hpos]
          exact h.sizes _
        · rw [Function.update_of_ne e]
          exact h.sizes c
      page := fun q hq => h.page q (by
        simp only [update_lru_free] at hq
        exact hq)
      time := fun q hq => by
        show 1 ≤ Function.update s.time p s.currentTime q ∧
          Function.update s.time p s.currentTime q ≤ s.currentTime
        by_cases e : q = p
        · subst e
          have := h.clock
          rw [itemUpdateInterval] at this
          rw [Function.update_self]; omega
        · rw [Function.update_of_ne e]
          exact h.time q hq
      sorted := fun c => by
        refine sorted_cons (sorted_remove h.sorted hl) (fun d => hq (.lru d)) (fun d r hr hc => ?_) _ c
        by_cases e : d = s.slabsClsid p
        · subst e
          rw [Function.update_self] at hr
          refine h.time_le (d := s.slabsClsid p) ?_ hc
          rw [hl]
          rcases List.mem_append.mp hr with hr | hr <;> simp [hr]
        · rw [Function.update_of_ne (by simpa using e)] at hr
          exact h.time_le hr hc }

/-! ## Fields -/

/-- Setting `ITEM_FETCHED`. -/
theorem setFetched (h : WellFormed cfg s g L) (hp : s.InUse g p) :
    WellFormed cfg (s.setFlags p (s.itFlags p).setFetched) g L := by
  have hchunk := h.isChunk_of_inUse hp
  have hlinked : ∀ q, ((s.setFlags p (s.itFlags p).setFetched).itFlags q).linked
      = (s.itFlags q).linked := update_field ItFlags.linked (by simp)
  have hcas : ∀ q, ((s.setFlags p (s.itFlags p).setFetched).itFlags q).cas
      = (s.itFlags q).cas := update_field ItFlags.cas (by simp)
  have hslabbed : ∀ q, ((s.setFlags p (s.itFlags p).setFetched).itFlags q).slabbed
      = (s.itFlags q).slabbed := update_field ItFlags.slabbed (by simp)
  have hl : ∀ q, (s.setFlags p (s.itFlags p).setFetched).Linked q ↔ s.Linked q := fun q => by
    simp only [Store.Linked, hlinked q]
  have huse : ∀ q, (s.setFlags p (s.itFlags p).setFetched).InUse g q → s.InUse g q :=
    fun q hq => hq.imp_left (hl q).mp
  have hrefs : ∀ q, (s.setFlags p (s.itFlags p).setFetched).refs g q = s.refs g q := fun q => by
    simp only [Store.refs, hlinked q]
  have htotal : (s.setFlags p (s.itFlags p).setFetched).itemNtotal = s.itemNtotal := by
    funext q
    simp only [Store.itemNtotal, hcas q]
    rfl
  exact
    { h with
      mem_lru := fun q c => by rw [hlinked q]; exact h.mem_lru q c
      mem_chain := fun q b => (h.mem_chain q b).trans (and_congr_left' (hl q).symm)
      mem_linked := fun q => (h.mem_linked q).trans (hl q).symm
      mem_free := fun q id hm => by rw [hlinked q]; exact h.mem_free q id hm
      key_inj := fun q r hq hr => h.key_inj q r ((hl q).mp hq) ((hl r).mp hr)
      crawler := fun i hi => by
        have e : Ptr.crawler i ≠ p := by rintro rfl; simp [Ptr.isChunk] at hchunk
        have hflag : (s.setFlags p (s.itFlags p).setFetched).itFlags (.crawler i)
            = s.itFlags (.crawler i) := Function.update_of_ne e ..
        rw [hflag] at hi ⊢
        exact h.crawler i hi
      spare := fun q hq => by rw [hlinked q]; exact h.spare q hq
      currBytes := by rw [htotal]; exact h.currBytes
      notSlabbed := fun q hq => (hslabbed q).trans (h.notSlabbed q (huse q hq))
      clsid := fun q hq => h.clsid q (huse q hq)
      refcount := fun q hq => (h.refcount q (huse q hq)).trans (hrefs q).symm
      refs_lt := fun q hq => (hrefs q).trans_lt (h.refs_lt q (huse q hq))
      two_le_nbytes := fun q hq => h.two_le_nbytes q (huse q hq)
      length_data := fun q hq => h.length_data q (huse q hq)
      casFlag := fun q hq => (hcas q).trans (h.casFlag q (huse q hq))
      page := fun q hq => h.page q (hq.imp_left (huse q))
      crlf := fun q hq => h.crlf q ((hl q).mp hq)
      time := fun q hq => h.time q ((hl q).mp hq) }

/-- Writing a value of the right length, which ends with CRLF if the item is linked. -/
theorem setData (h : WellFormed cfg s g L) {d : Bytes} (hd : d.length = s.nbytes p)
    (hcrlf : s.Linked p → ∃ v, d = v ++ Memcached.crlf) : WellFormed cfg (s.setData p d) g L :=
  { h with
    length_data := fun q hq => by
      by_cases e : q = p
      · subst e; simpa [Store.setData] using hd
      · simpa [Store.setData, Function.update_of_ne e] using h.length_data q hq
    crlf := fun q hq => by
      by_cases e : q = p
      · subst e; simpa [Store.setData] using hcrlf hq
      · simpa [Store.setData, Function.update_of_ne e] using h.crlf q hq }

end WellFormed

end Memcached
