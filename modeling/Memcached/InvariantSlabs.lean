import Memcached.InvariantItems

/-! # Allocation keeps the invariant

Chunks on their way from a free list, a new page or an evicted item to a new item: the one chunk
`do_item_alloc` has in hand is the `spare` of the auxiliary state.

* **`Inv.doSlabsAlloc`** — a chunk is handed out. -/

namespace Memcached

open DoublyLinked (Family setAt)
open SinglyLinked (Chains)
open CNumber (Bytes)

variable {cfg : Settings} {s s' : Store} {g : Ghost} {L : Layout} {p : Ptr}

namespace WellFormed

/-! ## The chunk in hand -/

/-- The last reference to an unlinked item is dropped, and its chunk kept in hand. -/
theorem discard (h : WellFormed cfg s g L) (hp : g.handles p = 1)
    (hl : (s.itFlags p).linked = false) (r c : ℕ) :
    WellFormed cfg
      { s with
        refcount := Function.update s.refcount p r
        slabsClsid := Function.update s.slabsClsid p c } ((g.drop p).withSpare (some p)) L := by
  have hu : s.InUse g p := Or.inr (by omega)
  have h' := h.release hp hl r c
  exact
    { h' with
      spare := by
        rintro q ⟨⟩
        exact ⟨h.isChunk_of_inUse hu, hl, by simp [Ghost.withSpare, hp], h.not_free_of_inUse hu⟩
      page := by
        rintro q (hq | hq | ⟨⟨⟩⟩)
        · exact h'.page q (Or.inl hq)
        · exact h'.page q (Or.inr (Or.inl hq))
        · exact h.page p (Or.inl hu) }

/-- Taking the first chunk off a free list. -/
theorem popFree (h : WellFormed cfg s g L) {id : ℕ} {l : List Ptr}
    (hq : L.queue (.free id) = p :: l) (size : ℕ) :
    WellFormed cfg (s.popFree p size id) (g.withSpare (some p))
      { L with queue := Function.update L.queue (.free id) l } := by
  have hm : p ∈ L.queue (.free id) := by simp [hq]
  have hq' : L.queue (.free id) = [] ++ p :: l := hq
  have hfam := h.family.remove hq'
  obtain ⟨hprev, hnext⟩ := h.family.neighbours hq'
  rw [hprev] at hfam
  obtain ⟨hc, hl, h0⟩ := h.mem_free p id hm
  have hnd := h.family.nodup (.free id)
  rw [hq, List.nodup_cons] at hnd
  have hsub : ∀ q id', q ∈ Function.update L.queue (.free id) l (.free id') →
      q ∈ L.queue (.free id') := by
    intro q id' hq'
    by_cases e : id' = id
    · subst e; rw [hq]; exact List.mem_cons_of_mem _ (by simpa using hq')
    · simpa [Function.update_of_ne, e] using hq'
  have hslab : ∀ id', (Function.update s.slabclass id
      ((s.slabclass id).pop (s.next p) size) id').slabList = (s.slabclass id').slabList :=
    update_field SlabClass.slabList (by simp)
  have hpage : ∀ q, (s.popFree p size id).InPage cfg q ↔ s.InPage cfg q := fun q => by
    simp only [Store.InPage, Store.popFree, hslab]
  exact
    { h with
      family := hfam
      heads := fun c => by simp only [update_free_lru]; exact h.heads c
      tails := fun c => by simp only [update_free_lru]; exact h.tails c
      slots := fun id' => by
        by_cases e : id' = id
        · subst e; simp [Store.popFree, hnext]
        · simp [Store.popFree, Function.update_of_ne, e, h.slots id']
      slCurr := fun id' => by
        by_cases e : id' = id
        · subst e; simp [Store.popFree, h.slCurr, hq]
        · simp [Store.popFree, Function.update_of_ne, e, h.slCurr id']
      mem_lru := fun q c => by simp only [update_free_lru]; exact h.mem_lru q c
      mem_free := fun q id' hq' => h.mem_free q id' (hsub q id' hq')
      spare := by
        rintro q ⟨⟩
        refine ⟨hc, hl, h0, fun id' hq' => ?_⟩
        by_cases e : id' = id
        · subst e; exact hnd.1 (by simpa using hq')
        · have := h.family.disjoint _ _ p (hsub p id' hq') hm
          exact e (by simpa using this)
      page := by
        intro q hq'
        rw [hpage]
        rcases hq' with hq' | ⟨id', hq'⟩ | ⟨⟨⟩⟩
        · exact h.page q (Or.inl hq')
        · exact h.page q (Or.inr (Or.inl ⟨id', hsub q id' hq'⟩))
        · exact h.page p (Or.inr (Or.inl ⟨id, hm⟩))
      sorted := fun c => by simp only [update_free_lru]; exact h.sorted c }

/-! ## New items -/

/-- A cut or filled value has its length. -/
theorem length_fitBytes (n : ℕ) (mem : Bytes) : (fitBytes n mem).length = n := by
  rw [fitBytes, List.length_append, List.length_take, List.length_replicate]
  omega

/-- The end of `do_item_alloc`: the chunk in hand becomes an item with one reference. -/
theorem initItem (h : WellFormed cfg s g L) (hs : g.spare = some p) {id : ℕ}
    (hid : 1 ≤ id ∧ id ≤ cfg.powerLargest) (key : Bytes) (flags : ℤ) (exptime : ℕ) {nbytes : ℕ}
    (hn : 2 ≤ nbytes) :
    WellFormed cfg (s.initItem cfg p id key flags exptime nbytes)
      ((g.withSpare none).hold p) L := by
  obtain ⟨hc, hl, h0, hfree⟩ := h.spare p hs
  have hnot : ∀ j, p ∉ L.queue j := by
    rintro (c | id)
    · exact h.not_lru hl c
    · exact hfree id
  have hnl : ¬ s.Linked p := fun e => absurd e.2 (by simp [hl])
  have hpl : p ∉ L.linked := fun e => hnl ((h.mem_linked p).mp e)
  have hpc : ∀ b, p ∉ L.chain b := fun b e => hnl ((h.mem_chain p b).mp e).1
  have hne : ∀ {q}, q ∈ L.linked → q ≠ p := fun hq e => hpl (e ▸ hq)
  set s' := s.initItem cfg p id key flags exptime nbytes with hs'
  have hself : (s'.itFlags p) = { cas := cfg.useCas } := Function.update_self ..
  have hflags : ∀ q, q ≠ p → s'.itFlags q = s.itFlags q := fun q e => Function.update_of_ne e ..
  have hkey : ∀ q, q ≠ p → s'.key q = s.key q := fun q e => Function.update_of_ne e ..
  have hlinked : ∀ q, s'.Linked q ↔ s.Linked q := by
    intro q
    by_cases e : q = p
    · subst e; simp [Store.Linked, hself, hl]
    · simp [Store.Linked, hflags q e]
  have hclsid : ∀ q, q ≠ p → s'.slabsClsid q = s.slabsClsid q := fun q e =>
    Function.update_of_ne e ..
  have huse : ∀ q, q ≠ p → s'.InUse ((g.withSpare none).hold p) q → s.InUse g q := by
    intro q e hq
    rw [Store.InUse, Ghost.handles_hold_of_ne _ e] at hq
    exact hq.imp_left (hlinked q).mp
  have hrefs : ∀ q, q ≠ p → s'.refs ((g.withSpare none).hold p) q = s.refs g q := by
    intro q e
    rw [Store.refs, Ghost.handles_hold_of_ne _ e, hflags q e]
    rfl
  have hrefs' : s'.refs ((g.withSpare none).hold p) p = 1 := by
    simp [Store.refs, hself, Ghost.withSpare, h0]
  exact
    { h with
      family := h.family.congr
        (fun i x hx => Function.update_of_ne (fun e : x = p => hnot i (e ▸ hx)) ..)
        (fun i x hx => Function.update_of_ne (fun e : x = p => hnot i (e ▸ hx)) ..)
      chains := h.chains.congr
        (fun i x hx => Function.update_of_ne (fun e : x = p => hpc i (e ▸ hx)) ..)
      mem_lru := fun q c => by
        by_cases e : q = p
        · subst e; simp [hself, hnot]
        · rw [hflags q e, hclsid q e]; exact h.mem_lru q c
      mem_chain := fun q b => by
        by_cases e : q = p
        · subst e
          have : ¬ s'.Linked q := fun hq => hnl ((hlinked q).mp hq)
          simp [hpc, this]
        · rw [hlinked q, hkey q e]; exact h.mem_chain q b
      mem_linked := fun q => (h.mem_linked q).trans (hlinked q).symm
      mem_free := fun q id' hq => by
        have e : q ≠ p := fun e => hfree id' (e ▸ hq)
        rw [hflags q e, Ghost.handles_hold_of_ne _ e]
        exact h.mem_free q id' hq
      key_inj := fun q r hq hr hk => by
        have hq' := (hlinked q).mp hq
        have hr' := (hlinked r).mp hr
        refine h.key_inj q r hq' hr' ?_
        rwa [hkey q (fun e => hnl (e ▸ hq')), hkey r (fun e => hnl (e ▸ hr'))] at hk
      crawler := fun i hi => by
        have e : Ptr.crawler i ≠ p := by rintro rfl; simp [Ptr.isChunk] at hc
        rw [hflags _ e] at hi ⊢
        rw [hclsid _ e, hkey _ e]
        obtain ⟨h₁, h₂, h₃, h₄, h₅⟩ := h.crawler i hi
        exact ⟨h₁, h₂, h₃, (Function.update_of_ne e ..).trans h₄, h₅⟩
      isChunk_of_handles := fun q hq => by
        by_cases e : q = p
        · exact e ▸ hc
        · rw [Ghost.handles_hold_of_ne _ e] at hq
          exact h.isChunk_of_handles q hq
      spare := fun q hq => by simp [Ghost.withSpare, Ghost.hold] at hq
      sizes := fun c => by
        rw [← Finset.filter_congr fun q hq => by rw [hclsid q (hne hq)]]
        exact h.sizes c
      currBytes := by
        refine h.currBytes.trans (Finset.sum_congr rfl fun q hq => ?_)
        have e := hne hq
        simp only [Store.itemNtotal, Store.nkey, Store.nsuffix, hflags q e, hkey q e]
        simp [hs', Store.initItem, Function.update_of_ne e]
      notSlabbed := fun q hq => by
        by_cases e : q = p
        · subst e; rw [hself]
        · rw [hflags q e]; exact h.notSlabbed q (huse q e hq)
      clsid := fun q hq => by
        by_cases e : q = p
        · subst e; simpa [hs', Store.initItem] using hid
        · rw [hclsid q e]; exact h.clsid q (huse q e hq)
      refcount := fun q hq => by
        by_cases e : q = p
        · subst e; rw [hrefs']; simp [hs', Store.initItem]
        · rw [hrefs q e, ← h.refcount q (huse q e hq)]
          exact Function.update_of_ne e ..
      refs_lt := fun q hq => by
        by_cases e : q = p
        · subst e; rw [hrefs']; decide
        · rw [hrefs q e]; exact h.refs_lt q (huse q e hq)
      two_le_nbytes := fun q hq => by
        by_cases e : q = p
        · subst e; simpa [hs', Store.initItem] using hn
        · simpa [hs', Store.initItem, Function.update_of_ne e]
            using h.two_le_nbytes q (huse q e hq)
      length_data := fun q hq => by
        by_cases e : q = p
        · subst e; simp [hs', Store.initItem, length_fitBytes]
        · simpa [hs', Store.initItem, Function.update_of_ne e] using h.length_data q (huse q e hq)
      casFlag := fun q hq => by
        by_cases e : q = p
        · subst e; rw [hself]
        · rw [hflags q e]; exact h.casFlag q (huse q e hq)
      page := fun q hq => by
        by_cases e : q = p
        · subst e; exact h.page q (Or.inr (Or.inr hs))
        · rcases hq with hq | hq | hq
          · exact h.page q (Or.inl (huse q e hq))
          · exact h.page q (Or.inr (Or.inl hq))
          · simp [Ghost.withSpare, Ghost.hold] at hq
      crlf := fun q hq => by
        have hq' := (hlinked q).mp hq
        have e : q ≠ p := fun e => hnl (e ▸ hq')
        simpa [hs', Store.initItem, Function.update_of_ne e] using h.crlf q hq'
      time := fun q hq => h.time q ((hlinked q).mp hq) }

end WellFormed

/-! ## New pages -/

/-- A page of class `id` at `ptr` is memory that no slab class has: what `memory_allocate`
returns. -/
def Store.FreshPage (cfg : Settings) (s : Store) (id ptr : ℕ) : Prop :=
  ∀ id', ∀ base ∈ (s.slabclass id').slabList,
    ptr + cfg.pageLen id ≤ base ∨ base + cfg.pageLen id' ≤ ptr

/-- A fresh page holds none of the chunks the server has. -/
theorem Store.FreshPage.not_inPage {id ptr : ℕ} (hf : s.FreshPage cfg id ptr)
    (hp : p.inRange ptr (cfg.pageLen id) = true) : ¬ s.InPage cfg p := by
  rintro ⟨id', base, hb, hr⟩
  cases p with
  | crawler i => simp [Ptr.inRange] at hp
  | chunk a =>
      simp only [Ptr.inRange, Bool.and_eq_true, decide_eq_true_eq] at hp hr
      rcases hf id' base hb with h | h <;> omega

/-- What lies in a page is a chunk. -/
theorem Ptr.isChunk_of_inRange {ptr len : ℕ} (hp : p.inRange ptr len = true) :
    p.isChunk = true := by
  cases p with
  | crawler i => simp [Ptr.inRange] at hp
  | chunk a => rfl

/-- A chunk that belongs to nobody. -/
structure Store.Unclaimed (cfg : Settings) (s : Store) (g : Ghost) (L : Layout) (p : Ptr) :
    Prop where
  isChunk : p.isChunk = true
  not_linked : (s.itFlags p).linked = false
  handles : g.handles p = 0
  not_free : ∀ id, p ∉ L.queue (.free id)
  not_spare : g.spare ≠ some p
  inPage : s.InPage cfg p

namespace WellFormed

/-- Clearing a fresh page and entering it into `slab_list`. -/
theorem enterPage (h : WellFormed cfg s g L) {id ptr : ℕ} (hf : s.FreshPage cfg id ptr) :
    WellFormed cfg ((s.clearPage ptr (cfg.pageLen id)).enterSlab id ptr) g L := by
  set s' := (s.clearPage ptr (cfg.pageLen id)).enterSlab id ptr with hs'
  have hout : ∀ q, s.InUse g q ∨ (∃ id, q ∈ L.queue (.free id)) ∨ g.spare = some q →
      q.inRange ptr (cfg.pageLen id) = false := by
    intro q hq
    by_contra hr
    exact hf.not_inPage (by simpa using hr) (h.page q hq)
  have hin : ∀ q, q.inRange ptr (cfg.pageLen id) = true → (s.itFlags q).linked = false := by
    intro q hr
    by_contra hl
    have := hout q (Or.inl (Or.inl ⟨Ptr.isChunk_of_inRange hr, by simpa using hl⟩))
    simp [hr] at this
  have hflag : ∀ q, (s'.itFlags q).linked = (s.itFlags q).linked := by
    intro q
    show (if q.inRange ptr (cfg.pageLen id) then ({} : ItFlags) else s.itFlags q).linked = _
    split
    · rename_i hr; exact (hin q hr).symm
    · rfl
  have hlinked : ∀ q, s'.Linked q ↔ s.Linked q := fun q => by simp only [Store.Linked, hflag q]
  have huse : ∀ q, s'.InUse g q → s.InUse g q := fun q hq => hq.imp_left (hlinked q).mp
  have hsame : ∀ {α : Type} (f : Ptr → α) (v : α) (q : Ptr),
      (s.InUse g q ∨ (∃ id, q ∈ L.queue (.free id)) ∨ g.spare = some q) →
      (if q.inRange ptr (cfg.pageLen id) then v else f q) = f q := fun f v q hq => by
    rw [hout q hq]; rfl
  have huser : ∀ {q}, s.Linked q → s.InUse g q ∨ (∃ id, q ∈ L.queue (.free id)) ∨ g.spare = some q :=
    fun hq => Or.inl (Or.inl hq)
  have hqueue : ∀ j, ∀ q ∈ L.queue j, q.inRange ptr (cfg.pageLen id) = false := by
    rintro (c | id') q hq
    · cases q with
      | crawler i => rfl
      | chunk a => exact hout _ (huser ⟨rfl, ((h.mem_lru _ c).mp hq).1⟩)
    · exact hout q (Or.inr (Or.inl ⟨id', hq⟩))
  have hclass : ∀ id', (s'.slabclass id').slots = (s.slabclass id').slots ∧
      (s'.slabclass id').slCurr = (s.slabclass id').slCurr := fun id' =>
    ⟨update_field SlabClass.slots (by simp [Store.clearPage]) id',
      update_field SlabClass.slCurr (by simp [Store.clearPage]) id'⟩
  have hcrawler : ∀ {α : Type} (f : Ptr → α) (v : α) (i : ℕ),
      (if (Ptr.crawler i).inRange ptr (cfg.pageLen id) then v else f (.crawler i))
        = f (.crawler i) := fun f v i => by simp [Ptr.inRange]
  exact
    { h with
      family := h.family.congr (fun i x hx => by simp [hs', Store.enterSlab, Store.setSlabclass, Store.clearPage, hqueue i x hx])
        (fun i x hx => by simp [hs', Store.enterSlab, Store.setSlabclass, Store.clearPage, hqueue i x hx])
      slots := fun id' => (hclass id').1.trans (h.slots id')
      slCurr := fun id' => (hclass id').2.trans (h.slCurr id')
      chains := h.chains.congr fun i x hx => hsame s.hNext none x (huser ((h.mem_chain x i).mp hx).1)
      mem_lru := fun q c => by
        rw [hflag q, h.mem_lru q c]
        refine and_congr_right fun hl => ?_
        cases q with
        | crawler i => exact (Eq.congr (hcrawler s.slabsClsid 0 i) rfl).symm
        | chunk a => exact (Eq.congr (hsame s.slabsClsid 0 _ (huser ⟨rfl, hl⟩)) rfl).symm
      mem_chain := fun q b => by
        rw [hlinked q, h.mem_chain q b]
        refine and_congr_right fun hl => ?_
        rw [show s'.key q = s.key q from hsame s.key [] q (huser hl)]
        rfl
      mem_linked := fun q => (h.mem_linked q).trans (hlinked q).symm
      mem_free := fun q id' hq => by rw [hflag q]; exact h.mem_free q id' hq
      key_inj := fun q r hq hr hk => by
        have hq' := (hlinked q).mp hq
        have hr' := (hlinked r).mp hr
        refine h.key_inj q r hq' hr' ?_
        exact (hsame s.key [] q (huser hq')).symm.trans (hk.trans (hsame s.key [] r (huser hr')))
      crawler := fun i hi => by
        have hf := hcrawler s.itFlags {} i
        obtain ⟨h₁, h₂, h₃, h₄, h₅⟩ := h.crawler i ((hflag _).symm.trans hi)
        exact ⟨hf.trans h₁, (hcrawler s.slabsClsid 0 i).trans h₂, (hcrawler s.time 0 i).trans h₃,
          (hcrawler s.nbytes 0 i).trans h₄, (hcrawler s.key [] i).trans h₅⟩
      spare := fun q hq => by rw [hflag q]; exact h.spare q hq
      sizes := fun c => (h.sizes c).trans (congrArg _ (Finset.filter_congr fun q hq => by
        rw [show s'.slabsClsid q = s.slabsClsid q from
          hsame s.slabsClsid 0 q (huser ((h.mem_linked q).mp hq))]))
      currBytes := h.currBytes.trans (Finset.sum_congr rfl fun q hq => by
        have hr := hout q (huser ((h.mem_linked q).mp hq))
        simp [Store.itemNtotal, Store.nkey, Store.nsuffix, hs', Store.enterSlab,
          Store.setSlabclass, Store.clearPage, hr])
      notSlabbed := fun q hq => by
        rw [show s'.itFlags q = s.itFlags q from hsame s.itFlags {} q (Or.inl (huse q hq))]
        exact h.notSlabbed q (huse q hq)
      clsid := fun q hq => by
        rw [show s'.slabsClsid q = s.slabsClsid q from hsame s.slabsClsid 0 q (Or.inl (huse q hq))]
        exact h.clsid q (huse q hq)
      refcount := fun q hq => by
        rw [show s'.refcount q = s.refcount q from hsame s.refcount 0 q (Or.inl (huse q hq)),
          Store.refs, hflag q]
        exact h.refcount q (huse q hq)
      refs_lt := fun q hq => by
        rw [Store.refs, hflag q]
        exact h.refs_lt q (huse q hq)
      two_le_nbytes := fun q hq => by
        rw [show s'.nbytes q = s.nbytes q from hsame s.nbytes 0 q (Or.inl (huse q hq))]
        exact h.two_le_nbytes q (huse q hq)
      length_data := fun q hq => by
        rw [show s'.nbytes q = s.nbytes q from hsame s.nbytes 0 q (Or.inl (huse q hq)),
          show s'.data q = s.data q from hsame s.data [] q (Or.inl (huse q hq))]
        exact h.length_data q (huse q hq)
      casFlag := fun q hq => by
        rw [show s'.itFlags q = s.itFlags q from hsame s.itFlags {} q (Or.inl (huse q hq))]
        exact h.casFlag q (huse q hq)
      page := fun q hq => by
        obtain ⟨id', base, hb, hr⟩ := h.page q (hq.imp_left (huse q))
        refine ⟨id', base, ?_, hr⟩
        by_cases e : id' = id
        · subst e
          simp [hs', Store.enterSlab, Store.setSlabclass, Store.clearPage, hb]
        · simpa [hs', Store.enterSlab, Store.setSlabclass, Store.clearPage,
            Function.update_of_ne e] using hb
      crlf := fun q hq => by
        have hq := (hlinked q).mp hq
        rw [show s'.data q = s.data q from hsame s.data [] q (huser hq)]
        exact h.crlf q hq
      time := fun q hq => by
        have hq := (hlinked q).mp hq
        rw [show s'.time q = s.time q from hsame s.time 0 q (huser hq)]
        exact h.time q hq
      sorted := fun c => (h.sorted c).imp_of_mem fun {q r} hq hr hqr => by
        have hq' := hqueue _ q hq
        have hr' := hqueue _ r hr
        rw [show s'.time q = s.time q by simp [hs', Store.enterSlab, Store.setSlabclass, Store.clearPage, hq'],
          show s'.time r = s.time r by simp [hs', Store.enterSlab, Store.setSlabclass, Store.clearPage, hr']]
        exact hqr }

/-- `split_slab_page_into_freelist`, on `n` chunks nobody has. -/
theorem splitPage (h : WellFormed cfg s g L) {id : ℕ} (hid : 1 ≤ id ∧ id ≤ cfg.powerLargest)
    (n ptr : ℕ)
    (hfree : ∀ k < n, s.Unclaimed cfg g L (.chunk (ptr + k * cfg.slabSize id))) :
    ∃ L', WellFormed cfg (Store.splitSlabPageIntoFreelist cfg id n ptr s) g L' := by
  -- by induction on the chunks: freeing one leaves the others unclaimed
  induction n generalizing s L ptr with
  | zero => exact ⟨L, h⟩
  | succ n ih =>
      have h0 : s.Unclaimed cfg g L (.chunk ptr) := by simpa using hfree 0 (by omega)
      have hstep := h.doSlabsFree h0.isChunk h0.not_linked h0.handles h0.not_free h0.not_spare
        h0.inPage hid 0
      refine ih hstep _ fun k hk => ?_
      have hk1 : s.Unclaimed cfg g L (.chunk (ptr + cfg.slabSize id + k * cfg.slabSize id)) := by
        have := hfree (k + 1) (by omega)
        rwa [show ptr + (k + 1) * cfg.slabSize id
          = ptr + cfg.slabSize id + k * cfg.slabSize id by ring] at this
      have hpos := cfg.slabSize_pos id
      have hne : Ptr.chunk (ptr + cfg.slabSize id + k * cfg.slabSize id) ≠ .chunk ptr := by
        intro e
        rw [Ptr.chunk.injEq] at e
        omega
      refine ⟨rfl, ?_, hk1.handles, fun id' => ?_, hk1.not_spare, ?_⟩
      · rw [Store.doSlabsFree, if_neg (by omega)]
        exact (update_field ItFlags.linked (by simp) _).trans hk1.not_linked
      · have := hk1.not_free id'
        by_cases e : id' = id
        · subst e; simpa [hne] using this
        · simpa [Function.update_of_ne, e] using this
      · obtain ⟨id', base, hb, hr⟩ := hk1.inPage
        refine ⟨id', base, ?_, hr⟩
        rw [Store.doSlabsFree, if_neg (by omega)]
        rw [show (Function.update s.slabclass id _ id').slabList = (s.slabclass id').slabList from
          update_field SlabClass.slabList (by simp) id']
        exact hb

end WellFormed

/-- A page may be entered into `slab_list` before its chunks are freed. -/
theorem Store.splitSlabPageIntoFreelist_enterSlab (id base n ptr : ℕ) (s : Store) :
    Store.splitSlabPageIntoFreelist cfg id n ptr (s.enterSlab id base) =
      (Store.splitSlabPageIntoFreelist cfg id n ptr s).enterSlab id base := by
  induction n generalizing ptr s with
  | zero => rfl
  | succ n ih =>
      rw [splitSlabPageIntoFreelist, splitSlabPageIntoFreelist, ← ih]
      congr 1
      simp only [doSlabsFree]
      split
      · rfl
      · simp [enterSlab, setSlabclass, Function.update_idem, SlabClass.push, SlabClass.addSlab]

/-- The chunks of a page lie in it. -/
theorem inRange_of_lt_perslab {id k : ℕ} (base : ℕ) (hk : k < cfg.perslab id) :
    (Ptr.chunk (base + k * cfg.slabSize id)).inRange base (cfg.pageLen id) = true := by
  have hfit := cfg.perslab_fits id
  have hpos := cfg.slabSize_pos id
  have hlt : (k + 1) * cfg.slabSize id ≤ cfg.perslab id * cfg.slabSize id :=
    Nat.mul_le_mul_right _ hk
  have hlen : cfg.perslab id * cfg.slabSize id ≤ cfg.pageLen id := by
    rw [Settings.pageLen]
    split
    · rwa [Nat.mul_comm]
    · rw [Nat.mul_comm]
  have : k * cfg.slabSize id < cfg.pageLen id := by
    have : (k + 1) * cfg.slabSize id = k * cfg.slabSize id + cfg.slabSize id := by ring
    omega
  simp only [Ptr.inRange, Bool.and_eq_true, decide_eq_true_eq]
  omega

namespace WellFormed

/-- A new page. -/
theorem addPage (h : WellFormed cfg s g L) {id ptr : ℕ} (hid : 1 ≤ id ∧ id ≤ cfg.powerLargest)
    (hf : s.FreshPage cfg id ptr) : ∃ L', WellFormed cfg (s.addPage cfg id ptr) g L' := by
  have h₁ := h.enterPage hf
  obtain ⟨L', h₂⟩ := h₁.splitPage hid (cfg.perslab id) ptr fun k hk => by
    have hr := inRange_of_lt_perslab ptr hk
    have hno := hf.not_inPage hr
    have hl : ((s.clearPage ptr (cfg.pageLen id)).itFlags
        (.chunk (ptr + k * cfg.slabSize id))).linked = false := by
      simp [Store.clearPage, hr]
    refine ⟨rfl, hl, ?_, fun id' hq => hno (h.page _ (Or.inr (Or.inl ⟨id', hq⟩))),
      fun e => hno (h.page _ (Or.inr (Or.inr e))), id, ptr, ?_, hr⟩
    · by_contra h0
      exact hno (h.page _ (Or.inl (Or.inr (Nat.pos_of_ne_zero h0))))
    · simp [Store.enterSlab, Store.setSlabclass]
  rw [Store.splitSlabPageIntoFreelist_enterSlab] at h₂
  exact ⟨L', { h₂ with }⟩

end WellFormed

/-! ## do_slabs_alloc -/

/-- `memory_allocate` returns memory the server does not have yet. -/
def AllocEnv.Fresh (cfg : Settings) (s : Store) (id : ℕ) (env : AllocEnv) : Prop :=
  ∀ ptr, env.page = some ptr → s.FreshPage cfg id ptr

/-- `grow_slab_list` changes the room in `slab_list` only. -/
theorem growSlabList_core (s : Store) (id : ℕ) (ok : Bool) :
    (s.growSlabList id ok).1.core = s.core := by
  rw [Store.growSlabList]
  split
  · split
    · simp only [Store.core, Store.setSlabclass]
      congr 1
      funext id'
      by_cases e : id' = id
      · subst e; simp
      · simp [Function.update_of_ne e]
    · rfl
  · rfl

/-- Whether a page is fresh depends on the pages only. -/
theorem Store.FreshPage.congr {id ptr : ℕ} (hf : s.FreshPage cfg id ptr)
    (e : ∀ id', (s'.slabclass id').slabList = (s.slabclass id').slabList) :
    s'.FreshPage cfg id ptr := fun id' base hb => hf id' base (e id' ▸ hb)

/-- `do_slabs_newslab` keeps the invariant. -/
theorem Inv.doSlabsNewslab (h : Inv cfg s g) {id : ℕ} (hid : 1 ≤ id ∧ id ≤ cfg.powerLargest)
    {env : AllocEnv} (hf : env.Fresh cfg s id) : Inv cfg (s.doSlabsNewslab cfg id env).1 g := by
  rw [Store.doSlabsNewslab]
  split
  · exact h
  have hcore := growSlabList_core s id env.reallocOk
  have hgrow : Inv cfg (s.growSlabList id env.reallocOk).1 g := h.congr (Store.shape_of_core hcore)
  have hslab : ∀ id', ((s.growSlabList id env.reallocOk).1.slabclass id').slabList
      = (s.slabclass id').slabList := fun id' => by
    have := congrArg (fun t : Store => (t.slabclass id').slabList) hcore
    exact this
  revert hgrow hslab
  rcases s.growSlabList id env.reallocOk with ⟨t, ok⟩
  intro hgrow hslab
  cases ok with
  | false => exact hgrow
  | true =>
      cases hpage : env.page with
      | none => exact hgrow
      | some ptr =>
          obtain ⟨L, hwf⟩ := hgrow
          exact hwf.addPage hid ((hf ptr hpage).congr hslab)

/-- **`do_slabs_alloc`** leaves the chunk it returns in hand. -/
theorem Inv.doSlabsAlloc (h : Inv cfg s g) {size id : ℕ} {env : AllocEnv}
    (hf : env.Fresh cfg s id) {o : Option Ptr} (e : s.doSlabsAlloc cfg size id env = (s', o)) :
    Inv cfg s' (match o with | some p => g.withSpare (some p) | none => g) := by
  rw [Store.doSlabsAlloc] at e
  split at e
  · obtain ⟨rfl, rfl⟩ := Prod.mk.inj e
    exact h
  rename_i hid
  have hnew : Inv cfg (if (s.slabclass id).slCurr ≠ 0 then (s, true)
      else s.doSlabsNewslab cfg id env).1 g := by
    split
    · exact h
    · exact h.doSlabsNewslab (by omega) hf
  revert hnew e
  rcases (if (s.slabclass id).slCurr ≠ 0 then (s, true) else s.doSlabsNewslab cfg id env) with ⟨t, ok⟩
  intro e hnew
  simp only at e hnew
  split at e
  · obtain ⟨rfl, rfl⟩ := Prod.mk.inj e
    exact hnew
  split at e
  · split at e
    · rename_i it hslots
      obtain ⟨rfl, rfl⟩ := Prod.mk.inj e
      obtain ⟨L, hwf⟩ := hnew
      have hhead : (L.queue (.free id)).head? = some it := (hwf.slots id).symm.trans hslots
      obtain ⟨l, hl⟩ := List.head?_eq_some_iff.mp hhead
      exact ⟨_, hwf.popFree hl size⟩
    · obtain ⟨rfl, rfl⟩ := Prod.mk.inj e
      exact hnew
  · obtain ⟨rfl, rfl⟩ := Prod.mk.inj e
    exact hnew

end Memcached
