import Memcached.System

/-! # The invariant of the server

The store invariant, with the references of all connections, holds in every state that steps which
go well lead to; and what such a step does to items is bounded by the keys it is about.

* **`World.Ok`** — the invariant, with the references of all connections.
* **`effect`** — what a step does to the items.
* **`ok_of_run`** — the invariant holds after every safe run. -/

namespace Memcached

open CNumber (Bytes)

variable {n : ℕ} {cfg : Settings} {w w' : World n} {s s' : Store} {g g' : Ghost} {p q : Ptr}

/-! ## References of connections -/

namespace World

/-- Between two steps no chunk is spare. -/
@[simp] theorem spare_ghost (w : World n) : w.ghost.spare = none := rfl

/-- Another store has the references of the connections. -/
@[simp] theorem ghost_putStore (w : World n) (s : Store) : (w.putStore s).ghost = w.ghost := rfl

/-- The store that is put. -/
@[simp] theorem store_putStore (w : World n) (s : Store) : (w.putStore s).store = s := rfl

/-- Another store leaves the connections. -/
@[simp] theorem conns_putStore (w : World n) (s : Store) : (w.putStore s).conns = w.conns := rfl

/-- The store that is put. -/
@[simp] theorem store_put (w : World n) (i : Fin n) (s : Store) (c : Conn) :
    (w.put i s c).store = s := rfl

/-- The connection that is put. -/
@[simp] theorem conns_put_self (w : World n) (i : Fin n) (s : Store) (c : Conn) :
    (w.put i s c).conns i = c := Function.update_self ..

/-- The other connections stay. -/
theorem conns_put_of_ne (w : World n) {i j : Fin n} (h : j ≠ i) (s : Store) (c : Conn) :
    (w.put i s c).conns j = w.conns j := Function.update_of_ne h ..

/-- Changing the references of one connection. -/
theorem handles_put (w : World n) (i : Fin n) (s : Store) (c : Conn) (q : Ptr) :
    (w.put i s c).ghost.handles q + (w.conns i).refs.count q
      = w.ghost.handles q + c.refs.count q := by
  have h₁ := Finset.add_sum_erase Finset.univ (fun j => ((w.put i s c).conns j).refs.count q)
    (Finset.mem_univ i)
  have h₂ := Finset.add_sum_erase Finset.univ (fun j => (w.conns j).refs.count q)
    (Finset.mem_univ i)
  have he : ∑ j ∈ Finset.univ.erase i, ((w.put i s c).conns j).refs.count q
      = ∑ j ∈ Finset.univ.erase i, (w.conns j).refs.count q :=
    Finset.sum_congr rfl fun j hj => congrArg (fun c : Conn => c.refs.count q)
      (Function.update_of_ne (Finset.ne_of_mem_erase hj) ..)
  have hi : ((w.put i s c).conns i).refs.count q = c.refs.count q :=
    congrArg (fun c : Conn => c.refs.count q) (Function.update_self ..)
  simp only [ghost]
  omega

/-- A reference of one connection is one of all. -/
theorem count_le_handles (w : World n) (i : Fin n) (q : Ptr) :
    (w.conns i).refs.count q ≤ w.ghost.handles q :=
  Finset.single_le_sum (f := fun j => (w.conns j).refs.count q) (fun _ _ => Nat.zero_le _)
    (Finset.mem_univ i)

/-- The references of two connections are among all. -/
theorem count_add_count_le (w : World n) {i j : Fin n} (hij : i ≠ j) (q : Ptr) :
    (w.conns i).refs.count q + (w.conns j).refs.count q ≤ w.ghost.handles q := by
  have h := Finset.sum_le_sum_of_subset (f := fun j => (w.conns j).refs.count q)
    (Finset.subset_univ ({i, j} : Finset (Fin n)))
  rwa [Finset.sum_pair hij] at h

/-- What a connection refers to has a reference. -/
theorem handles_pos {i : Fin n} (h : p ∈ (w.conns i).refs) : 0 < w.ghost.handles p :=
  lt_of_lt_of_le (List.count_pos_iff.mpr h) (w.count_le_handles i p)

/-- The connection takes a reference. -/
theorem ghost_put_hold (i : Fin n) (s : Store) {c : Conn}
    (h : c.refs.Perm (p :: (w.conns i).refs)) : (w.put i s c).ghost = w.ghost.hold p := by
  have hh : (w.put i s c).ghost.handles = (w.ghost.hold p).handles := by
    funext q
    have hq := w.handles_put i s c q
    rw [h.count_eq, List.count_cons] at hq
    by_cases e : q = p
    · subst e
      rw [Ghost.handles_hold_self]
      simp at hq
      omega
    · rw [Ghost.handles_hold_of_ne _ e]
      rw [if_neg (by simpa using Ne.symm e)] at hq
      omega
  rw [Ghost.hold] at hh ⊢
  exact congrArg (Ghost.mk · none) hh

/-- The connection gives a reference back. -/
theorem ghost_put_drop (i : Fin n) (s : Store) {c : Conn}
    (h : (w.conns i).refs.Perm (p :: c.refs)) : (w.put i s c).ghost = w.ghost.drop p := by
  have hh : (w.put i s c).ghost.handles = (w.ghost.drop p).handles := by
    funext q
    have hq := w.handles_put i s c q
    rw [h.count_eq, List.count_cons] at hq
    by_cases e : q = p
    · subst e
      rw [Ghost.handles_drop_self]
      simp at hq
      omega
    · rw [Ghost.handles_drop_of_ne _ e]
      rw [if_neg (by simpa using Ne.symm e)] at hq
      omega
  rw [Ghost.drop] at hh ⊢
  exact congrArg (Ghost.mk · none) hh

/-- The connection keeps its references. -/
theorem ghost_put_same (i : Fin n) (s : Store) {c : Conn} (h : c.refs.Perm (w.conns i).refs) :
    (w.put i s c).ghost = w.ghost := by
  have hh : (w.put i s c).ghost.handles = w.ghost.handles := by
    funext q
    have hq := w.handles_put i s c q
    rw [h.count_eq] at hq
    omega
  exact congrArg (Ghost.mk · none) hh

end World

/-! ## What a step does to items -/

/-- **The events a step can have**: `K` are the keys it is about, `N` those it may link an item
under, `mine` the item its connection uploads, `busy` the items it may move to the head of their
list. -/
def Event.Within (cfg : Settings) (s : Store) (g : Ghost) (K N : Bytes → Prop) (mine : Option Ptr)
    (busy : List Ptr) : Event → Prop
  | ref _ | deref _ | fetch _ | alloc _ | discard _ | crawl | other => True
  | unlink p => s.Linked p ∧
      (K (s.key p) ∨ g.handles p = 0 ∧ (s.reclaimable p = true ∨ cfg.evictToFree = true))
  | link p key => N key ∧ (mine = some p ∨ g.handles p = 0)
  | refresh p => p ∈ busy ∨ s.Linked p ∧ K (s.key p) ∧ s.dead p = false
  | touch p _ => s.Linked p ∧ K (s.key p) ∧ s.dead p = false
  | write p _ => mine = some p ∨ g.handles p = 0
  | setCas p _ => mine = some p ∨ s.Linked p ∧ K (s.key p) ∧ s.dead p = false
  | inPlace p _ => s.Linked p ∧ K (s.key p) ∧ s.dead p = false ∧ g.handles p = 0
  | create p key _ _ _ => K key ∧ g.handles p = 0

variable {K N : Bytes → Prop} {mine : Option Ptr} {busy : List Ptr} {key : Bytes} {it : Ptr}

/-- Burying dead items of the key is within the section. -/
theorem Event.Buries.within {e : Event} (h : e.Buries s key) (hK : K key) :
    e.Within cfg s g K N mine busy := by
  cases e with
  | unlink p => exact ⟨h.1, Or.inl (h.2.1 ▸ hK)⟩
  | ref | deref => trivial
  | _ => exact h.elim

/-- An allocation is within the section. -/
theorem Event.Allocs.within {e : Event} {curHv : ℕ} (h : e.Allocs cfg s g curHv busy) :
    e.Within cfg s g K N mine busy := by
  cases e with
  | unlink p => exact ⟨h.1, Or.inr ⟨h.2.1, h.2.2.2⟩⟩
  | refresh p => exact Or.inl h.1
  | ref | deref | alloc | discard | other => trivial
  | _ => exact h.elim

/-- A round of the crawlers is within the section. -/
theorem Event.Crawls.within {e : Event} (h : e.Crawls s g) : e.Within cfg s g K N mine busy := by
  cases e with
  | unlink p => exact ⟨h.1, Or.inr ⟨h.2.1, Or.inl h.2.2⟩⟩
  | ref | deref | crawl | other => trivial
  | _ => exact h.elim

/-- `do_store_item` stays within its key. -/
theorem StoreResult.within {comm : Comm} {r : Store × StoreItemType × Option ℕ}
    (h : StoreResult cfg s g it comm busy r) (hK : K (s.key it))
    (hN : N (s.key it)) : ∃ evs, Trace cfg s g evs r.1 g ∧ ∀ e ∈ evs, e.Within cfg s g K N (some it) busy := by
  cases h with
  | new s' evs hcomm ht he hdead =>
      exact ⟨_, ht, List.forall_mem_append.mpr
        ⟨fun e hm => (he e hm).within hK, by simp [Event.Within, hN]⟩⟩
  | absent s' evs hcomm ht he hdead => exact ⟨_, ht, fun e hm => (he e hm).within hK⟩
  | present s' p hcomm hp hk hd ht =>
      exact ⟨_, ht, by simp [Event.Within, hp, hk, hd, hK]⟩
  | mismatch s' p hp hk hd hcas ht => exact ⟨_, ht, by simp [Event.Within]⟩
  | replaced s' p hp hk hd hcomm ht =>
      exact ⟨_, ht, by simp [Event.Within, hp, hk, hK, hN]⟩
  | noRoom s' p evs hcomm hp hk hd hcas ht he =>
      exact ⟨_, ht, List.forall_mem_append.mpr ⟨List.forall_mem_append.mpr
        ⟨by simp [Event.Within], fun e hm => (he e hm).within⟩, by simp [Event.Within]⟩⟩
  | joined s' p n evs hcomm hp hk hd hcas ht he hn hne =>
      exact ⟨_, ht, List.forall_mem_append.mpr ⟨List.forall_mem_append.mpr
        ⟨by simp [Event.Within], fun e hm => (he e hm).within⟩,
        by simp [Event.Within, hp, hk, hK, hN, hn]⟩⟩

/-- `do_add_delta` stays within its key. -/
theorem DeltaResult.within {beyond : Bytes} {incr : Bool} {delta reqCas : ℕ}
    {r : Store × DeltaResultType × Option (ℕ × ℕ)}
    (h : DeltaResult cfg beyond s g key incr delta reqCas busy r) (hK : K key)
    (hN : N key) : ∃ evs, Trace cfg s g evs r.1 g ∧ ∀ e ∈ evs, e.Within cfg s g K N mine busy := by
  cases h with
  | notFound s' evs ht he hdead => exact ⟨_, ht, fun e hm => (he e hm).within hK⟩
  | mismatch s' p hp hk hd hcas ht => exact ⟨_, ht, by simp [Event.Within]⟩
  | nonNumeric s' p hp hk hd hcas hnum ht => exact ⟨_, ht, by simp [Event.Within]⟩
  | inPlace s' p value hp hk hd hcas hnum h0 ht =>
      exact ⟨_, ht, by simp [Event.Within, hp, hk, hd, h0, hK]⟩
  | noRoom s' p evs hp hk hd hcas ht he =>
      exact ⟨_, ht, List.forall_mem_append.mpr ⟨List.forall_mem_append.mpr
        ⟨by simp [Event.Within], fun e hm => (he e hm).within⟩, by simp [Event.Within]⟩⟩
  | replaced s' p n value evs hp hk hd hcas hnum hbig ht he hn hne =>
      exact ⟨_, ht, List.forall_mem_append.mpr ⟨List.forall_mem_append.mpr
        ⟨by simp [Event.Within], fun e hm => (he e hm).within⟩,
        by simp [Event.Within, hp, hk, hd, hK, hN, hn]⟩⟩

/-! ## The invariant -/

/-- **The server is in order**: the store invariant holds with the references of all connections,
and an item being uploaded is unlinked and referred to by its connection only. -/
structure World.Ok (cfg : Settings) (w : World n) : Prop where
  inv : Inv cfg w.store w.ghost
  pending : ∀ i it, (w.conns i).item = some it →
    w.ghost.handles it = 1 ∧ (w.store.itFlags it).linked = false

/-- The steps that are no runs of elementary steps: they change the clock, the flush point, or the
page being moved. -/
def Op.Global : Op n → Prop
  | .flushAll _ | .clock _ | .rebalance _ _ _ => True
  | _ => False

namespace World.Ok

/-- What `store_item` gets. -/
theorem pending' (h : w.Ok cfg) {i : Fin n} (hi : (w.conns i).item = some it)
    (hcrlf : ∃ v, w.store.data it = v ++ crlf) : w.store.Pending w.ghost it :=
  ⟨(h.pending i it hi).1, (h.pending i it hi).2, hcrlf⟩

/-- **What `store_item` does.** -/
theorem storeResult (h : w.Ok cfg) {i : Fin n} {comm : Comm} {env : AllocEnv}
    (hen : w.Enabled cfg (.storeItem i comm env)) (hs : w.Safe cfg (.storeItem i comm env))
    (hi : (w.conns i).item = some it) :
    StoreResult cfg w.store w.ghost it comm (w.busy cfg (.storeItem i comm env))
      (w.store.doStoreItem cfg env it comm (cfg.hash (w.store.key it))) := by
  obtain ⟨it', hi', hcrlf, hf⟩ := hen
  obtain rfl : it' = it := Option.some.inj (hi'.symm.trans hi)
  obtain ⟨hroom, hrep⟩ := hs _ ⟨it', hi, rfl⟩
  simp only [busy, hi]
  exact storeResult_doStoreItem h.inv rfl (h.pending' hi hcrlf) hroom hrep hf

/-- **What a step does to items.** -/
theorem effect (h : w.Ok cfg) {op : Op n} (hen : w.Enabled cfg op) (hs : w.Safe cfg op)
    (hop : ¬ op.Global) :
    ∃ evs, Trace cfg w.store w.ghost evs (w.exec cfg op).1.store (w.exec cfg op).1.ghost ∧
      ∀ e ∈ evs, e.Within cfg w.store w.ghost (w.About op) (w.Links op) (w.mine op)
        (w.busy cfg op) := by
  cases op with
  | itemAlloc i key flags exptime nbytes env =>
      obtain ⟨hi, hn, hf⟩ := hen
      have hal := allocResult_doItemAlloc h.inv rfl hf hs hn exptime
      rw [exec]
      simp only [busy]
      generalize w.store.doItemAlloc cfg env key flags exptime nbytes 0 = r at hal
      generalize w.store.allocBusy cfg env key flags nbytes 0 = busy at hal
      cases hal with
      | fail s' evs ht he =>
          refine ⟨evs, ?_, fun e hm => (he e hm).within⟩
          rw [ghost_put_same i s' (by simp [Conn.refs, hi])]
          exact ht
      | ok s' p evs ht he h0 =>
          refine ⟨evs ++ [.create p key flags exptime nbytes], ?_, List.forall_mem_append.mpr
            ⟨fun e hm => (he e hm).within, by simp [Event.Within, About, h0]⟩⟩
          rw [ghost_put_hold (p := p) i s' (by simp [Conn.refs, hi])]
          exact ht
  | nread i d v =>
      obtain ⟨it, hi, hd⟩ := hen
      obtain ⟨h1, hl⟩ := h.pending i it hi
      have hp : 0 < w.ghost.handles it := by omega
      have h₁ : Prim cfg w.store w.ghost (.setCas it v) (w.store.itemSetCas it v) w.ghost :=
        .setCas (Or.inr hp) v
      have h₂ : Prim cfg (w.store.itemSetCas it v) w.ghost (.write it d)
          ((w.store.itemSetCas it v).setData it d) w.ghost := .write hp hl hd
      refine ⟨[.setCas it v, .write it d], ?_, by simp [Event.Within, mine, hi]⟩
      simp only [exec, hi]
      exact .cons h₁ (.single h₂)
  | storeItem i comm env =>
      obtain ⟨it, hi, -⟩ := id hen
      obtain ⟨evs, ht, he⟩ := (h.storeResult hen hs hi).within (K := w.uploadKey i)
        (N := w.uploadKey i) ⟨it, hi, rfl⟩ ⟨it, hi, rfl⟩
      refine ⟨evs, ?_, ?_⟩
      · simp only [exec, hi]
        rw [ghost_put_same i _ (Conn.refs_uploaded _)]
        exact ht
      · simpa only [About, Links, mine, hi] using he
  | dropItem i =>
      obtain ⟨it, hi⟩ := Option.isSome_iff_exists.mp hen
      refine ⟨[.deref it], ?_, by simp [Event.Within]⟩
      simp only [exec, hi]
      rw [ghost_put_drop (p := it) i _ (by simp [Conn.refs, hi])]
      exact .single (.deref (handles_pos (i := i) (by simp [Conn.refs, hi])))
  | itemGet i key response =>
      have hget := getResult_doItemGet h.inv hs
      rw [exec]
      generalize w.store.doItemGet cfg key (cfg.hash key) = r at hget
      cases hget with
      | miss s' evs ht he hdead hno =>
          refine ⟨evs, ?_, fun e hm => (he e hm).within rfl⟩
          show Trace cfg _ _ evs s' (w.put i s' (w.conns i)).ghost
          rw [ghost_put_same i s' (List.Perm.refl _)]
          exact ht
      | hit s' p hp hk hd hs ht =>
          refine ⟨[.ref p, .fetch p], ?_, by simp [Event.Within]⟩
          rw [ghost_put_hold i s' (Conn.refs_take _ p response)]
          exact ht
  | itemTouch i key exptime response =>
      have hget := touchResult_doItemTouch h.inv exptime hs
      rw [exec]
      generalize w.store.doItemTouch cfg key exptime (cfg.hash key) = r at hget
      cases hget with
      | miss s' evs ht he hdead =>
          refine ⟨evs, ?_, fun e hm => (he e hm).within rfl⟩
          show Trace cfg _ _ evs s' (w.put i s' (w.conns i)).ghost
          rw [ghost_put_same i s' (List.Perm.refl _)]
          exact ht
      | hit s' p hp hk hd ht =>
          refine ⟨[.ref p, .fetch p, .touch p exptime], ?_,
            by simp [Event.Within, About, hp, hk, hd]⟩
          rw [ghost_put_hold i s' (Conn.refs_take _ p response)]
          exact ht
  | respond i p =>
      refine ⟨[], ?_, by simp⟩
      rw [exec, ghost_put_same i _ (Conn.refs_formatted hen)]
      exact .nil
  | itemUpdate i p =>
      have hp : 0 < w.ghost.handles p := handles_pos (i := i) (by
        rw [Conn.refs, List.append_assoc]
        exact List.mem_append_right _ hen)
      exact ⟨[.refresh p], .single (.refresh (Or.inr hp)), by simp [Event.Within, busy]⟩
  | itemUnlink i p =>
      have hp : 0 < w.ghost.handles p := handles_pos (i := i) (by
        rw [Conn.refs, List.append_assoc]
        exact List.mem_append_right _ hen)
      have hchunk := h.inv.choose_spec.isChunk_of_handles p hp
      rw [exec]
      by_cases hl : (w.store.itFlags p).linked = true
      · exact ⟨_, Trace.doItemUnlink cfg w.ghost ⟨hchunk, hl⟩, by
          simp [Event.Within, About, Store.Linked, hchunk, hl]⟩
      · rw [Store.doItemUnlink, if_neg hl]
        exact ⟨[], .nil, by simp⟩
  | itemRemove i p =>
      have hp : 0 < w.ghost.handles p := handles_pos (i := i) (by
        rw [Conn.refs, List.append_assoc]
        exact List.mem_append_right _ hen)
      refine ⟨[.deref p], ?_, by simp [Event.Within]⟩
      rw [exec, ghost_put_drop i _ (Conn.refs_drop hen)]
      exact .single (.deref hp)
  | addDelta i key incr delta reqCas env beyond =>
      exact (deltaResult_doAddDelta h.inv rfl beyond incr delta reqCas hs.1 hs.2 hen).within rfl rfl
  | lruCrawl sid tocrawl =>
      exact ⟨[.crawl], .single (.crawlStart hs tocrawl), by simp [Event.Within]⟩
  | crawl sid trylock =>
      obtain ⟨evs, ht, he⟩ := Trace.crawlStep h.inv trylock sid
      exact ⟨evs, ht, fun e hm => (he e hm).within⟩
  | flushAll | clock | rebalance => exact absurd trivial hop

end World.Ok

/-- Time passes. -/
theorem Inv.clock (h : Inv cfg s g) {now : ℕ} (hnow : s.currentTime ≤ now) :
    Inv cfg { s with currentTime := now } g := by
  obtain ⟨L, h⟩ := h
  exact ⟨L, { h with
    time := fun p hp => ⟨(h.time p hp).1, (h.time p hp).2.trans hnow⟩
    clock := h.clock.trans hnow }⟩

/-- `flush_all` sets the flush point and walks the lists. -/
theorem Trace.flushAll (h : Inv cfg s g) (exptime : ℤ) :
    ∃ evs, Trace cfg { s with oldestLive := s.flushPoint cfg exptime } g evs
      (s.flushAll cfg exptime) g ∧
      ∀ e ∈ evs, e.Flushes { s with oldestLive := s.flushPoint cfg exptime } :=
  Trace.doItemFlushExpired (h.congr rfl)

namespace World.Ok

/-- Nobody but its connection refers to an item being uploaded. -/
theorem pending_ne (h : w.Ok cfg) {i j : Fin n} (hj : (w.conns j).item = some it)
    (hp : p ∈ (w.conns i).fetched ++ (w.conns i).held) : p ≠ it := by
  rintro rfl
  have h1 := (h.pending j p hj).1
  have hcj : 0 < (w.conns j).refs.count p := List.count_pos_iff.mpr (by simp [Conn.refs, hj])
  by_cases e : i = j
  · subst e
    have hc : 2 ≤ (w.conns i).refs.count p := by
      have hpos := List.count_pos_iff.mpr hp
      have hone : (some p).toList.count p = 1 := by simp
      rw [Conn.refs, List.append_assoc, List.count_append, hj]
      omega
    have := w.count_le_handles i p
    omega
  · have hci : 0 < (w.conns i).refs.count p := List.count_pos_iff.mpr (by
      rw [Conn.refs, List.append_assoc]
      exact List.mem_append_right _ hp)
    have := w.count_add_count_le e p
    omega

/-- Two connections upload different items. -/
theorem pending_inj (h : w.Ok cfg) {i j : Fin n} {it' : Ptr} (hi : (w.conns i).item = some it')
    (hj : (w.conns j).item = some it) (hij : i ≠ j) : it' ≠ it := by
  rintro rfl
  have h1 := (h.pending j it' hj).1
  have hci : 0 < (w.conns i).refs.count it' := List.count_pos_iff.mpr (by simp [Conn.refs, hi])
  have hcj : 0 < (w.conns j).refs.count it' := List.count_pos_iff.mpr (by simp [Conn.refs, hj])
  have := w.count_add_count_le hij it'
  omega

/-- An item being uploaded is none of those in the table. -/
theorem pending_ne_linked (h : w.Ok cfg) {j : Fin n} (hj : (w.conns j).item = some it)
    (hp : w.store.Linked p) : it ≠ p := by
  rintro rfl
  exact absurd hp.2 (by simp [(h.pending j it hj).2])

/-- What a step stores or writes for its connection is not linked. -/
theorem mine_unlinked (h : w.Ok cfg) {op : Op n} (hm : w.mine op = some it) :
    ¬ w.store.Linked it := by
  have hpend : ∀ i, (w.conns i).item = some it → ¬ w.store.Linked it := fun i hi hc =>
    absurd hc.2 (by simp [(h.pending i it hi).2])
  cases op with
  | nread i d cas => exact hpend i hm
  | storeItem i comm env => exact hpend i hm
  | _ => exact absurd hm (by simp [mine])

/-- Items that others upload are left alone by a step that neither stores them nor touches a
reference to them. -/
theorem pending_keep (h : w.Ok cfg) {op : Op n} {evs : List Event}
    (ht : Trace cfg w.store w.ghost evs s' g')
    (he : ∀ e ∈ evs, e.Within cfg w.store w.ghost (w.About op) (w.Links op) (w.mine op) busy)
    {j : Fin n} (hj : (w.conns j).item = some it) (hmine : w.mine op ≠ some it) :
    (s'.itFlags it).linked = false := by
  obtain ⟨h1, hl⟩ := h.pending j it hj
  by_contra hc
  have hq : s'.Linked it := ⟨h.inv.choose_spec.isChunk_of_handles it (by omega), by simpa using hc⟩
  rcases ht.linked_or_link h.inv hq with hq | ⟨key, hk⟩
  · exact absurd hq.2 (by simp [hl])
  · rcases (he _ hk).2 with hm | h0
    · exact hmine hm
    · omega

/-- A step that changes no connection. -/
theorem putStore (h : w.Ok cfg) (hI : Inv cfg s w.ghost)
    (hl : ∀ j it, (w.conns j).item = some it → (s.itFlags it).linked = false) :
    (w.putStore s).Ok cfg :=
  ⟨hI, fun j it hj => ⟨(h.pending j it hj).1, hl j it hj⟩⟩

/-- A step that leaves the upload of its connection alone. -/
theorem put (h : w.Ok cfg) {i : Fin n} {c : Conn} (hI : Inv cfg s (w.put i s c).ghost)
    (hc : c.item = (w.conns i).item)
    (hl : ∀ j it, (w.conns j).item = some it → (s.itFlags it).linked = false)
    (hh : ∀ j it, (w.conns j).item = some it →
      (w.put i s c).ghost.handles it = w.ghost.handles it) : (w.put i s c).Ok cfg := by
  refine ⟨hI, fun j it hj => ?_⟩
  have hj' : (w.conns j).item = some it := by
    by_cases e : j = i
    · subst e
      rw [← hc, ← hj, conns_put_self]
    · rw [← hj, conns_put_of_ne w e]
  exact ⟨(hh j it hj').trans (h.pending j it hj').1, hl j it hj'⟩

/-- A step that ends the upload of its connection. -/
theorem put_none (h : w.Ok cfg) {i : Fin n} {c : Conn} (hI : Inv cfg s (w.put i s c).ghost)
    (hc : c.item = none)
    (hl : ∀ j it, j ≠ i → (w.conns j).item = some it → (s.itFlags it).linked = false)
    (hh : ∀ j it, j ≠ i → (w.conns j).item = some it →
      (w.put i s c).ghost.handles it = w.ghost.handles it) : (w.put i s c).Ok cfg := by
  refine ⟨hI, fun j it hj => ?_⟩
  have hne : j ≠ i := by
    rintro rfl
    rw [conns_put_self, hc] at hj
    exact absurd hj (by simp)
  have hj' : (w.conns j).item = some it := by rw [← hj, conns_put_of_ne w hne]
  exact ⟨(hh j it hne hj').trans (h.pending j it hj').1, hl j it hne hj'⟩

/-- **A step that goes well leaves the server in order.** -/
theorem exec (h : w.Ok cfg) {op : Op n} (hen : w.Enabled cfg op) (hs : w.Safe cfg op) :
    (w.exec cfg op).1.Ok cfg := by
  by_cases hop : op.Global
  · cases op with
    | flushAll exptime =>
        obtain ⟨evs, ht, he⟩ := Trace.flushAll h.inv exptime
        have hI : Inv cfg { w.store with oldestLive := w.store.flushPoint cfg exptime } w.ghost :=
          h.inv.congr rfl
        refine h.putStore (ht.inv hI) fun j it hj => ?_
        by_contra hl
        have hq : (w.store.flushAll cfg exptime).Linked it :=
          ⟨h.inv.choose_spec.isChunk_of_handles it (by have := h.pending j it hj; omega),
            by simpa using hl⟩
        have := (ht.linked_of_flushes hI he hq).1
        exact absurd this.2 (by simpa using (h.pending j it hj).2)
    | clock now => exact h.putStore (h.inv.clock hen) fun j it hj => (h.pending j it hj).2
    | rebalance => exact h.putStore (h.inv.congr rfl) fun j it hj => (h.pending j it hj).2
    | _ => exact absurd hop id
  obtain ⟨evs, ht, he⟩ := h.effect hen hs hop
  have hI := ht.inv h.inv
  have hkeep : w.mine op = none → ∀ j it, (w.conns j).item = some it →
      ((w.exec cfg op).1.store.itFlags it).linked = false := fun hm j it hj =>
    h.pending_keep ht he hj (by simp [hm])
  cases op with
  | itemUpdate | itemUnlink | addDelta | lruCrawl | crawl => exact h.putStore hI (hkeep rfl)
  | nread i d v =>
      obtain ⟨it, hi, -⟩ := hen
      simp only [World.exec, hi] at hI ⊢
      exact h.putStore hI fun j it hj => (h.pending j it hj).2
  | respond i p =>
      exact h.put hI rfl (hkeep rfl) fun j it hj => by
        rw [ghost_put_same i _ (Conn.refs_formatted hen)]
  | itemRemove i p =>
      refine h.put hI (by rw [Conn.drop]; split <;> rfl) (hkeep rfl) fun j it hj => ?_
      rw [ghost_put_drop i _ (Conn.refs_drop hen)]
      exact Ghost.handles_drop_of_ne _ (h.pending_ne hj hen).symm
  | dropItem i =>
      obtain ⟨it', hi⟩ := Option.isSome_iff_exists.mp hen
      simp only [World.exec, hi] at hI hkeep ⊢
      refine h.put_none hI rfl (fun j it _ hj => hkeep rfl j it hj) fun j it hne hj => ?_
      rw [ghost_put_drop (p := it') i _ (by simp [Conn.refs, hi])]
      exact Ghost.handles_drop_of_ne _ (h.pending_inj hi hj hne.symm).symm
  | storeItem i comm env =>
      obtain ⟨it', hi, -⟩ := id hen
      simp only [World.exec, hi] at hI ht ⊢
      refine h.put_none hI rfl (fun j it hne hj => ?_) fun j it _ hj => by
        rw [ghost_put_same i _ (Conn.refs_uploaded _)]
      refine h.pending_keep ht he hj ?_
      rw [show w.mine (.storeItem i comm env) = some it' from hi]
      exact fun e => h.pending_inj hi hj hne.symm (Option.some.inj e)
  | itemGet i key response =>
      have hget := getResult_doItemGet h.inv hs
      have hk := hkeep rfl
      rw [World.exec] at hI hk ⊢
      generalize w.store.doItemGet cfg key (cfg.hash key) = r at hget hI hk
      cases hget with
      | miss s' evs ht he hdead hno =>
          exact h.put hI rfl hk fun j it hj =>
            congrArg (Ghost.handles · it) (ghost_put_same i s' (List.Perm.refl _))
      | hit s' p hp hk' hd hs ht =>
          refine h.put hI (by cases response <;> rfl) hk fun j it hj => ?_
          rw [ghost_put_hold i s' (Conn.refs_take _ p response)]
          exact Ghost.handles_hold_of_ne _ (h.pending_ne_linked hj hp)
  | itemTouch i key exptime response =>
      have hget := touchResult_doItemTouch h.inv exptime hs
      have hk := hkeep rfl
      rw [World.exec] at hI hk ⊢
      generalize w.store.doItemTouch cfg key exptime (cfg.hash key) = r at hget hI hk
      cases hget with
      | miss s' evs ht he hdead =>
          exact h.put hI rfl hk fun j it hj =>
            congrArg (Ghost.handles · it) (ghost_put_same i s' (List.Perm.refl _))
      | hit s' p hp hk' hd ht =>
          refine h.put hI (by cases response <;> rfl) hk fun j it hj => ?_
          rw [ghost_put_hold i s' (Conn.refs_take _ p response)]
          exact Ghost.handles_hold_of_ne _ (h.pending_ne_linked hj hp)
  | itemAlloc i key flags exptime nbytes env =>
      obtain ⟨hi, hn, hf⟩ := hen
      have hal := allocResult_doItemAlloc h.inv rfl hf hs hn exptime
      have hk := hkeep rfl
      rw [World.exec] at hI hk ⊢
      generalize w.store.doItemAlloc cfg env key flags exptime nbytes 0 = r at hal hI hk
      cases hal with
      | fail s' evs ht he =>
          exact h.put hI hi.symm hk fun j it hj =>
            congrArg (Ghost.handles · it) (ghost_put_same i s' (by simp [Conn.refs, hi]))
      | ok s' p evs ht' he' h0 =>
          have hg : (w.put i s' { w.conns i with item := some p }).ghost = w.ghost.hold p :=
            ghost_put_hold (p := p) i s' (by simp [Conn.refs, hi])
          refine ⟨hI, fun j it hj => ?_⟩
          rw [hg]
          by_cases e : j = i
          · subst e
            rw [conns_put_self] at hj
            obtain rfl := Option.some.inj hj
            exact ⟨by rw [Ghost.handles_hold_self, h0], (ht'.created h.inv).2.2.2.2.1⟩
          · rw [conns_put_of_ne w e] at hj
            have hj' := hj
            have h1 := (h.pending j it hj').1
            have hne : it ≠ p := by
              rintro rfl
              omega
            exact ⟨by rw [Ghost.handles_hold_of_ne _ hne, h1], hk j it hj⟩
  | flushAll | clock | rebalance => exact absurd trivial hop

end World.Ok

/-! ## Runs -/

namespace World

/-- The server starts in order. -/
theorem ok_init (cfg : Settings) (n : ℕ) : (World.init n).Ok cfg := by
  have hg : (World.init n).ghost = .empty :=
    congrArg (Ghost.mk · none) (funext fun p => by simp [World.init, Conn.refs])
  exact ⟨by rw [hg]; exact inv_init cfg, fun i it hi => absurd hi (by simp [World.init])⟩

/-- **One safe step keeps the server well formed.** -/
theorem Ok.step {l : Op n × Reply} (h : w.Ok cfg) (hst : w.SafeStep cfg l w') : w'.Ok cfg := by
  obtain ⟨⟨hen, he⟩, hs⟩ := hst
  have := h.exec hen hs
  rwa [he] at this

/-- **Steps that go well keep the server in order.** -/
theorem ok_of_run {ls : List (Op n × Reply)}
    (hr : Transition.Run (SafeStep cfg) (World.init n) ls w) : w.Ok cfg :=
  hr.invariant (ok_init cfg n) fun h hst => h.step hst

end World

end Memcached
