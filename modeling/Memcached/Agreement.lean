import Memcached.Refcount

/-! # The store agrees with itself

Flag, hash chain, LRU list and counters tell the same about every item, in every state that
commands reach that are carried out one after the other, and in runs that interleave them as long
as the references held at a time are fewer than the counter has room for.

* **`StoreAgreement`** — what flag, chain, list and counters say of one another.
* **`Inv.agreement`** — the invariant says it.
* **`storeAgreement_of_run`** — it holds after every run of whole commands. -/

namespace Memcached

open CNumber (Bytes)
open Transition (Run)

variable {n : ℕ} {cfg : Settings} {w w' : World n} {s : Store} {g : Ghost} {p : Ptr}

/-- **Flag, hash table, LRU lists and counters agree.** -/
structure StoreAgreement (cfg : Settings) (s : Store) : Prop where
  /-- The LRU list from `heads[c]` is doubly linked, ends, and has `tails[c]` for its last item. -/
  lru : ∀ c, DoublyLinked.Seg s.next s.prev none (s.lruList c) none ∧
    s.heads c = (s.lruList c).head? ∧ s.tails c = (s.lruList c).getLast?
  /-- The chain of a bucket is linked from the bucket to its end. -/
  chain : ∀ b, SinglyLinked.Seg s.hNext (s.chainList b) ∧ s.hashtable b = (s.chainList b).head?
  /-- An item is linked exactly if it occurs once in the hash table, in the chain of its key's
  hash, and once in the LRU lists, in the list of its class. -/
  linked_iff : ∀ p, p.isChunk = true → (s.Linked p ↔
    (∀ b, (s.chainList b).count p = if b = s.bucketOf (cfg.hash (s.key p)) then 1 else 0) ∧
      ∀ c, (s.lruList c).count p = if c = s.slabsClsid p then 1 else 0)
  /-- Nothing but items is in the hash table. -/
  isChunk_of_chain : ∀ b, ∀ p ∈ s.chainList b, p.isChunk = true
  /-- No two linked items have the same key. -/
  key_inj : ∀ p q, s.Linked p → s.Linked q → s.key p = s.key q → p = q
  /-- The counters are those of the set of linked items. -/
  counters : ∃ F : Finset Ptr, (∀ p, p ∈ F ↔ s.Linked p) ∧
    (∀ c, s.sizes c = (F.filter fun p => s.slabsClsid p = c).card) ∧
      s.hashItems = F.card ∧ s.currItems = F.card ∧ s.currBytes = ∑ p ∈ F, s.itemNtotal p

/-- A list without repetitions counts its members. -/
theorem count_eq_ite {α : Type*} [BEq α] [LawfulBEq α] {l : List α} (hl : l.Nodup) (a : α)
    {P : Prop} [Decidable P] (h : a ∈ l ↔ P) : l.count a = if P then 1 else 0 := by
  split
  · exact List.count_eq_one_of_mem hl (h.mpr ‹P›)
  · exact List.count_eq_zero_of_not_mem fun hm => absurd (h.mp hm) ‹¬P›

/-- A linked item is once in the chain of its key's hash and in no other. -/
theorem WellFormed.count_chainList {L : Layout} (h : WellFormed cfg s g L) (hp : s.Linked p)
    (b : Bucket) :
    (s.chainList b).count p = if b = s.bucketOf (cfg.hash (s.key p)) then 1 else 0 := by
  refine count_eq_ite (h.chainList_eq b ▸ h.chains.nodup b) p ?_
  rw [h.mem_chainList, and_iff_right hp, eq_comm]

/-- A linked item is once in the LRU list of its class and in no other. -/
theorem WellFormed.count_lruList {L : Layout} (h : WellFormed cfg s g L) (hp : s.Linked p) (c : ℕ) :
    (s.lruList c).count p = if c = s.slabsClsid p then 1 else 0 := by
  refine count_eq_ite (h.lruList_eq c ▸ h.family.nodup _) p ?_
  rw [h.mem_lruList hp.1, and_iff_right hp, eq_comm]

/-- **The store invariant makes the structures agree.** -/
theorem Inv.agreement (h : Inv cfg s g) : StoreAgreement cfg s := by
  obtain ⟨L, h⟩ := h
  refine
    { lru := fun c => ?_
      chain := fun b => ?_
      linked_iff := fun p hp => ⟨fun hl => ⟨h.count_chainList hl, h.count_lruList hl⟩, fun hc => ?_⟩
      isChunk_of_chain := fun b p hp => ((h.mem_chainList b).mp hp).1.1
      key_inj := h.key_inj
      counters := ⟨L.linked, h.mem_linked, h.sizes, h.hashItems, h.currItems, h.currBytes⟩ }
  · rw [h.lruList_eq]
    exact ⟨h.family.seg _, h.heads c, h.tails c⟩
  · rw [h.chainList_eq]
    exact ⟨h.chains.seg b, h.chains.head_eq b⟩
  · have h1 := hc.1 (s.bucketOf (cfg.hash (s.key p)))
    rw [if_pos rfl] at h1
    have hm : p ∈ s.chainList (s.bucketOf (cfg.hash (s.key p))) :=
      List.count_pos_iff.mp (by omega)
    exact ((h.mem_chainList _).mp hm).1

/-! ## Commands one after the other -/

namespace World

/-- The references that connections hold to items they looked up. -/
def outstanding (w : World n) : ℕ := ∑ i, ((w.conns i).fetched ++ (w.conns i).held).length

/-- Every command that looked an item up has given it back; or tail repair is off and the
references held leave room in the counter. -/
def Calm (cfg : Settings) (w : World n) : Prop :=
  w.outstanding = 0 ∨ cfg.tailRepairTime = 0 ∧ w.outstanding + 2 < refcountModulus

instance (cfg : Settings) (w : World n) : Decidable (w.Calm cfg) :=
  inferInstanceAs (Decidable (_ ∨ _))

/-- The condition under which a step of a sequence of commands is taken: lookups and allocations
when it is calm, and a class is crawled by one crawler at a time. -/
def Orderly (cfg : Settings) (w : World n) : Op n → Prop
  | .itemAlloc _ _ _ _ _ _ | .storeItem _ _ _ | .itemGet _ _ _ | .itemTouch _ _ _ _
  | .addDelta _ _ _ _ _ _ _ => w.Calm cfg
  | .lruCrawl sid _ => (w.store.itFlags (.crawler sid)).linked = false
  | _ => True

/-- **A step of a sequence of commands.** -/
def OrderlyStep (cfg : Settings) (w : World n) (l : Op n × Reply) (w' : World n) : Prop :=
  w.Step cfg l w' ∧ w.Orderly cfg l.1

/-- A linked item is referred to by lookups only. -/
theorem Ok.handles_le_outstanding (h : w.Ok cfg) (hp : w.store.Linked p) :
    w.ghost.handles p ≤ w.outstanding := by
  show ∑ i, (w.conns i).refs.count p ≤ ∑ i, ((w.conns i).fetched ++ (w.conns i).held).length
  refine Finset.sum_le_sum fun i _ => ?_
  have hitem : (w.conns i).item.toList.count p = 0 := by
    cases hi : (w.conns i).item with
    | none => rfl
    | some it => simp [h.pending_ne_linked hi hp]
  rw [Conn.refs, List.append_assoc, List.count_append, hitem, Nat.zero_add]
  exact List.count_le_length

/-- **Steps of a sequence of commands go well.** -/
theorem Ok.safe_of_orderly (h : w.Ok cfg) {op : Op n} (ho : w.Orderly cfg op) : w.Safe cfg op := by
  obtain ⟨L, hwf⟩ := h.inv
  have hrep : w.Calm cfg → ∀ hv, w.store.NoRepair cfg w.ghost hv := by
    rintro (h0 | ⟨hoff, -⟩) hv
    · exact Or.inr fun q hq _ => Nat.le_zero.mp (h0 ▸ h.handles_le_outstanding hq)
    · exact Or.inl hoff
  have hroom : w.Calm cfg → ∀ key, w.store.Room cfg key := by
    intro hc key p hp
    have hl := (hwf.assocFind_eq_some.mp hp).1
    have hle := h.handles_le_outstanding hl
    rw [hwf.refcount_of_linked hl]
    have hcases : w.outstanding = 0 ∨ w.outstanding + 2 < refcountModulus := hc.imp_right (·.2)
    rw [refcountModulus] at *
    omega
  cases op with
  | itemAlloc => exact hrep ho 0
  | storeItem => exact fun key _ => ⟨hroom ho key, hrep ho _⟩
  | itemGet i key response => exact hroom ho key
  | itemTouch i key exptime response => exact hroom ho key
  | addDelta i key => exact ⟨hroom ho key, hrep ho _⟩
  | lruCrawl => exact ho
  | _ => trivial

/-- Sequences of commands keep the server in order. -/
theorem ok_of_orderly {ls : List (Op n × Reply)}
    (hr : Run (OrderlyStep cfg) (World.init n) ls w) : w.Ok cfg :=
  hr.invariant (ok_init cfg n) fun h hst => h.step ⟨hst.1, h.safe_of_orderly hst.2⟩

/-- A check that suffices for `Orderly`. -/
def orderly (cfg : Settings) (w : World n) : Op n → Bool
  | .lruCrawl sid _ => !(w.store.itFlags (.crawler sid)).linked
  | _ => decide (w.Calm cfg)

/-- The check that a script runs is enough for a step to be orderly. -/
theorem orderly_of_check {op : Op n} (h : w.orderly cfg op = true) : w.Orderly cfg op := by
  cases op with
  | lruCrawl sid _ =>
      simp only [orderly, Bool.not_eq_true'] at h
      exact h
  | itemAlloc | storeItem | itemGet | itemTouch | addDelta =>
      simp only [orderly, decide_eq_true_eq] at h
      exact h
  | _ => trivial

/-- A script that is a sequence of commands. -/
theorem run_execs_orderly {ops : List (Op n)}
    (h : w.checkAll cfg (fun w op => w.ready op && w.orderly cfg op) ops = true) :
    Run (OrderlyStep cfg) w (w.execs cfg ops).2 (w.execs cfg ops).1 :=
  run_execs (fun w op h => by
    rw [Bool.and_eq_true] at h
    exact ⟨h.1, orderly_of_check h.2⟩) h

end World

/-- **Store agreement**: in every state that a sequence of commands leads to, flag, hash table, LRU
lists and counters agree. -/
theorem storeAgreement_of_run {ls : List (Op n × Reply)}
    (hr : Run (World.OrderlyStep cfg) (World.init n) ls w) : StoreAgreement cfg w.store :=
  (World.ok_of_orderly hr).inv.agreement

/-- The store agrees with itself after a `set` and a `delete`. -/
theorem storeAgreement_seeded :
    StoreAgreement .small
      ((World.seeded (0 : Fin 1) [107] [53, 13, 10]).execs .small
        [.itemGet 0 [107] false, .itemUnlink 0 firstChunk, .itemRemove 0 firstChunk]).1.store := by
  have hseed : Run (World.OrderlyStep .small) (World.init 1) _ (World.seeded 0 [107] [53, 13, 10]) :=
    .cons ⟨World.step_first .small [107] 0 0 (by decide), Or.inl rfl⟩
      (World.run_execs_orderly (by decide +kernel))
  exact storeAgreement_of_run (hseed.append (World.run_execs_orderly (by decide +kernel)))

end Memcached
