import Memcached.Lists
import Memcached.SystemInvariant

/-! # Reference counts

`refcount` counts references exactly as long as it has room for them: nothing in the program keeps
an item from being looked up more often than a 16-bit counter can tell.

* **`World.RefcountExact`** — the counters count the references.
* **`AllocFresh`** — the chunk that is allocated is nobody's.
* **`refcountExact_of_run`**, **`refcountExact_fails`** — in which runs they do. -/

namespace Memcached

open CNumber (Bytes)
open Transition (Run)

variable {n : ℕ} {cfg : Settings} {w w' : World n} {s s' : Store} {g : Ghost} {p q : Ptr}

/-- **References are counted exactly.** -/
structure World.RefcountExact (w : World n) : Prop where
  /-- The counter of an item in use is the number of its references. -/
  count : ∀ p, w.store.InUse w.ghost p →
    w.store.refcount p = (if (w.store.itFlags p).linked then 1 else 0) + w.ghost.handles p
  /-- A free chunk has no references. -/
  free : ∀ p id, p ∈ w.store.freeList id → ¬ w.store.Linked p ∧ w.ghost.handles p = 0
  /-- `do_item_remove` frees an item with its last reference only. -/
  last : ∀ p, 0 < w.ghost.handles p → (w.store.refcountDecr p).refcount p = 0 →
    w.ghost.handles p = 1 ∧ ¬ w.store.Linked p

/-- **`do_item_alloc` hands out a chunk that nobody refers to**: no caller, not the hash table, no
LRU list. -/
def AllocFresh (cfg : Settings) (s : Store) (g : Ghost) : Prop :=
  ∀ (env : AllocEnv) (key : Bytes) (flags : ℤ) (exptime nbytes curHv : ℕ) (s' : Store) (p : Ptr),
    2 ≤ nbytes → env.Fresh cfg s (slabsClsidOf cfg (Store.allocNtotal cfg key flags nbytes)) →
    s.doItemAlloc cfg env key flags exptime nbytes curHv = (s', some p) →
    g.handles p = 0 ∧ s'.refcount p = 1 ∧ ¬ s'.Linked p ∧ (∀ c, p ∉ s'.lruList c) ∧
      (∀ b, p ∉ s'.chainList b) ∧ ∀ id, p ∉ s'.freeList id

/-- The store invariant counts references exactly. -/
theorem World.Ok.refcountExact (h : w.Ok cfg) : w.RefcountExact := by
  obtain ⟨L, hwf⟩ := h.inv
  refine ⟨fun p hp => ?_, fun p id hp => ?_, fun p hp hr => ?_⟩
  · rw [hwf.refcount p hp, Store.refs, Nat.add_comm]
  · rw [hwf.freeList_eq] at hp
    obtain ⟨-, hl, h0⟩ := hwf.mem_free p id hp
    exact ⟨fun hc => absurd hc.2 (by simp [hl]), h0⟩
  · rcases hwf.doItemRemove_cases hp with ⟨h1, hl, -⟩ | ⟨h2, -⟩
    · exact ⟨h1, fun hc => absurd hc.2 (by simp [hl])⟩
    · have hu : w.store.InUse w.ghost p := Or.inr hp
      have hlt := hwf.refs_lt p hu
      simp only [Store.refcountDecr, Function.update_self, hwf.refcount p hu] at hr
      rw [refcountModulus] at *
      omega

/-- The store invariant keeps referenced chunks from being handed out. -/
theorem Inv.allocFresh (h : Inv cfg s g) (hs : g.spare = none) (hrep : cfg.tailRepairTime = 0) :
    AllocFresh cfg s g := by
  intro env key flags exptime nbytes curHv s' p hn hf he
  have hal := allocResult_doItemAlloc h hs hf (Or.inl hrep : s.NoRepair cfg g curHv) hn exptime
  rw [he] at hal
  cases hal with
  | ok _ _ evs ht he' h0 =>
      obtain ⟨-, -, -, -, hl, hh⟩ := ht.created h
      obtain ⟨L, hwf⟩ := ht.inv h
      have hu : s'.InUse (g.hold p) p := Or.inr hh
      have hnot : ¬ s'.Linked p := fun hc => absurd hc.2 (by simp [hl])
      refine ⟨h0, ?_, hnot, fun c hc => ?_, fun b hb => ?_, fun id hid => ?_⟩
      · rw [hwf.refcount p hu, Store.refs, Ghost.handles_hold_self, h0, if_neg (by simp [hl])]
      · exact hnot ((hwf.mem_lruList (hwf.isChunk_of_inUse hu) c).mp hc).1
      · exact hnot ((hwf.mem_chainList b).mp hb).1
      · rw [hwf.freeList_eq] at hid
        exact hwf.not_free_of_inUse hu id hid

/-- **Reference counting is exact and protects held items**, in every state that steps lead to that
find room in the counter whenever they take a reference, and so is allocation there: for an upload,
and for `append`, `prepend`, `incr` and `decr` while they hold the item they looked up. -/
theorem refcountExact_of_run (hrep : cfg.tailRepairTime = 0) {ls : List (Op n × Reply)}
    (hr : Run (World.SafeStep cfg) (World.init n) ls w) :
    w.RefcountExact ∧ AllocFresh cfg w.store w.ghost ∧
      ∀ key s' q, w.store.Room cfg key → w.store.doItemGet cfg key (cfg.hash key) = (s', some q) →
        AllocFresh cfg s' (w.ghost.hold q) := by
  have hok := World.ok_of_run hr
  refine ⟨hok.refcountExact, hok.inv.allocFresh rfl hrep, fun key s' q hroom he => ?_⟩
  have hget := getResult_doItemGet hok.inv hroom
  rw [he] at hget
  cases hget with
  | hit _ _ hp hk hd hs ht => exact (ht.inv hok.inv).allocFresh rfl hrep

/-- References are counted exactly after one connection's `set`. -/
theorem refcountExact_seeded : (World.seeded (0 : Fin 2) [107] [53, 13, 10]).RefcountExact := by
  obtain ⟨ls, hrun⟩ := World.run_seeded (n := 2) (i := 0) (k := [107]) (d := [53, 13, 10])
    (by decide) (by decide +kernel)
  exact (refcountExact_of_run rfl hrun).1

/-! ## The counter wraps -/

/-- The server after `k` more lookups of the item `p` for one connection's response. -/
def World.afterGets (w : World n) (i : Fin n) (p : Ptr) (k : ℕ) : World n :=
  w.put i
    { w.store with
      refcount := Function.update w.store.refcount p ((w.store.refcount p + k) % refcountModulus)
      itFlags := Function.update w.store.itFlags p (w.store.itFlags p).setFetched }
    { w.conns i with fetched := List.replicate k p ++ (w.conns i).fetched }

/-- **One get line may name a key any number of times**: each time a reference is taken, whatever
the counter says. -/
theorem run_gets {i : Fin n} {key : Bytes}
    (hfind : w.store.assocFind key (cfg.hash key) = some p) (hd : w.store.dead p = false) (k : ℕ) :
    Run (World.Step cfg) w (List.replicate (k + 1) (.itemGet i key true, .item (some p)))
      (w.afterGets i p (k + 1)) := by
  induction k with
  | zero =>
      refine .single ⟨trivial, ?_⟩
      rw [World.exec, Store.doItemGet_eq hfind, hd]
      rfl
  | succ k ih =>
      rw [List.replicate_succ']
      refine ih.snoc ⟨trivial, ?_⟩
      have hfind' : (w.afterGets i p (k + 1)).store.assocFind key (cfg.hash key) = some p := hfind
      have hd' : (w.afterGets i p (k + 1)).store.dead p = false := hd
      rw [World.exec, Store.doItemGet_eq hfind', hd']
      have hmod : ((w.store.refcount p + (k + 1)) % refcountModulus + 1) % refcountModulus
          = (w.store.refcount p + (k + 1 + 1)) % refcountModulus := by
        rw [Nat.mod_add_mod, Nat.add_assoc]
      have hfl : (w.store.itFlags p).setFetched.setFetched = (w.store.itFlags p).setFetched := rfl
      simp only [World.afterGets, World.put, Store.refcountIncr, Store.setFlags, Conn.take,
        Function.update_self, Function.update_idem, Bool.false_eq_true, if_false, if_true, hmod, hfl,
        List.replicate_succ, List.cons_append]

/-- **The counter of a linked item can be 0 while a connection holds it**: after `set k`, a get line
that names `k` 65535 times leaves it there. -/
theorem refcountExact_fails : ¬ ∀ (cfg : Settings) (n : ℕ) (ls : List (Op n × Reply))
    (w : World n), cfg.tailRepairTime = 0 → Run (World.Step cfg) (World.init n) ls w →
      w.RefcountExact := by
  intro hall
  set w₀ : World 1 := World.seeded 0 [107] [53, 13, 10] with hw₀
  obtain ⟨ls, hrun⟩ := World.run_seeded (n := 1) (i := 0) (k := [107]) (d := [53, 13, 10])
    (by decide) (by decide +kernel)
  have hfind : w₀.store.assocFind [107] (Settings.small.hash [107]) = some firstChunk := by
    decide +kernel
  have hd : w₀.store.dead firstChunk = false := by decide +kernel
  have hr : w₀.store.refcount firstChunk = 1 := by decide +kernel
  have hl : (w₀.store.itFlags firstChunk).linked = true := by decide +kernel
  set w := w₀.afterGets 0 firstChunk 65535
  have hrefs : w.store.refcount firstChunk = 0 := by
    show Function.update w₀.store.refcount firstChunk
      ((w₀.store.refcount firstChunk + 65535) % refcountModulus) firstChunk = 0
    rw [Function.update_self, hr]
    rfl
  have hlinked : w.store.Linked firstChunk := by
    refine ⟨rfl, ?_⟩
    show (Function.update w₀.store.itFlags firstChunk _ firstChunk).linked = true
    rw [Function.update_self]
    exact hl
  have hex := hall .small 1 _ w rfl ((World.run_of_safe hrun).append (run_gets hfind hd 65534))
  have hcount := hex.count firstChunk (Or.inl hlinked)
  rw [hrefs, if_pos hlinked.2] at hcount
  omega

end Memcached
