import Mathlib.Algebra.BigOperators.Fin
import Memcached.Lib.Transition
import Memcached.Maintenance

/-! # Connections and the server

Any number of connections whose commands run section by section: each section holds its item's
lock, sections of different connections come in any order. A connection holds references to items
between its sections; formatting a response reads an item outside every section.

* **`World`** — the store and the connections.
* **`Op`**, **`World.exec`** — what the server does next.
* **`World.Safe`**, **`World.SafeStep`** — steps that go well. -/

namespace Memcached

open CNumber (Bytes)

/-! ## State -/

/-- The references to items one connection holds. -/
structure Conn where
  /-- The item being uploaded, in `c->item`. -/
  item : Option Ptr := none
  /-- The items looked up for a response that is not formatted yet. -/
  fetched : List Ptr := []
  /-- All others: `c->ilist`, the `c->item` of a binary response, and the item at hand. -/
  held : List Ptr := []
  deriving DecidableEq, Repr, Inhabited

namespace Conn

variable (c : Conn) (p : Ptr)

/-- Every reference of the connection. -/
def refs : List Ptr := c.item.toList ++ c.fetched ++ c.held

/-- What a lookup returned is kept, for a response or not. -/
def take (response : Bool) : Option Ptr → Conn
  | none => c
  | some p => if response then { c with fetched := p :: c.fetched } else { c with held := p :: c.held }

/-- The response line of an item has been formatted. -/
def formatted : Conn := { c with fetched := c.fetched.erase p, held := p :: c.held }

/-- A reference is given up. -/
def drop : Conn :=
  if p ∈ c.held then { c with held := c.held.erase p } else { c with fetched := c.fetched.erase p }

/-- The upload is over; the item is still at hand. -/
def uploaded : Conn := { c with item := none, held := c.item.toList ++ c.held }

/-- A connection that takes an item refers to it. -/
theorem refs_take (b : Bool) : (c.take b (some p)).refs.Perm (p :: c.refs) := by
  cases b with
  | true =>
      simp only [take, refs, if_true, List.append_assoc]
      exact List.perm_middle
  | false =>
      simp only [take, refs, Bool.false_eq_true, if_false]
      exact List.perm_middle

/-- Formatting an item moves a reference. -/
theorem refs_formatted {c : Conn} {p : Ptr} (h : p ∈ c.fetched) :
    (c.formatted p).refs.Perm c.refs := by
  simp only [formatted, refs, List.append_assoc]
  refine List.Perm.append_left _ (List.perm_middle.trans ?_)
  rw [← List.cons_append]
  exact (List.perm_cons_erase h).symm.append_right _

/-- A connection that drops an item refers to it once less. -/
theorem refs_drop {c : Conn} {p : Ptr} (h : p ∈ c.fetched ++ c.held) :
    c.refs.Perm (p :: (c.drop p).refs) := by
  simp only [drop, refs]
  split
  · rename_i hm
    exact ((List.perm_cons_erase hm).append_left _).trans List.perm_middle
  · rename_i hm
    have hf : p ∈ c.fetched := (List.mem_append.mp h).resolve_right hm
    simp only [List.append_assoc]
    refine List.Perm.trans ?_ List.perm_middle
    refine List.Perm.append_left _ ?_
    rw [← List.cons_append]
    exact (List.perm_cons_erase hf).append_right _

/-- Completing an upload moves a reference. -/
theorem refs_uploaded : c.uploaded.refs.Perm c.refs := by
  simp only [uploaded, refs, Option.toList_none, List.nil_append]
  rw [← List.append_assoc]
  exact (List.perm_append_comm).append_right _

end Conn

/-- The server: its store, and `n` connections. -/
structure World (n : ℕ) where
  store : Store
  conns : Fin n → Conn

/-- The server at start-up. -/
def World.init (n : ℕ) : World n := ⟨Store.init, fun _ => {}⟩

/-! ## Steps -/

/-- A section of a command, or a step of another thread. -/
inductive Op (n : ℕ)
  /-- `item_alloc` for an upload. -/
  | itemAlloc (i : Fin n) (key : Bytes) (flags : ℤ) (exptime nbytes : ℕ) (env : AllocEnv)
  /-- The value arrives; `ITEM_set_cas` has stored the CAS id of the request. -/
  | nread (i : Fin n) (d : Bytes) (cas : ℕ)
  /-- `store_item`, after the check of `complete_nread` for CRLF. -/
  | storeItem (i : Fin n) (comm : Comm) (env : AllocEnv)
  /-- `item_remove(c->item)`: the upload is dropped. -/
  | dropItem (i : Fin n)
  /-- `item_get`, for a response or for another use. -/
  | itemGet (i : Fin n) (key : Bytes) (response : Bool)
  /-- `item_touch`. -/
  | itemTouch (i : Fin n) (key : Bytes) (exptime : ℕ) (response : Bool)
  /-- The response for an item is formatted: `ITEM_get_cas` and the value are read. -/
  | respond (i : Fin n) (p : Ptr)
  /-- `item_update`. -/
  | itemUpdate (i : Fin n) (p : Ptr)
  /-- `item_unlink`. -/
  | itemUnlink (i : Fin n) (p : Ptr)
  /-- `item_remove`. -/
  | itemRemove (i : Fin n) (p : Ptr)
  /-- `add_delta`. -/
  | addDelta (i : Fin n) (key : Bytes) (incr : Bool) (delta reqCas : ℕ) (env : AllocEnv)
      (beyond : Bytes)
  /-- `flush_all`. -/
  | flushAll (exptime : ℤ)
  /-- `lru_crawler crawl`, one class. -/
  | lruCrawl (sid tocrawl : ℕ)
  /-- A round of the crawler on one class. -/
  | crawl (sid : ℕ) (trylock : Bool)
  /-- `clock_handler`. -/
  | clock (now : ℕ)
  /-- The slab mover turns to a page, or away from it. -/
  | rebalance (signal slabStart slabEnd : ℕ)

/-- What a step tells its client. -/
inductive Reply
  | none
  | item (o : Option Ptr)
  | stored (r : StoreItemType) (cas : Option ℕ)
  | value (key : Bytes) (cas : ℕ) (data : Bytes)
  | delta (r : DeltaResultType) (v : Option (ℕ × ℕ))
  deriving DecidableEq

variable {n : ℕ}

namespace World

variable (cfg : Settings) (w : World n)

/-- A new store, and new references of connection `i`. -/
def put (i : Fin n) (s : Store) (c : Conn) : World n := ⟨s, Function.update w.conns i c⟩

/-- A new store only. -/
def putStore (s : Store) : World n := { w with store := s }

/-- **One step of the server.** -/
def exec : Op n → World n × Reply
  | .itemAlloc i key flags exptime nbytes env =>
      match w.store.doItemAlloc cfg env key flags exptime nbytes 0 with
      | (s, o) => (w.put i s { w.conns i with item := o }, .item o)
  | .nread i d cas =>
      match (w.conns i).item with
      | some it => (w.putStore ((w.store.itemSetCas it cas).setData it d), .none)
      | none => (w, .none)
  | .storeItem i comm env =>
      match (w.conns i).item with
      | some it =>
          match w.store.doStoreItem cfg env it comm (cfg.hash (w.store.key it)) with
          | (s, r, cas) => (w.put i s (w.conns i).uploaded, .stored r cas)
      | none => (w, .none)
  | .dropItem i =>
      match (w.conns i).item with
      | some it => (w.put i (w.store.doItemRemove cfg it) { w.conns i with item := none }, .none)
      | none => (w, .none)
  | .itemGet i key response =>
      match w.store.doItemGet cfg key (cfg.hash key) with
      | (s, o) => (w.put i s ((w.conns i).take response o), .item o)
  | .itemTouch i key exptime response =>
      match w.store.doItemTouch cfg key exptime (cfg.hash key) with
      | (s, o) => (w.put i s ((w.conns i).take response o), .item o)
  | .respond i p =>
      (w.put i w.store ((w.conns i).formatted p),
        .value (w.store.key p) (w.store.itemGetCas p) (w.store.data p))
  | .itemUpdate _ p => (w.putStore (w.store.doItemUpdate p), .none)
  | .itemUnlink _ p =>
      (w.putStore (w.store.doItemUnlink cfg p (cfg.hash (w.store.key p))), .none)
  | .itemRemove i p => (w.put i (w.store.doItemRemove cfg p) ((w.conns i).drop p), .none)
  | .addDelta _ key incr delta reqCas env beyond =>
      match w.store.doAddDelta cfg env beyond key incr delta reqCas (cfg.hash key) with
      | (s, r, v) => (w.putStore s, .delta r v)
  | .flushAll exptime => (w.putStore (w.store.flushAll cfg exptime), .none)
  | .lruCrawl sid tocrawl => (w.putStore (w.store.crawlStart sid tocrawl), .none)
  | .crawl sid trylock => (w.putStore (w.store.crawlStep cfg trylock sid), .none)
  | .clock now => (w.putStore { w.store with currentTime := now }, .none)
  | .rebalance signal slabStart slabEnd =>
      (w.putStore { w.store with
        slabRebalanceSignal := signal
        slabRebal := { w.store.slabRebal with slabStart := slabStart, slabEnd := slabEnd } }, .none)

/-- **When a step can be taken**: a connection uploads one item at a time, a value has the length
announced, `store_item` comes after the check for CRLF, a connection acts on items it holds, the
clock does not run backwards, and `malloc` returns fresh memory. -/
def Enabled : Op n → Prop
  | .itemAlloc i key flags _ nbytes env =>
      (w.conns i).item = none ∧ 2 ≤ nbytes ∧
        env.Fresh cfg w.store (slabsClsidOf cfg (Store.allocNtotal cfg key flags nbytes))
  | .nread i d _ => ∃ it, (w.conns i).item = some it ∧ d.length = w.store.nbytes it
  | .storeItem i _ env =>
      ∃ it, (w.conns i).item = some it ∧ (∃ v, w.store.data it = v ++ crlf) ∧
        ∀ p, w.store.Linked p → w.store.key p = w.store.key it →
          env.Fresh cfg w.store (slabsClsidOf cfg (Store.allocNtotal cfg (w.store.key it)
            (w.store.suffixFlags p) (w.store.nbytes it + w.store.nbytes p - 2)))
  | .dropItem i => (w.conns i).item.isSome
  | .respond i p => p ∈ (w.conns i).fetched
  | .itemUpdate i p | .itemUnlink i p | .itemRemove i p =>
      p ∈ (w.conns i).fetched ++ (w.conns i).held
  | .addDelta _ key incr delta _ env beyond =>
      ∀ p value, w.store.Linked p → w.store.key p = key →
        CNumber.safeStrtoull (w.store.data p ++ beyond) = some value →
        env.Fresh cfg w.store (slabsClsidOf cfg (Store.allocNtotal cfg key (w.store.deltaFlags p)
          ((CNumber.decDigits (deltaValue incr value delta)).length + 2)))
  | .clock now => w.store.currentTime ≤ now
  | .rebalance signal slabStart slabEnd => signal = 0 → slabStart = 0 ∧ slabEnd = 0
  | _ => True

/-- **A step of the server**, labelled with what is done and what is answered. -/
def Step (w : World n) (l : Op n × Reply) (w' : World n) : Prop :=
  w.Enabled cfg l.1 ∧ w.exec cfg l.1 = (w', l.2)

/-- The key of the item connection `i` uploads. -/
def uploadKey (i : Fin n) (key : Bytes) : Prop :=
  ∃ it, (w.conns i).item = some it ∧ key = w.store.key it

/-- The keys a step is about. -/
def About : Op n → Bytes → Prop
  | .itemAlloc _ key _ _ _ _ | .itemGet _ key _ | .itemTouch _ key _ _
  | .addDelta _ key _ _ _ _ _ => (· = key)
  | .storeItem i _ _ => w.uploadKey i
  | .itemUnlink _ p => (· = w.store.key p)
  | _ => fun _ => False

/-- The keys a step may link an item under. -/
def Links : Op n → Bytes → Prop
  | .storeItem i _ _ => w.uploadKey i
  | .addDelta _ key _ _ _ _ _ => (· = key)
  | _ => fun _ => False

/-- The item that a step stores or writes for its connection. -/
def mine : Op n → Option Ptr
  | .nread i _ _ | .storeItem i _ _ => (w.conns i).item
  | _ => none

/-- The items whose access time a step may renew, other than one it has looked up. -/
def busy : Op n → List Ptr
  | .itemAlloc _ key flags _ nbytes env => w.store.allocBusy cfg env key flags nbytes 0
  | .storeItem i comm env =>
      match (w.conns i).item with
      | some it => w.store.storeBusy cfg env it comm (cfg.hash (w.store.key it))
      | none => []
  | .addDelta _ key incr delta reqCas env beyond =>
      w.store.deltaBusy cfg env beyond key incr delta reqCas (cfg.hash key)
  | .itemUpdate _ p => [p]
  | _ => []

/-- The references that all connections hold. -/
def ghost : Ghost := ⟨fun p => ∑ i, (w.conns i).refs.count p, none⟩

/-- **A step that goes well**: a reference is taken only while the counter has room for it, tail
repair finds no reference to give away, and a class is crawled by one crawler at a time. -/
def Safe : Op n → Prop
  | .itemAlloc _ _ _ _ _ _ => w.store.NoRepair cfg w.ghost 0
  | .storeItem i _ _ => ∀ key, w.uploadKey i key →
      w.store.Room cfg key ∧ w.store.NoRepair cfg w.ghost (cfg.hash key)
  | .itemGet _ key _ | .itemTouch _ key _ _ => w.store.Room cfg key
  | .addDelta _ key _ _ _ _ _ =>
      w.store.Room cfg key ∧ w.store.NoRepair cfg w.ghost (cfg.hash key)
  | .lruCrawl sid _ => (w.store.itFlags (.crawler sid)).linked = false
  | _ => True

/-! ## Scripts -/

/-- Take the steps of a script one after the other; the answers are recorded. -/
def execs (w : World n) : List (Op n) → World n × List (Op n × Reply)
  | [] => (w, [])
  | op :: ops =>
      let r := w.exec cfg op
      let t := execs r.1 ops
      (t.1, (op, r.2) :: t.2)

/-- A check that suffices for `Enabled`, where no memory is needed. -/
def ready : Op n → Bool
  | .itemAlloc i _ _ _ nbytes env =>
      decide ((w.conns i).item = none) && decide (2 ≤ nbytes) && decide (env.page = none)
  | .nread i d _ =>
      match (w.conns i).item with
      | some it => decide (d.length = w.store.nbytes it)
      | none => false
  | .storeItem i _ env =>
      match (w.conns i).item with
      | some it => decide (crlf <:+ w.store.data it) && decide (env.page = none)
      | none => false
  | .dropItem i => (w.conns i).item.isSome
  | .respond i p => decide (p ∈ (w.conns i).fetched)
  | .itemUpdate i p | .itemUnlink i p | .itemRemove i p =>
      decide (p ∈ (w.conns i).fetched ++ (w.conns i).held)
  | .addDelta _ _ _ _ _ env _ => decide (env.page = none)
  | .clock now => decide (w.store.currentTime ≤ now)
  | .rebalance signal slabStart slabEnd =>
      decide (signal = 0 → slabStart = 0 ∧ slabEnd = 0)
  | _ => true

/-- The item with the key, if there is one, has room for a reference. -/
def roomy (key : Bytes) : Bool :=
  match w.store.assocFind key (cfg.hash key) with
  | some p => decide (w.store.refcount p + 1 < refcountModulus)
  | none => true

/-- A check that suffices for `Safe`, tail repair being off. -/
def safe : Op n → Bool
  | .storeItem i _ _ =>
      match (w.conns i).item with
      | some it => w.roomy cfg (w.store.key it)
      | none => true
  | .itemGet _ key _ | .itemTouch _ key _ _ | .addDelta _ key _ _ _ _ _ => w.roomy cfg key
  | .lruCrawl sid _ => !(w.store.itFlags (.crawler sid)).linked
  | _ => true

/-- Every step of a script passes the check `P` when its turn comes. -/
def checkAll (P : World n → Op n → Bool) (w : World n) : List (Op n) → Bool
  | [] => true
  | op :: ops => P w op && checkAll P (w.exec cfg op).1 ops

variable {cfg w} {w' : World n}

/-- The check that a script runs is enough for a step to be enabled. -/
theorem enabled_of_ready {op : Op n} (h : w.ready op = true) : w.Enabled cfg op := by
  have hfresh : ∀ {env : AllocEnv} {s : Store} {id : ℕ}, env.page = none → env.Fresh cfg s id :=
    fun he ptr hptr => absurd (he.symm.trans hptr) (by simp)
  cases op with
  | itemAlloc i key flags exptime nbytes env =>
      simp only [ready, Bool.and_eq_true, decide_eq_true_eq] at h
      exact ⟨h.1.1, h.1.2, hfresh h.2⟩
  | nread i d cas =>
      simp only [ready] at h
      split at h
      · rename_i it hi
        exact ⟨it, hi, by simpa using h⟩
      · exact absurd h (by simp)
  | storeItem i comm env =>
      simp only [ready] at h
      split at h
      · rename_i it hi
        simp only [Bool.and_eq_true, decide_eq_true_eq] at h
        exact ⟨it, hi, ⟨h.1.choose, h.1.choose_spec.symm⟩, fun p _ _ => hfresh h.2⟩
      · exact absurd h (by simp)
  | dropItem i => exact h
  | respond i p | itemUpdate i p | itemUnlink i p | itemRemove i p =>
      simp only [ready, decide_eq_true_eq] at h
      exact h
  | addDelta i key incr delta reqCas env beyond =>
      exact fun p value _ _ _ => hfresh (by simpa [ready] using h)
  | clock now | rebalance signal slabStart slabEnd =>
      simp only [ready, decide_eq_true_eq] at h
      exact h
  | _ => trivial

/-- The check that a script runs is enough for the counter to have room. -/
theorem room_of_roomy {key : Bytes} (h : w.roomy cfg key = true) : w.store.Room cfg key := by
  intro p hp
  rw [roomy, hp] at h
  exact of_decide_eq_true h

/-- The check that a script runs is enough for a step to be safe. -/
theorem safe_of_check {op : Op n} (hrep : cfg.tailRepairTime = 0) (h : w.safe cfg op = true) :
    w.Safe cfg op := by
  cases op with
  | storeItem i comm env =>
      rintro key ⟨it, hi, rfl⟩
      simp only [safe, hi] at h
      exact ⟨room_of_roomy h, Or.inl hrep⟩
  | itemGet i key response | itemTouch i key exptime response => exact room_of_roomy h
  | addDelta i key incr delta reqCas env beyond => exact ⟨room_of_roomy h, Or.inl hrep⟩
  | lruCrawl sid tocrawl =>
      simp only [safe, Bool.not_eq_true'] at h
      exact h
  | itemAlloc => exact Or.inl hrep
  | _ => trivial

/-- **A script that passes its checks is a run.** -/
theorem run_execs {P : World n → Op n → Bool} {S : World n → Op n → Prop}
    (hP : ∀ w op, P w op = true → w.ready op = true ∧ S w op) {ops : List (Op n)}
    (h : w.checkAll cfg P ops = true) :
    Transition.Run (fun w l w' => w.Step cfg l w' ∧ S w l.1) w (w.execs cfg ops).2
      (w.execs cfg ops).1 := by
  induction ops generalizing w with
  | nil => exact .nil
  | cons op ops ih =>
      -- the check of a script goes along with its execution
      rw [checkAll, Bool.and_eq_true] at h
      obtain ⟨hr, hS⟩ := hP w op h.1
      exact .cons ⟨⟨enabled_of_ready hr, rfl⟩, hS⟩ (ih h.2)

/-- A step that goes well. -/
def SafeStep (cfg : Settings) (w : World n) (l : Op n × Reply) (w' : World n) : Prop :=
  w.Step cfg l w' ∧ w.Safe cfg l.1

/-- A script whose steps go well. -/
theorem run_execs_safe (ops : List (Op n)) (hrep : cfg.tailRepairTime = 0)
    (h : w.checkAll cfg (fun w op => w.ready op && w.safe cfg op) ops = true) :
    Transition.Run (SafeStep cfg) w (w.execs cfg ops).2 (w.execs cfg ops).1 :=
  run_execs (fun w op h => by
    rw [Bool.and_eq_true] at h
    exact ⟨h.1, safe_of_check hrep h.2⟩) h

/-- A run that goes well is a run. -/
theorem run_of_safe {ls : List (Op n × Reply)} (h : Transition.Run (SafeStep cfg) w ls w') :
    Transition.Run (Step cfg) w ls w' :=
  h.mono (P := fun _ => True) trivial fun _ h => ⟨h.1, trivial⟩

end World

/-- A configuration with small pages, for scripts. -/
def Settings.small : Settings where
  useCas := true
  evictToFree := true
  tailRepairTime := 0
  slabAutomove := 0
  slabReassign := false
  itemSizeMax := 1024
  memLimit := 1024
  processStarted := 0
  hash key := key.length
  slabSize _ := 128
  perslab _ := 8
  powerLargest := 2
  slabSize_pos _ := by decide
  perslab_fits _ := by decide
  powerLargest_lt := two_lt_largestId

/-- Allocation without contention that gets `page` when it asks for memory. -/
def AllocEnv.quick (page : Option ℕ) : AllocEnv :=
  { trylock := fun _ => true, reallocOk := true, page := page, rebalLockFree := true }

/-- The first allocation of all, which gets the page at address 0. -/
theorem World.step_first {i : Fin n} (cfg : Settings) (key : Bytes) (flags : ℤ) (exptime : ℕ)
    {nbytes : ℕ} (hn : 2 ≤ nbytes) :
    (World.init n).Step cfg
      (.itemAlloc i key flags exptime nbytes (.quick (some 0)),
        ((World.init n).exec cfg (.itemAlloc i key flags exptime nbytes (.quick (some 0)))).2)
      ((World.init n).exec cfg (.itemAlloc i key flags exptime nbytes (.quick (some 0)))).1 :=
  ⟨⟨rfl, hn, fun _ _ _ base hb => absurd hb (by simp [World.init, Store.init])⟩, rfl⟩

/-- The chunk that the first allocation with `Settings.small` returns. -/
def firstChunk : Ptr := .chunk 896

/-- A connection stores the item at `p`, and lets go of it. -/
def uploadOps (i : Fin n) (p : Ptr) (comm : Comm) (d : Bytes) (cas : ℕ) : List (Op n) :=
  [.nread i d cas, .storeItem i comm (.quick none), .itemRemove i p]

/-- The server after connection `i` has set `key` to `d`. -/
def World.seeded (i : Fin n) (key d : Bytes) : World n :=
  (((World.init n).exec .small (.itemAlloc i key 0 0 d.length (.quick (some 0)))).1.execs .small
    (uploadOps i firstChunk .set d 0)).1

/-- The first upload is a run, and it goes well. -/
theorem World.run_seeded {i : Fin n} {k d : Bytes} (hd : 2 ≤ d.length)
    (h : ((World.init n).exec .small
      (.itemAlloc i k 0 0 d.length (.quick (some 0)))).1.checkAll .small
        (fun w op => w.ready op && w.safe .small op) (uploadOps i firstChunk .set d 0) = true) :
    ∃ ls, Transition.Run (SafeStep .small) (World.init n) ls (World.seeded i k d) :=
  ⟨_, .cons ⟨step_first .small k 0 0 hd, Or.inl rfl⟩ (run_execs_safe _ rfl h)⟩

/-- The server when a first key has been set to `5` and a second one to `6`. -/
def World.twoKeys : World 1 :=
  let i : Fin 1 := Fin.last 0
  ((World.seeded i [107] [53, 13, 10]).execs .small
    (.itemAlloc i [109] 0 0 3 (.quick none) :: uploadOps i (.chunk 768) .set [54, 13, 10] 0)).1

/-- Two keys are stored by a safe run. -/
theorem World.run_twoKeys : ∃ ls, Transition.Run (SafeStep .small) (World.init 1) ls World.twoKeys := by
  obtain ⟨ls, hrun⟩ := World.run_seeded (n := 1) (i := 0) (k := [107]) (d := [53, 13, 10])
    (by decide) (by decide +kernel)
  exact ⟨_, hrun.append (run_execs_safe _ rfl (by decide +kernel))⟩

end Memcached
