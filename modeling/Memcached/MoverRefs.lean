import Memcached.Lib.Transition
import Memcached.Mover

/-! # The references to the chunks of a page that is moved

The sections that hold an item lock, of the workers and of `slab_rebalance_move`, take turns on the
chunks of one page; the mover gives its own reference back only after it has let go of the lock. The
workers are not held back by `cache_lock` and `slabs_lock`, which the mover has all the time: there
are more interleavings here than there. `tail_repair_time` is 0, as it is by default.

* **`Chunk`** — the fields of a chunk that the references are counted in.
* **`chunkAt_visitChunk`** — its steps are those of the store.
* **`Lost`** — a chunk that nobody refers to, and that is neither free nor taken by the mover.
* **`mover_loses_nothing`** — in which runs no item is lost. -/

namespace Memcached

open Transition (Run)

/-! ## One chunk -/

/-- A chunk of the page. -/
structure Chunk where
  refcount : ℕ
  /-- `ITEM_LINKED`. -/
  linked : Bool
  /-- `ITEM_SLABBED`. -/
  slabbed : Bool
  slabsClsid : ℕ
  /-- It is in the free list of its class. -/
  free : Bool
  /-- The references that workers have. -/
  handles : ℕ
  deriving DecidableEq

namespace Chunk

/-- A chunk of a new page. -/
def fresh : Chunk where
  refcount := 0
  linked := false
  slabbed := true
  slabsClsid := 0
  free := true
  handles := 0

/-- The count after `refcount_incr`, an `unsigned short` that wraps around. -/
def incrCount (n : ℕ) : ℕ := if n + 1 = refcountModulus then 0 else n + 1

/-- The count after `refcount_decr`. -/
def decrCount (n : ℕ) : ℕ := if n = 0 then refcountModulus - 1 else n - 1

/-- `refcount_incr`. -/
def refcountIncr (c : Chunk) : Chunk := { c with refcount := incrCount c.refcount }

/-- `refcount_decr`. -/
def refcountDecr (c : Chunk) : Chunk := { c with refcount := decrCount c.refcount }

/-- `item_free`, in a class that exists. -/
def itemFree (c : Chunk) : Chunk := { c with slabsClsid := 0, slabbed := true, free := true }

/-- `do_item_remove`. -/
def doItemRemove (c : Chunk) : Chunk :=
  if c.refcountDecr.refcount = 0 then c.refcountDecr.itemFree else c.refcountDecr

/-- `do_item_unlink`, and `do_item_unlink_nolock`. -/
def doItemUnlink (c : Chunk) : Chunk :=
  if c.linked then { c with linked := false }.doItemRemove else c

/-- What a worker does to a chunk under the item's lock. -/
inductive Section
  /-- `do_item_alloc`, with a chunk from the free list. -/
  | alloc
  /-- `do_item_alloc`, with an item from the tail of its LRU list. -/
  | steal
  /-- `do_item_get` finds the item, which may be dead; so does the LRU crawler. -/
  | get (dead : Bool)
  /-- `do_item_link`. -/
  | link
  /-- `do_item_unlink`. -/
  | unlink
  /-- `item_remove`. -/
  | remove
  deriving DecidableEq

/-- A section of a worker, where it can be. An item of the page that is moved is not handed out. -/
def work (moving : Bool) (id : ℕ) (c : Chunk) : Section → Option Chunk
  | .alloc =>
      if c.free then
        some { c with
          free := false
          slabbed := false
          refcount := 1
          slabsClsid := id
          handles := c.handles + 1 }
      else none
  | .steal =>
      if c.linked ∧ c.refcountIncr.refcount = 2 then
        some { c.refcountIncr.doItemUnlink.refcountDecr with
          refcount := 1
          slabsClsid := id
          handles := c.handles + 1 }
      else none
  | .get dead =>
      if c.linked then
        some (if moving || dead then c.refcountIncr.doItemUnlink.doItemRemove
          else { c.refcountIncr with handles := c.handles + 1 })
      else none
  | .link =>
      if 0 < c.handles ∧ c.linked = false then some { c.refcountIncr with linked := true } else none
  | .unlink => if c.linked then some c.doItemUnlink else none
  | .remove =>
      if 0 < c.handles then some { c with handles := c.handles - 1 }.doItemRemove else none

/-- What `slab_rebalance_move` does between `item_trylock` and `item_trylock_unlock`. -/
def move (c : Chunk) : Chunk × MoveStatus :=
  if c.refcountIncr.refcount = 1 then
    if c.slabbed then ({ c.refcountIncr with free := false }, .done) else (c.refcountIncr, .busy)
  else if c.refcountIncr.refcount = 2 then
    if c.linked then (c.refcountIncr.doItemUnlink, .done) else (c.refcountIncr, .busy)
  else (c.refcountIncr, .busy)

/-- The turn of a chunk up to the `switch`. -/
def visit (c : Chunk) (trylock : Bool) : Chunk × MoveStatus :=
  if c.slabsClsid = 255 then (c, .pass)
  else if trylock = false then (c, .locked)
  else c.move

/-- The `switch`. -/
def settle (c : Chunk) : MoveStatus → Chunk
  | .done => { c with refcount := 0, linked := false, slabbed := false, slabsClsid := 255 }
  | .busy => c.refcountDecr
  | .locked | .pass => c

end Chunk

/-! ## The chunk in the store -/

namespace Store

/-- What workers and mover see of the chunk `it`; the free list and the references that workers have
are not in the chunk. -/
def chunkAt (s : Store) (it : Ptr) (free : Bool) (handles : ℕ) : Chunk where
  refcount := s.refcount it
  linked := (s.itFlags it).linked
  slabbed := (s.itFlags it).slabbed
  slabsClsid := s.slabsClsid it
  free := free
  handles := handles

variable {cfg : Settings} {s : Store} {it : Ptr}

/-- `refcount_incr`, of the store and of the chunk. -/
theorem chunkAt_refcountIncr (h : s.refcount it < refcountModulus) (free : Bool)
    (handles : ℕ) :
    (s.refcountIncr it).chunkAt it free handles = (s.chunkAt it free handles).refcountIncr := by
  have hcount : (s.refcount it + 1) % refcountModulus = Chunk.incrCount (s.refcount it) := by
    unfold Chunk.incrCount
    split
    · rename_i he
      rw [he, Nat.mod_self]
    · exact Nat.mod_eq_of_lt (by omega)
  unfold chunkAt Store.refcountIncr Chunk.refcountIncr
  simp only [Function.update_self, hcount]

/-- `refcount_decr`, of the store and of the chunk. -/
theorem chunkAt_refcountDecr (h : s.refcount it < refcountModulus) (free : Bool)
    (handles : ℕ) :
    (s.refcountDecr it).chunkAt it free handles = (s.chunkAt it free handles).refcountDecr := by
  have hcount : (s.refcount it + (refcountModulus - 1)) % refcountModulus
      = Chunk.decrCount (s.refcount it) := by
    unfold Chunk.decrCount
    split
    · rename_i he
      rw [he, Nat.zero_add]
      exact Nat.mod_eq_of_lt (Nat.sub_lt (by decide) (by decide))
    · have hadd : s.refcount it + (refcountModulus - 1) = s.refcount it - 1 + refcountModulus := by
        omega
      rw [hadd, Nat.add_mod_right]
      exact Nat.mod_eq_of_lt (by omega)
  unfold chunkAt Store.refcountDecr Chunk.refcountDecr
  simp only [Function.update_self, hcount]

/-- `item_free` in a class that exists. -/
theorem chunkAt_itemFree (h : 1 ≤ s.slabsClsid it ∧ s.slabsClsid it ≤ cfg.powerLargest)
    (free : Bool) (handles : ℕ) :
    (s.itemFree cfg it).chunkAt it true handles = (s.chunkAt it free handles).itemFree := by
  have hid : ¬ (s.slabsClsid it < 1 ∨ s.slabsClsid it > cfg.powerLargest) := by omega
  unfold Store.itemFree Store.doSlabsFree
  rw [if_neg hid]
  simp [chunkAt, Chunk.itemFree, ItFlags.setSlabbed]

/-- **`do_item_remove`** is the one of the chunk. -/
theorem chunkAt_doItemRemove (h : s.refcount it < refcountModulus)
    (hid : 1 ≤ s.slabsClsid it ∧ s.slabsClsid it ≤ cfg.powerLargest) (free : Bool)
    (handles : ℕ) :
    ∃ free', (s.doItemRemove cfg it).chunkAt it free' handles
      = (s.chunkAt it free handles).doItemRemove := by
  have hd := chunkAt_refcountDecr h free handles
  have hcount : (s.refcountDecr it).refcount it = (s.chunkAt it free handles).refcountDecr.refcount :=
    congrArg Chunk.refcount hd
  unfold Store.doItemRemove Chunk.doItemRemove
  dsimp only
  rw [hcount]
  split
  · refine ⟨true, ?_⟩
    rw [chunkAt_itemFree (by exact hid) free handles, hd]
  · exact ⟨free, hd⟩

/-- What the hash table does apart, unlinking changes statistics, flags and the LRU list. -/
theorem unlinkIndex_frame (s : Store) (it : Ptr) (hv : ℕ) : ∃ a b n, s.unlinkIndex it hv =
    ({ s.unlinkStats it with hNext := a, hashtable := b, hashItems := n } : Store).itemUnlinkQ it := by
  obtain ⟨a, b, n, e⟩ := assocDelete_frame (s := s.unlinkStats it) ((s.unlinkStats it).key it) hv
  exact ⟨a, b, n, congrArg (fun u : Store => u.itemUnlinkQ it) e⟩

/-- Unlinking, of the store and of the chunk. -/
theorem chunkAt_unlinkIndex (hv : ℕ) (free : Bool) (handles : ℕ) :
    (s.unlinkIndex it hv).chunkAt it free handles
      = { s.chunkAt it free handles with linked := false } := by
  obtain ⟨a, b, n, e⟩ := unlinkIndex_frame s it hv
  rw [e]
  simp [chunkAt, Store.itemUnlinkQ, Store.unlinkStats, Store.setFlags]

/-- **`do_item_unlink`** is the one of the chunk. -/
theorem chunkAt_doItemUnlink (h : s.refcount it < refcountModulus)
    (hid : (s.itFlags it).linked = true →
      1 ≤ s.slabsClsid it ∧ s.slabsClsid it ≤ cfg.powerLargest) (hv : ℕ) (free : Bool)
    (handles : ℕ) :
    ∃ free', (s.doItemUnlink cfg it hv).chunkAt it free' handles
      = (s.chunkAt it free handles).doItemUnlink := by
  unfold Store.doItemUnlink Chunk.doItemUnlink
  have hlinked : (s.chunkAt it free handles).linked = (s.itFlags it).linked := rfl
  rw [hlinked]
  split
  · rename_i hl
    have hu : (s.unlinkIndex it hv).chunkAt it free handles
        = { s.chunkAt it free handles with linked := false } := chunkAt_unlinkIndex hv free handles
    rw [← hu]
    refine chunkAt_doItemRemove ?_ ?_ free handles
    · have hcount : (s.unlinkIndex it hv).refcount it = s.refcount it := congrArg Chunk.refcount hu
      rw [hcount]
      exact h
    · have hcls : (s.unlinkIndex it hv).slabsClsid it = s.slabsClsid it :=
        congrArg Chunk.slabsClsid hu
      rw [hcls]
      exact hid hl
  · exact ⟨free, rfl⟩

/-- **What the mover does under the item's lock** is what it does to the chunk. -/
theorem chunkAt_moveChunk (h : s.refcount it < refcountModulus)
    (hid : (s.itFlags it).linked = true →
      1 ≤ s.slabsClsid it ∧ s.slabsClsid it ≤ cfg.powerLargest) (id : ℕ) (free : Bool)
    (handles : ℕ) :
    (s.moveChunk cfg it id).2 = (s.chunkAt it free handles).move.2 ∧
      ∃ free', (s.moveChunk cfg it id).1.chunkAt it free' handles
        = (s.chunkAt it free handles).move.1 := by
  have hi := chunkAt_refcountIncr h free handles
  have hcount : (s.refcountIncr it).refcount it = (s.chunkAt it free handles).refcountIncr.refcount :=
    congrArg Chunk.refcount hi
  have hlt : (s.refcountIncr it).refcount it < refcountModulus := by
    simp only [Store.refcountIncr, Function.update_self]
    exact Nat.mod_lt _ (by decide)
  unfold Store.moveChunk Chunk.move
  dsimp only
  rw [hcount]
  have hslabbed : ((s.refcountIncr it).itFlags it).slabbed = (s.chunkAt it free handles).slabbed :=
    rfl
  have hlinked : ((s.refcountIncr it).itFlags it).linked = (s.chunkAt it free handles).linked := rfl
  rw [hslabbed, hlinked]
  split
  · split
    · refine ⟨rfl, false, ?_⟩
      rw [← hi]
      rfl
    · exact ⟨rfl, free, hi⟩
  · split
    · split
      · refine ⟨rfl, ?_⟩
        rw [← hi]
        exact chunkAt_doItemUnlink hlt (by exact hid) _ free handles
      · exact ⟨rfl, free, hi⟩
    · exact ⟨rfl, free, hi⟩

/-- **How the mover settles a chunk.** -/
theorem chunkAt_settleChunk {st : MoveStatus}
    (h : st = .busy → s.refcount it < refcountModulus) (free : Bool) (handles : ℕ) :
    (s.settleChunk it st).chunkAt it free handles = (s.chunkAt it free handles).settle st := by
  cases st with
  | pass | locked => rfl
  | done => simp [Store.settleChunk, chunkAt, Chunk.settle]
  | busy => exact chunkAt_refcountDecr (h rfl) free handles

/-- A chunk that the mover leaves alone has a count in range. -/
theorem refcount_lt_of_busy {id : ℕ} (h : (s.moveChunk cfg it id).2 = .busy) :
    (s.moveChunk cfg it id).1.refcount it < refcountModulus := by
  have hlt : (s.refcountIncr it).refcount it < refcountModulus := by
    simp only [Store.refcountIncr, Function.update_self]
    exact Nat.mod_lt _ (by decide)
  unfold Store.moveChunk at h ⊢
  dsimp only at h ⊢
  split
  · split
    · rename_i h1 hs
      rw [if_pos h1, if_pos hs] at h
      exact absurd h (by simp)
    · exact hlt
  · split
    · split
      · rename_i h1 h2 hl
        rw [if_neg h1, if_pos h2, if_pos hl] at h
        exact absurd h (by simp)
      · exact hlt
    · exact hlt

/-- **A chunk's turn in `slab_rebalance_move`** is the two steps of the mover, one right after the
other. -/
theorem chunkAt_visitChunk (h : s.refcount it < refcountModulus)
    (hid : (s.itFlags it).linked = true →
      1 ≤ s.slabsClsid it ∧ s.slabsClsid it ≤ cfg.powerLargest) (id : ℕ) (trylock free : Bool)
    (handles : ℕ) :
    ∃ free', (s.visitChunk cfg it id trylock).chunkAt it free' handles
      = ((s.chunkAt it free handles).visit trylock).1.settle
          ((s.chunkAt it free handles).visit trylock).2 := by
  unfold Store.visitChunk Chunk.visit
  have hcls : (s.chunkAt it free handles).slabsClsid = s.slabsClsid it := rfl
  rw [hcls]
  split
  · exact ⟨free, rfl⟩
  · split
    · exact ⟨free, rfl⟩
    · obtain ⟨hstatus, free', hmove⟩ := chunkAt_moveChunk h hid id free handles
      refine ⟨free', ?_⟩
      dsimp only
      rw [chunkAt_settleChunk refcount_lt_of_busy, hmove, hstatus]

end Store

/-! ## The page -/

/-- A page and its mover. -/
structure PageMove where
  chunk : ℕ → Chunk
  /-- `slab_rebalance_signal`. -/
  moving : Bool
  /-- `slab_pos`, in chunks. -/
  pos : ℕ
  busyItems : ℕ
  done : Bool
  /-- The mover has let go of the item's lock, and is about to settle the chunk at `pos`. -/
  status : Option MoveStatus

namespace PageMove

/-- A new page. -/
def init : PageMove where
  chunk := fun _ => .fresh
  moving := false
  pos := 0
  busyItems := 0
  done := false
  status := none

/-- What happens next. -/
inductive Label
  /-- `slab_rebalance_start` picks the page. -/
  | start
  /-- A section of a worker. -/
  | work (i : ℕ) (op : Chunk.Section)
  /-- The mover comes to a chunk; the outcome of `item_trylock`. -/
  | visit (trylock : Bool)
  /-- The mover settles the chunk, and goes on to the next. -/
  | settle
  /-- `slab_rebalance_finish`: the page goes to another class. -/
  | finish

/-- `slab_pos` moves on; at the end of the page it starts again if an item was busy. -/
def advance (n : ℕ) (s : PageMove) : PageMove :=
  if n ≤ s.pos + 1 then
    if s.busyItems ≠ 0 then { s with pos := 0, busyItems := 0, status := none }
    else { s with pos := s.pos + 1, done := true, status := none }
  else { s with pos := s.pos + 1, status := none }

/-- **One step**, of a page of `n` chunks in class `id`. -/
def next (n id : ℕ) (s : PageMove) : Label → Option PageMove
  | .start =>
      if s.moving then none
      else some { s with moving := true, pos := 0, busyItems := 0, done := false }
  | .work i op =>
      if i < n then
        ((s.chunk i).work s.moving id op).map fun c =>
          { s with chunk := Function.update s.chunk i c }
      else none
  | .visit trylock =>
      if s.moving ∧ s.done = false ∧ s.status = none then
        let r := (s.chunk s.pos).visit trylock
        some { s with chunk := Function.update s.chunk s.pos r.1, status := some r.2 }
      else none
  | .settle =>
      match s.status with
      | none => none
      | some status =>
          let busy := decide (status = .busy ∨ status = .locked)
          some (advance n { s with
            chunk := Function.update s.chunk s.pos ((s.chunk s.pos).settle status)
            busyItems := s.busyItems + busy.toNat })
  | .finish =>
      if s.done ∧ s.status = none then
        some { s with
          chunk := fun i => { Chunk.fresh with handles := (s.chunk i).handles }
          moving := false
          done := false }
      else none

/-- A step as a relation. -/
def Step (n id : ℕ) (s : PageMove) (l : Label) (s' : PageMove) : Prop := s.next n id l = some s'

/-- **The chunk is lost**: nobody refers to it, and it is neither free nor taken by the mover. -/
def Lost (s : PageMove) (i : ℕ) : Prop :=
  (s.chunk i).linked = false ∧ (s.chunk i).handles = 0 ∧ (s.chunk i).free = false ∧
    (s.chunk i).slabsClsid ≠ 255

/-- **A step that keeps the references**: when the mover gives its reference to a busy item back,
somebody else still has one; and the count of a new reference fits. -/
def Keeps (s : PageMove) : Label → Prop
  | .work i (.get _) | .work i .link => (s.chunk i).refcount + 1 < refcountModulus
  | .visit _ => (s.chunk s.pos).refcount + 1 < refcountModulus
  | .settle => s.status = some .busy →
      (s.chunk s.pos).linked = true ∨ 0 < (s.chunk s.pos).handles
  | _ => True

end PageMove

/-! ## The references of one chunk -/

namespace Chunk

/-- Nobody has the chunk. -/
structure Idle (c : Chunk) : Prop where
  free : c.free = true
  slabbed : c.slabbed = true
  linked : c.linked = false
  handles : c.handles = 0
  refcount : c.refcount = 0
  slabsClsid : c.slabsClsid ≠ 255

/-- A chunk of a new page is idle. -/
theorem idle_fresh : fresh.Idle := ⟨rfl, rfl, rfl, rfl, rfl, by decide⟩

/-- The mover has taken the chunk out of its list. -/
structure Taken (c : Chunk) : Prop where
  free : c.free = false
  linked : c.linked = false
  handles : c.handles = 0
  slabsClsid : c.slabsClsid ≠ 255

/-- The mover has settled the chunk. -/
structure Gone (c : Chunk) : Prop where
  free : c.free = false
  linked : c.linked = false
  handles : c.handles = 0
  slabsClsid : c.slabsClsid = 255

/-- An item, with `m` references apart from those of the workers and the link. -/
structure Counted (m : ℕ) (c : Chunk) : Prop where
  free : c.free = false
  slabbed : c.slabbed = false
  slabsClsid : c.slabsClsid ≠ 255
  refcount : c.refcount = c.handles + c.linked.toNat + m
  lt : c.refcount < refcountModulus

/-- The chunk is idle, or an item that somebody refers to. -/
def Ok (m : ℕ) (c : Chunk) : Prop := (c.Idle ∧ m = 0) ∨ (c.Counted m ∧ 0 < c.refcount)

/-- **A chunk as the mover leaves it**, between its steps or within one. -/
def At : Option MoveStatus → Chunk → Prop
  | none, c => c.Ok 0 ∨ c.Gone
  | some .locked, c => c.Ok 0
  | some .pass, c => c.Gone
  | some .busy, c => c.Counted 1
  | some .done, c => c.Taken

variable {c c' : Chunk} {m : ℕ}

/-- The counter counts to one. -/
theorem one_lt_refcountModulus : 1 < refcountModulus := by decide

/-- A count that fits is one more. -/
theorem incrCount_eq {n : ℕ} (h : n + 1 < refcountModulus) : incrCount n = n + 1 :=
  if_neg h.ne

/-- A count above zero is one less. -/
theorem decrCount_eq {n : ℕ} (h0 : 0 < n) : decrCount n = n - 1 := if_neg h0.ne'

/-- A counter is not a reference. -/
@[simp] theorem handles_refcountIncr (c : Chunk) : c.refcountIncr.handles = c.handles := rfl

/-- A counter is not the flag. -/
@[simp] theorem linked_refcountIncr (c : Chunk) : c.refcountIncr.linked = c.linked := rfl

/-- A counter is not a reference. -/
@[simp] theorem handles_refcountDecr (c : Chunk) : c.refcountDecr.handles = c.handles := rfl

/-- A counter is not the flag. -/
@[simp] theorem linked_refcountDecr (c : Chunk) : c.refcountDecr.linked = c.linked := rfl

/-- One more reference is counted, where the counter has room. -/
theorem Counted.incr (h : c.Counted m) (hfits : c.refcount + 1 < refcountModulus) :
    c.refcountIncr.Counted (m + 1) ∧ c.refcountIncr.refcount = c.refcount + 1 := by
  have hmod : c.refcountIncr.refcount = c.refcount + 1 := incrCount_eq hfits
  refine ⟨⟨h.free, h.slabbed, h.slabsClsid, ?_, ?_⟩, hmod⟩
  · rw [hmod, h.refcount, handles_refcountIncr, linked_refcountIncr, Nat.add_assoc]
  · rw [hmod]
    exact hfits

/-- One reference less is counted. -/
theorem Counted.decr (h : c.Counted (m + 1)) :
    c.refcountDecr.Counted m ∧ c.refcountDecr.refcount = c.refcount - 1 := by
  have hlt := h.lt
  have hcount := h.refcount
  have hmod : c.refcountDecr.refcount = c.refcount - 1 := decrCount_eq (by omega)
  refine ⟨⟨h.free, h.slabbed, h.slabsClsid, ?_, ?_⟩, hmod⟩
  · rw [hmod, hcount, handles_refcountDecr, linked_refcountDecr]
    omega
  · rw [hmod]
    omega

/-- **`do_item_remove` gives a reference back**: the last one frees the item. -/
theorem Counted.remove (h : c.Counted (m + 1)) : c.doItemRemove.Ok m := by
  obtain ⟨hd, -⟩ := h.decr
  unfold doItemRemove
  split
  · rename_i h0
    have hcount := hd.refcount
    rw [h0] at hcount
    have hlinked : c.refcountDecr.linked = false := by
      cases hl : c.refcountDecr.linked with
      | false => rfl
      | true =>
          rw [hl, Bool.toNat_true] at hcount
          omega
    rw [hlinked, Bool.toNat_false] at hcount
    have hhandles : c.refcountDecr.handles = 0 := by omega
    have hid : c.refcountDecr.itemFree.slabsClsid ≠ 255 := by
      show 0 ≠ 255
      decide
    exact Or.inl ⟨⟨rfl, rfl, hlinked, hhandles, h0, hid⟩, by omega⟩
  · rename_i hne
    exact Or.inr ⟨hd, Nat.pos_of_ne_zero hne⟩

/-- `do_item_unlink` gives back the reference of the link. -/
theorem Counted.unlink (h : c.Counted m) (hl : c.linked = true) : c.doItemUnlink.Ok m := by
  rw [doItemUnlink, if_pos hl]
  refine Counted.remove ⟨h.free, h.slabbed, h.slabsClsid, ?_, h.lt⟩
  show c.refcount = c.handles + 0 + (m + 1)
  have hcount := h.refcount
  rw [hl, Bool.toNat_true] at hcount
  omega

/-- `do_item_remove` leaves the flag. -/
@[simp] theorem linked_doItemRemove (c : Chunk) : c.doItemRemove.linked = c.linked := by
  unfold doItemRemove
  split <;> rfl

/-- `do_item_remove` gives back a reference that is counted elsewhere. -/
@[simp] theorem handles_doItemRemove (c : Chunk) : c.doItemRemove.handles = c.handles := by
  unfold doItemRemove
  split <;> rfl

/-- `do_item_unlink` clears the flag. -/
theorem linked_doItemUnlink (c : Chunk) : c.doItemUnlink.linked = false := by
  unfold doItemUnlink
  split
  · exact linked_doItemRemove _
  · rename_i hl
    simpa using hl

/-- `do_item_unlink` leaves the references of the others. -/
theorem handles_doItemUnlink (c : Chunk) : c.doItemUnlink.handles = c.handles := by
  unfold doItemUnlink
  split
  · exact handles_doItemRemove _
  · rfl

/-- Where the mover has a reference, the item is not idle. -/
theorem Ok.counted (h : c.Ok (m + 1)) : c.Counted (m + 1) := by
  obtain ⟨-, hm⟩ | ⟨hc, -⟩ := h
  · exact absurd hm (Nat.succ_ne_zero m)
  · exact hc

/-- **A section of a worker keeps the count.** -/
theorem Counted.work {moving : Bool} {id : ℕ} {op : Section} (h : c.Counted m)
    (h0 : 0 < c.refcount) (hid : id ≠ 255)
    (hfits : (∃ dead, op = .get dead) ∨ op = .link → c.refcount + 1 < refcountModulus)
    (hw : c.work moving id op = some c') : c'.Ok m := by
  have hcount := h.refcount
  cases op with
  | alloc => simp [Chunk.work, h.free] at hw
  | steal =>
      simp only [Chunk.work] at hw
      split at hw
      · rename_i hsteal
        obtain rfl := Option.some.inj hw
        obtain ⟨hl, h2⟩ := hsteal
        have hlt := h.lt
        have h1 : c.refcount = 1 := by
          have hval : c.refcountIncr.refcount = incrCount c.refcount := rfl
          rw [hval, incrCount] at h2
          split at h2 <;> omega
        rw [hl, Bool.toNat_true] at hcount
        have hm : m = 0 := by omega
        have hhandles : c.handles = 0 := by omega
        subst hm
        have hfits : c.refcount + 1 < refcountModulus := by rw [h1]; decide
        have hincr : c.refcountIncr.Counted 1 := (h.incr hfits).1
        have hd : c.refcountIncr.doItemUnlink.Counted 1 := (hincr.unlink hl).counted
        have hcount : 1 = c.handles + 1
            + c.refcountIncr.doItemUnlink.refcountDecr.linked.toNat + 0 := by
          rw [linked_refcountDecr, linked_doItemUnlink, hhandles]
          rfl
        exact Or.inr ⟨⟨hd.free, hd.slabbed, hid, hcount, one_lt_refcountModulus⟩, Nat.one_pos⟩
      · exact absurd hw (by simp)
  | get dead =>
      simp only [Chunk.work] at hw
      split at hw
      · rename_i hl
        obtain rfl := Option.some.inj hw
        obtain ⟨hincr, hval⟩ := h.incr (hfits (Or.inl ⟨dead, rfl⟩))
        split
        · exact (hincr.unlink hl).counted.remove
        · refine Or.inr ⟨⟨h.free, h.slabbed, h.slabsClsid, ?_, hincr.lt⟩, ?_⟩
          · show c.refcountIncr.refcount = c.handles + 1 + c.linked.toNat + m
            omega
          · show 0 < c.refcountIncr.refcount
            omega
      · exact absurd hw (by simp)
  | link =>
      simp only [Chunk.work] at hw
      split at hw
      · rename_i hlink
        obtain rfl := Option.some.inj hw
        obtain ⟨hincr, hval⟩ := h.incr (hfits (Or.inr rfl))
        rw [hlink.2, Bool.toNat_false] at hcount
        refine Or.inr ⟨⟨h.free, h.slabbed, h.slabsClsid, ?_, hincr.lt⟩, ?_⟩
        · show c.refcountIncr.refcount = c.handles + 1 + m
          omega
        · show 0 < c.refcountIncr.refcount
          omega
      · exact absurd hw (by simp)
  | unlink =>
      simp only [Chunk.work] at hw
      split at hw
      · rename_i hl
        obtain rfl := Option.some.inj hw
        exact h.unlink hl
      · exact absurd hw (by simp)
  | remove =>
      simp only [Chunk.work] at hw
      split at hw
      · rename_i hh
        obtain rfl := Option.some.inj hw
        refine Counted.remove ⟨h.free, h.slabbed, h.slabsClsid, ?_, h.lt⟩
        show c.refcount = c.handles - 1 + c.linked.toNat + (m + 1)
        omega
      · exact absurd hw (by simp)

/-- A chunk that nobody refers to can only be allocated. -/
theorem work_of_unused {moving : Bool} {id : ℕ} {op : Section} (hl : c.linked = false)
    (hh : c.handles = 0) (hw : c.work moving id op = some c') : op = .alloc ∧ c.free = true := by
  cases op with
  | alloc =>
      simp only [Chunk.work] at hw
      split at hw
      · rename_i hf
        exact ⟨rfl, hf⟩
      · exact absurd hw (by simp)
  | steal | get | link | unlink | remove => simp [Chunk.work, hl, hh] at hw

/-- **A section of a worker**, wherever the mover is. -/
theorem At.work {st : Option MoveStatus} {moving : Bool} {id : ℕ} {op : Section} (h : c.At st)
    (hid : id ≠ 255)
    (hfits : (∃ dead, op = .get dead) ∨ op = .link → c.refcount + 1 < refcountModulus)
    (hw : c.work moving id op = some c') : c'.At st := by
  have hok : c.Ok 0 → c'.Ok 0 := by
    rintro (⟨hi, -⟩ | ⟨hc, h0⟩)
    · obtain ⟨rfl, hf⟩ := work_of_unused hi.linked hi.handles hw
      simp only [Chunk.work, hf, if_true, Option.some.injEq] at hw
      subst hw
      have hcount : 1 = c.handles + 1 + c.linked.toNat + 0 := by
        rw [hi.handles, hi.linked]
        rfl
      exact Or.inr ⟨⟨rfl, rfl, hid, hcount, one_lt_refcountModulus⟩, Nat.one_pos⟩
    · exact hc.work h0 hid hfits hw
  have hunused : c.linked = false → c.handles = 0 → c.free = false → False := by
    intro hl hh hf
    obtain ⟨-, ht⟩ := work_of_unused hl hh hw
    exact absurd (hf.symm.trans ht) (by simp)
  cases st with
  | none =>
      obtain h | h := h
      · exact Or.inl (hok h)
      · exact (hunused h.linked h.handles h.free).elim
  | some st =>
      cases st with
      | pass => exact (hunused (Gone.linked h) (Gone.handles h) (Gone.free h)).elim
      | done => exact (hunused (Taken.linked h) (Taken.handles h) (Taken.free h)).elim
      | locked => exact hok h
      | busy =>
          have hc : c.Counted 1 := h
          have h0 : 0 < c.refcount := by
            rw [hc.refcount]
            omega
          exact (hc.work h0 hid hfits hw).counted

/-- A visit leaves the references of the others. -/
theorem handles_visit (c : Chunk) (trylock : Bool) : (c.visit trylock).1.handles = c.handles := by
  unfold Chunk.visit Chunk.move
  split
  · rfl
  · split
    · rfl
    · split
      · split <;> rfl
      · split
        · split
          · exact handles_doItemUnlink _
          · rfl
        · rfl

/-- What follows a visit leaves the references of the others. -/
theorem handles_settle (c : Chunk) (st : MoveStatus) : (c.settle st).handles = c.handles := by
  cases st <;> rfl

/-- **The mover's turn**: the chunk is taken, or the mover has one more reference. -/
theorem At.visit (h : c.At none) (trylock : Bool) (hfits : c.refcount + 1 < refcountModulus) :
    (c.visit trylock).1.At (some (c.visit trylock).2) := by
  unfold Chunk.visit
  split
  · rename_i h255
    obtain (⟨hi, -⟩ | ⟨hc, -⟩) | hg := h
    · exact absurd h255 hi.slabsClsid
    · exact absurd h255 hc.slabsClsid
    · exact hg
  · rename_i h255
    have hok : c.Ok 0 := h.resolve_right fun hg => h255 hg.slabsClsid
    split
    · exact hok
    · have hincr : c.refcountIncr.refcount = c.refcount + 1 := incrCount_eq hfits
      unfold Chunk.move
      rw [hincr]
      obtain ⟨hi, -⟩ | ⟨hc, h0⟩ := hok
      · rw [if_pos (by rw [hi.refcount]), if_pos hi.slabbed]
        exact ⟨rfl, hi.linked, hi.handles, hi.slabsClsid⟩
      · have hc1 := (hc.incr hfits).1
        rw [if_neg (by omega)]
        split
        · rename_i h2
          split
          · rename_i hl
            have hd : c.refcountIncr.doItemUnlink.Counted 1 := (hc1.unlink hl).counted
            refine ⟨hd.free, linked_doItemUnlink _, ?_, hd.slabsClsid⟩
            rw [handles_doItemUnlink]
            have hcount := hc.refcount
            rw [hl, Bool.toNat_true] at hcount
            show c.handles = 0
            omega
          · exact hc1
        · exact hc1

/-- **The mover settles the chunk**: where it gives a reference back, somebody has another. -/
theorem At.settle {st : MoveStatus} (h : c.At (some st))
    (hkeeps : st = .busy → c.linked = true ∨ 0 < c.handles) : (c.settle st).At none := by
  cases st with
  | pass => exact Or.inr h
  | locked => exact Or.inl h
  | done =>
      have ht : c.Taken := h
      exact Or.inr ⟨ht.free, rfl, ht.handles, rfl⟩
  | busy =>
      have hc : c.Counted 1 := h
      obtain ⟨hd, -⟩ := hc.decr
      have h0 : 0 < c.refcountDecr.refcount := by
        rw [hd.refcount, handles_refcountDecr, linked_refcountDecr]
        obtain hl | hh := hkeeps rfl
        · rw [hl, Bool.toNat_true]
          omega
        · omega
      exact Or.inl (Or.inr ⟨hd, h0⟩)

/-- What is settled, and not busy, is gone. -/
theorem At.gone_settle {st : MoveStatus} (h : c.At (some st)) (hne : ¬ (st = .busy ∨ st = .locked)) :
    (c.settle st).Gone := by
  cases st with
  | pass => exact h
  | done =>
      have ht : c.Taken := h
      exact ⟨ht.free, rfl, ht.handles, rfl⟩
  | locked => exact absurd (Or.inr rfl) hne
  | busy => exact absurd (Or.inl rfl) hne

end Chunk

/-! ## The whole page -/

namespace PageMove

open Chunk (At Gone Ok)

/-- The mover's business with chunk `i`. -/
def statusAt (s : PageMove) (i : ℕ) : Option MoveStatus := if i = s.pos then s.status else none

/-- **The references of a page that is moved.** -/
structure Inv (n : ℕ) (s : PageMove) : Prop where
  chunk : ∀ i, (s.chunk i).At (s.statusAt i)
  /-- Every chunk behind the mover is settled, unless one was busy. -/
  gone : s.moving = true → s.busyItems = 0 → ∀ i < s.pos, (s.chunk i).Gone
  done : s.done = true → s.moving = true ∧ s.busyItems = 0 ∧ n ≤ s.pos
  status : s.status ≠ none → s.moving = true ∧ s.done = false
  outside : ∀ i, n ≤ i → (s.chunk i).handles = 0

variable {n id : ℕ} {s s' : PageMove} {l : Label}

/-- Only the chunk at the position is being looked at. -/
theorem statusAt_of_ne {i : ℕ} (h : i ≠ s.pos) : s.statusAt i = none := if_neg h

/-- Between two visits no chunk is being looked at. -/
theorem statusAt_none {i : ℕ} (h : s.status = none) : s.statusAt i = none := by
  unfold statusAt
  split
  · exact h
  · rfl

/-- Before the first move. -/
theorem inv_init (n : ℕ) : init.Inv n where
  chunk i := by
    rw [statusAt_none rfl]
    exact Or.inl (Or.inl ⟨Chunk.idle_fresh, rfl⟩)
  gone h := absurd h (by decide)
  done h := absurd h (by decide)
  status h := absurd rfl h
  outside _ _ := rfl

/-- **The start of a move keeps the invariant.** -/
theorem Inv.start (h : s.Inv n) (hst : s.Step n id .start s') : s'.Inv n := by
  unfold Step at hst
  simp only [next] at hst
  split at hst
  · exact absurd hst (by simp)
  · rename_i hmoving
    obtain rfl := Option.some.inj hst
    have hnone : s.status = none := by
      by_contra hne
      exact hmoving (h.status hne).1
    refine ⟨fun i => ?_, fun _ _ i hi => absurd hi (Nat.not_lt_zero i), fun hd => absurd hd (by simp),
      fun hne => absurd hnone hne, h.outside⟩
    have hc := h.chunk i
    rw [statusAt_none hnone] at hc
    rw [statusAt_none (s := { s with moving := true, pos := 0, busyItems := 0, done := false }) hnone]
    exact hc

/-- **A section of a worker keeps the invariant.** -/
theorem Inv.work {i : ℕ} {op : Chunk.Section} (h : s.Inv n) (hid : id ≠ 255)
    (hst : s.Step n id (.work i op) s') (hk : s.Keeps (.work i op)) : s'.Inv n := by
  unfold Step at hst
  simp only [next] at hst
  split at hst
  · rename_i hi
    obtain ⟨c, hw, rfl⟩ := Option.map_eq_some_iff.mp hst
    have hfits : (∃ dead, op = .get dead) ∨ op = .link →
        (s.chunk i).refcount + 1 < refcountModulus := by
      rintro (⟨dead, rfl⟩ | rfl) <;> exact hk
    have hc := (h.chunk i).work hid hfits hw
    refine ⟨fun j => ?_, fun hm hb j hj => ?_, h.done, h.status, fun j hj => ?_⟩
    · obtain rfl | hne := eq_or_ne j i
      · show At _ (Function.update s.chunk j c j)
        rw [Function.update_self]
        exact hc
      · show At _ (Function.update s.chunk i c j)
        rw [Function.update_of_ne hne]
        exact h.chunk j
    · obtain rfl | hne := eq_or_ne j i
      · have hg := h.gone hm hb j hj
        obtain ⟨-, hfree⟩ := Chunk.work_of_unused hg.linked hg.handles hw
        exact absurd (hg.free.symm.trans hfree) (by simp)
      · show Gone (Function.update s.chunk i c j)
        rw [Function.update_of_ne hne]
        exact h.gone hm hb j hj
    · show (Function.update s.chunk i c j).handles = 0
      rw [Function.update_of_ne (by omega)]
      exact h.outside j hj
  · exact absurd hst (by simp)

/-- **A visit of the mover keeps the invariant.** -/
theorem Inv.visit {trylock : Bool} (h : s.Inv n) (hst : s.Step n id (.visit trylock) s')
    (hk : s.Keeps (.visit trylock)) : s'.Inv n := by
  unfold Step at hst
  simp only [next] at hst
  split at hst
  · rename_i hgo
    obtain ⟨hmoving, hdone, hnone⟩ := hgo
    obtain rfl := Option.some.inj hst
    have hc := h.chunk s.pos
    rw [statusAt_none hnone] at hc
    have hv := hc.visit trylock hk
    refine ⟨fun j => ?_, fun hm hb j hj => ?_, fun hd => absurd (hdone.symm.trans hd) (by simp),
      fun _ => ⟨hmoving, hdone⟩, fun j hj => ?_⟩
    · obtain rfl | hne := eq_or_ne j s.pos
      · show At (statusAt _ s.pos) (Function.update s.chunk s.pos _ s.pos)
        rw [Function.update_self, statusAt, if_pos rfl]
        exact hv
      · have hj := h.chunk j
        rw [statusAt_of_ne hne] at hj
        show At (if j = s.pos then _ else none) (Function.update s.chunk s.pos _ j)
        rwa [Function.update_of_ne hne, if_neg hne]
    · have hlt : j < s.pos := hj
      show Gone (Function.update s.chunk s.pos _ j)
      rw [Function.update_of_ne (Nat.ne_of_lt hlt)]
      exact h.gone hm hb j hlt
    · show (Function.update s.chunk s.pos _ j).handles = 0
      obtain rfl | hne := eq_or_ne j s.pos
      · rw [Function.update_self, Chunk.handles_visit]
        exact h.outside _ hj
      · rw [Function.update_of_ne hne]
        exact h.outside j hj
  · exact absurd hst (by simp)

/-- The mover goes on. -/
theorem Inv.advance (hchunk : ∀ i, (s.chunk i).At none)
    (hgone : s.busyItems = 0 → ∀ i < s.pos + 1, (s.chunk i).Gone) (hmoving : s.moving = true)
    (hdone : s.done = false) (houtside : ∀ i, n ≤ i → (s.chunk i).handles = 0) :
    (s.advance n).Inv n := by
  unfold PageMove.advance
  split
  · rename_i hend
    split
    · refine ⟨fun i => ?_, fun _ _ i hi => absurd hi (Nat.not_lt_zero i),
        fun hd => absurd (hdone.symm.trans hd) (by simp), fun hne => absurd rfl hne, houtside⟩
      rw [statusAt_none rfl]
      exact hchunk i
    · rename_i hbusy
      have hbusy : s.busyItems = 0 := not_not.mp hbusy
      refine ⟨fun i => ?_, fun _ hb => hgone hb, fun _ => ⟨hmoving, hbusy, hend⟩,
        fun hne => absurd rfl hne, houtside⟩
      rw [statusAt_none rfl]
      exact hchunk i
  · refine ⟨fun i => ?_, fun _ hb => hgone hb, fun hd => absurd (hdone.symm.trans hd) (by simp),
      fun hne => absurd rfl hne, houtside⟩
    rw [statusAt_none rfl]
    exact hchunk i

/-- **What follows a visit keeps the invariant.** -/
theorem Inv.settle (h : s.Inv n) (hst : s.Step n id .settle s') (hk : s.Keeps .settle) :
    s'.Inv n := by
  unfold Step at hst
  simp only [next] at hst
  split at hst
  · exact absurd hst (by simp)
  · rename_i st hs
    obtain rfl := Option.some.inj hst
    obtain ⟨hmoving, hdone⟩ := h.status (by rw [hs]; simp)
    have hc : (s.chunk s.pos).At (some st) := by
      have := h.chunk s.pos
      rwa [statusAt, if_pos rfl, hs] at this
    refine Inv.advance (fun i => ?_) (fun hb i hi => ?_) hmoving hdone fun i hi => ?_
    · show At none (Function.update s.chunk s.pos _ i)
      obtain rfl | hne := eq_or_ne i s.pos
      · rw [Function.update_self]
        exact hc.settle fun hbusy => hk (by rw [hs, hbusy])
      · rw [Function.update_of_ne hne]
        have hi := h.chunk i
        rwa [statusAt_of_ne hne] at hi
    · obtain ⟨hb0, hb1⟩ := Nat.add_eq_zero_iff.mp hb
      have hne : ¬ (st = .busy ∨ st = .locked) := by
        intro hbusy
        rw [decide_eq_true hbusy] at hb1
        exact absurd hb1 (by decide)
      show Gone (Function.update s.chunk s.pos _ i)
      obtain rfl | hne' := eq_or_ne i s.pos
      · rw [Function.update_self]
        exact hc.gone_settle hne
      · rw [Function.update_of_ne hne']
        exact h.gone hmoving hb0 i (by have : i < s.pos + 1 := hi; omega)
    · show (Function.update s.chunk s.pos _ i).handles = 0
      obtain rfl | hne := eq_or_ne i s.pos
      · rw [Function.update_self, Chunk.handles_settle]
        exact h.outside _ hi
      · rw [Function.update_of_ne hne]
        exact h.outside i hi

/-- When the page goes to its new class, nobody refers to a chunk of it. -/
theorem Inv.handles_of_done (h : s.Inv n) (hdone : s.done = true) (i : ℕ) :
    (s.chunk i).handles = 0 := by
  obtain ⟨hmoving, hbusy, hpos⟩ := h.done hdone
  obtain hi | hi := lt_or_ge i s.pos
  · exact (h.gone hmoving hbusy i hi).handles
  · exact h.outside i (hpos.trans hi)

/-- **The end of a move keeps the invariant.** -/
theorem Inv.finish (h : s.Inv n) (hst : s.Step n id .finish s') : s'.Inv n := by
  unfold Step at hst
  simp only [next] at hst
  split at hst
  · rename_i hgo
    obtain rfl := Option.some.inj hst
    have hfresh : ∀ i, ({ Chunk.fresh with handles := (s.chunk i).handles } : Chunk) = .fresh := by
      intro i
      rw [h.handles_of_done hgo.1 i]
      rfl
    refine ⟨fun i => ?_, fun hm => absurd hm (by simp), fun hd => absurd hd (by simp),
      fun hne => absurd hgo.2 hne, fun i _ => h.handles_of_done hgo.1 i⟩
    have hidle : At none ({ Chunk.fresh with handles := (s.chunk i).handles } : Chunk) := by
      rw [hfresh i]
      exact Or.inl (Or.inl ⟨Chunk.idle_fresh, rfl⟩)
    rwa [statusAt_none (by exact hgo.2)]
  · exact absurd hst (by simp)

/-- **One step keeps the references.** -/
theorem Inv.step (h : s.Inv n) (hid : id ≠ 255) (hst : s.Step n id l s') (hk : s.Keeps l) :
    s'.Inv n := by
  cases l with
  | start => exact h.start hst
  | work i op => exact h.work hid hst hk
  | visit trylock => exact h.visit hst hk
  | settle => exact h.settle hst hk
  | finish => exact h.finish hst

instance (s : PageMove) : DecidablePred s.Keeps
  | .work i (.get _) | .work i .link =>
      inferInstanceAs (Decidable ((s.chunk i).refcount + 1 < refcountModulus))
  | .visit _ => inferInstanceAs (Decidable ((s.chunk s.pos).refcount + 1 < refcountModulus))
  | .settle => inferInstanceAs (Decidable (s.status = some .busy →
      (s.chunk s.pos).linked = true ∨ 0 < (s.chunk s.pos).handles))
  | .work _ .alloc | .work _ .steal | .work _ .unlink | .work _ .remove | .start | .finish =>
      inferInstanceAs (Decidable True)

/-- A script whose steps keep the references is a run. -/
theorem run_of_keeps {ls : List Label}
    (h : ls.foldlM (fun s l => if s.Keeps l then s.next n id l else none) s = some s') :
    Run (fun s l s' => s.Step n id l s' ∧ s.Keeps l) s ls s' := by
  refine (Run.of_foldlM h).mono (P := fun _ => True) trivial fun _ hst => ⟨?_, trivial⟩
  split at hst
  · rename_i hk
    exact ⟨hst, hk⟩
  · exact absurd hst (by simp)

end PageMove

/-- **The mover loses no chunk** in a run whose steps keep the references: when it is not in the
midst of one, an item that nobody refers to is in the free list, or taken by the mover. -/
theorem mover_loses_nothing {n id : ℕ} (hid : id ≤ largestId) {ls : List PageMove.Label}
    {s : PageMove}
    (hr : Run (fun s l s' => s.Step n id l s' ∧ s.Keeps l) PageMove.init ls s)
    (hs : s.status = none) (i : ℕ) : ¬ s.Lost i := by
  have hne : id ≠ 255 := by
    rw [largestId] at hid
    omega
  have hinv : s.Inv n := hr.invariant (P := fun s => s.Inv n) (PageMove.inv_init n)
    fun h hst => h.step hne hst.1 hst.2
  have hc := hinv.chunk i
  rw [PageMove.statusAt_none hs] at hc
  rintro ⟨hl, hh, hf, hg⟩
  obtain (⟨hi, -⟩ | ⟨hc, h0⟩) | hgone := hc
  · exact absurd (hf.symm.trans hi.free) (by simp)
  · rw [hc.refcount, hh, hl] at h0
    exact absurd h0 (by decide)
  · exact hg hgone.slabsClsid

/-- An item is unlinked and freed, and its page moved. -/
def PageMove.drained : List PageMove.Label :=
  [.work 0 .alloc, .work 0 .link, .start, .visit true, .work 0 .unlink, .settle, .work 0 .remove,
    .visit true, .settle]

/-- The item is busy at first, and its worker has it longer than the mover. -/
theorem mover_loses_nothing_drained : ∃ s,
    Run (fun s l s' => s.Step 1 1 l s' ∧ s.Keeps l) PageMove.init PageMove.drained s ∧
      s.done = true ∧ ¬ s.Lost 0 := by
  have hend : (PageMove.drained.foldlM
      (fun (s : PageMove) l => if s.Keeps l then s.next 1 1 l else none) PageMove.init).map
        (fun s => (s.done, s.status)) = some (true, none) := by
    decide +kernel
  obtain ⟨s, hs, heq⟩ := Option.map_eq_some_iff.mp hend
  have hr := PageMove.run_of_keeps hs
  exact ⟨s, hr, congrArg Prod.fst heq,
    mover_loses_nothing (by decide) hr (congrArg Prod.snd heq) 0⟩

/-- The worker gives its reference back after the mover has let go of the item's lock. -/
def PageMove.losing : List PageMove.Label :=
  [.work 0 .alloc, .start, .visit true, .work 0 .remove, .settle]

/-- **The mover's reference is the last one**: `refcount_decr` does not look at what is left, and the
item is never freed. -/
theorem mover_loses_chunk : ¬ ∀ (n id : ℕ) (ls : List PageMove.Label) (s : PageMove),
    id ≤ largestId → Run (fun s l s' => s.Step n id l s') PageMove.init ls s →
    s.status = none → ∀ i, ¬ s.Lost i := by
  intro hall
  have hend : (PageMove.losing.foldlM (PageMove.next 1 1) PageMove.init).map
      (fun s => (s.status, s.chunk 0)) = some (none,
        { refcount := 0, linked := false, slabbed := false, slabsClsid := 1, free := false,
          handles := 0 }) := by
    decide +kernel
  obtain ⟨s, hs, heq⟩ := Option.map_eq_some_iff.mp hend
  have hc : s.chunk 0 = _ := congrArg Prod.snd heq
  refine hall 1 1 _ s (by decide) (Run.of_foldlM hs) (congrArg Prod.fst heq) 0 ?_
  rw [PageMove.Lost, hc]
  decide

end Memcached
