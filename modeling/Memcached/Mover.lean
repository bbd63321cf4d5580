import Memcached.Frames

/-! # Moving a page between slab classes

The slab mover of `slabs.c`: `slab_rebalance_start` picks a page, `slab_rebalance_move` empties it
chunk by chunk over many lock releases, `slab_rebalance_finish` hands it to another class. The room
that `start` makes in the destination's `slab_list` is used by `finish` only.

* **`slabRebalanceStart`**, **`slabRebalanceMove`**, **`slabRebalanceFinish`** — the three parts of
  a move.
* **`visitChunk`** — what the mover does with a chunk. -/

namespace Memcached

open DoublyLinked (setAt)

/-- `enum move_status`: how one chunk was dealt with. -/
inductive MoveStatus
  | pass
  | done
  | busy
  | locked
  deriving DecidableEq, Repr

namespace Store

/-! ## slab_rebalance_start -/

/-- The checks of `slab_rebalance_start`; the list of the destination has grown before the last. -/
def rebalanceNoGo (cfg : Settings) (s : Store) (grown : Bool) : ℤ :=
  let r := s.slabRebal
  if (s.slabclass r.sClsid.toNat).slabs < 2 then -3
  else if grown = false then -1
  else if r.sClsid < 1 ∨ r.sClsid > cfg.powerLargest ∨ r.dClsid < 1 ∨ r.dClsid > cfg.powerLargest
      ∨ r.sClsid = r.dClsid then -2
  else 0

/-- `slab_rebalance_start`, and `slab_rebalance_thread` when it fails: the first page of the source
is to be moved. -/
def slabRebalanceStart (cfg : Settings) (s : Store) (reallocOk : Bool) : Store × ℤ :=
  let (s, grown) := s.growSlabList s.slabRebal.dClsid.toNat reallocOk
  let noGo := s.rebalanceNoGo cfg grown
  if noGo ≠ 0 then ({ s with slabRebalanceSignal := 0 }, noGo)
  else
    let src := s.slabRebal.sClsid.toNat
    -- `killing` is one more than the place of the page in the list
    let p := { s.slabclass src with killing := 1 }
    let start := p.slabList.getD (p.killing - 1) 0
    ({ s.setSlabclass src p with
        slabRebal := { s.slabRebal with
          slabStart := start
          slabEnd := start + cfg.slabSize src * cfg.perslab src
          slabPos := start
          done := 0 }
        slabRebalanceSignal := 2 }, 0)

/-! ## slab_rebalance_move -/

/-- Take the chunk `it` out of the free list of class `id`, wherever it is in it. -/
def takeFree (s : Store) (it : Ptr) (id : ℕ) : Store :=
  let p := s.slabclass id
  { s with
    slabclass := Function.update s.slabclass id
      { p with
        slots := if p.slots = some it then s.next it else p.slots
        slCurr := p.slCurr - 1 }
    prev := setAt s.prev (s.next it) (s.prev it)
    next := setAt s.next (s.prev it) (s.next it) }

/-- What `slab_rebalance_move` does to the chunk `it` of class `id` under the item's lock. -/
def moveChunk (cfg : Settings) (s : Store) (it : Ptr) (id : ℕ) : Store × MoveStatus :=
  let s := s.refcountIncr it
  -- nobody refers to the chunk, which is free unless its header is just being written
  if s.refcount it = 1 then
    if (s.itFlags it).slabbed then (s.takeFree it id, .done) else (s, .busy)
  else if s.refcount it = 2 then
    -- only the hash table has it, so it can be unlinked
    if (s.itFlags it).linked then (s.doItemUnlink cfg it (cfg.hash (s.key it)), .done)
    else (s, .busy)
  else (s, .busy)

/-- The end of a chunk's turn in `slab_rebalance_move`. -/
def settleChunk (s : Store) (it : Ptr) : MoveStatus → Store
  | .done =>
      { s with
        refcount := Function.update s.refcount it 0
        itFlags := Function.update s.itFlags it {}
        slabsClsid := Function.update s.slabsClsid it 255 }
  -- the reference taken by `refcount_incr` goes back
  | .busy =>
      { s.refcountDecr it with
        slabRebal := { s.slabRebal with busyItems := s.slabRebal.busyItems + 1 } }
  | .locked => { s with slabRebal := { s.slabRebal with busyItems := s.slabRebal.busyItems + 1 } }
  | .pass => s

/-- One chunk's turn; `trylock` is the outcome of `item_trylock`. -/
def visitChunk (cfg : Settings) (s : Store) (it : Ptr) (id : ℕ) (trylock : Bool) : Store :=
  if s.slabsClsid it = 255 then s.settleChunk it .pass
  else if trylock = false then s.settleChunk it .locked
  else
    let (s, status) := s.moveChunk cfg it id
    s.settleChunk it status

/-- The loop of `slab_rebalance_move` over `slab_bulk_check` chunks; `trylocks` holds the outcomes
of `item_trylock`. -/
def moveChunks (cfg : Settings) (s : Store) : List Bool → Store
  | [] => s
  | trylock :: trylocks =>
      let id := s.slabRebal.sClsid.toNat
      let s := s.visitChunk cfg (.chunk s.slabRebal.slabPos) id trylock
      let s := { s with
        slabRebal := { s.slabRebal with slabPos := s.slabRebal.slabPos + cfg.slabSize id } }
      -- the pass ends with the page, before the bulk is done
      if s.slabRebal.slabPos ≥ s.slabRebal.slabEnd then s else moveChunks cfg s trylocks

/-- The end of `slab_rebalance_move`: at the end of the page, start again if an item was busy. -/
def endPass (s : Store) : Store :=
  let r := s.slabRebal
  if r.slabPos ≥ r.slabEnd then
    if r.busyItems ≠ 0 then
      -- a busy chunk is met again in another pass over the whole page
      { s with slabRebal := { r with slabPos := r.slabStart, busyItems := 0 } }
    else { s with slabRebal := { r with done := r.done + 1 } }
  else s

/-- `slab_rebalance_move`. -/
def slabRebalanceMove (cfg : Settings) (s : Store) (trylocks : List Bool) : Store :=
  (s.moveChunks cfg trylocks).endPass

/-! ## slab_rebalance_finish -/

/-- `slab_list[killing - 1] = slab_list[slabs - 1]`, `slabs--`, `killing = 0`. -/
def dropSlab (s : Store) (id : ℕ) : Store :=
  let p := s.slabclass id
  s.setSlabclass id { p with
    slabList := (p.slabList.set (p.killing - 1) (p.slabList.getD (p.slabs - 1) 0)).dropLast
    killing := 0 }

/-- `slab_rebalance_finish`: the page is cleared, entered into the list of the destination and cut
into its chunks. -/
def slabRebalanceFinish (cfg : Settings) (s : Store) : Store :=
  let r := s.slabRebal
  let dst := r.dClsid.toNat
  let s := s.dropSlab r.sClsid.toNat
  -- `item_size_max` bytes, whatever the page had
  let s := s.clearPage r.slabStart cfg.itemSizeMax
  let s := s.enterSlab dst r.slabStart
  let s := splitSlabPageIntoFreelist cfg dst (cfg.perslab dst) r.slabStart s
  { s with
    slabRebal := { busyItems := r.busyItems }
    slabRebalanceSignal := 0 }

/-! ## Who has which page -/

end Store

/-- The part of the state that `slab_rebalance_move` leaves alone: the lists of pages, and which
page is being moved. -/
structure PageState where
  slabList : ℕ → List ℕ
  listSize : ℕ → ℕ
  killing : ℕ → ℕ
  signal : ℕ
  sClsid : ℤ
  dClsid : ℤ
  slabStart : ℕ
  slabEnd : ℕ

namespace Store

/-- The pages of the store. -/
def pageState (s : Store) : PageState where
  slabList id := (s.slabclass id).slabList
  listSize id := (s.slabclass id).listSize
  killing id := (s.slabclass id).killing
  signal := s.slabRebalanceSignal
  sClsid := s.slabRebal.sClsid
  dClsid := s.slabRebal.dClsid
  slabStart := s.slabRebal.slabStart
  slabEnd := s.slabRebal.slabEnd

variable {cfg : Settings} {s : Store}

/-- A change of a class that concerns its free list only. -/
theorem pageState_congr {t : Store} {id : ℕ} {p : SlabClass}
    (hc : t.slabclass = Function.update s.slabclass id p)
    (hl : p.slabList = (s.slabclass id).slabList) (hs : p.listSize = (s.slabclass id).listSize)
    (hk : p.killing = (s.slabclass id).killing) (hr : t.slabRebal = s.slabRebal)
    (hsig : t.slabRebalanceSignal = s.slabRebalanceSignal) : t.pageState = s.pageState := by
  have hcls : ∀ c, t.slabclass c = if c = id then p else s.slabclass c := fun c => by
    rw [hc, Function.update_apply]
  simp only [pageState, hr, hsig, PageState.mk.injEq, and_true]
  refine ⟨funext fun c => ?_, funext fun c => ?_, funext fun c => ?_⟩ <;>
  · rw [hcls]
    split
    · subst c
      assumption
    · rfl

/-- A chunk that is freed leaves the pages. -/
@[simp] theorem pageState_doSlabsFree (p : Ptr) (size id : ℕ) :
    (s.doSlabsFree cfg p size id).pageState = s.pageState := by
  rw [doSlabsFree]
  split
  · rfl
  · exact pageState_congr rfl rfl rfl rfl rfl rfl

/-- A page that is cut into chunks leaves the pages. -/
@[simp] theorem pageState_splitPage (id n ptr : ℕ) :
    (splitSlabPageIntoFreelist cfg id n ptr s).pageState = s.pageState := by
  induction n generalizing ptr s with
  | zero => rfl
  | succ n ih => rw [splitSlabPageIntoFreelist, ih, pageState_doSlabsFree]

/-- A page that is cut into chunks leaves the move. -/
theorem slabRebal_splitPage (id n ptr : ℕ) :
    (splitSlabPageIntoFreelist cfg id n ptr s).slabRebal = s.slabRebal := by
  induction n generalizing ptr s with
  | zero => rfl
  | succ n ih =>
      rw [splitSlabPageIntoFreelist, ih, doSlabsFree]
      split <;> rfl

/-- Giving back a reference leaves the pages. -/
@[simp] theorem pageState_doItemRemove (p : Ptr) :
    (s.doItemRemove cfg p).pageState = s.pageState := by
  rw [doItemRemove]
  split
  · rw [itemFree, pageState_doSlabsFree]
    rfl
  · rfl

/-- Unlinking leaves the pages. -/
@[simp] theorem pageState_doItemUnlink (p : Ptr) (hv : ℕ) :
    (s.doItemUnlink cfg p hv).pageState = s.pageState := by
  rw [doItemUnlink]
  split
  · obtain ⟨a, b, n, e⟩ := assocDelete_frame (s := s.unlinkStats p) ((s.unlinkStats p).key p) hv
    rw [pageState_doItemRemove, unlinkIndex, e]
    rfl
  · rfl

/-- Taking a free chunk leaves the pages. -/
@[simp] theorem pageState_takeFree (it : Ptr) (id : ℕ) :
    (s.takeFree it id).pageState = s.pageState :=
  pageState_congr rfl rfl rfl rfl rfl rfl

/-- What the mover does with a chunk leaves the pages. -/
@[simp] theorem pageState_settleChunk (it : Ptr) (st : MoveStatus) :
    (s.settleChunk it st).pageState = s.pageState := by
  cases st <;> rfl

/-- Unlinking for the mover leaves the pages. -/
@[simp] theorem pageState_moveChunk (it : Ptr) (id : ℕ) :
    (s.moveChunk cfg it id).1.pageState = s.pageState := by
  have hincr : (s.refcountIncr it).pageState = s.pageState := rfl
  rw [moveChunk]
  split
  · split
    · exact (pageState_takeFree it id).trans hincr
    · exact hincr
  · split
    · split
      · exact (pageState_doItemUnlink it _).trans hincr
      · exact hincr
    · exact hincr

/-- A visit of the mover leaves the pages. -/
@[simp] theorem pageState_visitChunk (it : Ptr) (id : ℕ) (trylock : Bool) :
    (s.visitChunk cfg it id trylock).pageState = s.pageState := by
  rw [visitChunk]
  split
  · rfl
  · split
    · rfl
    · exact (pageState_settleChunk it _).trans (pageState_moveChunk it id)

/-- **`slab_rebalance_move` moves no page.** -/
@[simp] theorem pageState_slabRebalanceMove (trylocks : List Bool) :
    (s.slabRebalanceMove cfg trylocks).pageState = s.pageState := by
  have hend : ∀ s : Store, s.endPass.pageState = s.pageState := fun s => by
    rw [endPass]
    split
    · split <;> rfl
    · rfl
  rw [slabRebalanceMove, hend]
  induction trylocks generalizing s with
  | nil => rfl
  | cons trylock trylocks ih =>
      rw [moveChunks]
      split
      · exact pageState_visitChunk ..
      · exact (ih ..).trans (pageState_visitChunk ..)

end Store

end Memcached
