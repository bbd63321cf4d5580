import Memcached.Types

/-! # The slab allocator

`slabs.c` as `items.c` uses it: the choice of a class, chunks taken from and returned to a class's
free list, new pages, and the request to move a page between classes. What the operating system
answers (`realloc`, the address `memory_allocate` returns) and whether a `trylock` succeeds are
inputs, collected in `AllocEnv`.

* **`slabsClsidOf`** — the choice of a class.
* **`doSlabsAlloc`**, **`doSlabsFree`**, **`doSlabsNewslab`** — chunks and pages.
* **`doSlabsReassign`** — the request to move a page. -/

namespace Memcached

open DoublyLinked (setAt)

/-- The outcomes of one `do_item_alloc` that the program does not decide. -/
structure AllocEnv where
  /-- `item_trylock(hv)` obtains the lock. -/
  trylock : ℕ → Bool
  /-- The `realloc` of `grow_slab_list` succeeds. -/
  reallocOk : Bool
  /-- What `memory_allocate` returns. -/
  page : Option ℕ
  /-- `slabs_rebalance_lock` is free for `slabs_reassign`. -/
  rebalLockFree : Bool

/-! ## Choosing a class -/

/-- The loop of `slabs_clsid` from class `res` on; `fuel` is the number of classes left. -/
def clsidFrom (cfg : Settings) (size : ℕ) : ℕ → ℕ → ℕ
  | 0, _ => 0
  | fuel + 1, res =>
      if size > cfg.slabSize res then
        if res = cfg.powerLargest then 0 else clsidFrom cfg size fuel (res + 1)
      else res

/-- `slabs_clsid`: the class for an object of `size` bytes, `0` when there is none. -/
def slabsClsidOf (cfg : Settings) (size : ℕ) : ℕ :=
  if size = 0 then 0 else clsidFrom cfg size cfg.powerLargest 1

/-- A class that is found exists. -/
theorem clsidFrom_bounds {cfg : Settings} {size fuel res : ℕ} (hres : 1 ≤ res)
    (hfuel : res + fuel ≤ cfg.powerLargest + 1) (h : clsidFrom cfg size fuel res ≠ 0) :
    1 ≤ clsidFrom cfg size fuel res ∧ clsidFrom cfg size fuel res ≤ cfg.powerLargest := by
  induction fuel generalizing res with
  | zero => exact absurd rfl h
  | succ fuel ih =>
      rw [clsidFrom] at h ⊢
      split at h
      · split at h
        · exact absurd rfl h
        · rename_i hsize hlast
          rw [if_pos hsize, if_neg hlast]
          exact ih (by omega) (by omega) h
      · rename_i hsize
        rw [if_neg hsize]
        omega

/-- A class that was found is one of `1 .. power_largest`. -/
theorem slabsClsidOf_bounds {cfg : Settings} {size : ℕ} (h : slabsClsidOf cfg size ≠ 0) :
    1 ≤ slabsClsidOf cfg size ∧ slabsClsidOf cfg size ≤ cfg.powerLargest := by
  rw [slabsClsidOf] at h ⊢
  split at h
  · exact absurd rfl h
  · rename_i hsize
    rw [if_neg hsize]
    exact clsidFrom_bounds le_rfl (by omega) h

/-- A class that is found is large enough. -/
theorem le_clsidFrom {cfg : Settings} {size fuel res : ℕ} (h : clsidFrom cfg size fuel res ≠ 0) :
    size ≤ cfg.slabSize (clsidFrom cfg size fuel res) := by
  induction fuel generalizing res with
  | zero => exact absurd rfl h
  | succ fuel ih =>
      rw [clsidFrom] at h ⊢
      split at h
      · split at h
        · exact absurd rfl h
        · rename_i hsize hlast
          rw [if_pos hsize, if_neg hlast]
          exact ih h
      · rename_i hsize
        rw [if_neg hsize]
        exact not_lt.mp hsize

/-- An object fits the chunks of the class that was found for it. -/
theorem le_slabsClsidOf {cfg : Settings} {size : ℕ} (h : slabsClsidOf cfg size ≠ 0) :
    size ≤ cfg.slabSize (slabsClsidOf cfg size) := by
  rw [slabsClsidOf] at h ⊢
  split at h
  · exact absurd rfl h
  · rename_i hsize
    rw [if_neg hsize]
    exact le_clsidFrom h

namespace Store

/-- Change the descriptor of class `id`. -/
def setSlabclass (s : Store) (id : ℕ) (p : SlabClass) : Store :=
  { s with slabclass := Function.update s.slabclass id p }

/-! ## Free lists -/

/-- `do_slabs_free`: put a chunk in front of the free list of its class. -/
def doSlabsFree (cfg : Settings) (s : Store) (ptr : Ptr) (size id : ℕ) : Store :=
  if id < 1 ∨ id > cfg.powerLargest then s
  else
    { s with
      itFlags := Function.update s.itFlags ptr (s.itFlags ptr).setSlabbed
      prev := setAt (Function.update s.prev ptr none) (s.slabclass id).slots (some ptr)
      next := Function.update s.next ptr (s.slabclass id).slots
      slabclass := Function.update s.slabclass id ((s.slabclass id).push ptr size) }

/-- Take the first chunk `it` off the free list of class `id`. -/
def popFree (s : Store) (it : Ptr) (size id : ℕ) : Store :=
  { s with
    prev := setAt s.prev (s.next it) none
    slabclass := Function.update s.slabclass id ((s.slabclass id).pop (s.next it) size) }

/-! ## Pages -/

/-- `memset(ptr, 0, len)` over a page. -/
def clearPage (s : Store) (base len : ℕ) : Store :=
  { s with
    -- every header in the page reads as zeros
    next := fun p => if p.inRange base len then none else s.next p
    prev := fun p => if p.inRange base len then none else s.prev p
    hNext := fun p => if p.inRange base len then none else s.hNext p
    time := fun p => if p.inRange base len then 0 else s.time p
    exptime := fun p => if p.inRange base len then 0 else s.exptime p
    nbytes := fun p => if p.inRange base len then 0 else s.nbytes p
    refcount := fun p => if p.inRange base len then 0 else s.refcount p
    itFlags := fun p => if p.inRange base len then {} else s.itFlags p
    slabsClsid := fun p => if p.inRange base len then 0 else s.slabsClsid p
    cas := fun p => if p.inRange base len then 0 else s.cas p
    key := fun p => if p.inRange base len then [] else s.key p
    suffix := fun p => if p.inRange base len then [] else s.suffix p
    data := fun p => if p.inRange base len then [] else s.data p }

/-- `split_slab_page_into_freelist`: free the `n` chunks from `ptr` on. -/
def splitSlabPageIntoFreelist (cfg : Settings) (id : ℕ) : ℕ → ℕ → Store → Store
  | 0, _, s => s
  | n + 1, ptr, s =>
      splitSlabPageIntoFreelist cfg id n (ptr + cfg.slabSize id)
        (s.doSlabsFree cfg (.chunk ptr) 0 id)

/-- `grow_slab_list`: make room for one more page; false when `realloc` fails. -/
def growSlabList (s : Store) (id : ℕ) (reallocOk : Bool) : Store × Bool :=
  let p := s.slabclass id
  if p.slabs = p.listSize then
    if reallocOk then
      -- 16 entries first, then twice as many
      (s.setSlabclass id { p with listSize := if p.listSize ≠ 0 then p.listSize * 2 else 16 }, true)
    else (s, false)
  else (s, true)

/-- `p->slab_list[p->slabs++] = ptr`. -/
def enterSlab (s : Store) (id ptr : ℕ) : Store :=
  s.setSlabclass id ((s.slabclass id).addSlab ptr)

/-- `do_slabs_newslab` past its checks: the page at `ptr` is cleared, cut into chunks and entered
into `slab_list`. -/
def addPage (cfg : Settings) (s : Store) (id ptr : ℕ) : Store :=
  let s := s.clearPage ptr (cfg.pageLen id)
  let s := splitSlabPageIntoFreelist cfg id (cfg.perslab id) ptr s
  let s := s.enterSlab id ptr
  { s with memMalloced := s.memMalloced + cfg.pageLen id }

/-- `do_slabs_newslab`: get class `id` another page; false when the memory limit, `realloc` or
`memory_allocate` stands against it. -/
def doSlabsNewslab (cfg : Settings) (s : Store) (id : ℕ) (env : AllocEnv) : Store × Bool :=
  if cfg.memLimit ≠ 0 ∧ s.memMalloced + cfg.pageLen id > cfg.memLimit
      -- a class without a page gets its first one beyond the limit too
      ∧ (s.slabclass id).slabs > 0 then (s, false)
  else
    match s.growSlabList id env.reallocOk, env.page with
    | (s, false), _ => (s, false)
    | (s, true), none => (s, false)
    | (s, true), some ptr => (s.addPage cfg id ptr, true)

/-- `do_slabs_alloc`, which `slabs_alloc` runs under `slabs_lock`: a chunk of class `id`, from its
free list or from a new page. -/
def doSlabsAlloc (cfg : Settings) (s : Store) (size id : ℕ) (env : AllocEnv) :
    Store × Option Ptr :=
  if id < 1 ∨ id > cfg.powerLargest then (s, none)
  else
    -- `do_slabs_newslab` is asked only when the free list is empty
    let (s, ok) := if (s.slabclass id).slCurr ≠ 0 then (s, true) else s.doSlabsNewslab cfg id env
    if ok = false then (s, none)
    else if (s.slabclass id).slCurr ≠ 0 then
      match (s.slabclass id).slots with
      | some it => (s.popFree it size id, some it)
      | none => (s, none)
    else (s, none)

/-- `slabs_adjust_mem_requested`: an item of `old` bytes is reused for one of `ntotal`. -/
def slabsAdjustMemRequested (s : Store) (id old ntotal : ℕ) : Store :=
  let p := s.slabclass id
  s.setSlabclass id { p with requested := p.requested - old + ntotal }

/-! ## Requests to move a page -/

/-- `slabs_reassign_pick_any`: the next class after the last pick that can spare a page, `-1` when
`tries` classes have been looked at. -/
def slabsReassignPickAny (cfg : Settings) (dst : ℤ) : ℕ → Store → Store × ℤ
  | 0, s => (s, -1)
  | tries + 1, s =>
      let cur := if s.pickAnyCur + 1 > cfg.powerLargest then 1 else s.pickAnyCur + 1
      let s := { s with pickAnyCur := cur }
      -- the destination does not give a page to itself
      if (cur : ℤ) = dst then slabsReassignPickAny cfg dst tries s
      else if (s.slabclass cur).slabs > 1 then (s, cur)
      else slabsReassignPickAny cfg dst tries s

/-- `do_slabs_reassign`, up to its result code: post a request to move a page of `src` to `dst`,
where `src = -1` lets the server choose. -/
def doSlabsReassign (cfg : Settings) (s : Store) (src dst : ℤ) : Store :=
  if s.slabRebalanceSignal ≠ 0 ∨ src = dst then s
  else
    -- the pick is made before the bounds of the classes are checked
    let (s, src) :=
      if src = -1 then slabsReassignPickAny cfg dst cfg.powerLargest s else (s, src)
    if src < 1 ∨ src > cfg.powerLargest ∨ dst < 1 ∨ dst > cfg.powerLargest then s
    else if (s.slabclass src.toNat).slabs < 2 then s
    else
      { s with
        slabRebal := { s.slabRebal with sClsid := src, dClsid := dst }
        slabRebalanceSignal := 1 }

/-- `slabs_reassign`: the request is dropped when `slabs_rebalance_lock` is taken. -/
def slabsReassign (cfg : Settings) (s : Store) (src dst : ℤ) (lockFree : Bool) : Store :=
  if lockFree then s.doSlabsReassign cfg src dst else s

end Store

end Memcached
