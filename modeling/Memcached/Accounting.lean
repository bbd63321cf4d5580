import Mathlib.Algebra.BigOperators.Intervals
import Memcached.MoverRefs
import Memcached.System

/-! # The memory that is asked for

`requested` of the slab classes: what `do_slabs_alloc` adds, `do_slabs_free` takes off again and
`slabs_adjust_mem_requested` corrects, and the slab mover, which frees items without any of them.
Which chunk is allocated, reused or freed is decided from outside.

* **`Accounts.next`** — the steps of the books, of which the mover's step takes no size off.
* **`Accounts.Exact`** — `requested` is the sum of what was asked for in the chunks handed out.
* **`requested_doSlabsAlloc`**, **`requested_itemFree`**, **`requested_moveChunk`** — what the store
  does to `requested`.
* **`requested_exact`**, **`requested_drifts`** — the books are exact in runs in which the mover
  unlinks no item. -/

namespace Memcached

open CNumber (Bytes)
open Transition (Run)

/-! ## State -/

/-- The fields of an item that its size depends on. -/
structure Header where
  key : Bytes
  suffix : Bytes
  nbytes : ℕ
  /-- `ITEM_CAS`. -/
  cas : Bool
  deriving DecidableEq

/-- `ITEM_ntotal`. -/
def Header.ntotal (h : Header) : ℕ :=
  sizeofItem + h.key.length + 1 + h.suffix.length + h.nbytes + if h.cas then 8 else 0

/-- The header that `do_item_alloc` writes. -/
def Header.make (cfg : Settings) (key : Bytes) (flags : ℤ) (nbytes : ℕ) : Header where
  key := key
  suffix := (itemMakeHeader (key.length + 1) flags nbytes).1
  nbytes := nbytes
  cas := cfg.useCas

/-- Where a chunk is. -/
inductive Place
  /-- In no page yet. -/
  | outside
  /-- In the free list of its class. -/
  | free
  /-- Handed out by `do_slabs_alloc`. -/
  | handedOut
  /-- Taken by the slab mover: `slabs_clsid` is 255. -/
  | taken
  deriving DecidableEq

/-- A chunk. -/
structure Block where
  place : Place
  /-- The class of its page. -/
  pageClsid : ℕ
  /-- `slabs_clsid`. -/
  slabsClsid : ℕ
  header : Header
  linked : Bool
  /-- The size with which it was handed out. -/
  allocated : ℕ
  deriving DecidableEq

/-- The chunks, and `requested` of every class. -/
structure Accounts where
  block : ℕ → Block
  requested : ℕ → ℤ

namespace Accounts

/-- No page has been allocated. -/
def init : Accounts where
  block := fun _ => ⟨.outside, 0, 0, ⟨[], [], 0, false⟩, false, 0⟩
  requested := fun _ => 0

/-- Change one chunk. -/
def setBlock (a : Accounts) (p : ℕ) (b : Block) : Accounts :=
  { a with block := Function.update a.block p b }

/-- `do_slabs_alloc`, when the chunk `p` is in front of the free list. -/
def doSlabsAlloc (a : Accounts) (p size id : ℕ) : Accounts :=
  { a.setBlock p { a.block p with place := .handedOut, allocated := size } with
    requested := Function.update a.requested id (a.requested id + size) }

/-- `do_slabs_free`. -/
def doSlabsFree (a : Accounts) (p size id : ℕ) : Accounts :=
  { a.setBlock p { a.block p with place := .free } with
    requested := Function.update a.requested id (a.requested id - size) }

/-- `slabs_adjust_mem_requested`, for the item in the chunk `p`. -/
def slabsAdjustMemRequested (a : Accounts) (p id old ntotal : ℕ) : Accounts :=
  { a.setBlock p { a.block p with allocated := ntotal } with
    requested := Function.update a.requested id (a.requested id - old + ntotal) }

/-- The end of `do_item_alloc`. -/
def initItem (a : Accounts) (p id : ℕ) (h : Header) : Accounts :=
  a.setBlock p { a.block p with slabsClsid := id, header := h, linked := false }

/-- `item_free`. -/
def itemFree (a : Accounts) (p : ℕ) : Accounts :=
  (a.setBlock p { a.block p with slabsClsid := 0 }).doSlabsFree p (a.block p).header.ntotal
    (a.block p).slabsClsid

/-- The chunks of a page go to the free list of class `id`, with a size of 0. -/
def splitSlabPageIntoFreelist (a : Accounts) (page : List ℕ) (id : ℕ) : Accounts :=
  { a with
    block := fun p =>
      if p ∈ page then { a.block p with place := .free, pageClsid := id, slabsClsid := 0 }
      else a.block p }

/-- What happens next. -/
inductive Change
  /-- `do_slabs_newslab`. -/
  | newslab (id : ℕ) (page : List ℕ)
  /-- `do_item_alloc`, with a chunk of the free list. -/
  | itemAlloc (p : ℕ) (key : Bytes) (flags : ℤ) (nbytes : ℕ)
  /-- `do_item_alloc`, with an expired or evicted item. -/
  | itemReuse (p : ℕ) (key : Bytes) (flags : ℤ) (nbytes : ℕ)
  /-- `do_item_link`. -/
  | link (p : ℕ)
  /-- `do_item_unlink`, while somebody has a reference. -/
  | unlink (p : ℕ)
  /-- `item_free`, with the last reference. -/
  | itemFree (p : ℕ)
  /-- `slab_rebalance_move` takes a chunk out of the free list. -/
  | moveFree (p : ℕ)
  /-- `slab_rebalance_move` unlinks an item that nobody has a reference to. -/
  | moveItem (p : ℕ)
  /-- `slab_rebalance_finish`. -/
  | finish (id : ℕ) (page : List ℕ)

/-- **One step**, with `n` chunks in all. -/
def next (cfg : Settings) (n : ℕ) (a : Accounts) : Change → Option Accounts
  | .newslab id page =>
      if ∀ p ∈ page, p < n ∧ (a.block p).place = .outside then
        some (a.splitSlabPageIntoFreelist page id)
      else none
  | .itemAlloc p key flags nbytes =>
      let ntotal := Store.allocNtotal cfg key flags nbytes
      let id := slabsClsidOf cfg ntotal
      if p < n ∧ id ≠ 0 ∧ (a.block p).place = .free ∧ (a.block p).pageClsid = id then
        some ((a.doSlabsAlloc p ntotal id).initItem p id (.make cfg key flags nbytes))
      else none
  | .itemReuse p key flags nbytes =>
      let ntotal := Store.allocNtotal cfg key flags nbytes
      let id := slabsClsidOf cfg ntotal
      let b := a.block p
      if p < n ∧ id ≠ 0 ∧ b.place = .handedOut ∧ b.linked = true ∧ b.slabsClsid = id then
        some ((a.slabsAdjustMemRequested p b.slabsClsid b.header.ntotal ntotal).initItem p id
          (.make cfg key flags nbytes))
      else none
  | .link p =>
      if p < n ∧ (a.block p).place = .handedOut ∧ (a.block p).linked = false then
        some (a.setBlock p { a.block p with linked := true })
      else none
  | .unlink p =>
      if p < n ∧ (a.block p).place = .handedOut ∧ (a.block p).linked = true then
        some (a.setBlock p { a.block p with linked := false })
      else none
  | .itemFree p =>
      if p < n ∧ (a.block p).place = .handedOut ∧ (a.block p).linked = false then
        some (a.itemFree p)
      else none
  | .moveFree p =>
      if p < n ∧ (a.block p).place = .free then
        some (a.setBlock p { a.block p with place := .taken, slabsClsid := 255 })
      else none
  | .moveItem p =>
      if p < n ∧ (a.block p).place = .handedOut ∧ (a.block p).linked = true then
        some (a.setBlock p { a.block p with place := .taken, slabsClsid := 255, linked := false })
      else none
  | .finish id page =>
      if ∀ p ∈ page, p < n ∧ (a.block p).place = .taken then
        some (a.splitSlabPageIntoFreelist page id)
      else none

/-- A step as a relation. -/
def Step (cfg : Settings) (n : ℕ) (a : Accounts) (l : Change) (a' : Accounts) : Prop :=
  a.next cfg n l = some a'

/-! ## The books -/

/-- What a chunk counts in class `c`. -/
def share (b : Block) (c : ℕ) : ℤ :=
  if b.place = .handedOut ∧ b.pageClsid = c then b.allocated else 0

/-- What the chunks of class `c` that are handed out were allocated with. -/
def handedOut (a : Accounts) (n c : ℕ) : ℤ := ∑ p ∈ Finset.range n, share (a.block p) c

/-- **The books are exact**, and what is to be taken off next is there. -/
structure Exact (a : Accounts) (n : ℕ) : Prop where
  requested : ∀ c, a.requested c = a.handedOut n c
  ntotal : ∀ p < n, (a.block p).place = .handedOut →
    (a.block p).header.ntotal = (a.block p).allocated
  slabsClsid : ∀ p < n, (a.block p).place = .handedOut →
    (a.block p).slabsClsid = (a.block p).pageClsid
  le : ∀ p < n, (a.block p).place = .handedOut →
    ((a.block p).header.ntotal : ℤ) ≤ a.requested (a.block p).slabsClsid

/-- **A step that keeps the books**: the mover unlinks no item. -/
def KeepsBooks : Change → Prop
  | .moveItem _ => False
  | _ => True

end Accounts

/-- **The size of an item is the size that was asked for**: with or without a CAS id, whatever the
length of the suffix. -/
theorem ntotal_make (cfg : Settings) (key : Bytes) (flags : ℤ) (nbytes : ℕ) :
    (Header.make cfg key flags nbytes).ntotal = Store.allocNtotal cfg key flags nbytes := by
  unfold Header.ntotal Header.make Store.allocNtotal itemMakeHeader
  dsimp only
  omega

/-! ## The store -/

namespace Store

/-- The header of an item. -/
def headerAt (s : Store) (it : Ptr) : Header where
  key := s.key it
  suffix := s.suffix it
  nbytes := s.nbytes it
  cas := (s.itFlags it).cas

/-- `requested` of every class. -/
def requested (s : Store) (c : ℕ) : ℤ := (s.slabclass c).requested

variable {cfg : Settings} {s : Store} {it : Ptr}

/-- The size of an item is read off its header. -/
theorem itemNtotal_eq (s : Store) (it : Ptr) : s.itemNtotal it = (s.headerAt it).ntotal := rfl

/-- The header that `do_item_alloc` has written. -/
theorem headerAt_initItem (id : ℕ) (key : Bytes) (flags : ℤ) (exptime nbytes : ℕ) :
    (s.initItem cfg it id key flags exptime nbytes).headerAt it = .make cfg key flags nbytes := by
  simp [headerAt, Store.initItem, Header.make]

/-- `slabs_adjust_mem_requested` takes the old size off and adds the new one. -/
theorem requested_slabsAdjustMemRequested (id old ntotal : ℕ) :
    (s.slabsAdjustMemRequested id old ntotal).requested
      = Function.update s.requested id (s.requested id - old + ntotal) := by
  funext c
  obtain rfl | hne := eq_or_ne c id
  · simp [requested, Store.slabsAdjustMemRequested, Store.setSlabclass]
  · simp [requested, Store.slabsAdjustMemRequested, Store.setSlabclass, hne]

/-- `do_slabs_free` takes the size off the class, which has to exist. -/
theorem requested_doSlabsFree (ptr : Ptr) (size id : ℕ) :
    (s.doSlabsFree cfg ptr size id).requested
      = if id < 1 ∨ id > cfg.powerLargest then s.requested
        else Function.update s.requested id (s.requested id - size) := by
  unfold Store.doSlabsFree
  split
  · rfl
  · funext c
    obtain rfl | hne := eq_or_ne c id
    · simp [requested, SlabClass.push]
    · simp [requested, hne]

/-- `item_free` in a class that exists. -/
theorem requested_itemFree (h : 1 ≤ s.slabsClsid it ∧ s.slabsClsid it ≤ cfg.powerLargest) :
    (s.itemFree cfg it).requested
      = Function.update s.requested (s.slabsClsid it)
          (s.requested (s.slabsClsid it) - (s.headerAt it).ntotal) := by
  have hid : ¬ (s.slabsClsid it < 1 ∨ s.slabsClsid it > cfg.powerLargest) := by omega
  unfold Store.itemFree
  rw [requested_doSlabsFree, if_neg hid, itemNtotal_eq]
  rfl

/-- A page goes to the free list with a size of 0, which leaves `requested` as it is. -/
theorem requested_splitSlabPageIntoFreelist (id n ptr : ℕ) :
    (splitSlabPageIntoFreelist cfg id n ptr s).requested = s.requested := by
  induction n generalizing ptr s with
  | zero => rfl
  | succ n ih =>
      have hfree : (s.doSlabsFree cfg (.chunk ptr) 0 id).requested = s.requested := by
        rw [requested_doSlabsFree]
        simp
      rw [splitSlabPageIntoFreelist, ih, hfree]

/-- The end of `do_slabs_newslab`. -/
theorem requested_addPage (id ptr : ℕ) : (s.addPage cfg id ptr).requested = s.requested := by
  have hsplit : (splitSlabPageIntoFreelist cfg id (cfg.perslab id) ptr
      (s.clearPage ptr (cfg.pageLen id))).requested = (s.clearPage ptr (cfg.pageLen id)).requested :=
    requested_splitSlabPageIntoFreelist id (cfg.perslab id) ptr
  unfold Store.addPage
  dsimp only
  funext c
  obtain rfl | hne := eq_or_ne c id
  · simpa [requested, Store.enterSlab, Store.setSlabclass, SlabClass.addSlab, Store.clearPage]
      using congrFun hsplit c
  · simpa [requested, Store.enterSlab, Store.setSlabclass, hne, Store.clearPage]
      using congrFun hsplit c

/-- A longer `slab_list` leaves `requested` as it is. -/
theorem requested_growSlabList (id : ℕ) (reallocOk : Bool) :
    (s.growSlabList id reallocOk).1.requested = s.requested := by
  unfold Store.growSlabList
  dsimp only
  split
  · split
    · funext c
      obtain rfl | hne := eq_or_ne c id
      · simp [requested, Store.setSlabclass]
      · simp [requested, Store.setSlabclass, hne]
    · rfl
  · rfl

/-- A new page, or none, leaves `requested` as it is. -/
theorem requested_doSlabsNewslab (id : ℕ) (env : AllocEnv) :
    (s.doSlabsNewslab cfg id env).1.requested = s.requested := by
  have hgrow := requested_growSlabList (s := s) id env.reallocOk
  unfold Store.doSlabsNewslab
  split
  · rfl
  · revert hgrow
    obtain ⟨t, ok⟩ := s.growSlabList id env.reallocOk
    intro hgrow
    cases ok with
    | false => exact hgrow
    | true =>
        cases env.page with
        | none => exact hgrow
        | some ptr => exact (requested_addPage id ptr).trans hgrow

/-- **`do_slabs_alloc` adds what was asked for** when it hands out a chunk, and nothing else. -/
theorem requested_doSlabsAlloc (size id : ℕ) (env : AllocEnv) :
    (s.doSlabsAlloc cfg size id env).1.requested
      = match (s.doSlabsAlloc cfg size id env).2 with
        | none => s.requested
        | some _ => Function.update s.requested id (s.requested id + size) := by
  unfold Store.doSlabsAlloc
  split
  · rfl
  · -- the free list has a chunk, or a page is asked for
    have hstart : (if (s.slabclass id).slCurr ≠ 0 then (s, true)
        else s.doSlabsNewslab cfg id env).1.requested = s.requested := by
      split
      · rfl
      · exact requested_doSlabsNewslab id env
    revert hstart
    obtain ⟨t, ok⟩ := if (s.slabclass id).slCurr ≠ 0 then (s, true)
      else s.doSlabsNewslab cfg id env
    intro hstart
    dsimp only at hstart ⊢
    split
    · exact hstart
    · split
      · cases (t.slabclass id).slots with
        | none => exact hstart
        | some it =>
            rw [← hstart]
            funext c
            obtain rfl | hne := eq_or_ne c id
            · simp [requested, Store.popFree, SlabClass.pop]
            · simp [requested, Store.popFree, hne]
      · exact hstart

/-- Unlinking touches neither `requested` nor the reference count. -/
theorem requested_unlinkIndex (hv : ℕ) :
    (s.unlinkIndex it hv).requested = s.requested ∧
      (s.unlinkIndex it hv).refcount = s.refcount := by
  obtain ⟨a, b, n, e⟩ := unlinkIndex_frame s it hv
  rw [e]
  exact ⟨rfl, rfl⟩

/-- **The mover takes an item and leaves `requested` as it is**: its own reference keeps
`do_item_remove` from freeing the item. -/
theorem requested_moveChunk (hr : s.refcount it = 1) (hl : (s.itFlags it).linked = true) (id : ℕ) :
    ((s.moveChunk cfg it id).1.settleChunk it (s.moveChunk cfg it id).2).requested
      = s.requested := by
  have h2 : (s.refcountIncr it).refcount it = 2 := by
    simp only [Store.refcountIncr, Function.update_self, hr]
    decide
  obtain ⟨hreq, hcount⟩ :=
    (requested_unlinkIndex (cfg.hash (s.key it)) : _ ∧
      ((s.refcountIncr it).unlinkIndex it (cfg.hash (s.key it))).refcount = _)
  have h1 : (((s.refcountIncr it).unlinkIndex it (cfg.hash (s.key it))).refcountDecr it).refcount it
      ≠ 0 := by
    simp only [Store.refcountDecr, Function.update_self, hcount, h2]
    decide
  unfold Store.moveChunk
  dsimp only
  rw [if_neg (by rw [h2]; decide), if_pos h2, if_pos (by exact hl)]
  unfold Store.doItemUnlink
  rw [if_pos (by exact hl)]
  unfold Store.doItemRemove
  dsimp only
  rw [if_neg (by exact h1)]
  exact hreq

end Store

namespace Accounts

/-- No chunk counts less than nothing. -/
theorem share_nonneg (b : Block) (c : ℕ) : 0 ≤ share b c := by
  unfold share
  split
  · exact Int.natCast_nonneg _
  · exact le_rfl

variable {cfg : Settings} {n p c : ℕ} {a a' : Accounts} {l : Change}

/-- One chunk changes. -/
theorem handedOut_setBlock (hp : p < n) (b : Block) :
    (a.setBlock p b).handedOut n c = a.handedOut n c - share (a.block p) c + share b c := by
  have hfun : (fun q => share ((a.setBlock p b).block q) c)
      = Function.update (fun q => share (a.block q) c) p (share b c) := by
    funext q
    obtain rfl | hne := eq_or_ne q p
    · simp [setBlock]
    · simp [setBlock, hne]
  have hmem : p ∈ Finset.range n := Finset.mem_range.mpr hp
  unfold handedOut
  rw [hfun, Finset.sum_update_of_mem hmem, Finset.sum_eq_add_sum_sdiff_singleton_of_mem hmem]
  ring

/-- What is exact, apart from what follows from it. -/
structure Books (a : Accounts) (n : ℕ) : Prop where
  requested : ∀ c, a.requested c = a.handedOut n c
  item : ∀ p < n, (a.block p).place = .handedOut →
    (a.block p).header.ntotal = (a.block p).allocated ∧
      (a.block p).slabsClsid = (a.block p).pageClsid

/-- What the books say of an item bounds what is to be taken off next. -/
theorem Books.exact (h : a.Books n) : a.Exact n where
  requested := h.requested
  ntotal p hp ho := (h.item p hp ho).1
  slabsClsid p hp ho := (h.item p hp ho).2
  le p hp ho := by
    obtain ⟨hsize, hid⟩ := h.item p hp ho
    have hshare : share (a.block p) (a.block p).slabsClsid = (a.block p).allocated :=
      if_pos ⟨ho, hid.symm⟩
    rw [hsize, ← hshare, h.requested]
    exact Finset.single_le_sum (f := fun q => share (a.block q) (a.block p).slabsClsid)
      (fun q _ => share_nonneg _ _) (Finset.mem_range.mpr hp)

/-- Before the first page nothing is handed out. -/
theorem books_init (n : ℕ) : init.Books n where
  requested c := (Finset.sum_eq_zero fun p _ => rfl).symm
  item p _ ho := absurd ho (by simp [init])

/-- **One chunk changes**, and `requested` by what it counts. -/
theorem Books.set {b : Block} (h : a.Books n) (hp : p < n)
    (hblock : a'.block = Function.update a.block p b)
    (hreq : ∀ c, a'.requested c = a.requested c - share (a.block p) c + share b c)
    (hitem : b.place = .handedOut →
      b.header.ntotal = b.allocated ∧ b.slabsClsid = b.pageClsid) : a'.Books n where
  requested c := by
    have hsum : a'.handedOut n c = (a.setBlock p b).handedOut n c := by
      unfold handedOut
      rw [hblock]
      rfl
    rw [hreq, hsum, handedOut_setBlock hp, h.requested]
  item q hq ho := by
    rw [hblock] at ho ⊢
    obtain rfl | hne := eq_or_ne q p
    · rw [Function.update_self] at ho ⊢
      exact hitem ho
    · rw [Function.update_of_ne hne] at ho ⊢
      exact h.item q hq ho

/-- Chunks that nobody has go to the free list of another class. -/
theorem Books.split {page : List ℕ} (h : a.Books n) (id : ℕ)
    (hpage : ∀ p ∈ page, (a.block p).place ≠ .handedOut) :
    (a.splitSlabPageIntoFreelist page id).Books n where
  requested c := by
    have hsame : ∀ p, share ((a.splitSlabPageIntoFreelist page id).block p) c
        = share (a.block p) c := by
      intro p
      unfold splitSlabPageIntoFreelist
      dsimp only
      split
      · rename_i hp
        unfold share
        rw [if_neg (by simp), if_neg fun hs => hpage p hp hs.1]
      · rfl
    exact (h.requested c).trans (Finset.sum_congr rfl fun p _ => (hsame p).symm)
  item p hp ho := by
    unfold splitSlabPageIntoFreelist at ho ⊢
    dsimp only at ho ⊢
    split at ho
    · exact absurd ho (by simp)
    · rename_i hpage
      rw [if_neg hpage]
      exact h.item p hp ho

/-- What a chunk that is not handed out counts. -/
theorem share_of_ne {b : Block} (h : b.place ≠ .handedOut) (c : ℕ) : share b c = 0 :=
  if_neg fun hs => h hs.1

/-- What a chunk that is handed out counts: its size, in the class of its page. -/
theorem share_of_handedOut {b : Block} (h : b.place = .handedOut) (c : ℕ) :
    share b c = if c = b.pageClsid then (b.allocated : ℤ) else 0 := by
  unfold share
  split
  · rename_i hs
    rw [if_pos hs.2.symm]
  · rename_i hs
    rw [if_neg fun hc => hs ⟨h, hc.symm⟩]

/-- **One step keeps the books.** -/
theorem Books.step (h : a.Books n) (hst : a.Step cfg n l a') (hk : KeepsBooks l) : a'.Books n := by
  unfold Step at hst
  cases l with
  | newslab id page | finish id page =>
      simp only [next] at hst
      split at hst
      · rename_i hpage
        obtain rfl := Option.some.inj hst
        refine h.split id fun p hp => ?_
        rw [(hpage p hp).2]
        simp
      · exact absurd hst (by simp)
  | itemAlloc p key flags nbytes =>
      simp only [next] at hst
      split at hst
      · rename_i hgo
        obtain ⟨hp, -, hfree, hid⟩ := hgo
        obtain rfl := Option.some.inj hst
        refine h.set hp (by simp [initItem, doSlabsAlloc, setBlock]; rfl) (fun c => ?_)
          fun _ => ⟨ntotal_make cfg key flags nbytes, hid.symm⟩
        -- a free chunk counts nothing, the new item its size
        rw [share_of_ne (by rw [hfree]; simp), share_of_handedOut rfl]
        show Function.update a.requested _ _ c = _
        rw [Function.update_apply]
        simp only [hid]
        split
        · rename_i hc
          rw [hc]
          ring
        · ring
      · exact absurd hst (by simp)
  | itemReuse p key flags nbytes =>
      simp only [next] at hst
      split at hst
      · rename_i hgo
        obtain ⟨hp, -, ho, -, hid⟩ := hgo
        obtain rfl := Option.some.inj hst
        -- the old size leaves the count of the class and the new one enters it
        obtain ⟨hsize, hpage⟩ := h.item p hp ho
        refine h.set hp (by simp [initItem, slabsAdjustMemRequested, setBlock]; rfl) (fun c => ?_)
          fun _ => ⟨ntotal_make cfg key flags nbytes, hid.symm.trans hpage⟩
        rw [share_of_handedOut ho, share_of_handedOut (by exact ho)]
        show Function.update a.requested _ _ c = _
        rw [Function.update_apply, hpage, hsize]
        split
        · rename_i hc
          rw [hc]
        · ring
      · exact absurd hst (by simp)
  | link p | unlink p =>
      simp only [next] at hst
      split at hst
      · rename_i hgo
        obtain rfl := Option.some.inj hst
        refine h.set hgo.1 rfl (fun c => ?_) (h.item p hgo.1)
        show a.requested c = a.requested c - share (a.block p) c + share (a.block p) c
        ring
      · exact absurd hst (by simp)
  | itemFree p =>
      simp only [next] at hst
      split at hst
      · rename_i hgo
        obtain ⟨hp, ho, -⟩ := hgo
        obtain rfl := Option.some.inj hst
        obtain ⟨hsize, hpage⟩ := h.item p hp ho
        refine h.set hp (by simp [itemFree, doSlabsFree, setBlock]; rfl) (fun c => ?_)
          fun hb => absurd hb (by simp)
        rw [share_of_handedOut ho, share_of_ne (by simp)]
        show Function.update a.requested _ _ c = _
        rw [Function.update_apply, hpage, hsize]
        split
        · rename_i hc
          rw [hc]
          show a.requested _ - _ = _
          ring
        · ring
      · exact absurd hst (by simp)
  | moveFree p =>
      simp only [next] at hst
      split at hst
      · rename_i hgo
        obtain rfl := Option.some.inj hst
        refine h.set hgo.1 rfl (fun c => ?_) fun hb => absurd hb (by simp)
        rw [share_of_ne (by rw [hgo.2]; simp), share_of_ne (by simp)]
        show a.requested c = _
        ring
      · exact absurd hst (by simp)
  | moveItem p => exact hk.elim

instance : DecidablePred KeepsBooks
  | .moveItem _ => inferInstanceAs (Decidable False)
  | .newslab _ _ | .itemAlloc _ _ _ _ | .itemReuse _ _ _ _ | .link _ | .unlink _ | .itemFree _
  | .moveFree _ | .finish _ _ => inferInstanceAs (Decidable True)

/-- A script whose steps keep the books is a run. -/
theorem run_of_keepsBooks {ls : List Change}
    (h : ls.foldlM (fun a l => if KeepsBooks l then a.next cfg n l else none) a = some a') :
    Run (fun a l a' => a.Step cfg n l a' ∧ KeepsBooks l) a ls a' := by
  refine (Run.of_foldlM h).mono (P := fun _ => True) trivial fun _ hst => ⟨?_, trivial⟩
  split at hst
  · rename_i hk
    exact ⟨hst, hk⟩
  · exact absurd hst (by simp)

end Accounts

/-- **`requested` is exact** in every run in which the mover unlinks no item: in every class it is
the sum of what the chunks that are handed out were allocated with, which is what their items need,
and what a chunk counts can be taken off. -/
theorem requested_exact {cfg : Settings} {n : ℕ} {ls : List Accounts.Change} {a : Accounts}
    (hr : Run (fun a l a' => a.Step cfg n l a' ∧ Accounts.KeepsBooks l) Accounts.init ls a) :
    a.Exact n :=
  (hr.invariant (P := fun a => Accounts.Books a n) (Accounts.books_init n)
    fun h hst => h.step hst.1 hst.2).exact

/-- Two pages of one chunk each, and an item in each. -/
def Accounts.twoItems : List Accounts.Change :=
  [.newslab 1 [0], .newslab 1 [1], .itemAlloc 1 [107] 0 3, .itemAlloc 0 [108] 0 3, .link 1, .link 0]

/-- One item is reused for a longer one, the other is deleted. -/
def Accounts.reusedItem : List Accounts.Change :=
  Accounts.twoItems ++ [.itemReuse 1 [109] 0 12, .unlink 0, .itemFree 0]

/-- One item is taken by the mover. -/
def Accounts.movedItem : List Accounts.Change := Accounts.twoItems ++ [.moveItem 0]

/-- An item of 77 bytes is left after a reuse and a deletion. -/
theorem requested_exact_reused : ∃ a : Accounts,
    Run (fun a l a' => a.Step .small 2 l a' ∧ Accounts.KeepsBooks l) Accounts.init
      Accounts.reusedItem a ∧ a.requested 1 = 77 ∧ a.Exact 2 := by
  have hend : (Accounts.reusedItem.foldlM
      (fun (a : Accounts) l => if Accounts.KeepsBooks l then a.next .small 2 l else none)
      Accounts.init).map (fun a => a.requested 1) = some 77 := by
    decide +kernel
  obtain ⟨a, ha, hreq⟩ := Option.map_eq_some_iff.mp hend
  have hr := Accounts.run_of_keepsBooks ha
  exact ⟨a, hr, hreq, requested_exact hr⟩

/-- **The mover unlinks an item**, and `requested` of its class stays as it was. -/
theorem requested_drifts : ¬ ∀ (cfg : Settings) (n : ℕ) (ls : List Accounts.Change) (a : Accounts),
    Run (fun a l a' => a.Step cfg n l a') Accounts.init ls a → a.Exact n := by
  intro hall
  have hend : (Accounts.movedItem.foldlM (Accounts.next .small 2) Accounts.init).map
      (fun a => (a.requested 1, a.handedOut 2 1)) = some (134, 67) := by
    decide +kernel
  obtain ⟨a, ha, heq⟩ := Option.map_eq_some_iff.mp hend
  have hexact := (hall .small 2 _ a (Run.of_foldlM ha)).requested 1
  have hreq : a.requested 1 = 134 := congrArg Prod.fst heq
  have hsum : a.handedOut 2 1 = 67 := congrArg Prod.snd heq
  rw [hreq, hsum] at hexact
  exact absurd hexact (by decide)

end Memcached
