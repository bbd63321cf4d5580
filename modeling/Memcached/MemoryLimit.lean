import Mathlib.Algebra.BigOperators.Group.Finset.Basic
import Memcached.Lib.Regions
import Memcached.Lib.Transition
import Memcached.Mover
import Memcached.SlabClasses

/-! # The memory limit

`do_slabs_newslab` compares `mem_malloced` with `mem_limit` only for a class that has a page. Its
pages come from `malloc` or, with preallocation, from one block that `memory_allocate` hands out
from its start.

* **`SlabMemory`** — the store and the block that is handed out from its start.
* **`SlabMemory.store_doSlabsNewslab`** — its pages are those of the store.
* **`memory_limited`** — how many bytes there are at most. -/

namespace Memcached

open Regions (Region Separate total)
open Transition (Run execs checkAll run_execs)

/-- The values of a `size_t`. -/
def sizeModulus : ℕ := 2 ^ 64

/-- The slab allocator with the block of preallocated memory. -/
structure SlabMemory where
  store : Store
  /-- `mem_base`, `none` when memory is not preallocated. -/
  memBase : Option ℕ
  /-- `mem_current`, where the rest of the block begins. -/
  memCurrent : ℕ
  /-- `mem_avail`, the size of the rest. -/
  memAvail : ℕ

namespace SlabMemory

/-! ## The functions -/

/-- `slabs_init`, up to `slabs_preallocate`; `malloc` is the answer to `malloc(mem_limit)`. -/
def slabsInit (cfg : Settings) (prealloc : Bool) (malloc : Option ℕ) : SlabMemory :=
  match prealloc, malloc with
  | true, some base => ⟨.init, some base, base, cfg.memLimit⟩
  | _, _ => ⟨.init, none, 0, 0⟩

/-- `memory_allocate`; `malloc` is the answer to `malloc(size)`. -/
def memoryAllocate (m : SlabMemory) (size : ℕ) (malloc : Option ℕ) : SlabMemory × Option ℕ :=
  match m.memBase with
  | none => (m, malloc)
  | some _ =>
      -- the size is compared before it is rounded up
      if size > m.memAvail then (m, none)
      else
        let rounded := alignChunk size
        ({ m with
            memCurrent := m.memCurrent + rounded
            memAvail := if rounded < m.memAvail then m.memAvail - rounded else 0 },
          some m.memCurrent)

/-- `do_slabs_newslab`, with the sum `mem_malloced + len` of type `size_t`. -/
def doSlabsNewslab (cfg : Settings) (m : SlabMemory) (id : ℕ) (reallocOk : Bool)
    (malloc : Option ℕ) : SlabMemory × Bool :=
  if cfg.memLimit ≠ 0 ∧ (m.store.memMalloced + cfg.pageLen id) % sizeModulus > cfg.memLimit
      ∧ (m.store.slabclass id).slabs > 0 then (m, false)
  else
    match m.store.growSlabList id reallocOk with
    | (s, false) => ({ m with store := s }, false)
    | (s, true) =>
        match ({ m with store := s } : SlabMemory).memoryAllocate (cfg.pageLen id) malloc with
        | (m, none) => (m, false)
        | (m, some ptr) => ({ m with store := m.store.addPage cfg id ptr }, true)

/-- `do_slabs_alloc`. -/
def doSlabsAlloc (cfg : Settings) (m : SlabMemory) (size id : ℕ) (reallocOk : Bool)
    (malloc : Option ℕ) : SlabMemory × Option Ptr :=
  if id < 1 ∨ id > cfg.powerLargest then (m, none)
  else
    let (m, ok) := if (m.store.slabclass id).slCurr ≠ 0 then (m, true)
      else m.doSlabsNewslab cfg id reallocOk malloc
    if ok = false then (m, none)
    else if (m.store.slabclass id).slCurr ≠ 0 then
      match (m.store.slabclass id).slots with
      | some it => ({ m with store := m.store.popFree it size id }, some it)
      | none => (m, none)
    else (m, none)

end SlabMemory

/-! ## The system -/

/-- What happens to the memory. -/
inductive MemoryOp
  /-- A turn of `slabs_preallocate`. -/
  | preallocate (id : ℕ) (reallocOk : Bool) (malloc : Option ℕ)
  /-- `do_slabs_alloc`. -/
  | alloc (size id : ℕ) (reallocOk : Bool) (malloc : Option ℕ)
  /-- `do_slabs_free`. -/
  | free (ptr : Ptr) (size id : ℕ)
  /-- `do_slabs_reassign`. -/
  | reassign (src dst : ℤ)
  /-- `slab_rebalance_start`. -/
  | start (reallocOk : Bool)
  /-- `slab_rebalance_move`. -/
  | move (trylocks : List Bool)
  /-- `slab_rebalance_finish`. -/
  | finish

/-- The memory after an operation. -/
def SlabMemory.exec (cfg : Settings) (m : SlabMemory) : MemoryOp → SlabMemory
  | .preallocate id reallocOk malloc => (m.doSlabsNewslab cfg id reallocOk malloc).1
  | .alloc size id reallocOk malloc => (m.doSlabsAlloc cfg size id reallocOk malloc).1
  | .free ptr size id => { m with store := m.store.doSlabsFree cfg ptr size id }
  | .reassign src dst => { m with store := m.store.doSlabsReassign cfg src dst }
  | .start reallocOk => { m with store := (m.store.slabRebalanceStart cfg reallocOk).1 }
  | .move trylocks => { m with store := m.store.slabRebalanceMove cfg trylocks }
  | .finish => { m with store := m.store.slabRebalanceFinish cfg }

/-- The pages of class `id`. -/
def Store.slabPages (cfg : Settings) (s : Store) (id : ℕ) : List Region :=
  (s.slabclass id).slabList.map fun ptr => ⟨ptr, cfg.pageLen id⟩

/-- The pages of all classes. -/
def Store.pages (cfg : Settings) (s : Store) : List Region :=
  (List.range (cfg.powerLargest + 1)).flatMap (s.slabPages cfg)

/-- The addresses but the null pointer. -/
def addresses : Finset ℕ := Finset.Ico 1 sizeModulus

/-- What `malloc` answers: no address, or a block that is apart from the pages in use. -/
def Mallocs (cfg : Settings) (s : Store) (len : ℕ) (malloc : Option ℕ) : Prop :=
  ∀ ptr, malloc = some ptr → (⟨ptr, len⟩ : Region).bytes ⊆ addresses ∧
    ∀ page ∈ s.pages cfg, Disjoint (⟨ptr, len⟩ : Region).bytes page.bytes

/-- When an operation runs: `slabs_preallocate` goes through the classes, pages are moved only if
`slab_reassign` is set, and `slab_rebalance_thread` goes by the signal and by `done`. -/
def MemoryOp.Enabled (cfg : Settings) (s : Store) : MemoryOp → Prop
  | .preallocate id _ malloc =>
      (1 ≤ id ∧ id ≤ cfg.powerLargest) ∧ Mallocs cfg s (cfg.pageLen id) malloc
  | .alloc _ id _ malloc => Mallocs cfg s (cfg.pageLen id) malloc
  | .free _ _ _ => True
  | .reassign _ _ => cfg.slabReassign = true
  | .start _ => s.slabRebalanceSignal = 1
  | .move _ => s.slabRebalanceSignal = 2 ∧ s.slabRebal.done = 0
  | .finish => s.slabRebal.done ≠ 0

/-- A step of the system. -/
def MemoryStep (cfg : Settings) (m : SlabMemory) (op : MemoryOp) (m' : SlabMemory) : Prop :=
  op.Enabled cfg m.store ∧ m' = m.exec cfg op

/-- The classes that an operation gives their first page and takes `mem_malloced` beyond the limit
for. -/
def SlabMemory.waived (cfg : Settings) (m : SlabMemory) (op : MemoryOp) : Finset ℕ :=
  (Finset.range (cfg.powerLargest + 1)).filter fun id =>
    (m.store.slabclass id).slabs = 0 ∧ ((m.exec cfg op).store.slabclass id).slabs ≠ 0 ∧
      m.store.memMalloced < (m.exec cfg op).store.memMalloced ∧
      cfg.memLimit < (m.exec cfg op).store.memMalloced

/-- The classes that obtained their first page beyond the limit. -/
def SlabMemory.firstBeyond (cfg : Settings) (m : SlabMemory) : List MemoryOp → Finset ℕ
  | [] => ∅
  | op :: ops => m.waived cfg op ∪ (m.exec cfg op).firstBeyond cfg ops

variable {cfg : Settings} {m m' : SlabMemory} {s s' : Store} {id ptr : ℕ}

/-! ## Where memory comes from -/

/-- **This is `do_slabs_newslab` of the store**, with the answer of `memory_allocate` as an input. -/
theorem SlabMemory.store_doSlabsNewslab {env : AllocEnv} {malloc : Option ℕ}
    (hno : m.store.memMalloced + cfg.pageLen id < sizeModulus)
    (hpage : env.page = (m.memoryAllocate (cfg.pageLen id) malloc).2) :
    ((m.doSlabsNewslab cfg id env.reallocOk malloc).1.store,
      (m.doSlabsNewslab cfg id env.reallocOk malloc).2) = m.store.doSlabsNewslab cfg id env := by
  rw [doSlabsNewslab, Store.doSlabsNewslab, Nat.mod_eq_of_lt hno, hpage]
  split
  · rfl
  rcases m.store.growSlabList id env.reallocOk with ⟨s, ok⟩
  cases ok with
  | false => rfl
  | true =>
      simp only [memoryAllocate]
      cases m.memBase with
      | none => cases malloc <;> rfl
      | some base =>
          by_cases hsize : cfg.pageLen id > m.memAvail
          · simp only [if_pos hsize]
          · simp only [if_neg hsize]

/-- What `memory_allocate` does. -/
theorem SlabMemory.memoryAllocate_cases (m : SlabMemory) (size : ℕ) (malloc : Option ℕ) :
    (m.memBase = none ∧ m.memoryAllocate size malloc = (m, malloc)) ∨
    (m.memoryAllocate size malloc = (m, none)) ∨
    ((∃ base, m.memBase = some base) ∧ size ≤ m.memAvail ∧ m.memoryAllocate size malloc =
      ({ m with
          memCurrent := m.memCurrent + alignChunk size
          memAvail := if alignChunk size < m.memAvail then m.memAvail - alignChunk size else 0 },
        some m.memCurrent)) := by
  rw [memoryAllocate]
  cases m.memBase with
  | none => exact Or.inl ⟨rfl, rfl⟩
  | some base =>
      right
      by_cases hsize : size > m.memAvail
      · left
        simp only [if_pos hsize]
      · right
        refine ⟨⟨base, rfl⟩, not_lt.mp hsize, ?_⟩
        simp only [if_neg hsize]

/-! ## What the operations do to the pages -/

/-- The lists of pages, their total, and which page is being moved. -/
structure MemoryView where
  slabList : ℕ → List ℕ
  killing : ℕ → ℕ
  memMalloced : ℕ
  signal : ℕ
  sClsid : ℤ
  dClsid : ℤ
  slabStart : ℕ

namespace Store

/-- The pages of the store and the move. -/
def memoryView (s : Store) : MemoryView where
  slabList id := (s.slabclass id).slabList
  killing id := (s.slabclass id).killing
  memMalloced := s.memMalloced
  signal := s.slabRebalanceSignal
  sClsid := s.slabRebal.sClsid
  dClsid := s.slabRebal.dClsid
  slabStart := s.slabRebal.slabStart

/-- What counts are the pages and the bytes. -/
theorem memoryView_congr (h : s'.pageState = s.pageState) (hm : s'.memMalloced = s.memMalloced) :
    s'.memoryView = s.memoryView := by
  have hlist := congrArg PageState.slabList h
  have hkill := congrArg PageState.killing h
  have hsig := congrArg PageState.signal h
  have hsrc := congrArg PageState.sClsid h
  have hdst := congrArg PageState.dClsid h
  have hstart := congrArg PageState.slabStart h
  simp only [pageState] at hlist hkill hsig hsrc hdst hstart
  simp only [memoryView, hlist, hkill, hsig, hsrc, hdst, hstart, hm]

/-- A chunk that is freed gives no page back. -/
theorem memMalloced_doSlabsFree (p : Ptr) (size id : ℕ) :
    (s.doSlabsFree cfg p size id).memMalloced = s.memMalloced := by
  rw [doSlabsFree]
  split <;> rfl

/-- A page that is cut into chunks is not counted twice. -/
theorem memMalloced_splitPage (id n ptr : ℕ) :
    (splitSlabPageIntoFreelist cfg id n ptr s).memMalloced = s.memMalloced := by
  induction n generalizing ptr s with
  | zero => rfl
  | succ n ih => rw [splitSlabPageIntoFreelist, ih, memMalloced_doSlabsFree]

/-- Unlinking gives no page back. -/
theorem memMalloced_doItemUnlink (p : Ptr) (hv : ℕ) :
    (s.doItemUnlink cfg p hv).memMalloced = s.memMalloced := by
  rw [doItemUnlink]
  split
  · obtain ⟨a, b, n, e⟩ := assocDelete_frame (s := s.unlinkStats p) ((s.unlinkStats p).key p) hv
    have hindex : (s.unlinkIndex p hv).memMalloced = s.memMalloced := by
      rw [unlinkIndex, e]
      rfl
    rw [doItemRemove]
    split
    · rw [itemFree, memMalloced_doSlabsFree]
      exact hindex
    · exact hindex
  · rfl

/-- The mover gives no page back. -/
theorem memMalloced_visitChunk (it : Ptr) (id : ℕ) (trylock : Bool) :
    (s.visitChunk cfg it id trylock).memMalloced = s.memMalloced := by
  have hsettle : ∀ (s : Store) (st : MoveStatus), (s.settleChunk it st).memMalloced = s.memMalloced :=
    fun s st => by cases st <;> rfl
  have hmove : (s.moveChunk cfg it id).1.memMalloced = s.memMalloced := by
    rw [moveChunk]
    split
    · split <;> rfl
    · split
      · split
        · exact memMalloced_doItemUnlink it _
        · rfl
      · rfl
  rw [visitChunk]
  split
  · rfl
  · split
    · rfl
    · exact (hsettle _ _).trans hmove

/-- A round of the mover gives no page back. -/
theorem memMalloced_slabRebalanceMove (trylocks : List Bool) :
    (s.slabRebalanceMove cfg trylocks).memMalloced = s.memMalloced := by
  have hend : ∀ s : Store, s.endPass.memMalloced = s.memMalloced := fun s => by
    rw [endPass]
    split
    · split <;> rfl
    · rfl
  rw [slabRebalanceMove, hend]
  induction trylocks generalizing s with
  | nil => rfl
  | cons trylock trylocks ih =>
      rw [moveChunks]
      split
      · exact memMalloced_visitChunk ..
      · exact (ih ..).trans (memMalloced_visitChunk ..)

/-- A longer `slab_list` is no page. -/
theorem memoryView_growSlabList (id : ℕ) (ok : Bool) :
    (s.growSlabList id ok).1.memoryView = s.memoryView := by
  have hset : ∀ size, (s.setSlabclass id { s.slabclass id with listSize := size }).memoryView
      = s.memoryView := fun size => by
    have hcls : ∀ c, (s.setSlabclass id { s.slabclass id with listSize := size }).slabclass c
        = if c = id then { s.slabclass id with listSize := size } else s.slabclass c := fun c =>
      Function.update_apply ..
    simp only [memoryView, MemoryView.mk.injEq]
    refine ⟨funext fun c => ?_, funext fun c => ?_, rfl, rfl, rfl, rfl, rfl⟩ <;>
    · rw [hcls]
      split
      · subst c
        rfl
      · rfl
  rw [growSlabList]
  split
  · split
    · exact hset _
    · rfl
  · rfl

/-- A longer `slab_list` is no move. -/
theorem slabRebal_growSlabList (id : ℕ) (ok : Bool) :
    (s.growSlabList id ok).1.slabRebal = s.slabRebal := by
  rw [growSlabList]
  split
  · split <;> rfl
  · rfl

/-- A page is entered into the list of its class. -/
theorem memoryView_enterSlab (id ptr : ℕ) :
    (s.enterSlab id ptr).memoryView = { s.memoryView with
      slabList := Function.update s.memoryView.slabList id (s.memoryView.slabList id ++ [ptr]) } := by
  have hcls : ∀ c, (s.enterSlab id ptr).slabclass c
      = if c = id then (s.slabclass id).addSlab ptr else s.slabclass c := fun c =>
    Function.update_apply ..
  simp only [memoryView, MemoryView.mk.injEq]
  refine ⟨funext fun c => ?_, funext fun c => ?_, rfl, rfl, rfl, rfl, rfl⟩
  · rw [hcls, Function.update_apply]
    split <;> rfl
  · rw [hcls]
    split
    · subst c
      rfl
    · rfl

/-- **A new page** is one more in the list of its class and in the total. -/
theorem memoryView_addPage (id ptr : ℕ) :
    (s.addPage cfg id ptr).memoryView = { s.memoryView with
      slabList := Function.update s.memoryView.slabList id (s.memoryView.slabList id ++ [ptr])
      memMalloced := s.memMalloced + cfg.pageLen id } := by
  set t := splitSlabPageIntoFreelist cfg id (cfg.perslab id) ptr (s.clearPage ptr (cfg.pageLen id))
    with ht
  have htv : t.memoryView = s.memoryView :=
    memoryView_congr (pageState_splitPage id _ ptr) (memMalloced_splitPage id _ ptr)
  have hadd : (s.addPage cfg id ptr).memoryView = { (t.enterSlab id ptr).memoryView with
      memMalloced := t.memMalloced + cfg.pageLen id } := rfl
  have hm : t.memMalloced = s.memMalloced := congrArg MemoryView.memMalloced htv
  rw [hadd, memoryView_enterSlab, htv, hm]

/-- **The first page is taken off the list of its class**, and the last one put in its place. -/
theorem slabList_dropSlab {x : ℕ} {rest : List ℕ} (hk : (s.slabclass id).killing = 1)
    (hl : (s.slabclass id).slabList = x :: rest) (hrest : rest ≠ []) :
    (((s.dropSlab id).slabclass id).slabList).Perm rest ∧
      ∀ c, c ≠ id → ((s.dropSlab id).slabclass c).slabList = (s.slabclass c).slabList := by
  obtain ⟨init, last, rfl⟩ := List.eq_nil_or_concat rest |>.resolve_left hrest
  refine ⟨?_, fun c hc => ?_⟩
  · have hdrop : ((s.dropSlab id).slabclass id).slabList = last :: init := by
      simp [dropSlab, setSlabclass, hk, hl, SlabClass.slabs, List.dropLast_cons_of_ne_nil]
    rw [hdrop, List.concat_eq_append]
    exact (List.perm_append_singleton last init).symm
  · simp [dropSlab, setSlabclass, hc]

/-- **A page that has been moved** is in the list of its new class. -/
theorem slabList_slabRebalanceFinish (c : ℕ) :
    ((s.slabRebalanceFinish cfg).slabclass c).slabList
      = ((s.dropSlab s.slabRebal.sClsid.toNat).slabclass c).slabList
        ++ if c = s.slabRebal.dClsid.toNat then [s.slabRebal.slabStart] else [] := by
  set src := s.slabRebal.sClsid.toNat
  set dst := s.slabRebal.dClsid.toNat with hdst
  set t := ((s.dropSlab src).clearPage s.slabRebal.slabStart cfg.itemSizeMax).enterSlab dst
    s.slabRebal.slabStart with ht
  have hsplit : (splitSlabPageIntoFreelist cfg dst (cfg.perslab dst) s.slabRebal.slabStart
      t).pageState = t.pageState := pageState_splitPage ..
  have hlist : ((s.slabRebalanceFinish cfg).slabclass c).slabList = (t.slabclass c).slabList :=
    congrFun (congrArg PageState.slabList hsplit) c
  have henter := congrFun (congrArg MemoryView.slabList
    (memoryView_enterSlab (s := (s.dropSlab src).clearPage s.slabRebal.slabStart cfg.itemSizeMax)
      dst s.slabRebal.slabStart)) c
  rw [hlist]
  simp only [Function.update_apply] at henter
  refine henter.trans ?_
  split
  · subst c
    rfl
  · rw [List.append_nil]
    rfl

/-- A page that has moved is counted as before. -/
theorem memMalloced_slabRebalanceFinish :
    (s.slabRebalanceFinish cfg).memMalloced = s.memMalloced := memMalloced_splitPage ..

end Store

namespace SlabMemory

/-- The pages are what they were. -/
structure Keeps (m m' : SlabMemory) : Prop where
  view : m'.store.memoryView = m.store.memoryView
  done : m'.store.slabRebal.done ≠ 0 →
    m.store.slabRebal.done ≠ 0 ∨ m.store.slabRebalanceSignal = 2
  memBase : m'.memBase = m.memBase
  memCurrent : m'.memCurrent = m.memCurrent
  memAvail : m'.memAvail = m.memAvail

/-- Class `id` has obtained the page at `ptr`. -/
structure Obtains (cfg : Settings) (m : SlabMemory) (id : ℕ) (malloc : Option ℕ) (ptr : ℕ)
    (m' : SlabMemory) : Prop where
  view : m'.store.memoryView = { m.store.memoryView with
    slabList := Function.update m.store.memoryView.slabList id
      (m.store.memoryView.slabList id ++ [ptr])
    memMalloced := m.store.memMalloced + cfg.pageLen id }
  done : m'.store.slabRebal.done = m.store.slabRebal.done
  /-- The limit is waived for a class with no page. -/
  limit : cfg.memLimit ≠ 0 →
    (m.store.memMalloced + cfg.pageLen id) % sizeModulus ≤ cfg.memLimit ∨
      (m.store.slabclass id).slabs = 0
  memBase : m'.memBase = m.memBase
  /-- The page is one of `malloc`, or begins where the rest of the block began. -/
  source : (m.memBase = none ∧ malloc = some ptr) ∨
    ((∃ base, m.memBase = some base) ∧ cfg.pageLen id ≤ m.memAvail ∧ ptr = m.memCurrent ∧
      m'.memCurrent = m.memCurrent + alignChunk (cfg.pageLen id) ∧
      m'.memAvail = if alignChunk (cfg.pageLen id) < m.memAvail then
        m.memAvail - alignChunk (cfg.pageLen id) else 0)

/-- Where nothing happens the pages are what they were. -/
theorem Keeps.refl (m : SlabMemory) : Keeps m m := ⟨rfl, Or.inl, rfl, rfl, rfl⟩

/-- A change of the store that the pages do not see. -/
theorem Keeps.of_view (h : s.memoryView = m.store.memoryView)
    (hd : s.slabRebal = m.store.slabRebal) : Keeps m { m with store := s } :=
  ⟨h, fun hne => Or.inl (hd ▸ hne), rfl, rfl, rfl⟩

/-- **`do_slabs_newslab`** obtains a page or leaves everything as it was. -/
theorem doSlabsNewslab_cases (cfg : Settings) (m : SlabMemory) (id : ℕ) (ok : Bool)
    (malloc : Option ℕ) :
    ((m.doSlabsNewslab cfg id ok malloc).2 = false ∧ Keeps m (m.doSlabsNewslab cfg id ok malloc).1) ∨
    ((m.doSlabsNewslab cfg id ok malloc).2 = true ∧
      ∃ ptr, Obtains cfg m id malloc ptr (m.doSlabsNewslab cfg id ok malloc).1) := by
  rw [doSlabsNewslab]
  split
  · exact Or.inl ⟨rfl, .refl m⟩
  rename_i hlimit
  have hview := Store.memoryView_growSlabList (s := m.store) id ok
  have hrebal := Store.slabRebal_growSlabList (s := m.store) id ok
  rcases hg : m.store.growSlabList id ok with ⟨s, grown⟩
  rw [hg] at hview hrebal
  cases grown with
  | false => exact Or.inl ⟨rfl, .of_view hview hrebal⟩
  | true =>
      have hwaived : cfg.memLimit ≠ 0 →
          (m.store.memMalloced + cfg.pageLen id) % sizeModulus ≤ cfg.memLimit ∨
            (m.store.slabclass id).slabs = 0 := by
        intro h0
        by_contra hc
        push Not at hc
        exact hlimit ⟨h0, hc.1, Nat.pos_of_ne_zero hc.2⟩
      have hmalloced : s.memMalloced = m.store.memMalloced :=
        congrArg MemoryView.memMalloced hview
      have hadd : ∀ ptr, (s.addPage cfg id ptr).memoryView = { m.store.memoryView with
          slabList := Function.update m.store.memoryView.slabList id
            (m.store.memoryView.slabList id ++ [ptr])
          memMalloced := m.store.memMalloced + cfg.pageLen id } := fun ptr => by
        have hv : s.memoryView = m.store.memoryView := hview
        rw [Store.memoryView_addPage, hv, hmalloced]
      have hdone : ∀ ptr, (s.addPage cfg id ptr).slabRebal.done = m.store.slabRebal.done :=
        fun ptr => congrArg SlabRebalance.done ((Store.slabRebal_splitPage ..).trans hrebal)
      rcases memoryAllocate_cases { m with store := s } (cfg.pageLen id) malloc with
        ⟨hbase, e⟩ | e | ⟨hbase, hsize, e⟩
      · simp only [e]
        cases malloc with
        | none => exact Or.inl ⟨rfl, .of_view hview hrebal⟩
        | some ptr =>
            exact Or.inr ⟨rfl, ptr, hadd ptr, hdone ptr, hwaived, rfl, Or.inl ⟨hbase, rfl⟩⟩
      · simp only [e]
        exact Or.inl ⟨trivial, .of_view hview hrebal⟩
      · simp only [e]
        exact Or.inr ⟨trivial, m.memCurrent, hadd _, hdone _, hwaived, rfl,
          Or.inr ⟨hbase, hsize, rfl, rfl, rfl⟩⟩

/-- A chunk is taken off a free list. -/
theorem memoryView_popFree (it : Ptr) (size id : ℕ) :
    (s.popFree it size id).memoryView = s.memoryView :=
  Store.memoryView_congr (Store.pageState_congr rfl rfl rfl rfl rfl rfl) rfl

/-- **`do_slabs_alloc`** obtains a page for its class at most. -/
theorem doSlabsAlloc_cases (cfg : Settings) (m : SlabMemory) (size id : ℕ) (ok : Bool)
    (malloc : Option ℕ) :
    Keeps m (m.doSlabsAlloc cfg size id ok malloc).1 ∨
    ((1 ≤ id ∧ id ≤ cfg.powerLargest) ∧
      ∃ ptr, Obtains cfg m id malloc ptr (m.doSlabsAlloc cfg size id ok malloc).1) := by
  rw [doSlabsAlloc]
  split
  · exact Or.inl (.refl m)
  rename_i hid
  have hid : 1 ≤ id ∧ id ≤ cfg.powerLargest := by omega
  by_cases hcurr : (m.store.slabclass id).slCurr ≠ 0
  · -- the class has a free chunk
    simp only [if_pos hcurr, Bool.true_eq_false, if_false]
    split
    · exact Or.inl (.of_view (memoryView_popFree ..) rfl)
    · exact Or.inl (.refl m)
  · rcases doSlabsNewslab_cases cfg m id ok malloc with ⟨hok, hk⟩ | ⟨hok, ptr, ho⟩
    · simp only [if_neg hcurr, hok, if_true]
      exact Or.inl hk
    · simp only [if_neg hcurr, hok, Bool.true_eq_false, if_false]
      split
      · split
        · exact Or.inr ⟨hid, ptr, (memoryView_popFree ..).trans ho.view, ho.done, ho.limit, ho.memBase,
            ho.source⟩
        · exact Or.inr ⟨hid, ptr, ho⟩
      · exact Or.inr ⟨hid, ptr, ho⟩

end SlabMemory

/-! ## The pages as a whole -/

namespace Store

/-- The pages are those of the lists. -/
theorem pages_congr (cfg : Settings) (h : s'.memoryView.slabList = s.memoryView.slabList) :
    s'.pages cfg = s.pages cfg := by
  have hclass : s'.slabPages cfg = s.slabPages cfg := funext fun id => by
    have hlist : (s'.slabclass id).slabList = (s.slabclass id).slabList := congrFun h id
    rw [slabPages, slabPages, hlist]
  rw [pages, pages, hclass]

/-- A class has a page more. -/
theorem pages_perm_cons (hid : id ≤ cfg.powerLargest)
    (hself : ((s'.slabclass id).slabList).Perm (ptr :: (s.slabclass id).slabList))
    (hne : ∀ c, c ≠ id → (s'.slabclass c).slabList = (s.slabclass c).slabList) :
    (s'.pages cfg).Perm (⟨ptr, cfg.pageLen id⟩ :: s.pages cfg) := by
  apply Regions.flatMap_perm_cons List.nodup_range
  · exact List.mem_range.mpr (Nat.lt_succ_of_le hid)
  · intro c hc
    rw [slabPages, slabPages, hne c hc]
  · exact hself.map fun ptr => (⟨ptr, cfg.pageLen id⟩ : Region)

/-- What holds while a page is moved. -/
structure MovesPage (cfg : Settings) (s : Store) : Prop where
  /-- The page is the first one of its class, which has others. -/
  list : ∃ rest, rest ≠ [] ∧
    (s.slabclass s.slabRebal.sClsid.toNat).slabList = s.slabRebal.slabStart :: rest
  killing : (s.slabclass s.slabRebal.sClsid.toNat).killing = 1
  ne : s.slabRebal.sClsid.toNat ≠ s.slabRebal.dClsid.toNat
  src_le : s.slabRebal.sClsid.toNat ≤ cfg.powerLargest
  dst_le : s.slabRebal.dClsid.toNat ≤ cfg.powerLargest

/-- Workers may give the classes more pages meanwhile. -/
theorem MovesPage.mono (h : s.MovesPage cfg)
    (hlist : ∀ id, (s.slabclass id).slabList <+: (s'.slabclass id).slabList)
    (hview : s'.memoryView =
      { s.memoryView with
        slabList := s'.memoryView.slabList, memMalloced := s'.memMalloced }) :
    s'.MovesPage cfg := by
  have hkill : ∀ id, (s'.slabclass id).killing = (s.slabclass id).killing := fun id =>
    congrFun (congrArg MemoryView.killing hview) id
  have hsrc : s'.slabRebal.sClsid = s.slabRebal.sClsid := congrArg MemoryView.sClsid hview
  have hdst : s'.slabRebal.dClsid = s.slabRebal.dClsid := congrArg MemoryView.dClsid hview
  have hstart : s'.slabRebal.slabStart = s.slabRebal.slabStart :=
    congrArg MemoryView.slabStart hview
  obtain ⟨rest, hrest, hl⟩ := h.list
  obtain ⟨more, hmore⟩ := hlist s.slabRebal.sClsid.toNat
  refine ⟨⟨rest ++ more, ?_, ?_⟩, ?_, ?_, ?_, ?_⟩
  · exact List.append_ne_nil_of_left_ne_nil hrest more
  · rw [hsrc, hstart, ← hmore, hl, List.cons_append]
  · rw [hsrc, hkill]
    exact h.killing
  · rw [hsrc, hdst]
    exact h.ne
  · rw [hsrc]
    exact h.src_le
  · rw [hdst]
    exact h.dst_le

/-- **A moved page is still one of the pages.** -/
theorem MovesPage.pages_finish (h : s.MovesPage cfg) (hre : cfg.slabReassign = true) :
    ((s.slabRebalanceFinish cfg).pages cfg).Perm (s.pages cfg) := by
  obtain ⟨rest, hrest, hl⟩ := h.list
  obtain ⟨hdrop, hothers⟩ := slabList_dropSlab h.killing hl hrest
  set src := s.slabRebal.sClsid.toNat
  set dst := s.slabRebal.dClsid.toNat with hdst
  -- without the page: what both have in common
  have hbefore : (s.pages cfg).Perm
      (⟨s.slabRebal.slabStart, cfg.pageLen src⟩ :: (s.dropSlab src).pages cfg) := by
    apply pages_perm_cons h.src_le
    · rw [hl]
      exact hdrop.symm.cons _
    · exact fun c hc => (hothers c hc).symm
  have hafter : ((s.slabRebalanceFinish cfg).pages cfg).Perm
      (⟨s.slabRebal.slabStart, cfg.pageLen dst⟩ :: (s.dropSlab src).pages cfg) := by
    apply pages_perm_cons h.dst_le
    · rw [slabList_slabRebalanceFinish, if_pos hdst.symm]
      exact List.perm_append_singleton ..
    · intro c hc
      rw [slabList_slabRebalanceFinish, if_neg hc, List.append_nil]
  have hlen : cfg.pageLen dst = cfg.pageLen src := by
    rw [Settings.pageLen, Settings.pageLen, if_pos hre, if_pos hre]
  rw [hlen] at hafter
  exact hafter.trans hbefore.symm

end Store

namespace SlabMemory

/-- The preallocated block at `base`: what has been handed out, and what is left. -/
structure Block (cfg : Settings) (m : SlabMemory) (base : ℕ) : Prop where
  within : Finset.Ico base (base + cfg.memLimit) ⊆ addresses
  le_memCurrent : base ≤ m.memCurrent
  /-- Rounding up may use a block up before its end, or step over it. -/
  rest : m.memAvail = 0 ∨ m.memCurrent + m.memAvail = base + cfg.memLimit
  inside : ∀ page ∈ m.store.pages cfg, page.bytes ⊆ Finset.Ico base (base + cfg.memLimit)
  before : ∀ page ∈ m.store.pages cfg, page.bytes ⊆ Finset.Ico base m.memCurrent

/-- The invariant of the memory. -/
structure Inv (cfg : Settings) (m : SlabMemory) : Prop where
  done : m.store.slabRebal.done ≠ 0 → m.store.slabRebalanceSignal = 2
  asked : m.store.slabRebalanceSignal ≠ 0 → cfg.slabReassign = true
  moving : m.store.slabRebalanceSignal = 2 → m.store.MovesPage cfg
  malloced : m.store.memMalloced = total (m.store.pages cfg)
  separate : Separate (m.store.pages cfg)
  space : ∀ page ∈ m.store.pages cfg, page.bytes ⊆ addresses
  block : ∀ base, m.memBase = some base → m.Block cfg base

/-- `mem_malloced` does not overflow. -/
theorem Inv.memMalloced_lt (h : m.Inv cfg) : m.store.memMalloced < sizeModulus := by
  have hle := h.separate.total_le h.space
  rw [h.malloced]
  simp only [addresses, Nat.card_Ico] at hle
  have hpos : 0 < sizeModulus := by decide
  omega

/-- The part of the invariant that speaks of the pages, for pages that have been permuted. -/
theorem Inv.of_perm (h : m.Inv cfg) (hp : (m'.store.pages cfg).Perm (m.store.pages cfg))
    (hm : m'.store.memMalloced = m.store.memMalloced) (hbase : m'.memBase = m.memBase)
    (hcur : m'.memCurrent = m.memCurrent) (havail : m'.memAvail = m.memAvail)
    (hdone : m'.store.slabRebal.done ≠ 0 → m'.store.slabRebalanceSignal = 2)
    (hasked : m'.store.slabRebalanceSignal ≠ 0 → cfg.slabReassign = true)
    (hmoving : m'.store.slabRebalanceSignal = 2 → m'.store.MovesPage cfg) : m'.Inv cfg where
  done := hdone
  asked := hasked
  moving := hmoving
  malloced := by
    rw [hm, h.malloced]
    exact (Regions.total_perm hp).symm
  separate := h.separate.perm hp.symm
  space := fun page hpage => h.space page (hp.mem_iff.mp hpage)
  block := fun base hb => by
    have hblock := h.block base (hbase ▸ hb)
    refine ⟨hblock.within, ?_, ?_, fun page hpage => ?_, fun page hpage => ?_⟩
    · rw [hcur]
      exact hblock.le_memCurrent
    · rw [hcur, havail]
      exact hblock.rest
    · exact hblock.inside page (hp.mem_iff.mp hpage)
    · rw [hcur]
      exact hblock.before page (hp.mem_iff.mp hpage)

/-- What keeps the pages keeps the invariant. -/
theorem Inv.keeps (h : m.Inv cfg) (hk : Keeps m m') : m'.Inv cfg := by
  have hsig : m'.store.slabRebalanceSignal = m.store.slabRebalanceSignal :=
    congrArg MemoryView.signal hk.view
  have hlist : ∀ id, (m.store.slabclass id).slabList = (m'.store.slabclass id).slabList := fun id =>
    (congrFun (congrArg MemoryView.slabList hk.view) id).symm
  have hpages := Store.pages_congr cfg (congrArg MemoryView.slabList hk.view)
  have hmalloced : m'.store.memMalloced = m.store.memMalloced :=
    congrArg MemoryView.memMalloced hk.view
  refine h.of_perm (.of_eq hpages) hmalloced hk.memBase hk.memCurrent hk.memAvail ?_ ?_ ?_
  · intro hd
    rw [hsig]
    exact (hk.done hd).elim h.done id
  · intro hs
    exact h.asked (hsig ▸ hs)
  · intro hs
    apply (h.moving (hsig ▸ hs)).mono
    · intro id
      rw [hlist id]
    · rw [hk.view, hmalloced]
      rfl

/-- The lists after a page has been obtained. -/
theorem Obtains.slabList {malloc : Option ℕ} (ho : Obtains cfg m id malloc ptr m') (c : ℕ) :
    (m'.store.slabclass c).slabList
      = (m.store.slabclass c).slabList ++ if c = id then [ptr] else [] := by
  have hlist : (m'.store.slabclass c).slabList = Function.update m.store.memoryView.slabList id
      (m.store.memoryView.slabList id ++ [ptr]) c := congrFun (congrArg MemoryView.slabList ho.view) c
  rw [hlist, Function.update_apply]
  split
  · subst c
    rfl
  · exact (List.append_nil _).symm

/-- **A page that has been obtained** is apart from the others, and in the block if there is one. -/
theorem Inv.obtained_page (h : m.Inv cfg) {malloc : Option ℕ} (ho : Obtains cfg m id malloc ptr m')
    (hm : Mallocs cfg m.store (cfg.pageLen id) malloc) :
    (⟨ptr, cfg.pageLen id⟩ : Region).bytes ⊆ addresses ∧
      (∀ page ∈ m.store.pages cfg, Disjoint (⟨ptr, cfg.pageLen id⟩ : Region).bytes page.bytes) ∧
      ∀ base, m.memBase = some base →
        (⟨ptr, cfg.pageLen id⟩ : Region).bytes ⊆ Finset.Ico base (base + cfg.memLimit) := by
  rcases ho.source with ⟨hnone, hptr⟩ | ⟨⟨base, hb⟩, hsize, rfl, -, -⟩
  · exact ⟨(hm ptr hptr).1, (hm ptr hptr).2, fun base hb => absurd hb (by simp [hnone])⟩
  · have hblock := h.block base hb
    have hin : (⟨m.memCurrent, cfg.pageLen id⟩ : Region).bytes
        ⊆ Finset.Ico base (base + cfg.memLimit) := by
      rcases hblock.rest with h0 | hrest
      · -- nothing is left, so the page is empty
        rw [Region.bytes_eq_empty (by simpa [h0] using hsize)]
        exact Finset.empty_subset _
      · apply Region.bytes_subset hblock.le_memCurrent
        show m.memCurrent + cfg.pageLen id ≤ base + cfg.memLimit
        omega
    refine ⟨hin.trans hblock.within, fun page hpage => ?_, fun base' hb' => ?_⟩
    · -- the pages in use end where the rest begins
      apply Finset.disjoint_left.mpr
      intro b hnew hold
      have h₁ := (Finset.mem_Ico.mp hnew).1
      have h₂ := (Finset.mem_Ico.mp (hblock.before page hpage hold)).2
      exact absurd h₂ (not_lt.mpr h₁)
    · obtain rfl : base = base' := Option.some.inj (hb.symm.trans hb')
      exact hin

/-- **Obtaining a page keeps the invariant.** -/
theorem Inv.obtains (h : m.Inv cfg) {malloc : Option ℕ} (hid : id ≤ cfg.powerLargest)
    (ho : Obtains cfg m id malloc ptr m') (hm : Mallocs cfg m.store (cfg.pageLen id) malloc) :
    m'.Inv cfg := by
  obtain ⟨hspace, hapart, hblock⟩ := h.obtained_page ho hm
  have hsig : m'.store.slabRebalanceSignal = m.store.slabRebalanceSignal :=
    congrArg MemoryView.signal ho.view
  have hmalloced : m'.store.memMalloced = m.store.memMalloced + cfg.pageLen id :=
    congrArg MemoryView.memMalloced ho.view
  have hp : (m'.store.pages cfg).Perm (⟨ptr, cfg.pageLen id⟩ :: m.store.pages cfg) := by
    apply Store.pages_perm_cons hid
    · rw [ho.slabList, if_pos rfl]
      exact List.perm_append_singleton ..
    · intro c hc
      rw [ho.slabList, if_neg hc, List.append_nil]
  have hmem : ∀ page ∈ m'.store.pages cfg,
      page = ⟨ptr, cfg.pageLen id⟩ ∨ page ∈ m.store.pages cfg := fun page hpage =>
    List.mem_cons.mp (hp.mem_iff.mp hpage)
  refine ⟨?_, ?_, ?_, ?_, ?_, ?_, ?_⟩
  · rw [ho.done, hsig]
    exact h.done
  · rw [hsig]
    exact h.asked
  · intro hs
    apply (h.moving (hsig ▸ hs)).mono
    · intro c
      rw [ho.slabList]
      exact List.prefix_append ..
    · rw [ho.view, hmalloced]
  · rw [hmalloced, Regions.total_perm hp, total, h.malloced]
    exact Nat.add_comm ..
  · exact (Regions.separate_cons.mpr ⟨hapart, h.separate⟩).perm hp.symm
  · intro page hpage
    rcases hmem page hpage with rfl | hold
    · exact hspace
    · exact h.space page hold
  · intro base hb
    rw [ho.memBase] at hb
    have hold := h.block base hb
    rcases ho.source with ⟨hnone, -⟩ | ⟨-, hsize, rfl, hcur, havail⟩
    · exact absurd hb (by simp [hnone])
    have hround := le_alignChunk (cfg.pageLen id)
    refine ⟨hold.within, ?_, ?_, fun page hpage => ?_, fun page hpage => ?_⟩
    · have := hold.le_memCurrent
      omega
    · rcases hold.rest with h0 | hrest <;>
      · rw [hcur, havail]
        split <;> omega
    · rcases hmem page hpage with rfl | hpage
      · exact hblock base hb
      · exact hold.inside page hpage
    · rw [hcur]
      rcases hmem page hpage with rfl | hpage
      · apply Region.bytes_subset hold.le_memCurrent
        show m.memCurrent + cfg.pageLen id ≤ _
        omega
      · exact (hold.before page hpage).trans (Finset.Ico_subset_Ico_right (Nat.le_add_right _ _))

/-- `do_slabs_reassign` posts a request, unless one is there already. -/
theorem Inv.reassign (h : m.Inv cfg) (hre : cfg.slabReassign = true) (src dst : ℤ) :
    ({ m with store := m.store.doSlabsReassign cfg src dst } : SlabMemory).Inv cfg := by
  rcases doSlabsReassign_cases cfg src dst m.store with ⟨a, e⟩ | ⟨hsig, a, src', e⟩
  · rw [e]
    exact h.of_perm .rfl rfl rfl rfl rfl h.done h.asked fun hs =>
      (h.moving hs).mono (fun _ => List.prefix_rfl) rfl
  · have hdone : m.store.slabRebal.done = 0 := by
      by_contra hd
      exact absurd (h.done hd) (by omega)
    rw [e]
    exact h.of_perm .rfl rfl rfl rfl rfl (fun hd => absurd hdone hd) (fun _ => hre)
      fun hs => absurd hs (by simp)

/-- **`slab_rebalance_start` keeps the invariant**: it takes the first page of a class that has
another one. -/
theorem Inv.start (h : m.Inv cfg) (ok : Bool) (hs : m.store.slabRebalanceSignal = 1) :
    ({ m with store := (m.store.slabRebalanceStart cfg ok).1 } : SlabMemory).Inv cfg := by
  have hdone : m.store.slabRebal.done = 0 := by
    by_contra hd
    exact absurd (h.done hd) (by omega)
  have hview := Store.memoryView_growSlabList (s := m.store) m.store.slabRebal.dClsid.toNat ok
  have hrebal := Store.slabRebal_growSlabList (s := m.store) m.store.slabRebal.dClsid.toNat ok
  rw [Store.slabRebalanceStart]
  rcases hg : m.store.growSlabList m.store.slabRebal.dClsid.toNat ok with ⟨t, grown⟩
  rw [hg] at hview hrebal
  replace hview : t.memoryView = m.store.memoryView := hview
  replace hrebal : t.slabRebal = m.store.slabRebal := hrebal
  have hmalloced : t.memMalloced = m.store.memMalloced := congrArg MemoryView.memMalloced hview
  have hpages := Store.pages_congr cfg (congrArg MemoryView.slabList hview)
  simp only
  split
  · exact h.of_perm (.of_eq hpages) hmalloced rfl rfl rfl (fun hd => absurd (hrebal ▸ hdone) hd)
      (fun hc => absurd rfl hc) (fun hc => absurd hc (by simp))
  · rename_i hgo
    have hgo : t.rebalanceNoGo cfg grown = 0 := by simpa using hgo
    rw [Store.rebalanceNoGo] at hgo
    split at hgo
    · exact absurd hgo (by simp)
    rename_i hslabs
    split at hgo
    · exact absurd hgo (by simp)
    split at hgo
    · exact absurd hgo (by simp)
    rename_i hids
    set src := t.slabRebal.sClsid.toNat with hsrc
    set u := t.setSlabclass src { t.slabclass src with killing := 1 } with hu
    have hcls : ∀ c, (u.slabclass c).slabList = (t.slabclass c).slabList := fun c => by
      by_cases hc : c = src
      · subst hc
        simp [hu, Store.setSlabclass]
      · simp [hu, Store.setSlabclass, hc]
    obtain ⟨first, second, rest, hl⟩ : ∃ first second rest,
        (t.slabclass src).slabList = first :: second :: rest := by
      have htwo : 2 ≤ (t.slabclass src).slabList.length := not_lt.mp hslabs
      obtain ⟨first, others, hl⟩ :=
        List.exists_cons_of_length_pos (l := (t.slabclass src).slabList) (by omega)
      rw [hl, List.length_cons] at htwo
      obtain ⟨second, rest, rfl⟩ := List.exists_cons_of_length_pos (l := others) (by omega)
      exact ⟨first, second, rest, hl⟩
    have hupages : u.pages cfg = t.pages cfg := Store.pages_congr cfg (funext hcls)
    refine h.of_perm (.of_eq (hupages.trans hpages)) hmalloced rfl rfl rfl (fun _ => rfl)
      (fun _ => h.asked (by omega)) fun _ => ⟨⟨second :: rest, by simp, ?_⟩, ?_, ?_, ?_, ?_⟩
    · show (u.slabclass src).slabList = (t.slabclass src).slabList.getD 0 0 :: second :: rest
      rw [hcls, hl]
      rfl
    · show (u.slabclass src).killing = 1
      simp [hu, Store.setSlabclass]
    · show src ≠ t.slabRebal.dClsid.toNat
      omega
    · show src ≤ cfg.powerLargest
      omega
    · show t.slabRebal.dClsid.toNat ≤ cfg.powerLargest
      omega

/-- **`slab_rebalance_finish` keeps the invariant.** -/
theorem Inv.finish (h : m.Inv cfg) (hd : m.store.slabRebal.done ≠ 0) :
    ({ m with store := m.store.slabRebalanceFinish cfg } : SlabMemory).Inv cfg := by
  have hs := h.done hd
  have hre := h.asked (by omega)
  exact h.of_perm ((h.moving hs).pages_finish hre) Store.memMalloced_slabRebalanceFinish rfl rfl rfl
    (fun hc => absurd rfl hc) (fun hc => absurd rfl hc)
    (fun hc => absurd hc (by simp [Store.slabRebalanceFinish]))

/-- **Every step keeps the invariant.** -/
theorem Inv.step {op : MemoryOp} (h : m.Inv cfg) (hst : MemoryStep cfg m op m') : m'.Inv cfg := by
  obtain ⟨hen, rfl⟩ := hst
  cases op with
  | preallocate id ok malloc =>
      rcases doSlabsNewslab_cases cfg m id ok malloc with ⟨-, hk⟩ | ⟨-, ptr, ho⟩
      · exact h.keeps hk
      · exact h.obtains hen.1.2 ho hen.2
  | alloc size id ok malloc =>
      rcases doSlabsAlloc_cases cfg m size id ok malloc with hk | ⟨hid, ptr, ho⟩
      · exact h.keeps hk
      · exact h.obtains hid.2 ho hen
  | free ptr size id =>
      apply h.keeps
      have hview : (m.store.doSlabsFree cfg ptr size id).memoryView = m.store.memoryView :=
        Store.memoryView_congr (Store.pageState_doSlabsFree ptr size id)
          (Store.memMalloced_doSlabsFree ptr size id)
      refine .of_view hview ?_
      rw [Store.doSlabsFree]
      split <;> rfl
  | reassign src dst => exact h.reassign hen src dst
  | start ok => exact h.start ok hen
  | move trylocks =>
      apply h.keeps
      have hview : (m.store.slabRebalanceMove cfg trylocks).memoryView = m.store.memoryView :=
        Store.memoryView_congr (Store.pageState_slabRebalanceMove trylocks)
          (Store.memMalloced_slabRebalanceMove trylocks)
      exact ⟨hview, fun _ => Or.inr hen.1, rfl, rfl, rfl⟩
  | finish => exact h.finish hen

/-- `slab_rebalance_start` leaves the lists of pages alone. -/
theorem slabList_slabRebalanceStart (ok : Bool) (c : ℕ) :
    ((s.slabRebalanceStart cfg ok).1.slabclass c).slabList = (s.slabclass c).slabList ∧
      (s.slabRebalanceStart cfg ok).1.memMalloced = s.memMalloced := by
  have hview := Store.memoryView_growSlabList (s := s) s.slabRebal.dClsid.toNat ok
  rw [Store.slabRebalanceStart]
  rcases hg : s.growSlabList s.slabRebal.dClsid.toNat ok with ⟨t, grown⟩
  rw [hg] at hview
  replace hview : t.memoryView = s.memoryView := hview
  have hlist : (t.slabclass c).slabList = (s.slabclass c).slabList :=
    congrFun (congrArg MemoryView.slabList hview) c
  have hmalloced : t.memMalloced = s.memMalloced := congrArg MemoryView.memMalloced hview
  simp only
  split
  · exact ⟨hlist, hmalloced⟩
  · refine ⟨?_, hmalloced⟩
    rw [← hlist]
    by_cases hc : c = t.slabRebal.sClsid.toNat
    · subst hc
      simp [Store.setSlabclass]
    · simp [Store.setSlabclass, hc]

/-- **What a step does to the counts of pages**: a class obtains a page, or `mem_malloced` stays and
no class loses its last page. -/
theorem Inv.step_cases {op : MemoryOp} (h : m.Inv cfg) (hst : MemoryStep cfg m op m') :
    (∃ id malloc ptr, id ≤ cfg.powerLargest ∧ Obtains cfg m id malloc ptr m') ∨
    (m'.store.memMalloced = m.store.memMalloced ∧
      ∀ c, (m.store.slabclass c).slabs ≠ 0 → (m'.store.slabclass c).slabs ≠ 0) := by
  have hsame : ∀ {s : Store}, s.memoryView = m.store.memoryView →
      s.memMalloced = m.store.memMalloced ∧
        ∀ c, (m.store.slabclass c).slabs ≠ 0 → (s.slabclass c).slabs ≠ 0 := fun {s} hv => by
    refine ⟨congrArg MemoryView.memMalloced hv, fun c hc => ?_⟩
    have hlist : (s.slabclass c).slabList = (m.store.slabclass c).slabList :=
      congrFun (congrArg MemoryView.slabList hv) c
    rw [SlabClass.slabs, hlist]
    exact hc
  obtain ⟨hen, rfl⟩ := hst
  cases op with
  | preallocate id ok malloc =>
      rcases doSlabsNewslab_cases cfg m id ok malloc with ⟨-, hk⟩ | ⟨-, ptr, ho⟩
      · exact Or.inr (hsame hk.view)
      · exact Or.inl ⟨id, malloc, ptr, hen.1.2, ho⟩
  | alloc size id ok malloc =>
      rcases doSlabsAlloc_cases cfg m size id ok malloc with hk | ⟨hid, ptr, ho⟩
      · exact Or.inr (hsame hk.view)
      · exact Or.inl ⟨id, malloc, ptr, hid.2, ho⟩
  | free ptr size id =>
      exact Or.inr (hsame (Store.memoryView_congr (Store.pageState_doSlabsFree ptr size id)
        (Store.memMalloced_doSlabsFree ptr size id)))
  | reassign src dst =>
      right
      rcases doSlabsReassign_cases cfg src dst m.store with ⟨a, e⟩ | ⟨hsig, a, src', e⟩ <;>
      · simp only [exec, e]
        exact ⟨trivial, fun c hc => hc⟩
  | start ok =>
      refine Or.inr ⟨(slabList_slabRebalanceStart ok 0).2, fun c hc => ?_⟩
      rw [SlabClass.slabs, exec, (slabList_slabRebalanceStart ok c).1]
      exact hc
  | move trylocks =>
      exact Or.inr (hsame (Store.memoryView_congr (Store.pageState_slabRebalanceMove trylocks)
        (Store.memMalloced_slabRebalanceMove trylocks)))
  | finish =>
      have hmv := h.moving (h.done hen)
      obtain ⟨rest, hrest, hl⟩ := hmv.list
      obtain ⟨hdrop, hothers⟩ := Store.slabList_dropSlab hmv.killing hl hrest
      refine Or.inr ⟨Store.memMalloced_slabRebalanceFinish, fun c hc => ?_⟩
      have hleft : ((m.store.dropSlab m.store.slabRebal.sClsid.toNat).slabclass c).slabList ≠ [] := by
        by_cases hsrc : c = m.store.slabRebal.sClsid.toNat
        · subst hsrc
          -- the source had another page
          exact fun hnil => hrest (List.perm_nil.mp (hnil ▸ hdrop.symm))
        · rw [hothers c hsrc]
          exact fun hnil => hc (by rw [SlabClass.slabs, hnil, List.length_nil])
      intro hzero
      have hnil := List.eq_nil_of_length_eq_zero hzero
      rw [exec, Store.slabList_slabRebalanceFinish] at hnil
      exact hleft (List.append_eq_nil_iff.mp hnil).1

/-- **A class that has a page keeps one.** -/
theorem Inv.slabs_ne_zero {op : MemoryOp} (h : m.Inv cfg) (hst : MemoryStep cfg m op m') {c : ℕ}
    (hc : (m.store.slabclass c).slabs ≠ 0) : (m'.store.slabclass c).slabs ≠ 0 := by
  rcases h.step_cases hst with ⟨id, malloc, ptr, -, ho⟩ | ⟨-, hkeep⟩
  · rw [SlabClass.slabs, ho.slabList, List.length_append]
    rw [SlabClass.slabs] at hc
    omega
  · exact hkeep c hc

/-- **A step goes beyond the limit for a class without a page only.** -/
theorem Inv.step_limit {op : MemoryOp} (h : m.Inv cfg) (hst : MemoryStep cfg m op m')
    (hlim : cfg.memLimit ≠ 0) {W : Finset ℕ} (hW : ∀ c ∈ W, (m.store.slabclass c).slabs ≠ 0)
    (hle : m.store.memMalloced ≤ cfg.memLimit + ∑ c ∈ W, cfg.pageLen c) :
    m'.store.memMalloced ≤ cfg.memLimit + ∑ c ∈ W ∪ m.waived cfg op, cfg.pageLen c := by
  have hsub : ∑ c ∈ W, cfg.pageLen c ≤ ∑ c ∈ W ∪ m.waived cfg op, cfg.pageLen c :=
    Finset.sum_le_sum_of_subset Finset.subset_union_left
  rcases h.step_cases hst with ⟨id, malloc, ptr, hid, ho⟩ | ⟨hsame, -⟩
  · have hmalloced : m'.store.memMalloced = m.store.memMalloced + cfg.pageLen id :=
      congrArg MemoryView.memMalloced ho.view
    -- the sum that was compared with the limit did not wrap around: the pages are there
    have hlt := (h.step hst).memMalloced_lt
    rw [hmalloced] at hlt
    by_cases hbeyond : m'.store.memMalloced ≤ cfg.memLimit
    · omega
    rcases ho.limit hlim with hchecked | hzero
    · rw [Nat.mod_eq_of_lt hlt] at hchecked
      omega
    by_cases hlen : cfg.pageLen id = 0
    · omega
    have hnew : id ∈ m.waived cfg op := by
      obtain ⟨-, rfl⟩ := hst
      refine Finset.mem_filter.mpr ⟨Finset.mem_range.mpr (by omega), hzero, ?_, by omega, by omega⟩
      rw [SlabClass.slabs, ho.slabList, if_pos rfl]
      simp
    have hout : id ∉ W := fun hin => hW id hin hzero
    have hinsert : insert id W ⊆ W ∪ m.waived cfg op :=
      Finset.insert_subset (Finset.mem_union_right _ hnew) Finset.subset_union_left
    have hsum := Finset.sum_le_sum_of_subset (f := cfg.pageLen) hinsert
    rw [Finset.sum_insert hout] at hsum
    omega
  · omega

/-- `mem_base` is set once. -/
theorem memBase_step {op : MemoryOp} (hst : MemoryStep cfg m op m') : m'.memBase = m.memBase := by
  obtain ⟨-, rfl⟩ := hst
  cases op with
  | preallocate id ok malloc =>
      rcases doSlabsNewslab_cases cfg m id ok malloc with ⟨-, hk⟩ | ⟨-, ptr, ho⟩
      · exact hk.memBase
      · exact ho.memBase
  | alloc size id ok malloc =>
      rcases doSlabsAlloc_cases cfg m size id ok malloc with hk | ⟨-, ptr, ho⟩
      · exact hk.memBase
      · exact ho.memBase
  | _ => rfl

/-! ## Runs -/

/-- No class has a page at first. -/
theorem pages_slabsInit (cfg : Settings) (prealloc : Bool) (malloc : Option ℕ) :
    (slabsInit cfg prealloc malloc).store = .init ∧ Store.init.pages cfg = [] := by
  refine ⟨?_, List.flatMap_eq_nil_iff.mpr fun _ _ => rfl⟩
  cases prealloc <;> cases malloc <;> rfl

/-- The invariant holds when the server starts. -/
theorem inv_slabsInit (prealloc : Bool) {malloc : Option ℕ}
    (hmalloc : ∀ base, malloc = some base → Finset.Ico base (base + cfg.memLimit) ⊆ addresses) :
    (slabsInit cfg prealloc malloc).Inv cfg := by
  obtain ⟨hinit, hnil⟩ := pages_slabsInit cfg prealloc malloc
  constructor
  · rw [hinit]
    exact fun hd => absurd rfl hd
  · rw [hinit]
    exact fun hs => absurd rfl hs
  · rw [hinit]
    exact fun hs => absurd hs (by decide)
  · rw [hinit, hnil]
    rfl
  · rw [hinit, hnil]
    exact List.Pairwise.nil
  · rw [hinit, hnil]
    simp
  · intro base hb
    match prealloc, malloc with
    | true, some block =>
        obtain rfl : block = base := Option.some.inj hb
        refine ⟨hmalloc _ rfl, le_rfl, Or.inr rfl, ?_, ?_⟩ <;>
        · rw [hinit, hnil]
          simp
    | true, none => exact absurd hb nofun
    | false, some block => exact absurd hb nofun
    | false, none => exact absurd hb nofun

/-- **The limit over a run**: every class whose first page was beyond the limit adds one page. -/
theorem Inv.run_limit {ops : List MemoryOp} (h : m.Inv cfg) (hr : Run (MemoryStep cfg) m ops m')
    (hlim : cfg.memLimit ≠ 0) {W : Finset ℕ} (hW : ∀ c ∈ W, (m.store.slabclass c).slabs ≠ 0)
    (hle : m.store.memMalloced ≤ cfg.memLimit + ∑ c ∈ W, cfg.pageLen c) :
    m'.store.memMalloced ≤ cfg.memLimit + ∑ c ∈ W ∪ m.firstBeyond cfg ops, cfg.pageLen c := by
  -- by induction on the run; `W` holds the classes let through so far
  induction hr generalizing W with
  | nil => rwa [firstBeyond, Finset.union_empty]
  | @cons m t u op ops hst hr ih =>
      have hexec : t = m.exec cfg op := hst.2
      -- the classes that were let through have a page now
      have hW' : ∀ c ∈ W ∪ m.waived cfg op, (t.store.slabclass c).slabs ≠ 0 := by
        intro c hc
        rcases Finset.mem_union.mp hc with hc | hc
        · exact h.slabs_ne_zero hst (hW c hc)
        · rw [hexec]
          exact (Finset.mem_filter.mp hc).2.2.1
      have hrest := ih (h.step hst) hW' (h.step_limit hst hlim hW hle)
      rwa [firstBeyond, ← hexec, ← Finset.union_assoc]

/-- **The memory limit**: in every run from `slabs_init`, `mem_malloced` is beyond the limit by one
page at most for each class that obtained its first page there, a class with a page never loses its
last one, and the pages are disjoint and, with preallocation, in the block. -/
theorem memory_limited {prealloc : Bool} {malloc : Option ℕ} {ops : List MemoryOp}
    (hlim : cfg.memLimit ≠ 0)
    (hmalloc : ∀ base, malloc = some base → Finset.Ico base (base + cfg.memLimit) ⊆ addresses)
    (hr : Run (MemoryStep cfg) (slabsInit cfg prealloc malloc) ops m) :
    m.store.memMalloced ≤ cfg.memLimit
      + ∑ c ∈ (slabsInit cfg prealloc malloc).firstBeyond cfg ops, cfg.pageLen c ∧
    (∀ more m', Run (MemoryStep cfg) m more m' →
      ∀ c, (m.store.slabclass c).slabs ≠ 0 → (m'.store.slabclass c).slabs ≠ 0) ∧
    Separate (m.store.pages cfg) ∧
    ∀ base, prealloc = true → malloc = some base →
      ∀ page ∈ m.store.pages cfg, page.bytes ⊆ Finset.Ico base (base + cfg.memLimit) := by
  have hstart := inv_slabsInit prealloc hmalloc
  have hinv : m.Inv cfg := hr.invariant (P := Inv cfg) hstart fun h hst => h.step hst
  refine ⟨?_, fun more m' hmore c hc => ?_, hinv.separate, fun base hp hb => ?_⟩
  · have hle := hstart.run_limit (W := ∅) hr hlim (by simp)
      (by rw [(pages_slabsInit cfg prealloc malloc).1]; exact Nat.zero_le _)
    rwa [Finset.empty_union] at hle
  · have hboth : m'.Inv cfg ∧ (m'.store.slabclass c).slabs ≠ 0 :=
      hmore.invariant (P := fun m => m.Inv cfg ∧ (m.store.slabclass c).slabs ≠ 0) ⟨hinv, hc⟩
        fun h hst => ⟨h.1.step hst, h.1.slabs_ne_zero hst h.2⟩
    exact hboth.2
  · have hbase : m.memBase = some base := by
      apply hr.invariant (P := fun m => m.memBase = some base)
      · rw [hp, hb]
        rfl
      · exact fun h hst => (memBase_step hst).trans h
    exact (hinv.block base hbase).inside

end SlabMemory

/-- Two classes whose pages are one chunk of eight bytes, and room for two pages. -/
def Settings.twoPages : Settings where
  useCas := true
  evictToFree := true
  tailRepairTime := 0
  slabAutomove := 0
  slabReassign := true
  itemSizeMax := 8
  memLimit := 16
  processStarted := 0
  hash key := key.length
  slabSize _ := 8
  perslab _ := 1
  powerLargest := 2
  slabSize_pos _ := by decide
  perslab_fits _ := by decide
  powerLargest_lt := two_lt_largestId

/-- Blocks of addresses that `malloc` may answer with. -/
theorem bytes_subset_addresses {len : ℕ} (h : 1 ≤ ptr ∧ ptr + len ≤ sizeModulus) :
    Finset.Ico ptr (ptr + len) ⊆ addresses := Finset.Ico_subset_Ico h.1 h.2

/-- A check that suffices for an operation to run. -/
def MemoryOp.check (cfg : Settings) (s : Store) : MemoryOp → Bool
  | .preallocate id _ malloc => 1 ≤ id && id ≤ cfg.powerLargest && malloc.isNone
  | .alloc _ id _ malloc => malloc.all fun ptr =>
      1 ≤ ptr && ptr + cfg.pageLen id ≤ sizeModulus &&
        (s.pages cfg).all fun page =>
          ptr + cfg.pageLen id ≤ page.start || page.start + page.len ≤ ptr
  | .free _ _ _ => true
  | .reassign _ _ => cfg.slabReassign
  | .start _ => s.slabRebalanceSignal == 1
  | .move _ => s.slabRebalanceSignal == 2 && s.slabRebal.done == 0
  | .finish => s.slabRebal.done != 0

/-- The check that a script runs is enough for a step to be enabled. -/
theorem MemoryOp.enabled_of_check {op : MemoryOp} (h : op.check cfg s = true) :
    op.Enabled cfg s := by
  cases op with
  | preallocate id ok malloc =>
      cases malloc with
      | none => exact ⟨by simpa [check] using h, nofun⟩
      | some ptr => simp [check] at h
  | alloc size id ok malloc =>
      rintro ptr rfl
      simp only [check, Option.all_some, Bool.and_eq_true, decide_eq_true_eq, List.all_eq_true,
        Bool.or_eq_true] at h
      refine ⟨bytes_subset_addresses h.1, fun page hpage => ?_⟩
      apply Finset.disjoint_left.mpr
      intro b hb hb'
      have h₁ := Finset.mem_Ico.mp hb
      have h₂ := Finset.mem_Ico.mp hb'
      have h₃ := h.2 page hpage
      simp only at h₁
      omega
  | free ptr size id => trivial
  | reassign src dst => exact h
  | start ok => simpa [check, Enabled] using h
  | move trylocks => simpa [check, Enabled] using h
  | finish => simpa [check, Enabled] using h

/-- A script of operations that pass their checks is a run. -/
theorem run_memoryOps {ops : List MemoryOp} (h : checkAll (SlabMemory.exec cfg)
      (fun m op => op.check cfg m.store) m ops = true) :
    Run (MemoryStep cfg) m ops (execs (SlabMemory.exec cfg) m ops) :=
  run_execs (fun _ _ h => ⟨MemoryOp.enabled_of_check h, rfl⟩) h

/-- Class 1 uses the memory up, class 2 gets its first page all the same, and then one of class 1. -/
def thirdPage : List MemoryOp :=
  [.alloc 8 1 true (some 64), .alloc 8 1 true (some 72), .alloc 8 2 true (some 80),
    .reassign 1 2, .start true, .move [true], .finish]

/-- A page for each class out of a preallocated block, and none after them. -/
def blockUsedUp : List MemoryOp :=
  [.preallocate 1 true none, .preallocate 2 true none, .alloc 8 1 true none, .alloc 8 1 true none]

/-- Beyond the limit by a page, and within a block. -/
theorem SlabMemory.memory_limited_twoPages :
    (∃ m, Run (MemoryStep .twoPages) (slabsInit .twoPages false none) thirdPage m ∧
      m.store.memMalloced ≤ 16 + 8) ∧
    ∃ m, Run (MemoryStep .twoPages) (slabsInit .twoPages true (some 64)) blockUsedUp m ∧
      ∀ page ∈ m.store.pages .twoPages, page.bytes ⊆ Finset.Ico 64 (64 + 16) := by
  have hrun : Run (MemoryStep .twoPages) (slabsInit .twoPages false none) thirdPage _ :=
    run_memoryOps (by decide +kernel)
  have hblock : Run (MemoryStep .twoPages) (slabsInit .twoPages true (some 64)) blockUsedUp _ :=
    run_memoryOps (by decide +kernel)
  refine ⟨⟨_, hrun, ?_⟩, _, hblock, ?_⟩
  · have hle := (memory_limited (by decide) (by simp) hrun).1
    have hsum : ∑ c ∈ (slabsInit .twoPages false none).firstBeyond .twoPages thirdPage,
        Settings.twoPages.pageLen c = 8 := by decide +kernel
    exact hle.trans_eq (by rw [hsum]; rfl)
  · have hmalloc : ∀ base, some 64 = some base →
        Finset.Ico base (base + Settings.twoPages.memLimit) ⊆ addresses := by
      rintro base h
      obtain rfl := Option.some.inj h
      exact bytes_subset_addresses (by decide)
    exact (memory_limited (by decide) hmalloc hblock).2.2.2 64 rfl rfl

end Memcached
