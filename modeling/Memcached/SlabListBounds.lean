import Memcached.Lib.Transition
import Memcached.Mover

/-! # The bounds of `slab_list`

Workers give any class new pages while a page is moved from one class to another. Every class has
an array `slab_list` of `list_size` entries; `grow_slab_list` makes room in it before a new page is
entered, but the entry for a moved page is reserved when the move starts and written when it ends.

* **`SlabListOp.FindsRoom`** — the write is within `list_size`.
* **`slabList_inBounds`**, **`slabList_outOfBounds`** — in which runs every write is. -/

namespace Memcached

open Transition (Run execs checkAll run_execs)

variable {cfg : Settings} {s s' : Store}

/-! ## The system -/

/-- What happens to the lists of pages. -/
inductive SlabListOp
  /-- A worker's `do_slabs_newslab`. -/
  | newslab (id : ℕ) (env : AllocEnv)
  /-- `do_slabs_reassign`. -/
  | reassign (src dst : ℤ)
  /-- `slab_rebalance_start`. -/
  | start (reallocOk : Bool)
  /-- `slab_rebalance_move`. -/
  | move (trylocks : List Bool)
  /-- `slab_rebalance_finish`. -/
  | finish

/-- The store after an operation. -/
def Store.slabListExec (cfg : Settings) (s : Store) : SlabListOp → Store
  | .newslab id env => (s.doSlabsNewslab cfg id env).1
  | .reassign src dst => s.doSlabsReassign cfg src dst
  | .start reallocOk => (s.slabRebalanceStart cfg reallocOk).1
  | .move trylocks => s.slabRebalanceMove cfg trylocks
  | .finish => s.slabRebalanceFinish cfg

/-- When an operation runs: workers ask for pages of classes that exist, and
`slab_rebalance_thread` goes by the signal and by `done`. -/
def SlabListOp.Enabled (cfg : Settings) (s : Store) : SlabListOp → Prop
  | .newslab id _ => 1 ≤ id ∧ id ≤ cfg.powerLargest
  | .reassign _ _ => True
  | .start _ => s.slabRebalanceSignal = 1
  | .move _ => s.slabRebalanceSignal = 2 ∧ s.slabRebal.done = 0
  | .finish => s.slabRebal.done ≠ 0

instance : (op : SlabListOp) → Decidable (op.Enabled cfg s)
  | .newslab id _ => inferInstanceAs (Decidable (1 ≤ id ∧ id ≤ cfg.powerLargest))
  | .reassign _ _ => inferInstanceAs (Decidable True)
  | .start _ => inferInstanceAs (Decidable (s.slabRebalanceSignal = 1))
  | .move _ => inferInstanceAs (Decidable (s.slabRebalanceSignal = 2 ∧ s.slabRebal.done = 0))
  | .finish => inferInstanceAs (Decidable (s.slabRebal.done ≠ 0))

/-- A write `slab_list[index] = ..` of class `clsid`, whose array has `listSize` entries. -/
structure SlabListWrite where
  clsid : ℕ
  index : ℕ
  listSize : ℕ
  deriving DecidableEq, Repr

/-- The writes of an operation. -/
def Store.slabListWrites (cfg : Settings) (s : Store) : SlabListOp → List SlabListWrite
  | .newslab id env =>
      if (s.doSlabsNewslab cfg id env).2 then
        [⟨id, (s.slabclass id).slabs,
          ((s.growSlabList id env.reallocOk).1.slabclass id).listSize⟩]
      else []
  | .finish =>
      let src := s.slabRebal.sClsid.toNat
      let dst := s.slabRebal.dClsid.toNat
      [⟨src, (s.slabclass src).killing - 1, (s.slabclass src).listSize⟩,
        ⟨dst, ((s.dropSlab src).slabclass dst).slabs, (s.slabclass dst).listSize⟩]
  | _ => []

/-- **The check that `slab_rebalance_finish` lacks**: the list of the destination is not full, in
the sense of `grow_slab_list`. -/
def SlabListOp.FindsRoom (s : Store) : SlabListOp → Prop
  | .finish => (s.slabclass s.slabRebal.dClsid.toNat).slabs
      ≠ (s.slabclass s.slabRebal.dClsid.toNat).listSize
  | _ => True

/-- A step of the system. -/
def SlabListStep (cfg : Settings) (s : Store) (op : SlabListOp) (s' : Store) : Prop :=
  op.Enabled cfg s ∧ s' = s.slabListExec cfg op

/-! ## The invariant -/

/-- Every list has room for the pages in it. -/
def Store.ListsFit (s : Store) : Prop := ∀ id, (s.slabclass id).slabs ≤ (s.slabclass id).listSize

/-- What holds while a page is moved. -/
structure Store.Moving (s : Store) : Prop where
  /-- The source has a page that stays. -/
  slabs : 2 ≤ (s.slabclass s.slabRebal.sClsid.toNat).slabs
  /-- The first page is moved. -/
  killing : (s.slabclass s.slabRebal.sClsid.toNat).killing = 1
  /-- It goes to another class. -/
  ne : s.slabRebal.sClsid.toNat ≠ s.slabRebal.dClsid.toNat

/-- The lists fit, and a move that goes on was started properly. -/
structure Store.ListInv (s : Store) : Prop where
  fit : s.ListsFit
  moving : s.slabRebalanceSignal = 2 → s.Moving
  done : s.slabRebal.done ≠ 0 → s.slabRebalanceSignal = 2

/-- The invariant speaks of the pages only. -/
theorem Store.ListInv.congr (h : s.ListInv) (e : s'.pageState = s.pageState)
    (hd : s'.slabRebal.done ≠ 0 → s'.slabRebalanceSignal = 2) : s'.ListInv := by
  have hlist : ∀ id, (s'.slabclass id).slabs = (s.slabclass id).slabs := fun id =>
    congrArg List.length (congrFun (congrArg PageState.slabList e) id)
  have hsize : ∀ id, (s'.slabclass id).listSize = (s.slabclass id).listSize := fun id =>
    congrFun (congrArg PageState.listSize e) id
  have hkill : ∀ id, (s'.slabclass id).killing = (s.slabclass id).killing := fun id =>
    congrFun (congrArg PageState.killing e) id
  have hsrc : s'.slabRebal.sClsid = s.slabRebal.sClsid := congrArg PageState.sClsid e
  have hdst : s'.slabRebal.dClsid = s.slabRebal.dClsid := congrArg PageState.dClsid e
  have hsig : s'.slabRebalanceSignal = s.slabRebalanceSignal := congrArg PageState.signal e
  refine ⟨fun id => ?_, fun hs => ?_, hd⟩
  · rw [hlist, hsize]
    exact h.fit id
  · obtain ⟨h₁, h₂, h₃⟩ := h.moving (hsig ▸ hs)
    exact ⟨by rw [hsrc, hlist]; exact h₁, by rw [hsrc, hkill]; exact h₂, by rw [hsrc, hdst]; exact h₃⟩

/-- `grow_slab_list` changes the size of one list, and makes room in it when it succeeds. -/
theorem growSlabList_cases (s : Store) (id : ℕ) (ok : Bool) :
    ∃ size, (s.growSlabList id ok).1
        = s.setSlabclass id { s.slabclass id with listSize := size } ∧
      (s.slabclass id).listSize ≤ size ∧
      ((s.slabclass id).slabs ≤ (s.slabclass id).listSize →
        (s.growSlabList id ok).2 = true → (s.slabclass id).slabs < size) := by
  have hself : s.setSlabclass id { s.slabclass id with listSize := (s.slabclass id).listSize } = s := by
    simp [Store.setSlabclass]
  rw [Store.growSlabList]
  split
  · rename_i hfull
    cases ok with
    | false => exact ⟨_, hself.symm, le_rfl, fun _ h => absurd h (by simp)⟩
    | true =>
        refine ⟨if (s.slabclass id).listSize ≠ 0 then (s.slabclass id).listSize * 2 else 16,
          rfl, ?_, fun _ _ => ?_⟩ <;>
        · split <;> omega
  · rename_i hroom
    exact ⟨_, hself.symm, le_rfl, fun h _ => lt_of_le_of_ne h hroom⟩

/-- Growing a list keeps the invariant. -/
theorem Store.ListInv.grow (h : s.ListInv) {id size : ℕ}
    (hsize : (s.slabclass id).listSize ≤ size) :
    (s.setSlabclass id { s.slabclass id with listSize := size }).ListInv := by
  have hcls : ∀ c, ((s.setSlabclass id { s.slabclass id with listSize := size }).slabclass c).slabs
      = (s.slabclass c).slabs ∧
      ((s.setSlabclass id { s.slabclass id with listSize := size }).slabclass c).killing
      = (s.slabclass c).killing := fun c => by
    by_cases hc : c = id
    · subst hc
      simp [Store.setSlabclass, SlabClass.slabs]
    · simp [Store.setSlabclass, hc]
  refine ⟨fun c => ?_, fun hs => ?_, h.done⟩
  · rw [(hcls c).1]
    by_cases hc : c = id
    · subst hc
      simpa [Store.setSlabclass] using (h.fit c).trans hsize
    · simpa [Store.setSlabclass, hc] using h.fit c
  · obtain ⟨h₁, h₂, h₃⟩ := h.moving hs
    exact ⟨(hcls _).1 ▸ h₁, (hcls _).2 ▸ h₂, h₃⟩

/-- A page is entered where there is room. -/
theorem Store.ListInv.enterSlab (h : s.ListInv) {id ptr : ℕ}
    (hroom : (s.slabclass id).slabs < (s.slabclass id).listSize) : (s.enterSlab id ptr).ListInv := by
  have hcls : ∀ c, ((s.enterSlab id ptr).slabclass c).slabs
      = (s.slabclass c).slabs + (if c = id then 1 else 0) ∧
      ((s.enterSlab id ptr).slabclass c).listSize = (s.slabclass c).listSize ∧
      ((s.enterSlab id ptr).slabclass c).killing = (s.slabclass c).killing := fun c => by
    by_cases hc : c = id
    · subst hc
      simp [Store.enterSlab, Store.setSlabclass, SlabClass.addSlab, SlabClass.slabs]
    · simp [Store.enterSlab, Store.setSlabclass, hc]
  refine ⟨fun c => ?_, fun hs => ?_, h.done⟩
  · rw [(hcls c).1, (hcls c).2.1]
    have := h.fit c
    split
    · subst c
      omega
    · omega
  · obtain ⟨h₁, h₂, h₃⟩ := h.moving hs
    exact ⟨(hcls _).1 ▸ h₁.trans (Nat.le_add_right _ _), (hcls _).2.2 ▸ h₂, h₃⟩

/-- **A worker's new page keeps the invariant**, and is entered within the bounds. -/
theorem Store.ListInv.newslab (h : s.ListInv) (id : ℕ) (env : AllocEnv) :
    (s.doSlabsNewslab cfg id env).1.ListInv ∧
      ∀ w ∈ s.slabListWrites cfg (.newslab id env), w.index < w.listSize := by
  obtain ⟨size, he, hle, hroom⟩ := growSlabList_cases s id env.reallocOk
  have hgrow := h.grow hle
  rw [← he] at hgrow
  have hslabs : ((s.growSlabList id env.reallocOk).1.slabclass id).slabs = (s.slabclass id).slabs ∧
      ((s.growSlabList id env.reallocOk).1.slabclass id).listSize = size := by
    rw [he]
    simp [Store.setSlabclass, SlabClass.slabs]
  rw [Store.slabListWrites, Store.doSlabsNewslab]
  split
  · exact ⟨h, by simp⟩
  rcases hg : s.growSlabList id env.reallocOk with ⟨t, ok⟩
  rw [hg] at hgrow hslabs hroom
  cases ok with
  | false => exact ⟨hgrow, by simp⟩
  | true =>
      cases hp : env.page with
      | none => exact ⟨hgrow, by simp⟩
      | some ptr =>
          have hlt := hroom (h.fit id) rfl
          refine ⟨?_, fun w hw => ?_⟩
          · set u := Store.splitSlabPageIntoFreelist cfg id (cfg.perslab id) ptr
              (t.clearPage ptr (cfg.pageLen id)) with hu
            have hps : u.pageState = t.pageState := Store.pageState_splitPage ..
            have hrb : u.slabRebal = t.slabRebal := Store.slabRebal_splitPage ..
            have hui : u.ListInv := hgrow.congr hps fun hd =>
              (congrArg PageState.signal hps).trans (hgrow.done (hrb ▸ hd))
            have hcls : (u.slabclass id).slabs < (u.slabclass id).listSize := by
              have e₁ : (u.slabclass id).slabs = (t.slabclass id).slabs :=
                congrArg List.length (congrFun (congrArg PageState.slabList hps) id)
              have e₂ : (u.slabclass id).listSize = (t.slabclass id).listSize :=
                congrFun (congrArg PageState.listSize hps) id
              rw [e₁, e₂, hslabs.1, hslabs.2]
              exact hlt
            have hent : (u.enterSlab id ptr).ListInv := hui.enterSlab hcls
            exact hent.congr rfl hent.done
          · simp only [if_true, List.mem_singleton] at hw
            subst hw
            exact hslabs.2 ▸ hlt

/-- `do_slabs_reassign` posts a request, unless one is there already. -/
theorem Store.ListInv.reassign (h : s.ListInv) (src dst : ℤ) :
    (s.doSlabsReassign cfg src dst).ListInv := by
  rcases doSlabsReassign_cases cfg src dst s with ⟨a, e⟩ | ⟨hsig, a, src', e⟩
  · rw [e]
    exact ⟨h.fit, fun hs => ⟨(h.moving hs).slabs, (h.moving hs).killing, (h.moving hs).ne⟩, h.done⟩
  · have hdone : ¬ s.slabRebal.done ≠ 0 := fun hd => absurd (h.done hd) (by omega)
    rw [e]
    exact ⟨h.fit, fun hs => absurd hs (by simp), fun hd => absurd hd hdone⟩

/-- **`slab_rebalance_start` keeps the invariant.** -/
theorem Store.ListInv.start (h : s.ListInv) (reallocOk : Bool) (hs : s.slabRebalanceSignal = 1) :
    (s.slabRebalanceStart cfg reallocOk).1.ListInv := by
  have hdone : s.slabRebal.done = 0 := by
    by_contra hd
    exact absurd (h.done hd) (by omega)
  obtain ⟨size, he, hle, -⟩ := growSlabList_cases s s.slabRebal.dClsid.toNat reallocOk
  have hgrow := h.grow hle
  rw [← he] at hgrow
  have hrb : (s.growSlabList s.slabRebal.dClsid.toNat reallocOk).1.slabRebal = s.slabRebal := by
    rw [he]
    rfl
  rw [Store.slabRebalanceStart]
  rcases hg : s.growSlabList s.slabRebal.dClsid.toNat reallocOk with ⟨t, grown⟩
  rw [hg] at hgrow hrb
  replace hgrow : t.ListInv := hgrow
  replace hrb : t.slabRebal = s.slabRebal := hrb
  simp only
  split
  · exact ⟨hgrow.fit, fun hc => absurd hc (by simp), fun hd => absurd (hrb ▸ hdone) hd⟩
  · rename_i hgo
    have hgo : t.rebalanceNoGo cfg grown = 0 := by simpa using hgo
    rw [Store.rebalanceNoGo] at hgo
    split at hgo
    · exact absurd hgo (by simp)
    rename_i hslabs
    split at hgo
    · exact absurd hgo (by simp)
    split at hgo
    · exact absurd hgo (by simp)
    rename_i hids
    set src := t.slabRebal.sClsid.toNat
    have hcls : ∀ c, ((t.setSlabclass src { t.slabclass src with killing := 1 }).slabclass c).slabs
        = (t.slabclass c).slabs ∧
        ((t.setSlabclass src { t.slabclass src with killing := 1 }).slabclass c).listSize
        = (t.slabclass c).listSize := fun c => by
      by_cases hc : c = src
      · subst hc
        simp [Store.setSlabclass, SlabClass.slabs]
      · simp [Store.setSlabclass, hc]
    refine ⟨fun c => ?_, fun _ => ⟨?_, ?_, ?_⟩, fun hd => rfl⟩
    · exact (hcls c).1 ▸ (hcls c).2 ▸ hgrow.fit c
    · show 2 ≤ ((t.setSlabclass src _).slabclass src).slabs
      rw [(hcls src).1]
      omega
    · show ((t.setSlabclass src _).slabclass src).killing = 1
      simp [Store.setSlabclass]
    · show t.slabRebal.sClsid.toNat ≠ t.slabRebal.dClsid.toNat
      omega

/-- The pages of the source after one has been taken away. -/
theorem slabs_dropSlab (s : Store) (id c : ℕ) :
    ((s.dropSlab id).slabclass c).slabs = (s.slabclass c).slabs - (if c = id then 1 else 0) ∧
      ((s.dropSlab id).slabclass c).listSize = (s.slabclass c).listSize := by
  by_cases hc : c = id
  · subst hc
    simp [Store.dropSlab, Store.setSlabclass, SlabClass.slabs]
  · simp [Store.dropSlab, Store.setSlabclass, hc]

/-- **`slab_rebalance_finish` keeps the invariant** when the destination's list is not full. -/
theorem Store.ListInv.finish (h : s.ListInv) (hd : s.slabRebal.done ≠ 0)
    (hroom : SlabListOp.finish.FindsRoom s) : (s.slabRebalanceFinish cfg).ListInv := by
  have hmv := h.moving (h.done hd)
  rw [SlabListOp.FindsRoom] at hroom
  set src := s.slabRebal.sClsid.toNat with hsrc
  set dst := s.slabRebal.dClsid.toNat with hdst
  have hne : dst ≠ src := hmv.ne.symm
  -- while no page is being moved, nothing is asked of the source
  set t : Store := { (s.dropSlab src).clearPage s.slabRebal.slabStart cfg.itemSizeMax with
    slabRebalanceSignal := 0, slabRebal := {} } with ht
  have htcls : ∀ c, t.slabclass c = (s.dropSlab src).slabclass c := fun c => rfl
  have hti : t.ListInv := by
    refine ⟨fun c => ?_, fun hc => absurd hc (by simp [ht]), fun hc => absurd rfl hc⟩
    rw [htcls, (slabs_dropSlab s src c).1, (slabs_dropSlab s src c).2]
    exact (Nat.sub_le _ _).trans (h.fit c)
  have henter : (t.enterSlab dst s.slabRebal.slabStart).ListInv := by
    refine hti.enterSlab ?_
    rw [htcls, (slabs_dropSlab s src dst).1, (slabs_dropSlab s src dst).2, if_neg hne]
    exact lt_of_le_of_ne (h.fit dst) hroom
  refine ⟨fun c => ?_, fun hc => absurd hc (by simp [Store.slabRebalanceFinish]),
    fun hc => absurd rfl hc⟩
  have hps : (Store.splitSlabPageIntoFreelist cfg dst (cfg.perslab dst) s.slabRebal.slabStart
      (((s.dropSlab src).clearPage s.slabRebal.slabStart cfg.itemSizeMax).enterSlab dst
        s.slabRebal.slabStart)).pageState = _ := Store.pageState_splitPage ..
  have e₁ := congrFun (congrArg PageState.slabList hps) c
  have e₂ := congrFun (congrArg PageState.listSize hps) c
  show (Store.slabclass _ c).slabList.length ≤ (Store.slabclass _ c).listSize
  exact (congrArg List.length e₁).trans_le ((henter.fit c).trans e₂.ge)

/-! ## Runs -/

/-- **A step that finds room keeps the invariant.** -/
theorem Store.ListInv.step {op : SlabListOp} (h : s.ListInv) (hst : SlabListStep cfg s op s')
    (hroom : op.FindsRoom s) : s'.ListInv := by
  obtain ⟨hen, rfl⟩ := hst
  cases op with
  | newslab id env => exact (h.newslab id env).1
  | reassign src dst => exact h.reassign src dst
  | start reallocOk => exact h.start reallocOk hen
  | move trylocks =>
      have hps : (s.slabRebalanceMove cfg trylocks).pageState = s.pageState :=
        Store.pageState_slabRebalanceMove trylocks
      exact h.congr hps fun _ => (congrArg PageState.signal hps).trans hen.1
  | finish => exact h.finish hen hroom

/-- An operation writes within the bounds exactly if it finds room. -/
theorem Store.ListInv.writes_iff {op : SlabListOp} (h : s.ListInv) (hen : op.Enabled cfg s) :
    (∀ w ∈ s.slabListWrites cfg op, w.index < w.listSize) ↔ op.FindsRoom s := by
  cases op with
  | newslab id env => exact iff_of_true (h.newslab id env).2 trivial
  | finish =>
      have hmv := h.moving (h.done hen)
      set src := s.slabRebal.sClsid.toNat with hsrc
      set dst := s.slabRebal.dClsid.toNat with hdst
      have hfit := h.fit dst
      have hsource : (s.slabclass src).killing - 1 < (s.slabclass src).listSize := by
        have h₁ : 2 ≤ (s.slabclass src).slabs := hmv.slabs
        have h₂ : (s.slabclass src).killing = 1 := hmv.killing
        have h₃ := h.fit src
        omega
      have hne : dst ≠ src := hmv.ne.symm
      simp only [Store.slabListWrites, SlabListOp.FindsRoom, List.mem_cons, List.not_mem_nil,
        or_false, forall_eq_or_imp, forall_eq, ← hsrc, ← hdst, hsource, true_and,
        (slabs_dropSlab s src dst).1, if_neg hne]
      omega
  | _ => exact iff_of_true (by simp [Store.slabListWrites]) trivial

/-- The invariant holds at start-up. -/
theorem listInv_init : Store.init.ListInv :=
  ⟨fun _ => le_rfl, fun h => absurd h (by decide), fun h => absurd rfl h⟩

/-- **`slab_list` is used within its bounds**: in every run in which no move ends while the list of
its destination is full, every list has room for its pages, and so every write of the next
operation is within the bounds, exactly if it is not itself such an end. -/
theorem slabList_inBounds {ops : List SlabListOp}
    (hr : Run (fun s op s' => SlabListStep cfg s op s' ∧ op.FindsRoom s) Store.init ops s) :
    s.ListsFit ∧ ∀ op : SlabListOp, op.Enabled cfg s →
      ((∀ w ∈ s.slabListWrites cfg op, w.index < w.listSize) ↔ op.FindsRoom s) := by
  have h : s.ListInv := hr.invariant (P := Store.ListInv) listInv_init fun h hst => h.step hst.1 hst.2
  exact ⟨h.fit, fun op hen => h.writes_iff hen⟩

/-- A configuration with two classes whose pages are one chunk each. -/
def Settings.onePerPage : Settings where
  useCas := true
  evictToFree := true
  tailRepairTime := 0
  slabAutomove := 0
  slabReassign := true
  itemSizeMax := 1024
  memLimit := 0
  processStarted := 0
  hash key := key.length
  slabSize _ := 1024
  perslab _ := 1
  powerLargest := 2
  slabSize_pos _ := by decide
  perslab_fits _ := by decide
  powerLargest_lt := two_lt_largestId

/-- A worker gets class `id` the `k`-th page. -/
def SlabListOp.page (id k : ℕ) : SlabListOp :=
  .newslab id { trylock := fun _ => true, reallocOk := true, page := some (1024 * k), rebalLockFree := true }

/-- Two pages of class 1 and fifteen of class 2, which gets a page of class 1 and, meanwhile, another
one from a worker. -/
def lastEntryTaken : List SlabListOp :=
  [.page 1 1, .page 1 2] ++ (List.range 15).map (fun k => .page 2 (k + 3))
    ++ [.reassign 1 2, .start true, .page 2 18, .move [true]]

/-- A script of steps that are enabled is a run. -/
theorem run_slabListOps {ops : List SlabListOp} {P : Store → SlabListOp → Prop}
    [∀ s op, Decidable (P s op)]
    (h : checkAll (Store.slabListExec cfg) (fun s op => decide (op.Enabled cfg s ∧ P s op))
      Store.init ops = true) :
    Run (fun s op s' => SlabListStep cfg s op s' ∧ P s op) Store.init ops
      (execs (Store.slabListExec cfg) Store.init ops) :=
  run_execs (fun _ _ h => ⟨⟨(of_decide_eq_true h).1, rfl⟩, (of_decide_eq_true h).2⟩) h

instance : (op : SlabListOp) → Decidable (op.FindsRoom s)
  | .finish => inferInstanceAs (Decidable (_ ≠ _))
  | .newslab _ _ | .reassign _ _ | .start _ | .move _ => inferInstanceAs (Decidable True)

/-- A page of class 1 has been emptied, and there is room for it in class 2. -/
theorem slabList_inBounds_moved :
    let s := execs (Store.slabListExec .onePerPage) Store.init
      [.page 1 1, .page 1 2, .page 2 3, .reassign 1 2, .start true, .move [true], .finish]
    s.ListsFit ∧ ∀ op : SlabListOp, op.Enabled .onePerPage s →
      ((∀ w ∈ s.slabListWrites .onePerPage op, w.index < w.listSize) ↔ op.FindsRoom s) :=
  slabList_inBounds (run_slabListOps (by decide +kernel))

/-- **The entry reserved for a moved page may be taken**: `slab_rebalance_finish` then writes entry
16 of an array of 16 entries. -/
theorem slabList_outOfBounds : ¬ ∀ (cfg : Settings) (ops : List SlabListOp) (s : Store),
    Run (SlabListStep cfg) Store.init ops s → s.ListsFit ∧ ∀ op : SlabListOp, op.Enabled cfg s →
      ∀ w ∈ s.slabListWrites cfg op, w.index < w.listSize := by
  intro hall
  have hrun : Run (fun s op s' => SlabListStep .onePerPage s op s' ∧ True) Store.init lastEntryTaken
      (execs (Store.slabListExec .onePerPage) Store.init lastEntryTaken) :=
    run_slabListOps (P := fun _ _ => True) (by decide +kernel)
  have hbounds := (hall _ _ _ (hrun.mono (P := fun _ => True) trivial
    fun _ h => ⟨h.1, trivial⟩)).2 .finish (by decide +kernel) ⟨2, 16, 16⟩ (by decide +kernel)
  exact absurd hbounds (by decide)

end Memcached
