import Memcached.Sections

/-! # The commands as traces

What `do_store_item`, `do_add_delta`, `do_item_touch`, `flush_all` and a round of the crawler can
do, each as a run of elementary steps with the result it goes with.

* **`StoreResult`**, **`storeResult_doStoreItem`** — how `do_store_item` ends.
* **`DeltaResult`**, **`deltaResult_doAddDelta`** — how `do_add_delta` ends. -/

namespace Memcached

open CNumber (Bytes)

variable {cfg : Settings} {s s' : Store} {g : Ghost} {p q n it : Ptr} {key : Bytes} {busy : List Ptr}

/-! ## Replacing an item -/

/-- `do_item_replace` of a linked item. -/
theorem Trace.doItemReplace (h : Inv cfg s g) (hp : s.Linked p) (hn : 0 < g.handles n)
    (hl : (s.itFlags n).linked = false) (hk : s.key n = s.key p)
    (hlt : g.handles n + 1 < refcountModulus) (hcrlf : ∃ v, s.data n = v ++ crlf) :
    Trace cfg s g [.unlink p, .deref p, .link n (s.key p)]
      (s.doItemReplace cfg p n (cfg.hash (s.key p))) g := by
  have hun := Trace.doItemUnlink cfg g hp
  have hitem := fun {q} => item_doItemUnlink (q := q) h hp
  rw [Store.doItemReplace]
  set t := s.doItemUnlink cfg p (cfg.hash (s.key p))
  have hne : n ≠ p := by
    rintro rfl
    exact absurd hp.2 (by simp [hl])
  have hin : t.item n = s.item n := (hitem (Or.inr hn)).2.trans (if_neg hne)
  have hkn : t.key n = s.key p := (congrArg Item.key hin).trans hk
  have hln : (t.itFlags n).linked = false := (congrArg Item.linked hin).trans hl
  have hlink : Prim cfg t g (.link n (t.key n)) (t.doItemLink cfg n (cfg.hash (t.key n))) g := by
    refine .link hn hln ?_ ?_ ?_
    · intro q hq
      obtain ⟨huq, hiq⟩ := hitem (Or.inl hq)
      have hqp : q ≠ p := by
        rintro rfl
        rw [if_pos rfl] at hiq
        have := congrArg Item.linked hiq
        exact absurd hq.2 (by simpa [Store.item] using this)
      rw [if_neg hqp] at hiq
      have hq₀ : s.Linked q := ⟨hq.1, (congrArg Item.linked hiq).symm.trans hq.2⟩
      have hkq : t.key q = s.key q := congrArg Item.key hiq
      obtain ⟨L, hwf⟩ := h
      rw [hkq, hkn]
      exact fun e => hqp (hwf.key_inj q p hq₀ hp e)
    · rw [Store.refs, hln]
      simpa using hlt
    · have hd : t.data n = s.data n := congrArg Item.data hin
      rwa [hd]
  rw [hkn] at hlink
  exact hun.append (.single hlink)

/-! ## Storing -/

/-- An item that `c->item` points to: unlinked, with one reference, and with its CRLF. -/
structure Store.Pending (s : Store) (g : Ghost) (it : Ptr) : Prop where
  handles : g.handles it = 1
  unlinked : (s.itFlags it).linked = false
  crlf : ∃ v, s.data it = v ++ crlf

/-- What comes before the CRLF of a value. -/
def Store.value (s : Store) (p : Ptr) : Bytes := (s.data p).take (s.nbytes p - 2)

/-- The value of an item with a CRLF. -/
theorem Store.data_eq_value (hlen : (s.data p).length = s.nbytes p)
    (hcrlf : ∃ v, s.data p = v ++ crlf) : s.data p = s.value p ++ crlf := by
  obtain ⟨v, hv⟩ := hcrlf
  have hn : s.nbytes p - 2 = v.length := by
    rw [← hlen, hv]
    simp [crlf]
  rw [Store.value, hn, hv, List.take_left]

/-- The value that `append` and `prepend` store. -/
def joined (comm : Comm) (old new : Bytes) : Bytes :=
  if comm = .append then old ++ new else new ++ old

/-- **`append` and `prepend` join the values and keep one CRLF.** -/
theorem joinValues_eq {comm : Comm} {old new : Bytes} (hold : s.data p = old ++ crlf)
    (hnew : s.data it = new ++ crlf) (hp : s.nbytes p = old.length + 2)
    (hit : s.nbytes it = new.length + 2)
    (hn : (s.data n).length = s.nbytes it + s.nbytes p - 2) :
    s.joinValues comm n p it = joined comm old new ++ crlf := by
  have hdrop : ∀ {a b : Bytes}, (s.data n).length = a.length + b.length + 2 →
      memcpyAt (memcpyAt (s.data n) 0 (a ++ crlf)) a.length (b ++ crlf) = a ++ b ++ crlf := by
    intro a b hlen
    simp only [memcpyAt, List.take_zero, List.nil_append, Nat.zero_add]
    rw [List.append_assoc a crlf, List.take_left, List.drop_eq_nil_of_le]
    · simp
    · simp [crlf, hlen]
  rw [Store.joinValues, joined, hold, hnew, hp, hit, Nat.add_sub_cancel, Nat.add_sub_cancel]
  split <;> exact hdrop (by omega)

/-- The items whose access time `do_store_item` may renew in making room. -/
def Store.storeBusy (cfg : Settings) (env : AllocEnv) (s : Store) (it : Ptr) (comm : Comm)
    (hv : ℕ) : List Ptr :=
  match s.doItemGet cfg (s.key it) hv with
  | (s, some oldIt) =>
      if (comm = .append ∨ comm = .prepend) ∧
          ¬ (s.itemGetCas it ≠ 0 ∧ s.itemGetCas it ≠ s.itemGetCas oldIt) then
        s.allocBusy cfg env (s.key it) (s.suffixFlags oldIt) (s.nbytes it + s.nbytes oldIt - 2) hv
      else []
  | (_, none) => []

/-- **How `do_store_item` ends.** -/
inductive StoreResult (cfg : Settings) (s : Store) (g : Ghost) (it : Ptr) (comm : Comm)
    (busy : List Ptr) : Store × StoreItemType × Option ℕ → Prop
  /-- `add` and `set` where there is no live item. -/
  | new (s' : Store) (evs : List Event) (hcomm : comm = .add ∨ comm = .set)
      (ht : Trace cfg s g (evs ++ [.link it (s.key it)]) s' g)
      (he : ∀ e ∈ evs, e.Buries s (s.key it))
      (hdead : ∀ q, s.Linked q → s.key q = s.key it → s.dead q = true) :
      StoreResult cfg s g it comm busy (s', .stored, some (s'.itemGetCas it))
  /-- A command that needs an item where there is no live one. -/
  | absent (s' : Store) (evs : List Event) (hcomm : ¬ (comm = .add ∨ comm = .set))
      (ht : Trace cfg s g evs s' g) (he : ∀ e ∈ evs, e.Buries s (s.key it))
      (hdead : ∀ q, s.Linked q → s.key q = s.key it → s.dead q = true) :
      StoreResult cfg s g it comm busy
        (s', if comm = .cas then .notFound else .notStored, none)
  /-- `add` where there is a live item. -/
  | present (s' : Store) (p : Ptr) (hcomm : comm = .add) (hp : s.Linked p)
      (hk : s.key p = s.key it) (hd : s.dead p = false)
      (ht : Trace cfg s g [.ref p, .fetch p, .refresh p, .deref p] s' g) :
      StoreResult cfg s g it comm busy (s', .notStored, none)
  /-- The CAS id does not match. -/
  | mismatch (s' : Store) (p : Ptr) (hp : s.Linked p) (hk : s.key p = s.key it)
      (hd : s.dead p = false)
      (hcas : s.itemGetCas it ≠ s.itemGetCas p ∧
        (comm = .cas ∨ (comm = .append ∨ comm = .prepend) ∧ s.itemGetCas it ≠ 0))
      (ht : Trace cfg s g [.ref p, .fetch p, .deref p] s' g) :
      StoreResult cfg s g it comm busy (s', .exists, none)
  /-- The live item is replaced by `it`. -/
  | replaced (s' : Store) (p : Ptr) (hp : s.Linked p) (hk : s.key p = s.key it)
      (hd : s.dead p = false)
      (hcomm : comm = .set ∨ comm = .replace ∨
        comm = .cas ∧ s.itemGetCas it = s.itemGetCas p)
      (ht : Trace cfg s g
        [.ref p, .fetch p, .unlink p, .deref p, .link it (s.key it), .deref p] s' g) :
      StoreResult cfg s g it comm busy (s', .stored, some (s'.itemGetCas it))
  /-- There is no memory to append or prepend. -/
  | noRoom (s' : Store) (p : Ptr) (evs : List Event) (hcomm : comm = .append ∨ comm = .prepend)
      (hp : s.Linked p) (hk : s.key p = s.key it) (hd : s.dead p = false)
      (hcas : ¬ (s.itemGetCas it ≠ 0 ∧ s.itemGetCas it ≠ s.itemGetCas p))
      (ht : Trace cfg s g ([.ref p, .fetch p] ++ evs ++ [.deref p]) s' g)
      (he : ∀ e ∈ evs, e.Allocs cfg s g (cfg.hash (s.key it)) busy) :
      StoreResult cfg s g it comm busy (s', .notStored, none)
  /-- The live item is replaced by a new one with both values. -/
  | joined (s' : Store) (p n : Ptr) (evs : List Event) (hcomm : comm = .append ∨ comm = .prepend)
      (hp : s.Linked p) (hk : s.key p = s.key it) (hd : s.dead p = false)
      (hcas : ¬ (s.itemGetCas it ≠ 0 ∧ s.itemGetCas it ≠ s.itemGetCas p))
      (ht : Trace cfg s g ([.ref p, .fetch p] ++ evs ++
        [.create n (s.key it) (s.suffixFlags p) (s.exptime p) (s.nbytes it + s.nbytes p - 2),
          .write n (Memcached.joined comm (s.value p) (s.value it) ++ crlf),
          .unlink p, .deref p, .link n (s.key it), .deref p, .deref n]) s' g)
      (he : ∀ e ∈ evs, e.Allocs cfg s g (cfg.hash (s.key it)) busy)
      (hn : g.handles n = 0) (hne : n ≠ p) :
      StoreResult cfg s g it comm busy (s', .stored, some (s'.itemGetCas n))

/-- What `do_item_alloc` has made of the chunk. -/
theorem Trace.created {evs : List Event} {g' : Ghost} {flags : ℤ} {exptime nbytes : ℕ}
    (ht : Trace cfg s g (evs ++ [.create n key flags exptime nbytes]) s' g') (h : Inv cfg s g) :
    s'.key n = key ∧ s'.suffix n = (itemMakeHeader (key.length + 1) flags nbytes).1 ∧
      s'.nbytes n = nbytes ∧ s'.exptime n = exptime ∧ (s'.itFlags n).linked = false ∧
      0 < g'.handles n := by
  obtain ⟨t, f, h₁, h₂⟩ := ht.split
  cases h₂ with
  | cons hm h₃ =>
      cases h₃
      have hh : 0 < g'.handles n := by
        rw [hm.handles]
        exact Nat.lt_of_lt_of_eq (Nat.succ_pos _) (Ghost.handles_hold_self f n).symm
      have hi := hm.item (h₁.inv h) (Or.inr hh)
      simp only [Event.item, if_true] at hi
      exact ⟨congrArg Item.key hi, congrArg Item.suffix hi, congrArg Item.nbytes hi,
        congrArg Item.exptime hi, congrArg Item.linked hi, hh⟩

/-- An unlinked item that nobody rewrites stays as it is. -/
theorem Trace.item_unlinked {evs : List Event} {g' : Ghost} (ht : Trace cfg s g evs s' g')
    (h : Inv cfg s g) (he : ∀ e ∈ evs, ¬ e.Rewrites q) (hl : (s.itFlags q).linked = false)
    (hh : 0 < g'.handles q) : ∃ t, s'.item q = { s.item q with time := t } := by
  obtain ⟨-, b, t, hi, hb, -⟩ := ht.item_eq h he (Or.inr hh)
  have hb' : b = (s.item q).linked := hb.elim (fun e => e) fun e => e.2.trans hl.symm
  exact ⟨t, hi.trans (by rw [hb'])⟩

/-- What an allocation after a lookup does, seen from before the lookup. -/
theorem Event.Allocs.of_hit {curHv : ℕ} {e : Event} (hp : s.Linked p)
    (hh : cfg.hash (s.key p) = curHv) (hs : s' = (s.refcountIncr p).setFlags p (s.itFlags p).setFetched)
    (he : e.Allocs cfg s' (g.hold p) curHv busy) : e.Allocs cfg s g curHv busy := by
  subst hs
  cases e with
  | refresh q =>
      obtain ⟨hb, h0, hq⟩ := he
      have hne : q ≠ p := by
        rintro rfl
        exact hq hh
      exact ⟨hb, by rwa [Ghost.handles_hold_of_ne g hne] at h0, hq⟩
  | unlink q =>
      obtain ⟨hl, h0, hq, hw⟩ := he
      have hne : q ≠ p := by
        rintro rfl
        exact hq hh
      refine ⟨⟨hl.1, ?_⟩, by rwa [Ghost.handles_hold_of_ne g hne] at h0, hq, hw⟩
      exact (congrArg ItFlags.linked (Function.update_of_ne hne ..)).symm.trans hl.2
  | _ => exact he

/-- What stays as it was when an item is allocated while another one, `p`, is held. -/
structure AllocKeeps (s : Store) (g : Ghost) (p n : Ptr) (s' : Store) : Prop where
  ne : n ≠ p
  handles : g.handles n = 0
  one : ((g.hold p).hold n).handles n = 1
  linked : s'.Linked p
  item : ∀ q, 0 < (g.hold p).handles q → (s.itFlags q).linked = false ∨ q = p →
    ∃ t, s'.item q = { s.item q with time := t }

/-- Allocation spares what is held. -/
theorem Trace.allocKeeps {evs : List Event} {curHv : ℕ} {flags : ℤ} {exptime nbytes : ℕ}
    (h : Inv cfg s (g.hold p)) (hp : s.Linked p)
    (ht : Trace cfg s (g.hold p) (evs ++ [.create n key flags exptime nbytes]) s'
      ((g.hold p).hold n))
    (he : ∀ e ∈ evs, e.Allocs cfg s (g.hold p) curHv busy) (h0 : (g.hold p).handles n = 0) :
    AllocKeeps s g p n s' := by
  have hne : n ≠ p := by
    rintro rfl
    simp at h0
  have hlinked : s'.Linked p := ht.linked h hp fun hm => by
    rcases List.mem_append.mp hm with hm | hm
    · have := (he _ hm).2.1
      simp at this
    · simp at hm
  have hkeep : ∀ q, q ≠ n →
      ∀ e ∈ evs ++ [Event.create n key flags exptime nbytes], ¬ e.Rewrites q := by
    intro q hq e hm hc
    rcases List.mem_append.mp hm with hm | hm
    · have := he e hm
      cases e <;> first | exact hc | exact this
    · rw [List.mem_singleton.mp hm] at hc
      exact hq hc
  refine ⟨hne, ?_, by rw [Ghost.handles_hold_self, h0], hlinked, fun q hq hor => ?_⟩
  · rwa [Ghost.handles_hold_of_ne g hne] at h0
  have hqn : q ≠ n := by
    rintro rfl
    omega
  have hq' : 0 < ((g.hold p).hold n).handles q := by rwa [Ghost.handles_hold_of_ne _ hqn]
  rcases hor with hl | rfl
  · exact ht.item_unlinked h (hkeep q hqn) hl hq'
  · obtain ⟨-, b, t, hi, hb, -⟩ := ht.item_eq h (hkeep q hqn) (Or.inr hq')
    have hb' : b = (s.item q).linked := hb.elim (fun e => e) fun e => absurd hlinked.2 (by
      have := congrArg Item.linked hi
      simp only [Store.item] at this
      simp [this, e.2])
    exact ⟨t, hi.trans (by rw [hb'])⟩

/-- A lookup does not bring a held item within reach of tail repair. -/
theorem Store.NoRepair.hit {curHv : ℕ} (hrep : s.NoRepair cfg g curHv) (hp : s.Linked p)
    (hh : cfg.hash (s.key p) = curHv)
    (hs : s' = (s.refcountIncr p).setFlags p (s.itFlags p).setFetched) :
    s'.NoRepair cfg (g.hold p) curHv := by
  subst hs
  refine hrep.imp_right fun hno q hq hhq => ?_
  have hne : q ≠ p := by
    rintro rfl
    exact hhq hh
  rw [Ghost.handles_hold_of_ne g hne]
  exact hno q ⟨hq.1, (congrArg ItFlags.linked (Function.update_of_ne hne ..)).symm.trans hq.2⟩ hhq

/-- The branch of `do_store_item` that appends or prepends to the item just looked up. -/
theorem storeResult_appendItem {s₁ : Store} {comm : Comm} {env : AllocEnv} (h : Inv cfg s g)
    (hs : g.spare = none) (hit : s.Pending g it) (hp : s.Linked p) (hk : s.key p = s.key it)
    (hd : s.dead p = false) (hs₁ : s₁ = (s.refcountIncr p).setFlags p (s.itFlags p).setFetched)
    (ht : Trace cfg s g [.ref p, .fetch p] s₁ (g.hold p))
    (hcomm : comm = .append ∨ comm = .prepend) (hrep : s.NoRepair cfg g (cfg.hash (s.key it)))
    (hf : env.Fresh cfg s (slabsClsidOf cfg
      (Store.allocNtotal cfg (s.key it) (s.suffixFlags p) (s.nbytes it + s.nbytes p - 2)))) :
    StoreResult cfg s g it comm
      (if (comm = .append ∨ comm = .prepend) ∧
          ¬ (s₁.itemGetCas it ≠ 0 ∧ s₁.itemGetCas it ≠ s₁.itemGetCas p) then
        s₁.allocBusy cfg env (s₁.key it) (s₁.suffixFlags p) (s₁.nbytes it + s₁.nbytes p - 2)
          (cfg.hash (s.key it))
      else [])
      (s₁.appendItem cfg env comm p it (cfg.hash (s.key it))) := by
  have hitem : ∀ q, s₁.item q = s.item q := fun q => by
    rw [hs₁]
    exact item_setFetched (s := s.refcountIncr p) q
  have hI₁ := ht.inv h
  have hp₁ : s₁.Linked p := ht.linked h hp (by simp)
  have hcasp : s₁.itemGetCas p = s.itemGetCas p := congrArg Item.cas (hitem p)
  have hcasi : s₁.itemGetCas it = s.itemGetCas it := congrArg Item.cas (hitem it)
  have hne : it ≠ p := by
    rintro rfl
    exact absurd hp.2 (by simp [hit.unlinked])
  rw [Store.appendItem, hcasi, hcasp]
  by_cases hc : s.itemGetCas it ≠ 0 ∧ s.itemGetCas it ≠ s.itemGetCas p
  · rw [if_pos hc]
    exact .mismatch _ p hp hk hd ⟨hc.2, Or.inr ⟨hcomm, hc.1⟩⟩
      (ht.append (.single (.deref_hold p)))
  have hki : s₁.key it = s.key it := congrArg Item.key (hitem it)
  have hni : s₁.nbytes it = s.nbytes it := congrArg Item.nbytes (hitem it)
  have hnp : s₁.nbytes p = s.nbytes p := congrArg Item.nbytes (hitem p)
  have hxp : s₁.exptime p = s.exptime p := congrArg Item.exptime (hitem p)
  have hfl : s₁.suffixFlags p = s.suffixFlags p := by
    rw [Store.suffixFlags, show s₁.suffix p = s.suffix p from congrArg Item.suffix (hitem p)]
    rfl
  rw [if_neg hc, if_pos ⟨hcomm, hc⟩, hki, hni, hnp, hxp, hfl]
  have hith : 0 < g.handles it := by rw [hit.handles]; exact Nat.one_pos
  have hhv : cfg.hash (s.key p) = cfg.hash (s.key it) := by rw [hk]
  have hlen : 2 ≤ s.nbytes it + s.nbytes p - 2 := by
    obtain ⟨L, hwf⟩ := h
    have h₁ := hwf.two_le_nbytes it (Or.inr hith)
    have h₂ := hwf.two_le_nbytes p (Or.inl hp)
    omega
  have hrep₁ : s₁.NoRepair cfg (g.hold p) (cfg.hash (s.key it)) := hrep.hit hp hhv hs₁
  have hf₁ : env.Fresh cfg s₁ (slabsClsidOf cfg
      (Store.allocNtotal cfg (s.key it) (s.suffixFlags p) (s.nbytes it + s.nbytes p - 2))) := by
    rw [hs₁]
    exact hf
  have hal := allocResult_doItemAlloc hI₁ hs hf₁ hrep₁ hlen (s.exptime p)
  generalize s₁.doItemAlloc cfg env (s.key it) (s.suffixFlags p) (s.exptime p)
    (s.nbytes it + s.nbytes p - 2) (cfg.hash (s.key it)) = r at hal
  generalize s₁.allocBusy cfg env (s.key it) (s.suffixFlags p)
    (s.nbytes it + s.nbytes p - 2) (cfg.hash (s.key it)) = busy at hal
  cases hal with
  | fail s₂ evs ht₂ he =>
      exact .noRoom _ p evs hcomm hp hk hd hc ((ht.append ht₂).append (.single (.deref_hold p)))
        fun e hm => (he e hm).of_hit hp hhv hs₁
  | ok s₂ n evs ht₂ he h0 =>
      have hkept := ht₂.allocKeeps hI₁ hp₁ he h0
      have hI₂ := ht₂.inv hI₁
      obtain ⟨hkn, -, hnn, -, hln, hhn⟩ := ht₂.created hI₁
      obtain ⟨t, hip⟩ := hkept.item p (by simp) (Or.inr rfl)
      obtain ⟨t', hii⟩ := hkept.item it (by rw [Ghost.handles_hold_of_ne g hne]; exact hith)
        (Or.inl ((congrArg Item.linked (hitem it)).trans hit.unlinked))
      rw [hitem] at hip hii
      obtain ⟨L, hwf⟩ := id h
      have hvp := Store.data_eq_value (hwf.length_data p (Or.inl hp)) (hwf.crlf p hp)
      have hvi := Store.data_eq_value (hwf.length_data it (Or.inr hith)) hit.crlf
      have hlenOf : ∀ q, s.data q = s.value q ++ crlf → (s.data q).length = s.nbytes q →
          s.nbytes q = (s.value q).length + 2 := by
        intro q hq hl
        rw [← hl, hq, List.length_append]
        rfl
      have hjoin : s₂.joinValues comm n p it
          = Memcached.joined comm (s.value p) (s.value it) ++ crlf := by
        have hdp : s₂.data p = s.data p := congrArg Item.data hip
        have hdi : s₂.data it = s.data it := congrArg Item.data hii
        have hnp₂ : s₂.nbytes p = s.nbytes p := congrArg Item.nbytes hip
        have hni₂ : s₂.nbytes it = s.nbytes it := congrArg Item.nbytes hii
        refine joinValues_eq (hdp.trans hvp) (hdi.trans hvi)
          (hnp₂.trans (hlenOf p hvp (hwf.length_data p (Or.inl hp))))
          (hni₂.trans (hlenOf it hvi (hwf.length_data it (Or.inr hith)))) ?_
        rw [hni₂, hnp₂, ← hnn]
        obtain ⟨L₂, hwf₂⟩ := hI₂
        exact hwf₂.length_data n (Or.inr hhn)
      simp only [hjoin]
      set d := Memcached.joined comm (s.value p) (s.value it) ++ crlf
      have hdlen : d.length = s₂.nbytes n := by
        have hl₁ := hlenOf p hvp (hwf.length_data p (Or.inl hp))
        have hl₂ := hlenOf it hvi (hwf.length_data it (Or.inr hith))
        have hj : (Memcached.joined comm (s.value p) (s.value it)).length
            = (s.value p).length + (s.value it).length := by
          rw [Memcached.joined]
          split <;> simp [Nat.add_comm]
        rw [hnn, List.length_append, hj, hl₁, hl₂]
        simp [crlf]
        omega
      have hwrite : Prim cfg s₂ ((g.hold p).hold n) (.write n d) (s₂.setData n d)
          ((g.hold p).hold n) := .write hhn hln hdlen
      have hkp : (s₂.setData n d).key p = s.key it := (congrArg Item.key hip).trans hk
      have hrepl := Trace.doItemReplace (p := p) (n := n) (hwrite.inv hI₂) hkept.linked hhn hln
        (hkn.trans hkp.symm) (by rw [hkept.one]; decide)
        ⟨Memcached.joined comm (s.value p) (s.value it), Function.update_self ..⟩
      rw [hkp, Ghost.hold_comm] at hrepl
      rw [Ghost.hold_comm] at hwrite ht₂
      have hend := hrepl.append (.cons (.deref_hold p) (.single (.deref_hold n)))
      refine .joined _ p n evs hcomm hp hk hd hc ?_
        (fun e hm => (he e hm).of_hit hp hhv hs₁) hkept.handles hkept.ne
      simpa using ht.append (ht₂.append (.cons hwrite hend))

/-- **`do_store_item`.** -/
theorem storeResult_doStoreItem (h : Inv cfg s g) (hs : g.spare = none) (hit : s.Pending g it)
    {comm : Comm} {env : AllocEnv} (hroom : s.Room cfg (s.key it))
    (hrep : s.NoRepair cfg g (cfg.hash (s.key it)))
    (hf : ∀ p, s.Linked p → s.key p = s.key it → env.Fresh cfg s (slabsClsidOf cfg
      (Store.allocNtotal cfg (s.key it) (s.suffixFlags p) (s.nbytes it + s.nbytes p - 2)))) :
    StoreResult cfg s g it comm (s.storeBusy cfg env it comm (cfg.hash (s.key it)))
      (s.doStoreItem cfg env it comm (cfg.hash (s.key it))) := by
  have hget := getResult_doItemGet h hroom
  rw [Store.doStoreItem, Store.storeBusy]
  generalize s.doItemGet cfg (s.key it) (cfg.hash (s.key it)) = r at hget
  have hith : 0 < g.handles it := by rw [hit.handles]; exact Nat.one_pos
  cases hget with
  | miss s₁ evs ht he hdead hno =>
      simp only
      have hkeep : ∀ e ∈ evs, ¬ e.Rewrites it := fun e hm hc => by
        have := he e hm
        cases e <;> first | exact hc | exact this
      obtain ⟨t, hi⟩ := ht.item_unlinked h hkeep hit.unlinked hith
      have hk : s₁.key it = s.key it := congrArg Item.key hi
      have hl : (s₁.itFlags it).linked = false := (congrArg Item.linked hi).trans hit.unlinked
      have hlink : Trace cfg s g (evs ++ [Event.link it (s.key it)])
          (s₁.doItemLink cfg it (cfg.hash (s.key it))) g := by
        have hm : Prim cfg s₁ g (.link it (s₁.key it))
            (s₁.doItemLink cfg it (cfg.hash (s₁.key it))) g := by
          refine .link hith hl ?_ ?_ ?_
          · rw [hk]
            exact hno
          · rw [Store.refs, hl, hit.handles]
            decide
          · have hd : s₁.data it = s.data it := congrArg Item.data hi
            rw [hd]
            exact hit.crlf
        rw [hk] at hm
        exact ht.append (.single hm)
      cases comm with
      | add => exact .new _ evs (Or.inl rfl) hlink he hdead
      | set => exact .new _ evs (Or.inr rfl) hlink he hdead
      | replace | append | prepend =>
          exact .absent _ evs (by simp) ht he hdead
      | cas => exact .absent _ evs (by simp) ht he hdead
  | hit s₁ p hp hk hd hs₁ ht =>
      have hitem : ∀ q, s₁.item q = s.item q := fun q => by
        rw [hs₁]
        exact item_setFetched (s := s.refcountIncr p) q
      have hI₁ := ht.inv h
      have hp₁ : s₁.Linked p := ht.linked h hp (by simp)
      have hk₁ : s₁.key p = s.key it := (congrArg Item.key (hitem p)).trans hk
      have hki : s₁.key it = s.key it := congrArg Item.key (hitem it)
      have hli : (s₁.itFlags it).linked = false :=
        (congrArg Item.linked (hitem it)).trans hit.unlinked
      have hne : it ≠ p := by
        rintro rfl
        exact absurd hp.2 (by simp [hit.unlinked])
      have hone : (g.hold p).handles it = 1 := by rw [Ghost.handles_hold_of_ne g hne, hit.handles]
      have hcasp : s₁.itemGetCas p = s.itemGetCas p := congrArg Item.cas (hitem p)
      have hcasi : s₁.itemGetCas it = s.itemGetCas it := congrArg Item.cas (hitem it)
      have hrepl : Trace cfg s g [.ref p, .fetch p, .unlink p, .deref p, .link it (s.key it),
          .deref p] ((s₁.doItemReplace cfg p it (cfg.hash (s.key it))).doItemRemove cfg p) g := by
        have hcrlf : ∃ v, s₁.data it = v ++ crlf := by
          rw [show s₁.data it = s.data it from congrArg Item.data (hitem it)]
          exact hit.crlf
        have hr := Trace.doItemReplace hI₁ hp₁ (by omega) hli (hki.trans hk₁.symm)
          (by rw [hone]; decide) hcrlf
        rw [hk₁] at hr
        exact ht.append (hr.append (.single (.deref_hold p)))
      cases comm with
      | add =>
          exact .present _ p rfl hp hk hd
            (ht.append (.cons (.refresh (Or.inl hp₁)) (.single (.deref_hold p))))
      | cas =>
          by_cases hc : s.itemGetCas it = s.itemGetCas p
          · simp only [hcasi, hcasp, if_pos hc]
            exact .replaced _ p hp hk hd (Or.inr (Or.inr ⟨rfl, hc⟩)) hrepl
          · simp only [hcasi, hcasp, if_neg hc]
            exact .mismatch _ p hp hk hd ⟨hc, Or.inl rfl⟩ (ht.append (.single (.deref_hold p)))
      | set => exact .replaced _ p hp hk hd (Or.inl rfl) hrepl
      | replace => exact .replaced _ p hp hk hd (Or.inr (Or.inl rfl)) hrepl
      | append => exact storeResult_appendItem h hs hit hp hk hd hs₁ ht (Or.inl rfl) hrep (hf p hp hk)
      | prepend => exact storeResult_appendItem h hs hit hp hk hd hs₁ ht (Or.inr rfl) hrep (hf p hp hk)

/-! ## Arithmetic -/

/-- The CAS id an item gets that is linked, or changed in place, next. -/
def Store.nextCas (cfg : Settings) (s : Store) : ℕ := if cfg.useCas then s.casId + 1 else 0

/-- The value that `do_add_delta` writes in place: the digits, blanks up to the old length, and the
CRLF. -/
def padded (buf : Bytes) (len : ℕ) : Bytes := buf ++ List.replicate (len - buf.length) 32 ++ crlf

/-- What `do_add_delta` reads of the flags of an item: it skips the blank itself. -/
def Store.deltaFlags (s : Store) (p : Ptr) : ℤ :=
  CNumber.toInt32 (CNumber.strtol ((s.suffix p).drop 1))

/-- The items whose access time `do_add_delta` may renew in making room. -/
def Store.deltaBusy (cfg : Settings) (env : AllocEnv) (beyond : Bytes) (s : Store) (key : Bytes)
    (incr : Bool) (delta reqCas hv : ℕ) : List Ptr :=
  match s.doItemGet cfg key hv with
  | (_, none) => []
  | (s, some it) =>
      if reqCas ≠ 0 ∧ s.itemGetCas it ≠ reqCas then []
      else
        match CNumber.safeStrtoull (s.data it ++ beyond) with
        | none => []
        | some value =>
            let buf := CNumber.decDigits (deltaValue incr value delta)
            if buf.length + 2 ≤ s.nbytes it ∧ s.refcount it = 2 then []
            else s.allocBusy cfg env (s.key it) (s.deltaFlags it) (buf.length + 2) hv

/-- **How `do_add_delta` ends.** -/
inductive DeltaResult (cfg : Settings) (beyond : Bytes) (s : Store) (g : Ghost) (key : Bytes)
    (incr : Bool) (delta reqCas : ℕ) (busy : List Ptr) :
    Store × DeltaResultType × Option (ℕ × ℕ) → Prop
  /-- There is no live item. -/
  | notFound (s' : Store) (evs : List Event) (ht : Trace cfg s g evs s' g)
      (he : ∀ e ∈ evs, e.Buries s key)
      (hdead : ∀ q, s.Linked q → s.key q = key → s.dead q = true) :
      DeltaResult cfg beyond s g key incr delta reqCas busy (s', .itemNotFound, none)
  /-- The CAS id does not match. -/
  | mismatch (s' : Store) (p : Ptr) (hp : s.Linked p) (hk : s.key p = key) (hd : s.dead p = false)
      (hcas : reqCas ≠ 0 ∧ s.itemGetCas p ≠ reqCas)
      (ht : Trace cfg s g [.ref p, .fetch p, .deref p] s' g) :
      DeltaResult cfg beyond s g key incr delta reqCas busy (s', .itemCasMismatch, none)
  /-- The value is not a number. -/
  | nonNumeric (s' : Store) (p : Ptr) (hp : s.Linked p) (hk : s.key p = key)
      (hd : s.dead p = false) (hcas : ¬ (reqCas ≠ 0 ∧ s.itemGetCas p ≠ reqCas))
      (hnum : CNumber.safeStrtoull (s.data p ++ beyond) = none)
      (ht : Trace cfg s g [.ref p, .fetch p, .deref p] s' g) :
      DeltaResult cfg beyond s g key incr delta reqCas busy (s', .nonNumeric, none)
  /-- The digits fit and nobody else holds the item: it is changed in place. -/
  | inPlace (s' : Store) (p : Ptr) (value : ℕ) (hp : s.Linked p) (hk : s.key p = key)
      (hd : s.dead p = false) (hcas : ¬ (reqCas ≠ 0 ∧ s.itemGetCas p ≠ reqCas))
      (hnum : CNumber.safeStrtoull (s.data p ++ beyond) = some value)
      (h0 : g.handles p = 0)
      (ht : Trace cfg s g [.ref p, .fetch p,
        .inPlace p (padded (CNumber.decDigits (deltaValue incr value delta)) (s.value p).length),
        .refresh p, .deref p] s' g) :
      DeltaResult cfg beyond s g key incr delta reqCas busy
        (s', .ok, some (deltaValue incr value delta, s.nextCas cfg))
  /-- There is no memory for the new value. -/
  | noRoom (s' : Store) (p : Ptr) (evs : List Event) (hp : s.Linked p) (hk : s.key p = key)
      (hd : s.dead p = false) (hcas : ¬ (reqCas ≠ 0 ∧ s.itemGetCas p ≠ reqCas))
      (ht : Trace cfg s g ([.ref p, .fetch p] ++ evs ++ [.deref p]) s' g)
      (he : ∀ e ∈ evs, e.Allocs cfg s g (cfg.hash key) busy) :
      DeltaResult cfg beyond s g key incr delta reqCas busy (s', .eom, none)
  /-- The item is replaced by a new one, and gets the new one's CAS id. -/
  | replaced (s' : Store) (p n : Ptr) (value : ℕ) (evs : List Event) (hp : s.Linked p)
      (hk : s.key p = key) (hd : s.dead p = false)
      (hcas : ¬ (reqCas ≠ 0 ∧ s.itemGetCas p ≠ reqCas))
      (hnum : CNumber.safeStrtoull (s.data p ++ beyond) = some value)
      (hbig : 0 < g.handles p ∨
        s.nbytes p < (CNumber.decDigits (deltaValue incr value delta)).length + 2)
      (ht : Trace cfg s g ([.ref p, .fetch p] ++ evs ++
        [.create n key (s.deltaFlags p) (s.exptime p)
            ((CNumber.decDigits (deltaValue incr value delta)).length + 2),
          .write n (CNumber.decDigits (deltaValue incr value delta) ++ crlf),
          .unlink p, .deref p, .link n key, .setCas p (s.nextCas cfg), .deref n, .deref p]) s' g)
      (he : ∀ e ∈ evs, e.Allocs cfg s g (cfg.hash key) busy)
      (hn : g.handles n = 0) (hne : n ≠ p) :
      DeltaResult cfg beyond s g key incr delta reqCas busy
        (s', .ok, some (deltaValue incr value delta, s.nextCas cfg))

/-- Overwriting the head of a value and blanking the rest. -/
theorem memcpyAt_padded {v buf : Bytes} (hfit : buf.length ≤ v.length) :
    memcpyAt (memcpyAt (v ++ crlf) 0 buf) buf.length
      (List.replicate (v.length + 2 - buf.length - 2) 32) = padded buf v.length := by
  have hsub : v.length + 2 - buf.length - 2 = v.length - buf.length := by omega
  have htail : List.drop (v.length - buf.length) (List.drop buf.length (v ++ crlf)) = crlf := by
    rw [List.drop_drop, Nat.add_sub_cancel' hfit, List.drop_left]
  simp only [memcpyAt, List.take_zero, List.nil_append, Nat.zero_add, hsub, List.take_left,
    List.length_replicate, padded]
  rw [List.drop_append, List.drop_eq_nil_of_le (by omega), List.nil_append,
    Nat.add_sub_cancel_left, htail]

/-- Writing a number and CRLF over a value of that length. -/
theorem memcpyAt_crlf {d buf : Bytes} (hd : d.length = buf.length + 2) :
    memcpyAt (memcpyAt d 0 buf) buf.length crlf = buf ++ crlf := by
  simp only [memcpyAt, List.take_zero, List.nil_append, Nat.zero_add, List.take_left]
  rw [List.drop_eq_nil_of_le (by simp [crlf, hd]), List.append_nil]

/-- The branch of `do_add_delta` that changes the item just looked up in place. -/
theorem deltaResult_inPlace {beyond : Bytes} {incr : Bool} {delta reqCas value : ℕ} {s₁ : Store}
    (h : Inv cfg s g) (hp : s.Linked p) (hk : s.key p = key) (hd : s.dead p = false)
    (hs₁ : s₁ = (s.refcountIncr p).setFlags p (s.itFlags p).setFetched)
    (ht : Trace cfg s g [.ref p, .fetch p] s₁ (g.hold p))
    (hcas : ¬ (reqCas ≠ 0 ∧ s.itemGetCas p ≠ reqCas))
    (hnum : CNumber.safeStrtoull (s.data p ++ beyond) = some value) (h0 : g.handles p = 0)
    (hfit : (CNumber.decDigits (deltaValue incr value delta)).length + 2 ≤ s.nbytes p) :
    DeltaResult cfg beyond s g key incr delta reqCas busy
      ((s₁.deltaInPlace cfg p (CNumber.decDigits (deltaValue incr value delta))).doItemRemove cfg p,
        .ok, some (deltaValue incr value delta,
          (s₁.deltaInPlace cfg p
            (CNumber.decDigits (deltaValue incr value delta))).itemGetCas p)) := by
  set buf := CNumber.decDigits (deltaValue incr value delta)
  have hI₁ := ht.inv h
  have hp₁ : s₁.Linked p := ht.linked h hp (by simp)
  obtain ⟨L, hwf⟩ := id h
  have hv := Store.data_eq_value (hwf.length_data p (Or.inl hp)) (hwf.crlf p hp)
  have hn : s.nbytes p = (s.value p).length + 2 := by
    rw [← hwf.length_data p (Or.inl hp), hv, List.length_append]
    rfl
  have hpad : memcpyAt (memcpyAt (s.data p) 0 buf) buf.length
      (List.replicate (s.nbytes p - buf.length - 2) 32) = padded buf (s.value p).length := by
    rw [hv, hn]
    exact memcpyAt_padded (by omega)
  have hdata : (s₁.setFreshCas cfg p).data p = s.data p := by rw [hs₁]; rfl
  have hnb : (s₁.setFreshCas cfg p).nbytes p = s.nbytes p := by rw [hs₁]; rfl
  have hm : Prim cfg s₁ (g.hold p) (.inPlace p (padded buf (s.value p).length))
      ((s₁.setFreshCas cfg p).setData p (padded buf (s.value p).length)) (g.hold p) := by
    refine .inPlace hp₁ ?_ ⟨buf ++ List.replicate ((s.value p).length - buf.length) 32, rfl⟩
    rw [show s₁.nbytes p = s.nbytes p from hnb, padded, List.length_append, List.length_append,
      List.length_replicate, hn]
    simp only [crlf, List.length_cons, List.length_nil]
    omega
  have hr : Prim cfg ((s₁.setFreshCas cfg p).setData p (padded buf (s.value p).length)) (g.hold p)
      (.refresh p) (s₁.deltaInPlace cfg p buf) (g.hold p) := by
    rw [Store.deltaInPlace]
    simp only [hdata, hnb, hpad]
    exact .refresh (Or.inr (by simp))
  have hcasEq : (s₁.deltaInPlace cfg p buf).itemGetCas p = s.nextCas cfg := by
    have hI₂ := hm.inv hI₁
    have hu : (0 : ℕ) < (g.hold p).handles p := by simp
    have hi := hr.item hI₂ (Or.inr hu)
    rw [hm.item hI₁ (Or.inr hu)] at hi
    have hid : s₁.casId = s.casId := by rw [hs₁]; rfl
    refine (congrArg Item.cas hi).trans ?_
    simp only [Event.item, if_true, hid]
    split <;> rfl
  rw [hcasEq]
  exact .inPlace _ p value hp hk hd hcas hnum h0
    (ht.append (.cons hm (.cons hr (.single (.deref_hold p)))))

/-- The branch of `do_add_delta` that replaces the item just looked up. -/
theorem deltaResult_replace {beyond : Bytes} {incr : Bool} {delta reqCas value : ℕ} {s₁ : Store}
    {env : AllocEnv} (h : Inv cfg s g) (hs : g.spare = none) (hp : s.Linked p)
    (hk : s.key p = key) (hd : s.dead p = false)
    (hs₁ : s₁ = (s.refcountIncr p).setFlags p (s.itFlags p).setFetched)
    (ht : Trace cfg s g [.ref p, .fetch p] s₁ (g.hold p))
    (hcas : ¬ (reqCas ≠ 0 ∧ s.itemGetCas p ≠ reqCas))
    (hnum : CNumber.safeStrtoull (s.data p ++ beyond) = some value)
    (hbig : 0 < g.handles p ∨
      s.nbytes p < (CNumber.decDigits (deltaValue incr value delta)).length + 2)
    (hrep : s.NoRepair cfg g (cfg.hash key))
    (hf : env.Fresh cfg s (slabsClsidOf cfg (Store.allocNtotal cfg key (s.deltaFlags p)
      ((CNumber.decDigits (deltaValue incr value delta)).length + 2)))) :
    DeltaResult cfg beyond s g key incr delta reqCas
      (s₁.allocBusy cfg env key (s.deltaFlags p)
        ((CNumber.decDigits (deltaValue incr value delta)).length + 2) (cfg.hash key))
      (match s₁.doItemAlloc cfg env key (s.deltaFlags p) (s.exptime p)
        ((CNumber.decDigits (deltaValue incr value delta)).length + 2) (cfg.hash key) with
      | (s, none) => (s.doItemRemove cfg p, .eom, none)
      | (s, some newIt) =>
          let s := s.deltaReplace cfg p newIt
            (CNumber.decDigits (deltaValue incr value delta)) (cfg.hash key)
          (s.doItemRemove cfg p, .ok, some (deltaValue incr value delta, s.itemGetCas p))) := by
  set buf := CNumber.decDigits (deltaValue incr value delta)
  have hitem : ∀ q, s₁.item q = s.item q := fun q => by
    rw [hs₁]
    exact item_setFetched (s := s.refcountIncr p) q
  have hI₁ := ht.inv h
  have hp₁ : s₁.Linked p := ht.linked h hp (by simp)
  have hhv : cfg.hash (s.key p) = cfg.hash key := by rw [hk]
  have hrep₁ : s₁.NoRepair cfg (g.hold p) (cfg.hash key) := hrep.hit hp hhv hs₁
  have hf₁ : env.Fresh cfg s₁ (slabsClsidOf cfg
      (Store.allocNtotal cfg key (s.deltaFlags p) (buf.length + 2))) := by
    rw [hs₁]
    exact hf
  have hal := allocResult_doItemAlloc hI₁ hs hf₁ hrep₁ (Nat.le_add_left 2 _) (s.exptime p)
  generalize s₁.doItemAlloc cfg env key (s.deltaFlags p) (s.exptime p) (buf.length + 2)
    (cfg.hash key) = r at hal
  generalize s₁.allocBusy cfg env key (s.deltaFlags p) (buf.length + 2) (cfg.hash key) = busy at hal
  cases hal with
  | fail s₂ evs ht₂ he =>
      exact .noRoom _ p evs hp hk hd hcas ((ht.append ht₂).append (.single (.deref_hold p)))
        fun e hm => (he e hm).of_hit hp hhv hs₁
  | ok s₂ n evs ht₂ he h0 =>
      have hkept := ht₂.allocKeeps hI₁ hp₁ he h0
      have hI₂ := ht₂.inv hI₁
      obtain ⟨hkn, -, hnn, -, hln, hhn⟩ := ht₂.created hI₁
      obtain ⟨t, hip⟩ := hkept.item p (by simp) (Or.inr rfl)
      rw [hitem] at hip
      have hlen : (s₂.data n).length = buf.length + 2 := by
        obtain ⟨L₂, hwf₂⟩ := hI₂
        rw [hwf₂.length_data n (Or.inr hhn), hnn]
      simp only [Store.deltaReplace, memcpyAt_crlf hlen]
      have hwrite : Prim cfg s₂ ((g.hold p).hold n) (.write n (buf ++ crlf))
          (s₂.setData n (buf ++ crlf)) ((g.hold p).hold n) :=
        .write hhn hln (by rw [hnn]; simp [crlf])
      have hkp : (s₂.setData n (buf ++ crlf)).key p = key := (congrArg Item.key hip).trans hk
      have hrepl := Trace.doItemReplace (p := p) (n := n) (hwrite.inv hI₂) hkept.linked hhn hln
        (hkn.trans hkp.symm) (by rw [hkept.one]; decide) ⟨buf, Function.update_self ..⟩
      rw [hkp] at hrepl
      set s₄ := (s₂.setData n (buf ++ crlf)).doItemReplace cfg p n (cfg.hash key)
      -- the CAS id the new item got when it was linked
      have hnew : s₄.itemGetCas n = s.nextCas cfg := by
        obtain ⟨t', f', h₁, -, -, hi⟩ := Trace.item_link
          (show Trace cfg _ _ ([.unlink p, .deref p] ++ [.link n key]) _ _ from hrepl)
          (hwrite.inv hI₂)
        have hc : t'.casId = s.casId := by
          rw [h₁.casId_eq (by simp [Event.casIds])]
          have e₂ : s₂.casId = s₁.casId := ht₂.casId_eq fun e hm => by
            rcases List.mem_append.mp hm with hm | hm
            · have := he e hm
              cases e <;> first | rfl | exact this.elim
            · rw [List.mem_singleton.mp hm]
              rfl
          exact e₂.trans (ht.casId_eq (by simp [Event.casIds]))
        exact (congrArg Item.cas hi).trans (by simp only [hc, Store.nextCas])
      have hv : (if cfg.useCas = true then s₄.itemGetCas n else 0) = s.nextCas cfg := by
        rw [hnew, Store.nextCas]
        split <;> rfl
      rw [hv]
      have hset : Prim cfg s₄ ((g.hold p).hold n) (.setCas p (s.nextCas cfg))
          (s₄.itemSetCas p (s.nextCas cfg)) ((g.hold p).hold n) := by
        refine .setCas (Or.inr ?_) _
        rw [Ghost.handles_hold_of_ne _ hkept.ne.symm]
        simp
      have hI₄ := hrepl.inv (hwrite.inv hI₂)
      have hde : Prim cfg (s₄.itemSetCas p (s.nextCas cfg)) ((g.hold p).hold n) (.deref n)
          ((s₄.itemSetCas p (s.nextCas cfg)).doItemRemove cfg n) (g.hold p) := .deref_hold n
      have hreport : ((s₄.itemSetCas p (s.nextCas cfg)).doItemRemove cfg n).itemGetCas p
          = s.nextCas cfg := by
        have hu : 0 < ((g.hold p).hold n).handles p := by
          rw [Ghost.handles_hold_of_ne _ hkept.ne.symm]
          simp
        have hi := hde.item (q := p) (hset.inv hI₄) (Or.inr (by simp))
        have hi' := hset.item (q := p) hI₄ (Or.inr hu)
        rw [hi'] at hi
        refine (congrArg Item.cas hi).trans ?_
        simp only [Event.item, if_true, Store.nextCas]
        split <;> rfl
      rw [hreport]
      refine .replaced _ p n value evs hp hk hd hcas hnum hbig ?_
        (fun e hm => (he e hm).of_hit hp hhv hs₁) hkept.handles hkept.ne
      have hend := hrepl.append (.cons hset (.cons hde (.single (.deref_hold p))))
      simpa using ht.append (ht₂.append (.cons hwrite hend))

/-- **`do_add_delta`.** -/
theorem deltaResult_doAddDelta (h : Inv cfg s g) (hs : g.spare = none) {env : AllocEnv}
    (beyond : Bytes) (incr : Bool) (delta reqCas : ℕ) (hroom : s.Room cfg key)
    (hrep : s.NoRepair cfg g (cfg.hash key))
    (hf : ∀ p value, s.Linked p → s.key p = key →
      CNumber.safeStrtoull (s.data p ++ beyond) = some value →
      env.Fresh cfg s (slabsClsidOf cfg (Store.allocNtotal cfg key (s.deltaFlags p)
        ((CNumber.decDigits (deltaValue incr value delta)).length + 2)))) :
    DeltaResult cfg beyond s g key incr delta reqCas
      (s.deltaBusy cfg env beyond key incr delta reqCas (cfg.hash key))
      (s.doAddDelta cfg env beyond key incr delta reqCas (cfg.hash key)) := by
  have hget := getResult_doItemGet h hroom
  rw [Store.doAddDelta, Store.deltaBusy]
  generalize s.doItemGet cfg key (cfg.hash key) = r at hget
  cases hget with
  | miss s₁ evs ht he hdead hno => exact .notFound _ evs ht he hdead
  | hit s₁ p hp hk hd hs₁ ht =>
      have hitem : ∀ q, s₁.item q = s.item q := fun q => by
        rw [hs₁]
        exact item_setFetched (s := s.refcountIncr p) q
      have hcas : s₁.itemGetCas p = s.itemGetCas p := congrArg Item.cas (hitem p)
      have hdata : s₁.data p = s.data p := congrArg Item.data (hitem p)
      have hkey : s₁.key p = key := (congrArg Item.key (hitem p)).trans hk
      have hnb : s₁.nbytes p = s.nbytes p := congrArg Item.nbytes (hitem p)
      have hx : s₁.exptime p = s.exptime p := congrArg Item.exptime (hitem p)
      have hsuf : s₁.suffix p = s.suffix p := congrArg Item.suffix (hitem p)
      have hcount : s₁.refcount p = g.handles p + 2 := by
        obtain ⟨L, hwf⟩ := h
        have hlt := hroom p (hwf.assocFind_eq_some.mpr ⟨hp, hk⟩)
        rw [hs₁]
        show (s.refcountIncr p).refcount p = _
        simp only [Store.refcountIncr, Function.update_self, Nat.mod_eq_of_lt hlt]
        rw [hwf.refcount_of_linked hp]
      simp only [Store.deltaFlags, hcas, hdata, hkey, hnb, hx, hcount, hsuf]
      by_cases hc : reqCas ≠ 0 ∧ s.itemGetCas p ≠ reqCas
      · rw [if_pos hc, if_pos hc]
        exact .mismatch _ p hp hk hd hc (ht.append (.single (.deref_hold p)))
      rw [if_neg hc, if_neg hc]
      cases hnum : CNumber.safeStrtoull (s.data p ++ beyond) with
      | none => exact .nonNumeric _ p hp hk hd hc hnum (ht.append (.single (.deref_hold p)))
      | some value =>
          simp only
          split
          · rename_i hfit
            exact deltaResult_inPlace h hp hk hd hs₁ ht hc hnum (by omega) hfit.1
          · rename_i hfit
            rw [if_pos (by omega)]
            exact deltaResult_replace h hs hp hk hd hs₁ ht hc hnum (by omega) hrep
              (hf p value hp hk hnum)

end Memcached
