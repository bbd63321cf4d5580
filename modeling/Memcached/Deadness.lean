import Memcached.Contents

/-! # Dead items

An item is dead once its expiry time has passed or a flush point covers its access time. Nothing on
the item records this: it is found out again at every lookup. What keeps a dead item dead, and what
brings it back.

* **`KeepsDead`** — a step that does not store the key, and leaves its items behind the flush point.
* **`gone_step`**, **`gone_run`** — the key stays dead in such steps.
* **`deadness_permanent`**, **`deadness_not_permanent`** — in every run of them, and in one with
  another step.
* **`flushAll_complete`**, **`flushAll_incomplete`** — what `flush_all` leaves. -/

namespace Memcached

open CNumber (Bytes)
open Transition (Run)

variable {n : ℕ} {cfg : Settings} {w w' : World n} {s s' : Store} {g g' : Ghost} {p q : Ptr}
  {key : Bytes}

/-! ## Steps and dead keys -/

/-- Whatever is linked under the key is flushed or has expired. -/
def Store.Gone (s : Store) (key : Bytes) : Prop :=
  ∀ q, s.Linked q → s.key q = key → s.flushed q = true ∨ s.expired q = true

/-- A lookup of a key that is gone. -/
theorem Store.Gone.doItemGet_eq_none (h : Inv cfg s g) (hg : s.Gone key) :
    (s.doItemGet cfg key (cfg.hash key)).2 = none := by
  obtain ⟨L, hwf⟩ := h
  cases hfind : s.assocFind key (cfg.hash key) with
  | none => rw [Store.doItemGet, hfind]
  | some p =>
      obtain ⟨hl, hk⟩ := hwf.assocFind_eq_some.mp hfind
      have hd : s.dead p = true := by
        rw [Store.dead]
        rcases hg p hl hk with h | h <;> simp [h]
      rw [Store.doItemGet_eq hfind, hd, if_pos rfl]

/-- `do_store_item` links nothing under a dead key unless it stores. -/
theorem StoreResult.within_dead {it : Ptr} {comm : Comm} {busy : List Ptr} {K : Bytes → Prop}
    {r : Store × StoreItemType × Option ℕ} (h : StoreResult cfg s g it comm busy r)
    (hK : K (s.key it)) (hdead : ∀ q, s.Linked q → s.key q = s.key it → s.dead q = true)
    (hr : r.2.1 ≠ .stored) :
    ∃ evs, Trace cfg s g evs r.1 g ∧
      ∀ e ∈ evs, e.Within cfg s g K (· ≠ s.key it) (some it) busy := by
  cases h with
  | absent s' evs hcomm ht he _ => exact ⟨_, ht, fun e hm => (he e hm).within hK⟩
  | new | replaced | joined => exact absurd rfl hr
  | present s' p hcomm hp hk hd ht => exact absurd (hdead p hp hk) (by simp [hd])
  | mismatch s' p hp hk hd hcas ht => exact absurd (hdead p hp hk) (by simp [hd])
  | noRoom s' p evs hcomm hp hk hd hcas ht he => exact absurd (hdead p hp hk) (by simp [hd])

/-- `do_add_delta` links nothing under a dead key. -/
theorem DeltaResult.within_dead {beyond : Bytes} {incr : Bool} {delta reqCas : ℕ}
    {busy : List Ptr} {K : Bytes → Prop} {mine : Option Ptr}
    {r : Store × DeltaResultType × Option (ℕ × ℕ)}
    (h : DeltaResult cfg beyond s g key incr delta reqCas busy r) (hK : K key)
    (hdead : ∀ q, s.Linked q → s.key q = key → s.dead q = true) :
    ∃ evs, Trace cfg s g evs r.1 g ∧ ∀ e ∈ evs, e.Within cfg s g K (· ≠ key) mine busy := by
  cases h with
  | notFound s' evs ht he _ => exact ⟨_, ht, fun e hm => (he e hm).within hK⟩
  | mismatch s' p hp hk hd hcas ht => exact absurd (hdead p hp hk) (by simp [hd])
  | nonNumeric s' p hp hk hd hcas hnum ht => exact absurd (hdead p hp hk) (by simp [hd])
  | inPlace s' p value hp hk hd => exact absurd (hdead p hp hk) (by simp [hd])
  | noRoom s' p evs hp hk hd => exact absurd (hdead p hp hk) (by simp [hd])
  | replaced s' p n value evs hp hk hd => exact absurd (hdead p hp hk) (by simp [hd])

/-- What a section that does not link under the key has as its events. -/
theorem Event.Within.mono {K N N' : Bytes → Prop} {mine : Option Ptr} {busy : List Ptr} {e : Event}
    (h : e.Within cfg s g K N mine busy) (hN : ∀ key, N key → N' key) :
    e.Within cfg s g K N' mine busy := by
  cases e with
  | link p key => exact ⟨hN key h.1, h.2⟩
  | _ => exact h

namespace World

/-- The step has stored the key. -/
def Stored (w : World n) (key : Bytes) : Op n × Reply → Prop
  | (.storeItem i _ _, .stored .stored _) => w.uploadKey i key
  | _ => False

/-- **A dead key is linked by nothing but a store.** -/
theorem Ok.effect_dead (h : w.Ok cfg) {op : Op n} (hen : w.Enabled cfg op) (hs : w.Safe cfg op)
    (hop : ¬ op.Global) (hdead : ∀ q, w.store.Linked q → w.store.key q = key → w.store.dead q = true)
    (hst : ¬ w.Stored key (op, (w.exec cfg op).2)) :
    ∃ evs, Trace cfg w.store w.ghost evs (w.exec cfg op).1.store (w.exec cfg op).1.ghost ∧
      ∀ e ∈ evs, e.Within cfg w.store w.ghost (w.About op) (· ≠ key) (w.mine op)
        (w.busy cfg op) := by
  by_cases hlk : w.Links op key
  swap
  · obtain ⟨evs, ht, he⟩ := h.effect hen hs hop
    exact ⟨evs, ht, fun e hm => (he e hm).mono fun k hk e => hlk (e ▸ hk)⟩
  cases op with
  | storeItem i comm env =>
      obtain ⟨it, hi, rfl⟩ := hlk
      have hres := h.storeResult hen hs hi
      have hr : (w.store.doStoreItem cfg env it comm (cfg.hash (w.store.key it))).2.1 ≠ .stored := by
        intro e
        refine hst ?_
        simp only [World.exec, hi, Stored, e]
        exact ⟨it, hi, rfl⟩
      obtain ⟨evs, ht, he⟩ := hres.within_dead (K := w.uploadKey i) ⟨it, hi, rfl⟩ hdead hr
      refine ⟨evs, ?_, ?_⟩
      · simp only [World.exec, hi]
        rw [ghost_put_same i _ (Conn.refs_uploaded _)]
        exact ht
      · simpa only [About, mine, hi] using he
  | addDelta i k incr delta reqCas env beyond =>
      obtain rfl : key = k := hlk
      exact (deltaResult_doAddDelta h.inv rfl beyond incr delta reqCas hs.1 hs.2 hen).within_dead
        rfl hdead
  | _ => exact hlk.elim

end World

/-! ## Flushes -/

namespace Store

/-- The crawler of the item's LRU list is in front of it. -/
def BehindCrawler (s : Store) (p : Ptr) : Prop :=
  [.crawler (s.slabsClsid p), p].Sublist (s.lruList (s.slabsClsid p))

instance (s : Store) (p : Ptr) : Decidable (s.BehindCrawler p) :=
  inferInstanceAs (Decidable (List.Sublist _ _))

/-- `flush_all` leaves a dead item dead: the new flush point is in the past and, where a crawler
hides the item from the walk, covers its access time. -/
def FlushKeeps (cfg : Settings) (s : Store) (exptime : ℤ) (p : Ptr) : Prop :=
  s.flushPoint cfg exptime ≠ 0 ∧ s.flushPoint cfg exptime ≤ s.currentTime ∧
    (s.BehindCrawler p → s.time p ≤ s.flushPoint cfg exptime)

end Store

/-- The walk of a flush reaches an item that is no older than the flush point, unless there is a
crawler in front of it. -/
theorem WellFormed.mem_takeWhile_flushWalks {L : Layout} (h : WellFormed cfg s g L)
    (hp : s.Linked p) (ht : s.oldestLive ≤ s.time p) (hb : ¬ s.BehindCrawler p) :
    p ∈ (L.queue (.lru (s.slabsClsid p))).takeWhile s.flushWalks := by
  have hb' : ¬ [.crawler (s.slabsClsid p), p].Sublist (L.queue (.lru (s.slabsClsid p))) := by
    rwa [← h.lruList_eq]
  obtain ⟨l₁, l₂, hl⟩ := DoublyLinked.Family.exists_split ((h.mem_lru p _).mpr ⟨hp.2, rfl⟩)
  have hsort := h.sorted (s.slabsClsid p)
  have hmem := h.mem_lru
  have hwalk : ∀ x ∈ l₁ ++ [p], s.flushWalks x = true := by
    intro x hx
    have hpos := (h.time p hp).1
    have hle : s.time p ≤ s.time x := by
      rcases List.mem_append.mp hx with hx | hx
      · have hchunk : x.isChunk = true := by
          cases x with
          | chunk a => rfl
          | crawler i =>
              have hm : Ptr.crawler i ∈ L.queue (.lru (s.slabsClsid p)) := by simp [hl, hx]
              obtain ⟨hon, hc⟩ := (hmem _ _).mp hm
              obtain rfl : i = s.slabsClsid p := (h.crawler i hon).2.1.symm.trans hc
              refine absurd ?_ hb'
              rw [hl, show [Ptr.crawler (s.slabsClsid p), p] = [.crawler (s.slabsClsid p)] ++ [p]
                from rfl]
              exact (List.singleton_sublist.mpr hx).append (List.singleton_sublist.mpr (by simp))
        rw [hl, List.pairwise_append] at hsort
        exact hsort.2.2 x hx p (by simp) hchunk hp.1
      · rw [List.mem_singleton.mp hx]
    simp only [Store.flushWalks, Bool.and_eq_true, bne_iff_ne, decide_eq_true_eq]
    omega
  rw [hl, show l₁ ++ p :: l₂ = (l₁ ++ [p]) ++ l₂ by simp, List.takeWhile_append_of_pos hwalk]
  simp

/-- **What a flush leaves linked**: items older than the flush point, and those behind a crawler. -/
theorem linked_flushAll (h : Inv cfg s g) {exptime : ℤ} (h0 : s.flushPoint cfg exptime ≠ 0)
    (hq : (s.flushAll cfg exptime).Linked q) :
    s.Linked q ∧ (s.flushAll cfg exptime).item q = s.item q ∧
      (s.BehindCrawler q ∨ s.time q < s.flushPoint cfg exptime) := by
  set s₀ : Store := { s with oldestLive := s.flushPoint cfg exptime } with hs₀
  have hI : Inv cfg s₀ g := h.congr rfl
  obtain ⟨L, hwf⟩ := id hI
  obtain ⟨evs, L', ht, he, hwf', htime, hin, -⟩ := flushSteps_doItemFlushExpired hwf h0
  obtain ⟨hl, hitem⟩ := ht.linked_of_flushes hI he hq
  refine ⟨hl, hitem, ?_⟩
  by_contra hc
  rw [not_or, not_lt] at hc
  have hreach := hwf.mem_takeWhile_flushWalks hl hc.2 hc.1
  have hcls : (s₀.doItemFlushExpired cfg).slabsClsid q = (s₀.doItemFlushExpired cfg).slabsClsid q :=
    rfl
  have hlt : (s₀.doItemFlushExpired cfg).slabsClsid q < largestId :=
    (hwf'.clsid q (Or.inl hq)).2.trans_lt cfg.powerLargest_lt
  have hm := (hwf'.mem_lru q _).mpr ⟨hq.2, hcls⟩
  rw [hin _ hlt] at hm
  have hm' := (List.dropWhile_sublist _).subset hm
  rw [((hwf.mem_lru q _).mp hm').2] at hreach
  have hnd := hwf.family.nodup (.lru ((s₀.doItemFlushExpired cfg).slabsClsid q))
  rw [← List.takeWhile_append_dropWhile (p := s₀.flushWalks)
    (l := L.queue (.lru ((s₀.doItemFlushExpired cfg).slabsClsid q))), List.nodup_append] at hnd
  exact hnd.2.2 q hreach q hm rfl

/-! ## Deadness over runs -/

namespace World

/-- A step that does not store the key, renews no flushed item under it, and, if it is a
`flush_all`, sets a flush point that keeps the key's item dead. -/
structure KeepsDead (cfg : Settings) (key : Bytes) (w : World n) (l : Op n × Reply)
    (w' : World n) : Prop where
  step : w.SafeStep cfg l w'
  notStored : ¬ w.Stored key l
  renews : w.store.RenewsNone (w.busy cfg l.1) key
  flush : ∀ exptime, l.1 = .flushAll exptime → ∀ p, w.store.Linked p → w.store.key p = key →
    w.store.flushed p = true → w.store.expired p = false → w.store.FlushKeeps cfg exptime p

/-- A step that does not store the key, renews no flushed item under it, and is no `flush_all`. -/
structure KeepsFlushed (cfg : Settings) (key : Bytes) (w : World n) (l : Op n × Reply)
    (w' : World n) : Prop where
  step : w.SafeStep cfg l w'
  notStored : ¬ w.Stored key l
  renews : w.store.RenewsNone (w.busy cfg l.1) key
  notFlush : ∀ exptime, l.1 ≠ .flushAll exptime

/-- Flushed and expired items stay so as long as their header and the flush point do. -/
theorem gone_of_frame (ho : s'.oldestLive = s.oldestLive) (hc : s.currentTime ≤ s'.currentTime)
    (hx : s'.exptime q = s.exptime q) (ht : s'.time q = s.time q)
    (h : s.flushed q = true ∨ s.expired q = true) :
    s'.flushed q = true ∨ s'.expired q = true := by
  simp only [Store.flushed, Store.expired, Bool.and_eq_true, bne_iff_ne, decide_eq_true_eq,
    ho, hx, ht] at *
  exact h.imp (fun h => ⟨⟨h.1.1, h.1.2.trans hc⟩, h.2⟩) fun h => ⟨h.1, h.2.trans hc⟩

/-- **One step keeps a dead key dead.** -/
theorem gone_step {l : Op n × Reply} (h : w.Ok cfg) (hg : w.store.Gone key)
    (hst : w.KeepsDead cfg key l w') : w'.store.Gone key := by
  obtain ⟨op, r⟩ := l
  obtain ⟨⟨⟨hen, he⟩, hs⟩, hns, hren, hfl⟩ := hst
  obtain rfl : (w.exec cfg op).1 = w' := congrArg Prod.fst he
  obtain rfl : (w.exec cfg op).2 = r := congrArg Prod.snd he
  have hdead : ∀ q, w.store.Linked q → w.store.key q = key → w.store.dead q = true :=
    fun q hq hk => by
      rw [Store.dead]
      rcases hg q hq hk with h | h <;> simp [h]
  by_cases hop : op.Global
  swap
  · obtain ⟨evs, ht, hev⟩ := h.effect_dead hen hs hop hdead hns
    intro q hq hk
    have hkeep := ht.key_frame h.inv (fun q hl hk => Or.inl (hdead q hl hk))
      (fun it hm => h.mine_unlinked hm) hev hq hk
    have hgq := hg q hkeep.linked hkeep.key
    rcases hkeep.time with htm | ⟨hb, hold, -⟩
    · exact gone_of_frame ht.oldestLive ht.currentTime.ge hkeep.exptime htm hgq
    · -- a renewed item has expired
      have hexp : w.store.expired q = true :=
        hgq.elim (hren q hb hkeep.linked hkeep.key hold) id
      refine Or.inr ?_
      rw [Store.expired, hkeep.exptime, ht.currentTime]
      exact hexp
  cases op with
  | clock now =>
      exact fun q hq hk => gone_of_frame (s := w.store) rfl hen rfl rfl (hg q hq hk)
  | rebalance => exact fun q hq hk => hg q hq hk
  | flushAll exptime =>
      intro q hq hk
      obtain ⟨evs, ht, hev⟩ := Trace.flushAll (h.inv : Inv cfg _ _) exptime
      obtain ⟨hl, hitem⟩ := ht.linked_of_flushes (h.inv.congr rfl) hev hq
      have hl : w.store.Linked q := hl
      have hkq : w.store.key q = key := (congrArg Item.key hitem).symm.trans hk
      have hx : (w.store.flushAll cfg exptime).exptime q = w.store.exptime q :=
        congrArg Item.exptime hitem
      have htm : (w.store.flushAll cfg exptime).time q = w.store.time q := congrArg Item.time hitem
      have hnow : (w.store.flushAll cfg exptime).currentTime = w.store.currentTime := ht.currentTime
      have hpt : (w.store.flushAll cfg exptime).oldestLive = w.store.flushPoint cfg exptime :=
        ht.oldestLive
      show (w.store.flushAll cfg exptime).flushed q = true ∨
        (w.store.flushAll cfg exptime).expired q = true
      rw [Store.flushed, Store.expired, hx, htm, hnow, hpt]
      cases hexp : w.store.expired q with
      | true => exact Or.inr hexp
      | false =>
          have hflq := (hg q hl hkq).resolve_right (by simp [hexp])
          obtain ⟨h0, hle, hbeh⟩ := hfl exptime rfl q hl hkq hflq hexp
          have hcov : w.store.time q ≤ w.store.flushPoint cfg exptime :=
            ((linked_flushAll h.inv h0 hq).2.2).elim hbeh Nat.le_of_lt
          exact Or.inl (by simp [h0, hle, hcov])
  | _ => exact absurd hop id

/-- **A run of such steps keeps a dead key dead.** -/
theorem gone_run {ls : List (Op n × Reply)} (h : w.Ok cfg) (hg : w.store.Gone key)
    (hr : Run (KeepsDead cfg key) w ls w') : w'.Ok cfg ∧ w'.store.Gone key :=
  hr.invariant (P := fun w => w.Ok cfg ∧ w.store.Gone key) ⟨h, hg⟩ fun h hst =>
    ⟨h.1.step hst.step, gone_step h.1 h.2 hst⟩

end World

/-- **Deadness is permanent**: an item that has expired or is covered by a flush point is not
returned again before its key is stored anew, if no step renews its access time and no `flush_all`
takes the flush point away from it. -/
theorem deadness_permanent {ls ls' : List (Op n × Reply)}
    (hr : Run (World.SafeStep cfg) (World.init n) ls w) (hp : w.store.Linked p)
    (hd : w.store.flushed p = true ∨ w.store.expired p = true)
    (hr' : Run (World.KeepsDead cfg (w.store.key p)) w ls' w') :
    (w'.store.doItemGet cfg (w.store.key p) (cfg.hash (w.store.key p))).2 = none := by
  have hok := World.ok_of_run hr
  obtain ⟨L, hwf⟩ := hok.inv
  obtain ⟨hok', hg⟩ := World.gone_run hok
    (fun q hq hk => hwf.key_inj q p hq hp hk ▸ hd) hr'
  exact hg.doItemGet_eq_none hok'.inv

/-- An item flushed two seconds after it was stored stays dead while time passes. -/
theorem deadness_permanent_seeded :
    let w := ((World.seeded (0 : Fin 1) [107] [53, 13, 10]).execs .small
      [.clock 64, .flushAll 0]).1
    ((w.exec .small (.clock 65)).1.store.doItemGet .small (w.store.key firstChunk)
      (Settings.small.hash (w.store.key firstChunk))).2 = none := by
  intro w
  obtain ⟨ls, hrun⟩ := World.run_seeded (n := 1) (i := 0) (k := [107]) (d := [53, 13, 10])
    (by decide) (by decide +kernel)
  have hw := hrun.append (World.run_execs_safe [.clock 64, .flushAll 0] rfl
    (by decide +kernel))
  have hstep : World.KeepsDead .small (w.store.key firstChunk) w (.clock 65, .none)
      (w.exec .small (.clock 65)).1 :=
    { step := ⟨⟨World.enabled_of_ready (by decide +kernel), rfl⟩, trivial⟩
      notStored := id
      renews := by simp [Store.RenewsNone, World.busy]
      flush := by simp }
  exact deadness_permanent hw (by decide +kernel) (by decide +kernel) (.single hstep)

/-- **A flushed item can come back**: a `flush_all` with a delay moves the flush point that covers
it into the future. -/
theorem deadness_not_permanent : ¬ ∀ (cfg : Settings) (n : ℕ) (ls ls' : List (Op n × Reply))
    (w w' : World n) (p : Ptr), Run (World.Step cfg) (World.init n) ls w → w.store.Linked p →
      w.store.flushed p = true ∨ w.store.expired p = true →
      Run (fun w l w' => w.Step cfg l w' ∧ ¬ w.Stored (w.store.key p) l) w ls' w' →
      (w'.store.doItemGet cfg (w.store.key p) (cfg.hash (w.store.key p))).2 = none := by
  intro hall
  obtain ⟨ls, hrun⟩ := World.run_seeded (n := 1) (i := 0) (k := [107]) (d := [53, 13, 10])
    (by decide) (by decide +kernel)
  set w := ((World.seeded (0 : Fin 1) [107] [53, 13, 10]).execs .small [.clock 64, .flushAll 0]).1
  have hw := World.run_of_safe (hrun.append (World.run_execs_safe [.clock 64, .flushAll 0]
    rfl (by decide +kernel)))
  have hget := hall .small 1 _ _ w (w.exec .small (.flushAll 10)).1 firstChunk hw
    (by decide +kernel) (by decide +kernel)
    (.single ⟨⟨trivial, rfl⟩, id⟩ : Run _ w [(.flushAll 10, .none)] _)
  revert hget
  decide +kernel

/-- **An immediate `flush_all` is complete**: no item linked before it is returned after it before
its key is stored anew, if no item accessed in the current second is behind a crawler, and no step
renews the access time of a flushed item. -/
theorem flushAll_complete {ls ls' : List (Op n × Reply)} {exptime : ℤ}
    (hr : Run (World.SafeStep cfg) (World.init n) ls w)
    (hbehind : ∀ p, w.store.Linked p → w.store.key p = key →
      w.store.time p = w.store.currentTime → ¬ w.store.BehindCrawler p)
    (hx : exptime ≤ 0)
    (hr' : Run (World.KeepsFlushed cfg key) (w.exec cfg (.flushAll exptime)).1 ls' w') :
    (w'.store.doItemGet cfg key (cfg.hash key)).2 = none := by
  have hok := World.ok_of_run hr
  obtain ⟨L, hwf⟩ := hok.inv
  have hok₁ : (w.exec cfg (.flushAll exptime)).1.Ok cfg := hok.exec trivial trivial
  have hpoint : w.store.flushPoint cfg exptime = w.store.currentTime - 1 := if_neg (by omega)
  have hclock := hwf.clock
  rw [itemUpdateInterval] at hclock
  have hg : (w.exec cfg (.flushAll exptime)).1.store.Gone key := by
    intro q hq hk
    obtain ⟨evs, ht, -⟩ := Trace.flushAll (hok.inv : Inv cfg _ _) exptime
    obtain ⟨hl, hitem, hleft⟩ := linked_flushAll hok.inv (by omega) hq
    have hkq : w.store.key q = key := (congrArg Item.key hitem).symm.trans hk
    have htm : (w.store.flushAll cfg exptime).time q = w.store.time q := congrArg Item.time hitem
    have hle := (hwf.time q hl).2
    have hold : w.store.time q ≤ w.store.currentTime - 1 := by
      rcases hleft with hb | hlt
      · have := mt (hbehind q hl hkq) (not_not.mpr hb)
        omega
      · omega
    refine Or.inl ?_
    show (w.store.flushAll cfg exptime).flushed q = true
    have hnow : (w.store.flushAll cfg exptime).currentTime = w.store.currentTime := ht.currentTime
    have hpt : (w.store.flushAll cfg exptime).oldestLive = w.store.flushPoint cfg exptime :=
      ht.oldestLive
    rw [Store.flushed, htm, hnow, hpt, hpoint]
    simp only [Bool.and_eq_true, bne_iff_ne, decide_eq_true_eq]
    omega
  have hmono : Run (World.KeepsDead cfg key) (w.exec cfg (.flushAll exptime)).1 ls' w' :=
    hr'.mono (P := fun _ => True) trivial fun _ h =>
      ⟨⟨h.step, h.notStored, h.renews, fun e he => absurd he (h.notFlush e)⟩, trivial⟩
  obtain ⟨hok', hg'⟩ := World.gone_run hok₁ hg hmono
  exact hg'.doItemGet_eq_none hok'.inv

/-- A flushed item is not returned when time passes. -/
theorem flushAll_complete_seeded :
    let w := (World.seeded (0 : Fin 1) [107] [53, 13, 10]).exec .small (.flushAll 0)
    ((w.1.exec .small (.clock 63)).1.store.doItemGet .small [107] 1).2 = none := by
  obtain ⟨ls, hrun⟩ := World.run_seeded (n := 1) (i := 0) (k := [107]) (d := [53, 13, 10])
    (by decide) (by decide +kernel)
  refine flushAll_complete hrun (fun p hp hk ht => ?_) (le_rfl : (0 : ℤ) ≤ 0)
    (.single ?_ : Run _ _ [(.clock 63, .none)] _)
  · obtain ⟨L, hwf⟩ := (World.ok_of_run hrun).inv
    obtain rfl : p = firstChunk :=
      hwf.key_inj p firstChunk hp (by decide +kernel) (hk.trans (by decide +kernel))
    decide +kernel
  · exact
      { step := ⟨⟨World.enabled_of_ready (by decide +kernel), rfl⟩, trivial⟩
        notStored := id
        renews := by simp [Store.RenewsNone, World.busy]
        notFlush := by simp }

/-- **The walk of a flush ends at a crawler**: an item behind it that was accessed in the same
second is returned after the flush. -/
theorem flushAll_incomplete : ¬ ∀ (cfg : Settings) (n : ℕ) (ls ls' : List (Op n × Reply))
    (w w' : World n) (p : Ptr) (exptime : ℤ), Run (World.Step cfg) (World.init n) ls w →
      w.store.Linked p → exptime ≤ 0 →
      Run (fun w l w' => w.Step cfg l w' ∧ ¬ w.Stored (w.store.key p) l ∧
        ∀ exptime, l.1 ≠ .flushAll exptime) (w.exec cfg (.flushAll exptime)).1 ls' w' →
      (w'.store.doItemGet cfg (w.store.key p) (cfg.hash (w.store.key p))).2 = none := by
  intro hall
  obtain ⟨ls, hrun⟩ := World.run_seeded (n := 1) (i := 0) (k := [107]) (d := [53, 13, 10])
    (by decide) (by decide +kernel)
  set w := ((World.seeded (0 : Fin 1) [107] [53, 13, 10]).execs .small
    [.lruCrawl 1 0, .crawl 1 true]).1
  have hw := World.run_of_safe (hrun.append (World.run_execs_safe
    [.lruCrawl 1 0, .crawl 1 true] rfl (by decide +kernel)))
  have hget := hall .small 1 _ [] w _ firstChunk 0 hw (by decide +kernel) le_rfl .nil
  revert hget
  decide +kernel

end Memcached
