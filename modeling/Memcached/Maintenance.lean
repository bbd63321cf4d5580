import Mathlib.Data.List.TakeWhile
import Memcached.CommandSections

/-! # Expiry, flushing and crawling as traces

`do_item_touch`, `flush_all` and a round of the LRU crawler, each as a run of elementary steps.

* **`touchResult_doItemTouch`** — how `do_item_touch` ends.
* **`flushSteps_doItemFlushExpired`** — the walk of `flush_all`.
* **`Trace.crawlStep`** — a step of the crawler. -/

namespace Memcached

open CNumber (Bytes)

variable {cfg : Settings} {s s' : Store} {g : Ghost} {p q : Ptr} {key : Bytes}

/-! ## do_item_touch -/

/-- **How `do_item_touch` ends.** -/
inductive TouchResult (cfg : Settings) (s : Store) (g : Ghost) (key : Bytes) (exptime : ℕ) :
    Store × Option Ptr → Prop
  /-- There is no live item. -/
  | miss (s' : Store) (evs : List Event) (ht : Trace cfg s g evs s' g)
      (he : ∀ e ∈ evs, e.Buries s key)
      (hdead : ∀ q, s.Linked q → s.key q = key → s.dead q = true) :
      TouchResult cfg s g key exptime (s', none)
  /-- The expiry time of the item is set. -/
  | hit (s' : Store) (p : Ptr) (hp : s.Linked p) (hk : s.key p = key) (hd : s.dead p = false)
      (ht : Trace cfg s g [.ref p, .fetch p, .touch p exptime] s' (g.hold p)) :
      TouchResult cfg s g key exptime (s', some p)

/-- **`do_item_touch`.** -/
theorem touchResult_doItemTouch (h : Inv cfg s g) (exptime : ℕ) (hroom : s.Room cfg key) :
    TouchResult cfg s g key exptime (s.doItemTouch cfg key exptime (cfg.hash key)) := by
  have hget := getResult_doItemGet h hroom
  rw [Store.doItemTouch]
  generalize s.doItemGet cfg key (cfg.hash key) = r at hget
  cases hget with
  | miss s₁ evs ht he hdead hno => exact .miss _ evs ht he hdead
  | hit s₁ p hp hk hd hs ht =>
      exact .hit _ p hp hk hd (ht.append (.single (.touch (Or.inr (by simp)) exptime)))

/-! ## flush_all -/

/-- What a flush does to an item: it unlinks some that the flush point does not cover by age. -/
def Event.Flushes (s : Store) : Event → Prop
  | deref _ => True
  | unlink p => s.Linked p ∧ s.oldestLive ≤ s.time p
  | _ => False

/-- The walk of a flush goes on at this item. -/
def Store.flushWalks (s : Store) (p : Ptr) : Bool := s.time p != 0 && decide (s.oldestLive ≤ s.time p)

/-- The times of all items stay. -/
theorem time_doItemUnlink (cfg : Settings) (s : Store) (p : Ptr) (hv : ℕ) :
    (s.doItemUnlink cfg p hv).time = s.time := by
  rw [Store.doItemUnlink]
  split
  · obtain ⟨a, b, n, e⟩ := assocDelete_frame (s := s.unlinkStats p) ((s.unlinkStats p).key p) hv
    have hun : (s.unlinkIndex p hv).time = s.time := by
      show (((s.unlinkStats p).assocDelete ((s.unlinkStats p).key p) hv).itemUnlinkQ p).time = _
      rw [e]
      rfl
    refine Eq.trans ?_ hun
    show (if _ then Store.itemFree cfg ((s.unlinkIndex p hv).refcountDecr p) p
      else (s.unlinkIndex p hv).refcountDecr p).time = _
    split
    · rw [Store.itemFree, Store.doSlabsFree]
      split <;> rfl
    · rfl
  · rfl

/-- `do_item_unlink` takes one item off its LRU list and leaves the others in order. -/
theorem WellFormed.doItemUnlink {L : Layout} (h : WellFormed cfg s g L) (hp : s.Linked p) :
    ∃ L', WellFormed cfg (s.doItemUnlink cfg p (cfg.hash (s.key p))) g L' ∧
      ∀ c, L'.queue (.lru c) = (L.queue (.lru c)).erase p := by
  obtain ⟨L₁, h₁, e₁⟩ := h.unlinkIndex hp
  obtain ⟨L₂, h₂, e₂⟩ := h₁.doItemRemove (p := p) (by simp)
  rw [Ghost.drop_hold] at h₂
  rw [Store.doItemUnlink, if_pos hp.2]
  exact ⟨L₂, h₂, fun c => (e₂ c).trans (e₁ c)⟩

/-- What remains linked in a flush was linked before. -/
theorem Trace.linked_of_flushes {evs : List Event} {f : Store} (ht : Trace cfg s g evs s' g)
    (h : Inv cfg s g) (he : ∀ e ∈ evs, e.Flushes f) (hq : s'.Linked q) :
    s.Linked q ∧ s'.item q = s.item q := by
  have hno : ∀ e ∈ evs, ¬ e.Rewrites q := fun e hm hc => by
    have := he e hm
    cases e <;> first | exact hc | exact this
  obtain ⟨-, b, t, hi, hb, htm⟩ := ht.item_eq h hno (Or.inl hq)
  have htm' := htm.resolve_right fun hc => he _ hc.1
  have hbt : b = true := (congrArg Item.linked hi).symm.trans hq.2
  have hb' : b = (s.item q).linked := hb.resolve_right fun hc => by simp [hc.2] at hbt
  refine ⟨⟨hq.1, hb'.symm.trans hbt⟩, ?_⟩
  rw [hi, hb', htm']

/-- **What a flush does**: every list of a class in `C` loses its items in front of the first that
is older than the flush point, or a crawler; the other lists stay. -/
def FlushSteps (cfg : Settings) (s : Store) (g : Ghost) (L : Layout) (C : ℕ → Prop) (s' : Store) :
    Prop :=
  ∃ evs L', Trace cfg s g evs s' g ∧ (∀ e ∈ evs, e.Flushes s) ∧ WellFormed cfg s' g L' ∧
    s'.time = s.time ∧
    (∀ c, C c → L'.queue (.lru c) = (L.queue (.lru c)).dropWhile s.flushWalks) ∧
    ∀ c, ¬ C c → L'.queue (.lru c) = L.queue (.lru c)

/-- The flush point and the times decide how far the walk goes. -/
theorem flushWalks_congr (ht : s'.time = s.time) (ho : s'.oldestLive = s.oldestLive) :
    s'.flushWalks = s.flushWalks := by
  funext p
  rw [Store.flushWalks, Store.flushWalks, ht, ho]

/-- What a later part of a flush does, seen from its start. -/
theorem Event.Flushes.of_trace {evs : List Event} {e : Event} (ht : Trace cfg s g evs s' g)
    (h : Inv cfg s g) (he : ∀ e ∈ evs, e.Flushes s) (htime : s'.time = s.time)
    (hf : e.Flushes s') : e.Flushes s := by
  cases e with
  | unlink p =>
      refine ⟨(ht.linked_of_flushes h he hf.1).1, ?_⟩
      rw [← ht.oldestLive, ← htime]
      exact hf.2
  | _ => exact hf

/-- **The walk of `do_item_flush_expired` through one list.** -/
theorem flushSteps_flushQueue {L : Layout} (h : WellFormed cfg s g L) {c : ℕ} {l : List Ptr}
    (hl : L.queue (.lru c) = l) {fuel : ℕ} (hfuel : (l.takeWhile s.flushWalks).length < fuel) :
    FlushSteps cfg s g L (· = c) (s.flushQueue cfg fuel (s.heads c)) := by
  -- by induction on the list from its head, which unlinking makes shorter
  induction l generalizing s L fuel with
  | nil =>
      obtain ⟨fuel, rfl⟩ := Nat.exists_eq_succ_of_ne_zero (by omega : fuel ≠ 0)
      rw [h.heads, hl]
      exact ⟨[], L, .nil, by simp, h, rfl, fun d hd => by rw [hd, hl]; rfl, fun _ _ => rfl⟩
  | cons x l ih =>
      obtain ⟨fuel, rfl⟩ := Nat.exists_eq_succ_of_ne_zero (by omega : fuel ≠ 0)
      rw [h.heads, hl, List.head?_cons, Store.flushQueue]
      by_cases hw : s.flushWalks x = true
      swap
      · have hstop : ¬ (s.time x ≠ 0 ∧ s.oldestLive ≤ s.time x) := by
          simpa [Store.flushWalks] using hw
        rw [if_neg hstop]
        exact ⟨[], L, .nil, by simp, h, rfl,
          fun d hd => by rw [hd, hl, List.dropWhile_cons_of_neg hw], fun _ _ => rfl⟩
      have hgo : s.time x ≠ 0 ∧ s.oldestLive ≤ s.time x := by simpa [Store.flushWalks] using hw
      have hmem := (h.mem_lru x c).mp (by simp [hl])
      have hx : s.Linked x := by
        refine ⟨?_, hmem.1⟩
        cases x with
        | chunk a => rfl
        | crawler i => exact absurd (h.crawler i hmem.1).2.2.1 hgo.1
      have hnext : s.next x = l.head? := (h.family.neighbours (show _ = [] ++ x :: l from hl)).2
      rw [if_pos hgo]
      simp only [h.notSlabbed x (Or.inl hx), Bool.false_eq_true, if_false, hnext]
      obtain ⟨L₁, h₁, e₁⟩ := h.doItemUnlink hx
      have ht₁ := Trace.doItemUnlink cfg g hx
      have htime := time_doItemUnlink cfg s x (cfg.hash (s.key x))
      set s₁ := s.doItemUnlink cfg x (cfg.hash (s.key x))
      have he₁ : ∀ e ∈ [Event.unlink x, .deref x], e.Flushes s := by
        simp [Event.Flushes, hx, hgo.2]
      have hl₁ : L₁.queue (.lru c) = l := by rw [e₁, hl, List.erase_cons_head]
      have hwalk : s₁.flushWalks = s.flushWalks := flushWalks_congr htime ht₁.oldestLive
      rw [List.takeWhile_cons_of_pos hw, List.length_cons] at hfuel
      obtain ⟨evs, L', ht, he, hwf, htime', hin, hout⟩ :=
        ih h₁ hl₁ (by rw [hwalk]; omega : (l.takeWhile _).length < fuel)
      rw [h₁.heads, hl₁] at ht hwf htime'
      refine ⟨_, L', ht₁.append ht, ?_, hwf, htime'.trans htime, fun d hd => ?_, fun d hd => ?_⟩
      · intro e hm
        rcases List.mem_append.mp hm with hm | hm
        · exact he₁ e hm
        · exact (he e hm).of_trace ht₁ ⟨L, h⟩ he₁ htime
      · rw [hin d hd, hd, hl₁, hwalk, hl, List.dropWhile_cons_of_pos hw]
      · rw [hout d hd, e₁]
        refine List.erase_of_not_mem fun hc => hd ?_
        exact ((h.mem_lru_iff hx d).mp hc).symm.trans hmem.2

/-- The walk is over after `sizes[c]` items at most. -/
theorem length_takeWhile_flushWalks {L : Layout} (h : WellFormed cfg s g L) (c : ℕ) :
    ((L.queue (.lru c)).takeWhile s.flushWalks).length ≤ s.sizes c := by
  have hnd := (h.family.nodup (.lru c)).sublist (List.takeWhile_sublist s.flushWalks)
  rw [h.sizes, ← List.toFinset_card_of_nodup hnd]
  refine Finset.card_le_card fun p hp => ?_
  have hm := List.mem_toFinset.mp hp
  have hw : s.flushWalks p = true := List.mem_takeWhile_imp hm
  obtain ⟨hl, hc⟩ := (h.mem_lru p c).mp ((List.takeWhile_sublist _).subset hm)
  refine Finset.mem_filter.mpr ⟨(h.mem_linked p).mpr ⟨?_, hl⟩, hc⟩
  cases p with
  | chunk a => rfl
  | crawler i =>
      have h0 := (h.crawler i hl).2.2.1
      simp [Store.flushWalks, h0] at hw

/-- The walks through several lists. -/
theorem flushSteps_foldl {L : Layout} (h : WellFormed cfg s g L) {cs : List ℕ} (hcs : cs.Nodup) :
    FlushSteps cfg s g L (· ∈ cs)
      (cs.foldl (fun s i => s.flushQueue cfg (s.sizes i + 1) (s.heads i)) s) := by
  -- by induction on the lists: a walk leaves the other ones alone
  induction cs generalizing s L with
  | nil => exact ⟨[], L, .nil, by simp, h, rfl, by simp, fun _ _ => rfl⟩
  | cons c cs ih =>
      obtain ⟨hc, hcs⟩ := List.nodup_cons.mp hcs
      obtain ⟨evs₁, L₁, ht₁, he₁, h₁, htime₁, hin₁, hout₁⟩ := flushSteps_flushQueue h rfl
        (Nat.lt_succ_of_le (length_takeWhile_flushWalks h c))
      rw [List.foldl_cons]
      set s₁ := s.flushQueue cfg (s.sizes c + 1) (s.heads c)
      obtain ⟨evs₂, L₂, ht₂, he₂, h₂, htime₂, hin₂, hout₂⟩ := ih h₁ hcs
      refine ⟨_, L₂, ht₁.append ht₂, ?_, h₂, htime₂.trans htime₁, fun d hd => ?_, fun d hd => ?_⟩
      · intro e hm
        rcases List.mem_append.mp hm with hm | hm
        · exact he₁ e hm
        · exact (he₂ e hm).of_trace ht₁ ⟨L, h⟩ he₁ htime₁
      · by_cases e : d = c
        · subst e
          rw [hout₂ d hc, hin₁ d rfl]
        · rw [hin₂ d ((List.mem_cons.mp hd).resolve_left e), hout₁ d e,
            flushWalks_congr htime₁ ht₁.oldestLive]
      · simp only [List.mem_cons, not_or] at hd
        rw [hout₂ d hd.2, hout₁ d hd.1]

/-- **`do_item_flush_expired`.** -/
theorem flushSteps_doItemFlushExpired {L : Layout} (h : WellFormed cfg s g L)
    (h0 : s.oldestLive ≠ 0) :
    FlushSteps cfg s g L (· < largestId) (s.doItemFlushExpired cfg) := by
  rw [Store.doItemFlushExpired, if_neg h0]
  simpa only [List.mem_range] using flushSteps_foldl h (List.nodup_range (n := largestId))

/-- A flush at any point in time is a run of elementary steps. -/
theorem Trace.doItemFlushExpired (h : Inv cfg s g) :
    ∃ evs, Trace cfg s g evs (s.doItemFlushExpired cfg) g ∧ ∀ e ∈ evs, e.Flushes s := by
  by_cases h0 : s.oldestLive = 0
  · rw [Store.doItemFlushExpired, if_pos h0]
    exact ⟨[], .nil, by simp⟩
  · obtain ⟨L, h⟩ := h
    obtain ⟨evs, -, ht, he, -⟩ := flushSteps_doItemFlushExpired h h0
    exact ⟨evs, ht, he⟩

/-! ## The crawler -/

/-- What the crawler does: it unlinks dead items that nobody holds. -/
def Event.Crawls (s : Store) (g : Ghost) : Event → Prop
  | crawl | other | ref _ | deref _ => True
  | unlink p => s.Linked p ∧ g.handles p = 0 ∧ s.reclaimable p = true
  | _ => False

/-- Taking a reference and giving it back. -/
theorem refcountDecr_refcountIncr (h : s.refcount p < refcountModulus) :
    (s.refcountIncr p).refcountDecr p = s := by
  have hr : ((s.refcount p + 1) % refcountModulus + (refcountModulus - 1)) % refcountModulus
      = s.refcount p := by
    rw [refcountModulus] at *; omega
  simp only [Store.refcountDecr, Store.refcountIncr, Function.update_self, Function.update_idem, hr,
    Function.update_eq_self]

/-- **A round of the crawler.** -/
theorem Trace.crawlStep (h : Inv cfg s g) (trylock : Bool) (i : ℕ) :
    ∃ evs, Trace cfg s g evs (s.crawlStep cfg trylock i) g ∧ ∀ e ∈ evs, e.Crawls s g := by
  rw [Store.crawlStep]
  by_cases hon : s.itFlags (.crawler i) = { linked := true }
  swap
  · rw [if_pos hon]
    exact ⟨[], .nil, by simp⟩
  rw [if_neg (not_not.mpr hon)]
  have hflag : (s.itFlags (.crawler i)).linked = true := by rw [hon]
  obtain ⟨L, hwf⟩ := id h
  have hcl := (hwf.crawler i hflag).2.1
  obtain ⟨l₁, l₂, hl⟩ := DoublyLinked.Family.exists_split
    ((hwf.mem_lru (.crawler i) i).mpr ⟨hflag, hcl⟩)
  rcases List.eq_nil_or_concat l₁ with rfl | ⟨l, y, rfl⟩
  · -- at the head
    obtain ⟨hnone, hstop⟩ := hwf.toLruLists.crawlerCrawlQ_head hcl hl
    cases hcr : s.crawlerCrawlQ (.crawler i) with
    | mk s₁ o =>
        rw [hcr] at hnone hstop
        obtain rfl : o = none := hnone
        refine ⟨[.crawl], .single ?_, by simp [Event.Crawls]⟩
        show Prim cfg s g .crawl (s₁.crawlStop i) g
        rw [show s₁.crawlStop i = s.crawlStop i from hstop]
        exact .crawlStop hflag
  · rw [List.concat_eq_append, List.append_assoc] at hl
    obtain ⟨hsome, -⟩ := hwf.crawlSwap hflag hl
    have hy := hwf.linked_of_crawlSwap hl
    have hswap : Prim cfg s g .crawl (s.crawlerCrawlQ (.crawler i)).1 g := .crawlSwap hflag hsome
    have hfl : (s.crawlerCrawlQ (.crawler i)).1.itFlags = s.itFlags := by
      rw [Store.crawlerCrawlQ]
      split <;> rfl
    cases hcr : s.crawlerCrawlQ (.crawler i) with
    | mk s₁ o =>
        rw [hcr] at hsome hswap hfl
        obtain rfl : o = some y := hsome
        simp only at hswap hfl ⊢
        set s₂ : Store :=
          { s₁ with remaining := Function.update s₁.remaining i (s₁.remaining i - 1) } with hs₂
        have hpre : Trace cfg s g [.crawl, .other] s₂ g :=
          .cons hswap (.single (.other ⟨rfl, rfl, rfl, fun _ => rfl, rfl⟩))
        have hI₂ := hpre.inv h
        have hy₂ : s₂.Linked y := hpre.linked h hy (by simp)
        split
        · refine ⟨[.crawl, .other, .crawl], hpre.append (.single (.crawlStop ?_)),
            by simp [Event.Crawls]⟩
          exact (congrArg ItFlags.linked (congrFun hfl (.crawler i))).trans hflag
        split
        · exact ⟨[.crawl, .other], hpre, by simp [Event.Crawls]⟩
        obtain ⟨L₂, hwf₂⟩ := id hI₂
        have hlt := hwf₂.refs_lt y (Or.inl hy₂)
        have hcount := hwf₂.refcount_of_linked hy₂
        rw [WellFormed.refs_of_linked hy₂] at hlt
        have hself : (s₂.refcountIncr y).refcount y = (g.handles y + 1 + 1) % refcountModulus := by
          rw [← hcount]
          exact Function.update_self ..
        split
        · -- somebody holds it: the reference is given back
          rw [refcountDecr_refcountIncr (by omega)]
          exact ⟨[.crawl, .other], hpre, by simp [Event.Crawls]⟩
        · rename_i hone
          have h0 : g.handles y = 0 := by
            rw [hself] at hone
            rw [refcountModulus] at *
            omega
          have href : Prim cfg s₂ g (.ref y) (s₂.refcountIncr y) (g.hold y) :=
            .ref (Or.inl hy₂) (by rw [WellFormed.refs_of_linked hy₂, h0]; decide)
          have hpre' := hpre.append (.single href)
          have hI₃ := hpre'.inv h
          have hy₃ : (s₂.refcountIncr y).Linked y := hy₂
          rw [Store.itemCrawlerEvaluate]
          split
          · rename_i hrec
            have hi : (s₂.refcountIncr y).item y = s.item y := by
              obtain ⟨-, b, t, hi, hb, htm⟩ := hpre'.item_eq h (q := y) (by simp [Event.Rewrites])
                (Or.inl hy₃)
              obtain rfl := hb.resolve_right (by simp)
              obtain rfl := htm.resolve_right (by simp)
              exact hi
            rw [reclaimable_of_item hi hpre'.currentTime hpre'.oldestLive] at hrec
            set f : ItemStats → ItemStats := fun st =>
              { st with
                crawlerReclaimed := st.crawlerReclaimed + 1
                expiredUnfetched :=
                  if ((s₂.refcountIncr y).itFlags y).fetched then st.expiredUnfetched
                  else st.expiredUnfetched + 1 }
            have hq : Prim cfg (s₂.refcountIncr y) (g.hold y) .other
                ((s₂.refcountIncr y).bumpStats i f) (g.hold y) := .other (quiet_bumpStats _ i f)
            have hun := Trace.doItemUnlink cfg (g.hold y)
              (show ((s₂.refcountIncr y).bumpStats i f).Linked y from hy₃)
            exact ⟨_, hpre'.append (.cons hq (hun.append (.single (.deref_hold y)))),
              by simpa [Event.Crawls] using ⟨hy, h0, hrec⟩⟩
          · have hd : Prim cfg (s₂.refcountIncr y) (g.hold y) (.deref y) _ g := .deref_hold y
            rw [doItemRemove_of_linked hI₃ hy₃ (by simp)] at hd
            exact ⟨_, hpre'.append (.single hd), by simp [Event.Crawls]⟩

end Memcached
