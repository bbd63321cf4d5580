import Memcached.Frames
import Memcached.Lib.Transition
import Memcached.System

/-! # Tail repair

With `tail_repair_time` set, the tail scan of `do_item_alloc` unlinks an item whose reference was
never given back. It tests the age of such an item after `do_item_update_nolock`, which counts as an
access for an item older than `ITEM_UPDATE_INTERVAL`.

* **`Leaked`** — an item with a reference that nobody has.
* **`tailRepair_iff`**, **`tailRepair_never`** — when the scan repairs it, and settings with which
  it never does. -/

namespace Memcached

open Transition (Run)

variable {cfg : Settings} {s s' : Store} {it : Ptr} {id : ℕ}

/-- The least `tail_repair_time` that the option parser accepts. -/
def minTailRepairTime : ℕ := 10

namespace Store

/-! ## A visit -/

/-- The tail scan of LRU list `id` at an item that has its lock free and is referred to. -/
def scanVisit (cfg : Settings) (id : ℕ) (s : Store) (it : Ptr) : Store :=
  (s.refcountIncr it).scanReflocked cfg id it (cfg.hash (s.key it))

/-- The item is linked and has a reference besides, which `refcount` counts. -/
structure Leaked (s : Store) (it : Ptr) : Prop where
  linked : (s.itFlags it).linked = true
  two_le : 2 ≤ s.refcount it
  lt : s.refcount it < refcountModulus

/-- **The tail scan visits a leaked item** that it reaches, and goes on to the next one unless a
thousand have been referred to. -/
theorem Leaked.allocScan (h : s.Leaked it) {env : AllocEnv} {ntotal curHv fuel tries reflocked : ℕ}
    (hreal : s.isCrawler it = false) (hv : cfg.hash (s.key it) ≠ curHv)
    (hlock : env.trylock (cfg.hash (s.key it)) = true) :
    s.allocScan cfg env ntotal id curHv (fuel + 1) (tries + 1) reflocked (some it) =
      if reflocked - 1 < 1 then ⟨s.scanVisit cfg id it, none, false, false⟩
      else (s.scanVisit cfg id it).allocScan cfg env ntotal id curHv fuel (tries + 1)
        (reflocked - 1) (s.prev it) := by
  have htwo : (s.refcountIncr it).refcount it ≠ 2 := by
    have h₁ := h.two_le
    have h₂ := h.lt
    simp only [refcountIncr, Function.update_self, refcountModulus] at h₂ ⊢
    omega
  rw [Store.allocScan]
  simp only [hreal, Bool.false_eq_true, if_false, hlock, hv, if_pos htwo]
  rfl

/-- Unlinking leaves an item unlinked. -/
theorem linked_doItemUnlink (hl : (s.itFlags it).linked = true) (hv : ℕ) :
    ((s.doItemUnlink cfg it hv).itFlags it).linked = false := by
  have hindex : ((s.unlinkIndex it hv).itFlags it).linked = false := by
    have hitem := congrArg Item.linked (item_unlinkIndex (s := s) (p := it) hv it)
    rw [if_pos rfl] at hitem
    exact hitem
  rw [doItemUnlink, if_pos hl, doItemRemove]
  split
  · rw [itemFree, linked_doSlabsFree]
    exact hindex
  · exact hindex

/-- The access time of a linked item after `do_item_update`. -/
theorem time_doItemUpdate (hl : (s.itFlags it).linked = true) :
    (s.doItemUpdate it).time it =
      if s.time it + itemUpdateInterval < s.currentTime then s.currentTime else s.time it := by
  have hitem := congrArg Item.time (item_doItemUpdate (s := s) (p := it) it)
  have htime : ((s.doItemUpdate it).item it).time = (s.doItemUpdate it).time it := rfl
  have hcond : (it = it ∧ (s.item it).time < s.currentTime - itemUpdateInterval ∧
      (s.item it).linked = true) ↔ s.time it + itemUpdateInterval < s.currentTime := by
    have hflag : (s.item it).linked = true := hl
    have hsame : (s.item it).time = s.time it := rfl
    rw [hsame]
    constructor
    · rintro ⟨-, hlt, -⟩
      omega
    · intro hlt
      exact ⟨rfl, by omega, hflag⟩
  rw [← htime, hitem]
  by_cases hold : s.time it + itemUpdateInterval < s.currentTime
  · rw [if_pos (hcond.mpr hold), if_pos hold]
  · rw [if_neg (mt hcond.mp hold), if_neg hold]
    rfl

/-- The rest of an item that the scan goes by, after `do_item_update`. -/
theorem frame_doItemUpdate (s : Store) (it : Ptr) :
    (s.doItemUpdate it).refcount = s.refcount ∧ (s.doItemUpdate it).itFlags = s.itFlags ∧
      (s.doItemUpdate it).currentTime = s.currentTime := by
  rw [doItemUpdate]
  split <;> exact ⟨rfl, rfl, rfl⟩

/-- **What a visit does**: an item last accessed more than `ITEM_UPDATE_INTERVAL` seconds ago counts
as accessed now; a more recent one is unlinked if `tail_repair_time` is over. -/
theorem Leaked.scanVisit_cases (h : s.Leaked it) (id : ℕ) (hr : minTailRepairTime ≤ cfg.tailRepairTime) :
    (s.time it + itemUpdateInterval < s.currentTime ∧ (s.scanVisit cfg id it).Leaked it ∧
      (s.scanVisit cfg id it).time it = s.currentTime ∧
      (s.scanVisit cfg id it).currentTime = s.currentTime) ∨
    (s.time it + cfg.tailRepairTime < s.currentTime ∧
      s.currentTime ≤ s.time it + itemUpdateInterval ∧
      ((s.scanVisit cfg id it).itFlags it).linked = false) ∨
    (s.currentTime ≤ s.time it + cfg.tailRepairTime ∧
      s.currentTime ≤ s.time it + itemUpdateInterval ∧ (s.scanVisit cfg id it).Leaked it ∧
      (s.scanVisit cfg id it).time it = s.time it ∧
      (s.scanVisit cfg id it).currentTime = s.currentTime) := by
  set u := (s.refcountIncr it).doItemUpdate it with hu
  obtain ⟨hcount, hflags, hclock⟩ := frame_doItemUpdate (s.refcountIncr it) it
  have htime : u.time it =
      if s.time it + itemUpdateInterval < s.currentTime then s.currentTime else s.time it :=
    time_doItemUpdate (s := s.refcountIncr it) h.linked
  set v := (u.refcountDecr it).bumpStats id fun st =>
    { st with lrutailReflocked := st.lrutailReflocked + 1 } with hvdef
  have hvtime : v.time it = u.time it := rfl
  have hvclock : v.currentTime = s.currentTime := hclock
  have hvleaked : v.Leaked it := by
    have hback : v.refcount it = s.refcount it := by
      show Function.update u.refcount it _ it = s.refcount it
      have h₂ := h.lt
      rw [Function.update_self, hu, hcount]
      simp only [refcountIncr, Function.update_self, refcountModulus] at h₂ ⊢
      omega
    refine ⟨?_, ?_, ?_⟩
    · show (u.itFlags it).linked = true
      rw [hu, hflags]
      exact h.linked
    · rw [hback]
      exact h.two_le
    · rw [hback]
      exact h.lt
  have hpos : cfg.tailRepairTime ≠ 0 := by
    rw [minTailRepairTime] at hr
    omega
  have hvisit : s.scanVisit cfg id it =
      if cfg.tailRepairTime ≠ 0 ∧ v.time it + cfg.tailRepairTime < v.currentTime then
        ({ v.bumpStats id (fun st => { st with tailrepairs := st.tailrepairs + 1 }) with
          refcount := Function.update v.refcount it 1 } : Store).doItemUnlink cfg it
            (cfg.hash (s.key it))
      else v := rfl
  clear_value v
  have hunlinked : ∀ w : Store, w.itFlags = v.itFlags →
      ((w.doItemUnlink cfg it (cfg.hash (s.key it))).itFlags it).linked = false := fun w hw =>
    Store.linked_doItemUnlink (by rw [hw]; exact hvleaked.linked) _
  rw [hvisit, hvtime, htime, hvclock]
  by_cases hold : s.time it + itemUpdateInterval < s.currentTime
  · left
    have hno : ¬ (cfg.tailRepairTime ≠ 0 ∧
        s.currentTime + cfg.tailRepairTime < s.currentTime) := by omega
    rw [if_pos hold, if_neg hno]
    exact ⟨hold, hvleaked, hvtime.trans (htime.trans (if_pos hold)), hvclock⟩
  · right
    rw [if_neg hold] at htime ⊢
    by_cases hover : s.time it + cfg.tailRepairTime < s.currentTime
    · left
      rw [if_pos ⟨hpos, hover⟩]
      exact ⟨hover, not_lt.mp hold, hunlinked _ rfl⟩
    · right
      rw [if_neg fun hc => hover hc.2]
      exact ⟨not_lt.mp hover, not_lt.mp hold, hvleaked, hvtime.trans htime, hvclock⟩

end Store

/-! ## Runs -/

/-- What happens to a leaked item. -/
inductive LeakEvent
  /-- The tail scan of LRU list `id` visits it when the clock shows `now`. -/
  | visit (id now : ℕ)
  /-- Anything else, other items' visits included. -/
  | other

/-- A step in the life of the leaked item `it`: what is no visit neither accesses it nor gives its
reference back, and the clock goes on. -/
def LeakStep (cfg : Settings) (it : Ptr) (s : Store) : LeakEvent → Store → Prop
  | .visit id now, s' =>
      (s.itFlags it).linked = true ∧ s.isCrawler it = false ∧ s.currentTime = now ∧
        s' = s.scanVisit cfg id it
  | .other, s' =>
      (s'.itFlags it).linked = (s.itFlags it).linked ∧
        (2 ≤ s'.refcount it ∧ s'.refcount it < refcountModulus ∨
          (s.itFlags it).linked = false) ∧
        s'.time it = s.time it ∧ s.currentTime ≤ s'.currentTime

/-- The times of the visits. -/
def visitTimes : List LeakEvent → List ℕ
  | [] => []
  | .visit _ now :: es => now :: visitTimes es
  | .other :: es => visitTimes es

/-- Some of the visits, at the given times, comes more than `repairTime` and no more than
`ITEM_UPDATE_INTERVAL` seconds after the recorded access, which is `time` at first and is renewed by
the visits that come later than that. -/
def visitInTime (repairTime : ℕ) : ℕ → List ℕ → Bool
  | _, [] => false
  | time, now :: visits =>
      if time + itemUpdateInterval < now then visitInTime repairTime now visits
      else if time + repairTime < now then true
      else visitInTime repairTime time visits

/-- No visit is in time when `tail_repair_time` is not less than `ITEM_UPDATE_INTERVAL`. -/
theorem not_visitInTime {repairTime : ℕ} (h : itemUpdateInterval ≤ repairTime) (time : ℕ)
    (visits : List ℕ) : visitInTime repairTime time visits = false := by
  induction visits generalizing time with
  | nil => rfl
  | cons now visits ih =>
      rw [visitInTime]
      split
      · exact ih now
      · rw [if_neg (by omega)]
        exact ih time

/-- An item that has been unlinked is not visited again. -/
theorem linked_of_run {es : List LeakEvent} (hr : Run (LeakStep cfg it) s es s')
    (h : (s.itFlags it).linked = false) : (s'.itFlags it).linked = false := by
  apply hr.invariant (P := fun s => (s.itFlags it).linked = false) h
  intro s e t hs hst
  cases e with
  | visit id now => exact absurd hst.1 (by simp [hs])
  | other => exact hst.1.trans hs

/-- **What a run of visits does to a leaked item**: it is unlinked exactly if some visit is in
time. -/
theorem Store.Leaked.run_iff {es : List LeakEvent} (h : s.Leaked it)
    (hr : minTailRepairTime ≤ cfg.tailRepairTime) (hrun : Run (LeakStep cfg it) s es s') :
    (s'.itFlags it).linked = false ↔
      visitInTime cfg.tailRepairTime (s.time it) (visitTimes es) = true := by
  -- by induction on the run: a visit unlinks the item or leaves it leaked
  induction hrun with
  | nil =>
      have hlinked := h.linked
      simp [visitTimes, visitInTime, hlinked]
  | @cons s t u e es hst hrun ih =>
      cases e with
      | other =>
          obtain ⟨hlinked, hcount, htime, -⟩ := hst
          have hcount := hcount.resolve_right (by simp [h.linked])
          rw [ih ⟨hlinked.trans h.linked, hcount.1, hcount.2⟩, htime]
          rfl
      | visit id now =>
          obtain ⟨-, -, hnow, rfl⟩ := hst
          rw [visitTimes, visitInTime, ← hnow]
          rcases h.scanVisit_cases id hr with
            ⟨hold, hleaked, htime, -⟩ | ⟨hover, hrecent, hunlinked⟩ | ⟨hearly, hrecent, hleaked, htime, -⟩
          · rw [if_pos hold, ih hleaked, htime]
          · rw [if_neg (not_lt.mpr hrecent), if_pos hover]
            exact iff_of_true (linked_of_run hrun hunlinked) rfl
          · rw [if_neg (not_lt.mpr hrecent), if_neg (not_lt.mpr hearly), ih hleaked, htime]

/-- **Tail repair works for the items that are visited in time**: over a run of visits, a leaked
item that no command accesses is unlinked exactly if one of them comes more than `tail_repair_time`
and no more than `ITEM_UPDATE_INTERVAL` seconds after the access on record. -/
theorem tailRepair_iff {es : List LeakEvent} (h : s.Leaked it)
    (hr : minTailRepairTime ≤ cfg.tailRepairTime) (hrun : Run (LeakStep cfg it) s es s') :
    (s'.itFlags it).linked = false ↔
      visitInTime cfg.tailRepairTime (s.time it) (visitTimes es) = true :=
  h.run_iff hr hrun

/-- `Settings.small` with tail repair after `repairTime` seconds. -/
def Settings.tailRepairing (repairTime : ℕ) : Settings :=
  { Settings.small with tailRepairTime := repairTime }

/-- The first item of all, linked by a connection that then forgets its reference. -/
def forgotten : Store :=
  ((Store.init.doItemAlloc .small (.quick (some 0)) [1] 0 0 2 0).1.doItemLink .small firstChunk 1)

/-- The item of the example is leaked. -/
theorem leaked_forgotten : forgotten.Leaked firstChunk :=
  ⟨by decide +kernel, by decide +kernel, by decide +kernel⟩

/-- The clock shows `now`. -/
def Store.at (s : Store) (now : ℕ) : Store := { s with currentTime := now }

/-- The clock goes on to `now`, and the item is visited. -/
theorem run_visit (cfg : Settings) (id now : ℕ) (hl : s.Leaked it) (hreal : s.isCrawler it = false)
    (hnow : s.currentTime ≤ now) :
    Run (LeakStep cfg it) s [.other, .visit id now] ((s.at now).scanVisit cfg id it) := by
  have htick : LeakStep cfg it s .other (s.at now) :=
    ⟨rfl, Or.inl ⟨hl.two_le, hl.lt⟩, rfl, hnow⟩
  exact .cons htick (.single ⟨hl.linked, hreal, rfl, rfl⟩)

/-- With the least `tail_repair_time`, an item visited half a minute after it was stored is
repaired. -/
theorem tailRepair_soon : ∃ s',
    Run (LeakStep (.tailRepairing 10) firstChunk) forgotten [.other, .visit 1 92] s' ∧
      (s'.itFlags firstChunk).linked = false := by
  have hrun := run_visit (.tailRepairing 10) 1 92 leaked_forgotten (by decide +kernel)
    (by decide +kernel)
  exact ⟨_, hrun, (tailRepair_iff leaked_forgotten (by decide) hrun).mpr (by decide +kernel)⟩

/-- **A leaked item is kept for good** when a visit finds it older than `ITEM_UPDATE_INTERVAL` each
time: two visits, both more than `tail_repair_time` after the last access, leave it linked. -/
theorem tailRepair_never : ¬ ∀ (cfg : Settings) (it : Ptr) (s s' : Store) (es : List LeakEvent)
    (first last : ℕ) (between : List ℕ), minTailRepairTime ≤ cfg.tailRepairTime → s.Leaked it →
    Run (LeakStep cfg it) s es s' → visitTimes es = first :: between ++ [last] →
    s.time it + cfg.tailRepairTime < first → first + cfg.tailRepairTime < last →
    (s'.itFlags it).linked = false := by
  intro hall
  have hfirst := run_visit (.tailRepairing 100) 1 212 leaked_forgotten (by decide +kernel)
    (by decide +kernel)
  have hleaked : ((forgotten.at 212).scanVisit (.tailRepairing 100) 1 firstChunk).Leaked firstChunk :=
    ⟨by decide +kernel, by decide +kernel, by decide +kernel⟩
  have hboth := hfirst.append (run_visit (.tailRepairing 100) 1 362 hleaked
    (by decide +kernel) (by decide +kernel))
  have hunlinked := hall (.tailRepairing 100) firstChunk forgotten _ _ 212 362 [] (by decide)
    leaked_forgotten hboth rfl (by decide +kernel) (by decide +kernel)
  rw [leaked_forgotten.run_iff (by decide) hboth] at hunlinked
  exact absurd hunlinked (by decide +kernel)

end Memcached
