import Memcached.Agreement

/-! # The contents of the store

The store as a map from keys to entries, and what a section leaves of the entries of the keys it
is not about.

* **`Store.contents`**, **`doItemGet_contents`** — what a client sees under a key.
* **`Trace.key_frame`** — what is left of a key that a section is not about. -/

namespace Memcached

open CNumber (Bytes)
open Transition (Run)

/-! ## Entries -/

/-- What the store keeps under a key. -/
structure Entry where
  flags : ℤ
  exptime : ℕ
  value : Bytes
  cas : ℕ
  deriving DecidableEq, Repr

/-- The entry an item holds: its flags are read back from the suffix, its value ends before the
CRLF. -/
def Item.entry (i : Item) : Entry :=
  ⟨CNumber.toInt32 (CNumber.strtol i.suffix), i.exptime, i.data.take (i.nbytes - 2), i.cas⟩

/-- A client sees neither the flag nor the access time. -/
@[simp] theorem Item.entry_linked (i : Item) (b : Bool) (t : ℕ) :
    ({ i with linked := b, time := t } : Item).entry = i.entry := rfl

variable {n : ℕ} {cfg : Settings} {w w' : World n} {s s' : Store} {g g' : Ghost} {p q : Ptr}
  {key : Bytes}

namespace Store

/-- The entry at `p`. -/
def entry (s : Store) (p : Ptr) : Entry := (s.item p).entry

/-- **The map the store holds**, dead entries included. -/
def entries (cfg : Settings) (s : Store) (key : Bytes) : Option Entry :=
  (s.assocFind key (cfg.hash key)).map s.entry

/-- **The map a client sees**: the entries that `do_item_get` returns. -/
def contents (cfg : Settings) (s : Store) (key : Bytes) : Option Entry :=
  (s.assocFind key (cfg.hash key)).bind fun p => if s.dead p then none else some (s.entry p)

end Store

namespace WellFormed

variable {L : Layout}

/-- A linked item is the entry of its key. -/
theorem entries_eq (h : WellFormed cfg s g L) (hp : s.Linked p) (hk : s.key p = key) :
    s.entries cfg key = some (s.entry p) := by
  rw [Store.entries, h.assocFind_eq_some.mpr ⟨hp, hk⟩, Option.map_some]

/-- A linked item as a client sees it. -/
theorem contents_eq (h : WellFormed cfg s g L) (hp : s.Linked p) (hk : s.key p = key) :
    s.contents cfg key = if s.dead p then none else some (s.entry p) := by
  rw [Store.contents, h.assocFind_eq_some.mpr ⟨hp, hk⟩, Option.bind_some]

/-- A client sees nothing under a key whose items are dead. -/
theorem contents_eq_none (h : WellFormed cfg s g L)
    (hdead : ∀ p, s.Linked p → s.key p = key → s.dead p = true) : s.contents cfg key = none := by
  cases hfind : s.assocFind key (cfg.hash key) with
  | none => rw [Store.contents, hfind, Option.bind_none]
  | some p =>
      obtain ⟨hp, hk⟩ := h.assocFind_eq_some.mp hfind
      rw [h.contents_eq hp hk, if_pos (hdead p hp hk)]

end WellFormed

/-- **A lookup finds what a client sees.** -/
theorem doItemGet_contents (h : Inv cfg s g) (hroom : s.Room cfg key) :
    (s.doItemGet cfg key (cfg.hash key)).2.map s.entry = s.contents cfg key := by
  have hr := getResult_doItemGet h hroom
  obtain ⟨L, hwf⟩ := h
  generalize s.doItemGet cfg key (cfg.hash key) = r at hr ⊢
  cases hr with
  | miss s' evs ht he hdead hno => exact (hwf.contents_eq_none hdead).symm
  | hit s' p hp hk hd hs' ht =>
      rw [hwf.contents_eq hp hk, hd]
      rfl

/-! ## Keys a section is not about -/

/-- What sections keep of an item linked under the key, which renew none but items in `busy`. -/
structure Store.KeepsItem (s t : Store) (busy : List Ptr) (key : Bytes) (q : Ptr) : Prop where
  linked : s.Linked q
  key : s.key q = key
  entry : t.entry q = s.entry q
  exptime : t.exptime q = s.exptime q
  time : t.time q = s.time q ∨
    q ∈ busy ∧ s.time q < s.currentTime - itemUpdateInterval ∧ t.time q = s.currentTime

/-- The step renews the access time of no item under the key that a flush point alone keeps dead. -/
def Store.RenewsNone (s : Store) (busy : List Ptr) (key : Bytes) : Prop :=
  ∀ p ∈ busy, s.Linked p → s.key p = key → s.time p < s.currentTime - itemUpdateInterval →
    s.flushed p = true → s.expired p = true

variable {evs : List Event} {K : Bytes → Prop} {mine : Option Ptr} {busy : List Ptr}

/-- **What becomes of a key's items** in a section that links nothing under the key, and is about
other keys or finds the key dead. -/
theorem Trace.key_frame (ht : Trace cfg s g evs s' g') (h : Inv cfg s g)
    (hK : ∀ q, s.Linked q → s.key q = key → s.dead q = true ∨ ¬ K key)
    (hmine : ∀ it, mine = some it → ¬ s.Linked it)
    (he : ∀ e ∈ evs, e.Within cfg s g K (· ≠ key) mine busy) (hq : s'.Linked q)
    (hk : s'.key q = key) : s.KeepsItem s' busy key q := by
  refine (ht.preserves (P := fun t _ => t.currentTime = s.currentTime ∧
    ∀ q, t.Linked q → t.key q = key → s.KeepsItem t busy key q) h
    ⟨rfl, fun q hl hk => ⟨hl, hk, rfl, rfl, Or.inl rfl⟩⟩ ?_).2 q hq hk
  intro t f e t' f' hm hmem hI ⟨hnow, hP⟩
  refine ⟨(congrArg Globals.currentTime hm.globals).trans hnow, fun q hq hk => ?_⟩
  have hi := hm.item hI (Or.inl hq)
  have hwith := he e hmem
  rcases hm.linked_or_link hI hq with hl | ⟨k, rfl⟩
  · -- an item that stays as it is
    have hsame : t'.item q = t.item q → s.KeepsItem t' busy key q := fun e => by
      have hx : t'.exptime q = t.exptime q := congrArg Item.exptime e
      have htm : t'.time q = t.time q := congrArg Item.time e
      have hkeep := hP q hl ((congrArg Item.key e).symm.trans hk)
      exact ⟨hkeep.linked, hkeep.key, (congrArg Item.entry e).trans hkeep.entry,
        hx.trans hkeep.exptime, by rw [htm]; exact hkeep.time⟩
    have hgone : t.key q = key → ¬ (s.Linked q ∧ K (s.key q) ∧ s.dead q = false) := fun hkt hc => by
      have hkeep := hP q hl hkt
      rcases hK q hkeep.linked hkeep.key with hd | hd
      · exact absurd hc.2.2 (by simp [hd])
      · exact hd (hkeep.key ▸ hc.2.1)
    cases e with
    | refresh p =>
        simp only [Event.item] at hi
        split at hi
        · rename_i hc
          obtain ⟨rfl, hold, -⟩ := hc
          have hkt : t.key q = key := (congrArg Item.key hi).symm.trans hk
          have hkeep := hP q hl hkt
          have hx' : t'.exptime q = t.exptime q := congrArg Item.exptime hi
          have htm' : t'.time q = t.currentTime := congrArg Item.time hi
          have hold : t.time q < t.currentTime - itemUpdateInterval := hold
          rw [hnow] at hold
          have hlt : s.time q < s.currentTime - itemUpdateInterval :=
            hkeep.time.elim (fun e => e ▸ hold) fun hb => hb.2.1
          exact ⟨hkeep.linked, hkeep.key, (congrArg Item.entry hi).trans hkeep.entry,
            hx'.trans hkeep.exptime,
            Or.inr ⟨hwith.resolve_right (hgone hkt), hlt, htm'.trans hnow⟩⟩
        · exact hsame hi
    | touch p x =>
        by_cases e : q = p
        · subst e
          exact absurd hwith (hgone ((congrArg Item.key (hi.trans (if_pos rfl))).symm.trans hk))
        · exact hsame (hi.trans (if_neg e))
    | inPlace p d =>
        by_cases e : q = p
        · subst e
          exact absurd ⟨hwith.1, hwith.2.1, hwith.2.2.1⟩
            (hgone ((congrArg Item.key (hi.trans (if_pos rfl))).symm.trans hk))
        · exact hsame (hi.trans (if_neg e))
    | setCas p v =>
        by_cases e : q = p
        · subst e
          have hkt := (congrArg Item.key (hi.trans (if_pos rfl))).symm.trans hk
          rcases hwith with hm | hc
          · exact absurd (hP q hl hkt).linked (hmine q hm)
          · exact absurd hc (hgone hkt)
        · exact hsame (hi.trans (if_neg e))
    | link p k | write p d =>
        by_cases e : q = p
        · subst e
          have hoff : (t.itFlags q).linked = false := by
            cases hm
            assumption
          exact absurd hl.2 (by simp [hoff])
        · exact hsame (hi.trans (if_neg e))
    | unlink p | create p _ _ _ _ =>
        by_cases e : q = p
        · exact absurd hq.2 (by simp [show (t'.itFlags q).linked = false from
            congrArg Item.linked (hi.trans (if_pos e))])
        · exact hsame (hi.trans (if_neg e))
    | _ => exact hsame hi
  · have hkt : t.key q = k := by cases hm; rfl
    rw [Event.item, if_pos rfl] at hi
    exact absurd (hkt.symm.trans ((congrArg Item.key hi).symm.trans hk)) hwith.1

end Memcached
