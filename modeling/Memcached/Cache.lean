import Memcached.Lib.LossyMap
import Memcached.Expiration
import Memcached.Arithmetic

/-! # The store as a lossy map

What a client may rely on: a map from keys to entries that may lose entries at any time, in which
every write leaves an entry with a new CAS id. The server's steps are steps of such a map.

* **`Step`** — the abstract cache: entries are written with new versions, and lost.
* **`cacheOp`** — what a step of the server is in the cache.
* **`InOrder.cache_step`** — the server's step is that step. -/

namespace Memcached

open CNumber (Bytes)
open LossyMap (Loses Writes)
open Transition (Run)

/-! ## The map -/

/-- What a client sees of a cache: its entries, and how many CAS ids have been given out. -/
structure Cache where
  table : Bytes → Option Entry
  casId : ℕ

/-- What a command does to a cache, with the answer it gets. -/
inductive CacheOp
  /-- Nothing; entries may be lost. -/
  | other
  /-- A lookup, with the entry found. -/
  | get (key : Bytes) (found : Option Entry)
  /-- A lookup that sets the expiry time. -/
  | touch (key : Bytes) (exptime : ℕ) (found : Option Entry)
  /-- A storage command; the CAS id of the new entry is that of the request. -/
  | store (comm : Comm) (key : Bytes) (new : Entry) (r : StoreItemType)
  /-- An `incr` or a `decr`, with the number and the CAS id it answers. -/
  | delta (key : Bytes) (incr : Bool) (delta reqCas : ℕ) (beyond : Bytes) (r : DeltaResultType)
    (v : Option (ℕ × ℕ))
  /-- The entry under the key is removed. -/
  | delete (key : Bytes)

/-- **What a storage command answers** a client who sees `o` under the key. -/
def Comm.answer (comm : Comm) (reqCas : ℕ) (o : Option Entry) : StoreItemType :=
  match o, comm with
  | none, .add | none, .set => .stored
  | none, .cas => .notFound
  | none, _ => .notStored
  | some _, .add => .notStored
  | some _, .set | some _, .replace => .stored
  | some e, .cas => if reqCas = e.cas then .stored else .exists
  | some e, .append | some e, .prepend =>
      if reqCas ≠ 0 ∧ reqCas ≠ e.cas then .exists else .stored

/-- **The entry that it leaves**: the new one, or the old one with both values. -/
def Comm.written (comm : Comm) (new : Entry) (cas : ℕ) (o : Option Entry) : Entry :=
  match o with
  | some e =>
      if comm = .append ∨ comm = .prepend then
        { e with value := joined comm e.value new.value, cas := cas }
      else { new with cas := cas }
  | none => { new with cas := cas }

/-- The number that `incr` and `decr` read: what follows the value in memory may take part. -/
def Entry.number (e : Entry) (beyond : Bytes) : Option ℕ :=
  CNumber.safeStrtoull (e.value ++ crlf ++ beyond)

/-- `buf` is the text of `m`, or that text and blanks up to the length of the old value. -/
def Overwritten (old : Bytes) (m : ℕ) (buf : Bytes) : Prop :=
  buf = CNumber.decDigits m ∨
    buf = CNumber.decDigits m ++ List.replicate (old.length - (CNumber.decDigits m).length) 32

namespace Cache

variable (cfg : Settings)

/-- The next CAS id. -/
def nextCas (c : Cache) : ℕ := if cfg.useCas then c.casId + 1 else 0

/-- The counter after an id has been given out. -/
def nextId (c : Cache) : ℕ := c.casId + if cfg.useCas then 1 else 0

/-- **A step of the map.** A client may see none of an entry that is there: it has expired, or is
flushed. -/
inductive Step (cfg : Settings) (c : Cache) : CacheOp → Cache → Prop
  | other {c' : Cache} (hl : Loses c.table c'.table) (hn : c'.casId = c.casId) : Step cfg c .other c'
  | hit {c' : Cache} {key : Bytes} {e : Entry} (hk : c.table key = some e)
      (hw : Writes c.table key e c'.table) (hn : c'.casId = c.casId) :
      Step cfg c (.get key (some e)) c'
  | miss {c' : Cache} {key : Bytes} (hk : c'.table key = none) (hl : Loses c.table c'.table)
      (hn : c'.casId = c.casId) : Step cfg c (.get key none) c'
  | touched {c' : Cache} {key : Bytes} {e : Entry} {exptime : ℕ} (hk : c.table key = some e)
      (hw : Writes c.table key { e with exptime := exptime } c'.table) (hn : c'.casId = c.casId) :
      Step cfg c (.touch key exptime (some e)) c'
  | untouched {c' : Cache} {key : Bytes} {exptime : ℕ} (hl : Loses c.table c'.table)
      (hn : c'.casId = c.casId) : Step cfg c (.touch key exptime none) c'
  | stored {c' : Cache} {comm : Comm} {key : Bytes} {new : Entry} {o : Option Entry}
      (ho : o = none ∨ o = c.table key) (ha : comm.answer new.cas o = .stored)
      (hw : Writes c.table key (comm.written new (c.nextCas cfg) o) c'.table)
      (hn : c'.casId = c.nextId cfg) : Step cfg c (.store comm key new .stored) c'
  | refused {c' : Cache} {comm : Comm} {key : Bytes} {new : Entry} {r : StoreItemType}
      {o : Option Entry} (ho : o = none ∨ o = c.table key ∧ c'.table key = c.table key)
      (ha : comm.answer new.cas o = r) (hr : r ≠ .stored) (hl : Loses c.table c'.table)
      (hn : c'.casId = c.casId) : Step cfg c (.store comm key new r) c'
  /-- There is no memory for the joined value. -/
  | storeNoRoom {c' : Cache} {comm : Comm} {key : Bytes} {new : Entry}
      (hcomm : comm = .append ∨ comm = .prepend) (hk : c.table key ≠ none)
      (hk' : c'.table key = c.table key) (hl : Loses c.table c'.table) (hn : c'.casId = c.casId) :
      Step cfg c (.store comm key new .notStored) c'
  | counted {c' : Cache} {key : Bytes} {incr : Bool} {delta reqCas m : ℕ} {beyond buf : Bytes}
      {e : Entry} (hk : c.table key = some e) (hcas : reqCas = 0 ∨ reqCas = e.cas)
      (hm : e.number beyond = some m) (hbuf : Overwritten e.value (deltaValue incr m delta) buf)
      (hw : Writes c.table key { e with value := buf, cas := c.nextCas cfg } c'.table)
      (hn : c'.casId = c.nextId cfg) :
      Step cfg c (.delta key incr delta reqCas beyond .ok
        (some (deltaValue incr m delta, c.nextCas cfg))) c'
  | uncounted {c' : Cache} {key : Bytes} {incr : Bool} {delta reqCas : ℕ} {beyond : Bytes}
      {r : DeltaResultType} {e : Entry} (hk : c.table key = some e) (hk' : c'.table key = some e)
      (hr : (r = .itemCasMismatch ∧ reqCas ≠ 0 ∧ reqCas ≠ e.cas) ∨
        (reqCas = 0 ∨ reqCas = e.cas) ∧ (r = .nonNumeric ∧ e.number beyond = none ∨ r = .eom))
      (hl : Loses c.table c'.table) (hn : c'.casId = c.casId) :
      Step cfg c (.delta key incr delta reqCas beyond r none) c'
  | notFound {c' : Cache} {key : Bytes} {incr : Bool} {delta reqCas : ℕ} {beyond : Bytes}
      (hl : Loses c.table c'.table) (hn : c'.casId = c.casId) :
      Step cfg c (.delta key incr delta reqCas beyond .itemNotFound none) c'
  | delete {c' : Cache} {key : Bytes} (hk : c'.table key = none) (hl : Loses c.table c'.table)
      (hn : c'.casId = c.casId) : Step cfg c (.delete key) c'

end Cache

variable {n : ℕ} {cfg : Settings} {w w' : World n} {s s' : Store} {g g' : Ghost} {p q it : Ptr}
  {key : Bytes} {evs : List Event}

/-- A client's view of the store. -/
def Store.cache (cfg : Settings) (s : Store) : Cache := ⟨s.entries cfg, s.casId⟩

/-! ## What a section leaves of the entries -/

/-- The entries are those of the linked items. -/
theorem Inv.entries_eq_some (h : Inv cfg s g) {e : Entry} :
    s.entries cfg key = some e ↔ ∃ p, s.Linked p ∧ s.key p = key ∧ s.entry p = e := by
  obtain ⟨L, h⟩ := h
  constructor
  · intro he
    obtain ⟨p, hp, hpe⟩ := Option.map_eq_some_iff.mp he
    obtain ⟨hl, hk⟩ := h.assocFind_eq_some.mp hp
    exact ⟨p, hl, hk, hpe⟩
  · rintro ⟨p, hp, hk, rfl⟩
    exact h.entries_eq hp hk

/-- A linked item that no event rewrites was there before. -/
theorem Trace.entry_kept (ht : Trace cfg s g evs s' g') (h : Inv cfg s g)
    (he : ∀ e ∈ evs, ¬ e.Rewrites q) (hq : s'.Linked q) :
    s.Linked q ∧ s'.key q = s.key q ∧ s'.entry q = s.entry q := by
  obtain ⟨-, b, t, hi, hb, -⟩ := ht.item_eq h he (Or.inl hq)
  have hlinked : b = true := (congrArg Item.linked hi).symm.trans hq.2
  have hold : (s.item q).linked = true := by
    rcases hb with rfl | ⟨-, rfl⟩
    · exact hlinked
    · exact absurd hlinked (by simp)
  exact ⟨⟨hq.1, hold⟩, congrArg Item.key hi, (congrArg Item.entry hi).trans (Item.entry_linked ..)⟩

/-- **A section that rewrites no linked item** loses entries at most. -/
theorem Trace.loses (ht : Trace cfg s g evs s' g') (h : Inv cfg s g)
    (he : ∀ q, s'.Linked q → ∀ e ∈ evs, ¬ e.Rewrites q) :
    Loses (s.entries cfg) (s'.entries cfg) := by
  intro key e hk
  obtain ⟨q, hq, hkq, rfl⟩ := (ht.inv h).entries_eq_some.mp hk
  obtain ⟨hl, hkey, hentry⟩ := ht.entry_kept h (he q hq) hq
  exact h.entries_eq_some.mpr ⟨q, hl, hkey.symm.trans hkq, hentry.symm⟩

/-- An item that stays. -/
theorem Trace.entries_kept (ht : Trace cfg s g evs s' g') (h : Inv cfg s g) (hp : s.Linked p)
    (hk : s.key p = key) (he : ∀ e ∈ evs, ¬ e.Rewrites p) (hun : .unlink p ∉ evs) :
    s'.entries cfg key = some (s.entry p) := by
  have hp' := ht.linked h hp hun
  obtain ⟨-, hkey, hentry⟩ := ht.entry_kept h he hp'
  exact (ht.inv h).entries_eq_some.mpr ⟨p, hp', hkey.trans hk, hentry⟩

/-- **The entries of other keys** are those that were there. -/
theorem Trace.entries_other {mine : Option Ptr} {busy : List Ptr} (ht : Trace cfg s g evs s' g')
    (h : Inv cfg s g) (hmine : ∀ it, mine = some it → ¬ s.Linked it)
    (he : ∀ e ∈ evs, e.Within cfg s g (· = key) (· = key) mine busy) {j : Bytes} {e : Entry}
    (hj : j ≠ key) (hje : s'.entries cfg j = some e) : s.entries cfg j = some e := by
  obtain ⟨q, hq, hkq, rfl⟩ := (ht.inv h).entries_eq_some.mp hje
  have hother : ∀ e ∈ evs, e.Within cfg s g (· = key) (· ≠ j) mine busy := fun e hm =>
    (he e hm).mono fun k hk hkj => hj (hkj.symm.trans hk)
  have hkeep := ht.key_frame (K := (· = key)) h (fun _ _ _ => Or.inr hj) hmine hother hq hkq
  exact h.entries_eq_some.mpr ⟨q, hkeep.linked, hkeep.key, hkeep.entry.symm⟩

/-- **The entry of an item that is linked** is its own, with the next CAS id. -/
theorem Trace.entry_link (pre post : List Event) {k : Bytes}
    (ht : Trace cfg s g (pre ++ .link it k :: post) s' g') (h : Inv cfg s g)
    (hpre : ∀ e ∈ pre, ¬ e.Rewrites it ∧ e.casIds cfg = 0)
    (hpost : ∀ e ∈ post, ¬ e.Rewrites it ∧ e ≠ .unlink it ∧ e.casIds cfg = 0) :
    s'.Linked it ∧ s'.key it = s.key it ∧ s'.entry it = { s.entry it with cas := s.nextCas cfg } ∧
      s'.casId = s.casId + if cfg.useCas then 1 else 0 := by
  obtain ⟨t, f, h₁, h₂⟩ := ht.split
  cases h₂ with
  | cons hm h₃ =>
      rename_i t' f'
      have hinv := h₁.inv h
      have hheld : 0 < f.handles it ∧ 0 < f'.handles it := by
        cases hm
        exact ⟨‹_›, ‹_›⟩
      have hi₂ := hm.item hinv (Or.inr hheld.2)
      simp only [Event.item, if_true] at hi₂
      have hlinked : t'.Linked it :=
        ⟨hinv.choose_spec.isChunk_of_handles it hheld.1, congrArg Item.linked hi₂⟩
      have hlinked' : s'.Linked it :=
        h₃.linked (hm.inv hinv) hlinked fun hmem => (hpost _ hmem).2.1 rfl
      obtain ⟨-, hkey₃, hentry₃⟩ := h₃.entry_kept (hm.inv hinv) (fun e he => (hpost e he).1) hlinked'
      obtain ⟨-, b₁, t₁, hi₁, -⟩ := h₁.item_eq h (fun e he => (hpre e he).1) (Or.inr hheld.1)
      have hid₁ : t.casId = s.casId := h₁.casId_eq fun e he => (hpre e he).2
      have hid₃ : s'.casId = t'.casId := h₃.casId_eq fun e he => (hpost e he).2.2
      have hid₂ : t'.casId = t.casId + if cfg.useCas then 1 else 0 :=
        congrArg Globals.casId hm.globals
      rw [hi₁] at hi₂
      refine ⟨hlinked', hkey₃.trans (congrArg Item.key hi₂), hentry₃.trans ?_, ?_⟩
      · rw [Store.nextCas, ← hid₁]
        exact congrArg Item.entry hi₂
      · rw [hid₃, hid₂, hid₁]

/-- An event rewrites an item, and what that leaves at the end. -/
theorem Trace.entry_rewritten (pre post : List Event) {e : Event}
    (ht : Trace cfg s g (pre ++ e :: post) s' g') (h : Inv cfg s g) (hq : s'.Linked q)
    (hpre : ∀ e ∈ pre, ¬ e.Rewrites q) (hpost : ∀ e ∈ post, ¬ e.Rewrites q)
    (he : ¬ e.Creates q) :
    ∃ t f b m, Trace cfg s g pre t f ∧ t.item q = { s.item q with linked := b, time := m } ∧
      s'.key q = (e.item cfg t q (t.item q)).key ∧ s'.entry q = (e.item cfg t q (t.item q)).entry := by
  obtain ⟨t, f, h₁, h₂⟩ := ht.split
  cases h₂ with
  | cons hm h₃ =>
      rename_i t' f'
      have hinv := h₁.inv h
      obtain ⟨hl, hkey, hentry⟩ := h₃.entry_kept (hm.inv hinv) hpost hq
      have hu := (hm.inUse hinv (Or.inl hl)).resolve_right he
      obtain ⟨-, b, m, hi, -⟩ := h₁.item_eq h hpre hu
      have hi' := hm.item hinv (Or.inl hl)
      exact ⟨t, f, b, m, h₁, hi, hkey.trans (congrArg Item.key hi'),
        hentry.trans (congrArg Item.entry hi')⟩

/-! ## Storing -/

/-- The flags of a suffix that was written for them. -/
theorem toInt32_strtol_suffix (nkey nbytes : ℕ) (z : ℤ) :
    CNumber.toInt32 (CNumber.strtol (itemMakeHeader nkey (CNumber.toInt32 z) nbytes).1)
      = CNumber.toInt32 z := by
  have hbounds : -2 ^ 31 ≤ CNumber.toInt32 z ∧ CNumber.toInt32 z < 2 ^ 31 := by
    rw [CNumber.toInt32, Int.bmod_def]
    omega
  have hspace : ∀ t, CNumber.strtol (32 :: t) = CNumber.strtol t := fun t => by
    rw [CNumber.strtol, CNumber.strtol, CNumber.scanNumeral_space (by decide)]
  have hread : CNumber.strtol (itemMakeHeader nkey (CNumber.toInt32 z) nbytes).1
      = CNumber.toInt32 z := by
    rw [itemMakeHeader_fst, hspace]
    apply CNumber.strtol_formatInt hbounds.1 hbounds.2
    intro c hc
    obtain rfl := Option.some.inj hc
    decide
  rw [hread, CNumber.toInt32_of_bounds hbounds.1 hbounds.2]

/-- **What `append` and `prepend` link.** -/
theorem Trace.entry_joined (pre mid post : List Event) {r : Ptr} {flags : ℤ} {exptime nbytes : ℕ}
    {v : Bytes}
    (ht : Trace cfg s g ((pre ++ [.create r key (CNumber.toInt32 flags) exptime nbytes]) ++
      .write r (v ++ crlf) :: (mid ++ .link r key :: post)) s' g') (h : Inv cfg s g)
    (hpre : ∀ e ∈ pre, e.casIds cfg = 0) (hmid : ∀ e ∈ mid, ¬ e.Rewrites r ∧ e.casIds cfg = 0)
    (hpost : ∀ e ∈ post, ¬ e.Rewrites r ∧ e ≠ .unlink r ∧ e.casIds cfg = 0) :
    s'.entries cfg key = some ⟨CNumber.toInt32 flags, exptime, v, s.nextCas cfg⟩ ∧
      s'.casId = s.casId + if cfg.useCas then 1 else 0 := by
  obtain ⟨t, f, h₁, h₂⟩ := ht.split
  obtain ⟨hk, hsuffix, hnbytes, hexptime, -, hheld⟩ := h₁.created h
  have hinv := h₁.inv h
  have hid : t.casId = s.casId := h₁.casId_eq fun e he => by
    rcases List.mem_append.mp he with he | he
    · exact hpre e he
    · rw [List.mem_singleton.mp he]
      rfl
  cases h₂ with
  | cons hm h₃ =>
      rename_i t' f'
      have hlen : (v ++ crlf).length = nbytes := by
        cases hm with
        | write hp hl hd => exact hd.trans hnbytes
      have hheld' : 0 < f'.handles r := by
        rw [hm.handles]
        exact hheld
      have hi := hm.item hinv (Or.inr hheld')
      rw [Event.item, if_pos rfl] at hi
      have hid' : t'.casId = t.casId := by
        have := congrArg Globals.casId hm.globals
        simpa [Store.globals, Event.casIds] using this
      obtain ⟨hl, hkey, hentry, hcas⟩ := h₃.entry_link mid post (hm.inv hinv) hmid hpost
      have hv : (t'.data r).take (t'.nbytes r - 2) = v := by
        have hdata : t'.data r = v ++ crlf := congrArg Item.data hi
        have hn : t'.nbytes r = nbytes := (congrArg Item.nbytes hi).trans hnbytes
        have hsub : nbytes - 2 = v.length := by
          rw [← hlen, List.length_append]
          rfl
        rw [hdata, hn, hsub, List.take_left]
      have hflags : CNumber.toInt32 (CNumber.strtol (t'.suffix r)) = CNumber.toInt32 flags := by
        rw [show t'.suffix r = t.suffix r from congrArg Item.suffix hi, hsuffix]
        exact toInt32_strtol_suffix ..
      refine ⟨(h₃.inv (hm.inv hinv)).entries_eq_some.mpr ⟨r, hl, ?_, ?_⟩, by rw [hcas, hid', hid]⟩
      · exact hkey.trans ((congrArg Item.key hi).trans hk)
      · have he : t'.entry r = ⟨CNumber.toInt32 (CNumber.strtol (t'.suffix r)), t'.exptime r,
          (t'.data r).take (t'.nbytes r - 2), t'.itemGetCas r⟩ := rfl
        have hx : t'.exptime r = exptime := (congrArg Item.exptime hi).trans hexptime
        rw [hentry, he, hv, hflags, hx, Store.nextCas, Store.nextCas, hid', hid]

/-- An upload is unlinked. -/
theorem Store.Pending.not_linked (hit : s.Pending g it) : ¬ s.Linked it := fun hc =>
  absurd hc.2 (by simp [hit.unlinked])

/-- The events of a lookup take no CAS id. -/
theorem Event.Buries.casIds_eq {e : Event} (he : e.Buries s key) : e.casIds cfg = 0 := by
  cases e with
  | ref | deref | unlink => rfl
  | _ => exact he.elim

/-- Those that make room neither rewrite an item nor take one. -/
theorem Event.Allocs.plain {e : Event} {curHv : ℕ} {busy : List Ptr} (he : e.Allocs cfg s g curHv busy) :
    (∀ q, ¬ e.Rewrites q) ∧ e.casIds cfg = 0 := by
  cases e with
  | ref | deref | unlink | alloc | discard | other | refresh => exact ⟨fun _ hc => hc, rfl⟩
  | _ => exact he.elim

/-- **`do_store_item` is a step of the map.** -/
theorem StoreResult.cache_step {comm : Comm} {busy : List Ptr} {r : Store × StoreItemType × Option ℕ}
    (hr : StoreResult cfg s g it comm busy r) (h : Inv cfg s g) (hit : s.Pending g it) :
    Cache.Step cfg (s.cache cfg) (.store comm (s.key it) (s.entry it) r.2.1) (r.1.cache cfg) := by
  have hcas : ∀ q, (s.entry q).cas = s.itemGetCas q := fun _ => rfl
  -- the entries of the other keys
  have hother : ∀ j e, j ≠ s.key it → r.1.entries cfg j = some e → s.entries cfg j = some e := by
    obtain ⟨evs, ht, he⟩ := hr.within (K := (· = s.key it)) (N := (· = s.key it)) rfl rfl
    intro j e hj hje
    refine ht.entries_other h (fun q hq => ?_) he hj hje
    obtain rfl := Option.some.inj hq
    exact hit.not_linked
  cases hr with
  | new s' evs hcomm ht he hdead =>
      obtain ⟨hl, hk, hentry, hid⟩ := ht.entry_link evs [] h
        (fun e hm => ⟨(he e hm).not_rewrites, (he e hm).casIds_eq⟩) (by simp)
      refine .stored (o := none) (Or.inl rfl) ?_ ⟨?_, hother⟩ hid
      · rcases hcomm with rfl | rfl <;> rfl
      · exact (ht.inv h).entries_eq_some.mpr ⟨it, hl, hk, hentry⟩
  | absent s' evs hcomm ht he hdead =>
      refine .refused (o := none) (Or.inl rfl) ?_ ?_
        (ht.loses h fun q _ e hm => (he e hm).not_rewrites) (ht.casId_eq fun e hm => (he e hm).casIds_eq)
      · cases comm <;> simp [Comm.answer] at hcomm ⊢
      · dsimp only
        split <;> simp
  | present s' p hcomm hp hk hd ht =>
      have hentry := h.entries_eq_some.mpr ⟨p, hp, hk, rfl⟩
      have hentry' := ht.entries_kept h hp hk (by simp [Event.Rewrites]) (by simp)
      refine .refused (o := some (s.entry p)) (Or.inr ⟨hentry.symm, hentry'.trans hentry.symm⟩)
        ?_ (by simp) (ht.loses h (by simp [Event.Rewrites])) (ht.casId_eq (by simp [Event.casIds]))
      rw [hcomm]
      rfl
  | mismatch s' p hp hk hd hmis ht =>
      have hentry := h.entries_eq_some.mpr ⟨p, hp, hk, rfl⟩
      have hentry' := ht.entries_kept h hp hk (by simp [Event.Rewrites]) (by simp)
      refine .refused (o := some (s.entry p)) (Or.inr ⟨hentry.symm, hentry'.trans hentry.symm⟩)
        ?_ (by simp) (ht.loses h (by simp [Event.Rewrites])) (ht.casId_eq (by simp [Event.casIds]))
      obtain ⟨hne, rfl | ⟨rfl | rfl, h0⟩⟩ := hmis
      · simp [Comm.answer, hcas, hne]
      · simp [Comm.answer, hcas, hne, h0]
      · simp [Comm.answer, hcas, hne, h0]
  | replaced s' p hp hk hd hcomm ht =>
      have hne : it ≠ p := by
        rintro rfl
        exact hit.not_linked hp
      obtain ⟨hl, hkey, hentry, hid⟩ :=
        Trace.entry_link [.ref p, .fetch p, .unlink p, .deref p] [.deref p] ht h
          (by simp [Event.Rewrites, Event.casIds]) (by simp [Event.Rewrites, Event.casIds])
      refine .stored (o := some (s.entry p))
        (Or.inr (h.entries_eq_some.mpr ⟨p, hp, hk, rfl⟩).symm) ?_ ⟨?_, hother⟩ hid
      · rcases hcomm with rfl | rfl | ⟨rfl, heq⟩
        · rfl
        · rfl
        · simp [Comm.answer, hcas, heq]
      · refine (ht.inv h).entries_eq_some.mpr ⟨it, hl, hkey, hentry.trans ?_⟩
        have hplain : ¬ (comm = .append ∨ comm = .prepend) := by
          rcases hcomm with rfl | rfl | ⟨rfl, -⟩ <;> simp
        simp only [Comm.written, if_neg hplain]
        rfl
  | noRoom s' p evs hcomm hp hk hd hmis ht he =>
      have hplain : ∀ e ∈ [.ref p, .fetch p] ++ evs ++ [.deref p],
          (∀ q, ¬ e.Rewrites q) ∧ e.casIds cfg = 0 := by
        simp only [List.forall_mem_append]
        exact ⟨⟨by simp [Event.Rewrites, Event.casIds], fun e hm => (he e hm).plain⟩,
          by simp [Event.Rewrites, Event.casIds]⟩
      have hun : .unlink p ∉ [.ref p, .fetch p] ++ evs ++ [.deref p] := by
        simp only [List.mem_append, not_or]
        refine ⟨⟨by simp, fun hm => ?_⟩, by simp⟩
        -- room is not made by removing an item with the hash value of the key
        exact (he _ hm).2.2.1 (congrArg cfg.hash hk)
      have hentry := h.entries_eq_some.mpr ⟨p, hp, hk, rfl⟩
      have hentry' := ht.entries_kept h hp hk (fun e hm => (hplain e hm).1 p) hun
      exact .storeNoRoom hcomm (by simp [Store.cache, hentry]) (hentry'.trans hentry.symm)
        (ht.loses h fun q _ e hm => (hplain e hm).1 q) (ht.casId_eq fun e hm => (hplain e hm).2)
  | joined s' p r evs hcomm hp hk hd hmis ht he hr hne =>
      obtain ⟨hentry, hid⟩ := Trace.entry_joined ([.ref p, .fetch p] ++ evs) [.unlink p, .deref p]
        [.deref p, .deref r]
        (by simpa [Store.suffixFlags] using ht) h
        (by
          simp only [List.forall_mem_append]
          exact ⟨by simp [Event.casIds], fun e hm => (he e hm).plain.2⟩)
        (by simp [Event.Rewrites, Event.casIds]) (by simp [Event.Rewrites, Event.casIds])
      refine .stored (o := some (s.entry p))
        (Or.inr (h.entries_eq_some.mpr ⟨p, hp, hk, rfl⟩).symm) ?_ ⟨?_, hother⟩ hid
      · rcases hcomm with rfl | rfl
        · simp only [Comm.answer, hcas]
          rw [if_neg hmis]
        · simp only [Comm.answer, hcas]
          rw [if_neg hmis]
      · simp only [Comm.written, if_pos hcomm]
        exact hentry

/-! ## Counting -/

/-- The suffix of every item in use was written by `item_make_header`. -/
def Store.Headed (s : Store) (g : Ghost) : Prop :=
  ∀ q, s.InUse g q → ∃ nkey flags nbytes, s.suffix q = (itemMakeHeader nkey flags nbytes).1

/-- One store event keeps the suffixes that `item_make_header` wrote. -/
theorem Prim.headed {e : Event} (hm : Prim cfg s g e s' g') (h : Inv cfg s g) (hh : s.Headed g) :
    s'.Headed g' := by
  intro q hq
  have hi := congrArg Item.suffix (hm.item h hq)
  rcases hm.inUse h hq with hu | hc
  · obtain ⟨nkey, flags, nbytes, hs⟩ := hh q hu
    have hs : (s.item q).suffix = _ := hs
    cases e with
    | create p key flags' exptime nbytes' =>
        by_cases hqp : q = p
        · rw [Event.item, if_pos hqp] at hi
          exact ⟨key.length + 1, flags', nbytes', hi⟩
        · rw [Event.item, if_neg hqp] at hi
          exact ⟨nkey, flags, nbytes, hi.trans hs⟩
    | unlink p | link p _ | refresh p | touch p _ | write p _ | setCas p _ | inPlace p _ =>
        refine ⟨nkey, flags, nbytes, hi.trans ?_⟩
        rw [Event.item]
        split <;> exact hs
    | _ => exact ⟨nkey, flags, nbytes, hi.trans hs⟩
  · cases e with
    | create p key flags exptime nbytes =>
        have hqp : q = p := hc
        rw [Event.item, if_pos hqp] at hi
        exact ⟨key.length + 1, flags, nbytes, hi⟩
    | _ => exact hc.elim

/-- A section keeps the suffixes that `item_make_header` wrote. -/
theorem Trace.headed (ht : Trace cfg s g evs s' g') (h : Inv cfg s g) (hh : s.Headed g) :
    s'.Headed g' :=
  ht.preserves (P := fun t f => t.Headed f) h hh fun hm _ hI ht => hm.headed hI ht

/-- `do_add_delta` skips the blank of the suffix itself. -/
theorem Store.Headed.deltaFlags_eq (hh : s.Headed g) (hu : s.InUse g p) :
    s.deltaFlags p = s.suffixFlags p := by
  obtain ⟨nkey, flags, nbytes, hs⟩ := hh p hu
  rw [Store.deltaFlags, Store.suffixFlags, hs, itemMakeHeader_fst, List.drop_succ_cons, List.drop_zero,
    CNumber.strtol, CNumber.strtol, CNumber.scanNumeral_space (by decide)]

/-- The CAS id of a request that is not refused. -/
theorem reqCas_cases {reqCas cas : ℕ} (h : ¬ (reqCas ≠ 0 ∧ cas ≠ reqCas)) :
    reqCas = 0 ∨ reqCas = cas := by
  by_contra hc
  rw [not_or] at hc
  exact h ⟨hc.1, fun heq => hc.2 heq.symm⟩

/-- **`do_add_delta` is a step of the map.** -/
theorem DeltaResult.cache_step {beyond : Bytes} {incr : Bool} {delta reqCas : ℕ} {busy : List Ptr}
    {r : Store × DeltaResultType × Option (ℕ × ℕ)}
    (hr : DeltaResult cfg beyond s g key incr delta reqCas busy r) (h : Inv cfg s g)
    (hh : s.Headed g) :
    Cache.Step cfg (s.cache cfg) (.delta key incr delta reqCas beyond r.2.1 r.2.2)
      (r.1.cache cfg) := by
  obtain ⟨L, hwf⟩ := id h
  have hcas : ∀ q, (s.entry q).cas = s.itemGetCas q := fun _ => rfl
  have hnumber : ∀ q, s.Linked q →
      (s.entry q).number beyond = CNumber.safeStrtoull (s.data q ++ beyond) := fun q hq => by
    rw [Store.data_eq_value (hwf.length_data q (Or.inl hq)) (hwf.crlf q hq)]
    rfl
  have hother : ∀ j e, j ≠ key → r.1.entries cfg j = some e → s.entries cfg j = some e := by
    obtain ⟨evs, ht, he⟩ : ∃ evs, Trace cfg s g evs r.1 g ∧
        ∀ e ∈ evs, e.Within cfg s g (· = key) (· = key) none busy := hr.within rfl rfl
    intro j e hj hje
    exact ht.entries_other h (by simp) he hj hje
  cases hr with
  | notFound s' evs ht he hdead =>
      exact .notFound (ht.loses h fun q _ e hm => (he e hm).not_rewrites)
        (ht.casId_eq fun e hm => (he e hm).casIds_eq)
  | mismatch s' p hp hk hd hmis ht =>
      exact .uncounted (h.entries_eq_some.mpr ⟨p, hp, hk, rfl⟩)
        (ht.entries_kept h hp hk (by simp [Event.Rewrites]) (by simp))
        (Or.inl ⟨rfl, hmis.1, fun heq => hmis.2 heq.symm⟩) (ht.loses h (by simp [Event.Rewrites]))
        (ht.casId_eq (by simp [Event.casIds]))
  | nonNumeric s' p hp hk hd hmis hnum ht =>
      exact .uncounted (h.entries_eq_some.mpr ⟨p, hp, hk, rfl⟩)
        (ht.entries_kept h hp hk (by simp [Event.Rewrites]) (by simp))
        (Or.inr ⟨reqCas_cases hmis, Or.inl ⟨rfl, (hnumber p hp).trans hnum⟩⟩)
        (ht.loses h (by simp [Event.Rewrites])) (ht.casId_eq (by simp [Event.casIds]))
  | inPlace s' p m hp hk hd hmis hnum h0 ht =>
      have hl : s'.Linked p := ht.linked h hp (by simp)
      have hpre : ∀ t f, Trace cfg s g [.ref p, .fetch p] t f → t.key p = key := by
        intro t f h₁
        have hl₁ := h₁.linked h hp (by simp)
        exact (h₁.entry_kept h (by simp [Event.Rewrites]) hl₁).2.1.trans hk
      have ht' : Trace cfg s g ([.ref p, .fetch p] ++ .inPlace p
          (padded (CNumber.decDigits (deltaValue incr m delta)) (s.value p).length) ::
            [.refresh p, .deref p]) s' g := ht
      obtain ⟨hk', hv⟩ := ht'.value_written h (Or.inr rfl) hpre (by simp [Event.Overwrites]) hl
      obtain ⟨t, f, b, time, h₁, hi, -, hentry⟩ := ht'.entry_rewritten [.ref p, .fetch p]
        [.refresh p, .deref p] h hl (by simp [Event.Rewrites]) (by simp [Event.Rewrites])
        (by simp [Event.Creates])
      have hid₁ : t.casId = s.casId := h₁.casId_eq (by simp [Event.casIds])
      have hid : s'.casId = s.casId + if cfg.useCas then 1 else 0 := by
        obtain ⟨t', f', h₂, h₃⟩ := ht'.split
        cases h₃ with
        | cons hm h₄ =>
            rw [h₄.casId_eq (by simp [Event.casIds])]
            exact (congrArg Globals.casId hm.globals).trans
              (congrArg (· + _) (h₂.casId_eq (by simp [Event.casIds])))
      rw [Event.item, if_pos rfl, hi] at hentry
      have hentry' : s'.entry p = { s.entry p with value := s'.value p, cas := s.nextCas cfg } := by
        have hval : (s'.entry p).value = s'.value p := rfl
        rw [← hval, hentry, Store.nextCas, ← hid₁]
        rfl
      refine .counted (e := s.entry p) (h.entries_eq_some.mpr ⟨p, hp, hk, rfl⟩) (reqCas_cases hmis)
        ((hnumber p hp).trans hnum) (Or.inr rfl) ⟨?_, hother⟩ hid
      refine (ht.inv h).entries_eq_some.mpr ⟨p, hl, hk', hentry'.trans ?_⟩
      rw [hv]
      rfl
  | noRoom s' p evs hp hk hd hmis ht he =>
      have hplain : ∀ e ∈ [.ref p, .fetch p] ++ evs ++ [.deref p],
          (∀ q, ¬ e.Rewrites q) ∧ e.casIds cfg = 0 := by
        simp only [List.forall_mem_append]
        exact ⟨⟨by simp [Event.Rewrites, Event.casIds], fun e hm => (he e hm).plain⟩,
          by simp [Event.Rewrites, Event.casIds]⟩
      have hun : .unlink p ∉ [.ref p, .fetch p] ++ evs ++ [.deref p] := by
        simp only [List.mem_append, not_or]
        refine ⟨⟨by simp, fun hm => ?_⟩, by simp⟩
        exact (he _ hm).2.2.1 (congrArg cfg.hash hk)
      exact .uncounted (h.entries_eq_some.mpr ⟨p, hp, hk, rfl⟩)
        (ht.entries_kept h hp hk (fun e hm => (hplain e hm).1 p) hun)
        (Or.inr ⟨reqCas_cases hmis, Or.inr rfl⟩)
        (ht.loses h fun q _ e hm => (hplain e hm).1 q) (ht.casId_eq fun e hm => (hplain e hm).2)
  | replaced s' p r m evs hp hk hd hmis hnum hbig ht he hr hne =>
      obtain ⟨hentry, hid⟩ := Trace.entry_joined ([.ref p, .fetch p] ++ evs) [.unlink p, .deref p]
        [.setCas p (s.nextCas cfg), .deref r, .deref p]
        (by
          rw [List.append_assoc]
          exact ht) h
        (by
          simp only [List.forall_mem_append]
          exact ⟨by simp [Event.casIds], fun e hm => (he e hm).plain.2⟩)
        (by simp [Event.Rewrites, Event.casIds]) (by simp [Event.Rewrites, Event.casIds, hne])
      refine .counted (e := s.entry p) (h.entries_eq_some.mpr ⟨p, hp, hk, rfl⟩) (reqCas_cases hmis)
        ((hnumber p hp).trans hnum) (Or.inl rfl) ⟨?_, hother⟩ hid
      refine hentry.trans ?_
      have hflags : CNumber.toInt32 (CNumber.strtol ((s.suffix p).drop 1)) = (s.entry p).flags :=
        hh.deltaFlags_eq (Or.inl hp)
      rw [hflags]
      rfl

/-! ## The other sections -/

/-- A section that writes no entry is nothing to the map, but for what is lost. -/
theorem Trace.cache_other (ht : Trace cfg s g evs s' g') (h : Inv cfg s g)
    (he : ∀ e ∈ evs, (∀ q, ¬ e.Rewrites q) ∧ e.casIds cfg = 0) :
    Cache.Step cfg (s.cache cfg) .other (s'.cache cfg) :=
  .other (ht.loses h fun q _ e hm => (he e hm).1 q) (ht.casId_eq fun e hm => (he e hm).2)

/-- **`do_item_get` is a step of the map.** -/
theorem GetResult.cache_step {r : Store × Option Ptr} (hr : GetResult cfg s g key r)
    (h : Inv cfg s g) :
    Cache.Step cfg (s.cache cfg) (.get key (r.2.map s.entry)) (r.1.cache cfg) := by
  cases hr with
  | miss s' evs ht he hdead hno =>
      refine .miss ?_ (ht.loses h fun q _ e hm => (he e hm).not_rewrites)
        (ht.casId_eq fun e hm => (he e hm).casIds_eq)
      rw [Option.eq_none_iff_forall_ne_some]
      intro e hc
      obtain ⟨q, hq, hk, -⟩ := (ht.inv h).entries_eq_some.mp hc
      exact hno q hq hk
  | hit s' p hp hk hd hs' ht =>
      have hkept := ht.entries_kept h hp hk (by simp [Event.Rewrites]) (by simp)
      exact .hit (h.entries_eq_some.mpr ⟨p, hp, hk, rfl⟩)
        ⟨hkept, fun j e _ => ht.loses h (by simp [Event.Rewrites]) j e⟩
        (ht.casId_eq (by simp [Event.casIds]))

/-- **`do_item_touch` is a step of the map.** -/
theorem TouchResult.cache_step {exptime : ℕ} {r : Store × Option Ptr}
    (hr : TouchResult cfg s g key exptime r) (h : Inv cfg s g) :
    Cache.Step cfg (s.cache cfg) (.touch key exptime (r.2.map s.entry)) (r.1.cache cfg) := by
  cases hr with
  | miss s' evs ht he hdead =>
      exact .untouched (ht.loses h fun q _ e hm => (he e hm).not_rewrites)
        (ht.casId_eq fun e hm => (he e hm).casIds_eq)
  | hit s' p hp hk hd ht =>
      have hl : s'.Linked p := ht.linked h hp (by simp)
      obtain ⟨t, f, b, time, h₁, hi, hkey, hentry⟩ := Trace.entry_rewritten
        [.ref p, .fetch p] [] ht h hl (by simp [Event.Rewrites]) (by simp) (by simp [Event.Creates])
      rw [Event.item, if_pos rfl, hi] at hkey hentry
      refine .touched (h.entries_eq_some.mpr ⟨p, hp, hk, rfl⟩) ⟨?_, fun j e hj hje => ?_⟩
        (ht.casId_eq (by simp [Event.casIds]))
      · exact (ht.inv h).entries_eq_some.mpr ⟨p, hl, hkey.trans hk, hentry⟩
      · have hwithin : ∀ e ∈ ([.ref p, .fetch p, .touch p exptime] : List Event),
            e.Within cfg s g (· = key) (· = key) none [] := by
          simp [Event.Within, hp, hk, hd]
        exact ht.entries_other h (by simp) hwithin hj hje

/-- A walk of a flush writes no entry. -/
theorem Event.Flushes.plain {e : Event} (he : e.Flushes s) :
    (∀ q, ¬ e.Rewrites q) ∧ e.casIds cfg = 0 := by
  cases e with
  | deref | unlink => exact ⟨fun _ hc => hc, rfl⟩
  | _ => exact he.elim

/-- A round of the crawler writes no entry. -/
theorem Event.Crawls.plain {e : Event} (he : e.Crawls s g) :
    (∀ q, ¬ e.Rewrites q) ∧ e.casIds cfg = 0 := by
  cases e with
  | ref | deref | unlink | crawl | other => exact ⟨fun _ hc => hc, rfl⟩
  | _ => exact he.elim

/-- `do_item_alloc` is nothing to the map: the new item is not linked. -/
theorem AllocResult.cache_step {curHv : ℕ} {busy : List Ptr} {flags : ℤ} {exptime nbytes : ℕ}
    {r : Store × Option Ptr} (hr : AllocResult cfg s g curHv busy key flags exptime nbytes r)
    (h : Inv cfg s g) : Cache.Step cfg (s.cache cfg) .other (r.1.cache cfg) := by
  cases hr with
  | fail s' evs ht he => exact ht.cache_other h fun e hm => (he e hm).plain
  | ok s' p evs ht he h0 =>
      obtain ⟨-, -, -, -, hun, -⟩ := ht.created h
      refine .other (ht.loses h fun q hq e hm => ?_) (ht.casId_eq fun e hm => ?_)
      · rcases List.mem_append.mp hm with hm | hm
        · exact (he e hm).plain.1 q
        · rw [List.mem_singleton.mp hm]
          rintro rfl
          exact absurd hq.2 (by simp [hun])
      · rcases List.mem_append.mp hm with hm | hm
        · exact (he e hm).plain.2
        · rw [List.mem_singleton.mp hm]
          rfl

/-- Writing an item that is not linked is nothing to the map. -/
theorem Inv.cache_nread (h : Inv cfg s g) {it : Ptr} (hp : 0 < g.handles it)
    (hl : (s.itFlags it).linked = false) (v : ℕ) {d : Bytes} (hd : d.length = s.nbytes it) :
    Cache.Step cfg (s.cache cfg) .other (((s.itemSetCas it v).setData it d).cache cfg) := by
  have ht : Trace cfg s g [.setCas it v, .write it d] ((s.itemSetCas it v).setData it d) g :=
    .cons (.setCas (Or.inr hp) v) (.single (.write hp hl hd))
  refine .other (ht.loses h fun q hq => ?_) (ht.casId_eq (by simp [Event.casIds]))
  have hne : q ≠ it := by
    rintro rfl
    have hq' : (s.itFlags q).linked = true := hq.2
    exact absurd hq' (by simp [hl])
  simp [Event.Rewrites, hne]

/-- **`do_item_unlink` is a step of the map.** -/
theorem Inv.cache_unlink (h : Inv cfg s g) (hp : s.Linked p) :
    Cache.Step cfg (s.cache cfg) (.delete (s.key p))
      ((s.doItemUnlink cfg p (cfg.hash (s.key p))).cache cfg) := by
  have ht := Trace.doItemUnlink cfg g hp
  refine .delete ?_ (ht.loses h (by simp [Event.Rewrites])) (ht.casId_eq (by simp [Event.casIds]))
  rw [Option.eq_none_iff_forall_ne_some]
  intro e hc
  obtain ⟨q, hq, hk, -⟩ := (ht.inv h).entries_eq_some.mp hc
  obtain ⟨hql, hqk, -⟩ := ht.entry_kept h (by simp [Event.Rewrites]) hq
  obtain ⟨L, hwf⟩ := h
  obtain rfl := hwf.key_inj q p hql hp (hqk.symm.trans hk)
  have hi := congrArg Item.linked (item_doItemUnlink ⟨L, hwf⟩ hp (Or.inl hq)).2
  rw [if_pos rfl] at hi
  exact absurd (hq.2.symm.trans hi) (by simp)

/-! ## The server -/

namespace World

/-- **What a step of the server is to the map.** -/
def cacheOp (w : World n) : Op n × Reply → CacheOp
  | (.itemGet _ key _, .item o) => .get key (o.map w.store.entry)
  | (.itemTouch _ key exptime _, .item o) => .touch key exptime (o.map w.store.entry)
  | (.storeItem i comm _, .stored r _) =>
      match (w.conns i).item with
      | some it => .store comm (w.store.key it) (w.store.entry it) r
      | none => .other
  | (.addDelta _ key incr delta reqCas _ beyond, .delta r v) => .delta key incr delta reqCas beyond r v
  | (.itemUnlink _ p, _) =>
      if (w.store.itFlags p).linked then .delete (w.store.key p) else .other
  | _ => .other

/-- The server is in order, and its items have headers. -/
structure InOrder (cfg : Settings) (w : World n) : Prop where
  ok : w.Ok cfg
  headed : w.store.Headed w.ghost

/-- An empty server is in order. -/
theorem inOrder_init (cfg : Settings) (n : ℕ) : (World.init n).InOrder cfg := by
  refine ⟨ok_init cfg n, fun q hq => ?_⟩
  rcases hq with hq | hq
  · exact absurd hq.2 (by simp [World.init, Store.init])
  · exact absurd hq (by simp [World.ghost, World.init, Conn.refs])

/-- **One step of the server keeps the order.** -/
theorem InOrder.step {l : Op n × Reply} (h : w.InOrder cfg) (hst : w.SafeStep cfg l w') :
    w'.InOrder cfg := by
  refine ⟨h.ok.step hst, ?_⟩
  obtain ⟨⟨hen, he⟩, hs⟩ := hst
  obtain rfl := (congrArg Prod.fst he).symm
  by_cases hop : l.1.Global
  · cases hl : l.1 with
    | flushAll exptime =>
        obtain ⟨evs, ht, -⟩ := Trace.flushAll h.ok.inv exptime
        exact ht.headed (h.ok.inv.congr rfl) h.headed
    | clock now => exact h.headed
    | rebalance signal slabStart slabEnd => exact h.headed
    | _ =>
        rw [hl] at hop
        exact hop.elim
  · obtain ⟨evs, ht, -⟩ := h.ok.effect hen hs hop
    exact ht.headed h.ok.inv h.headed

/-- A response holds its items by references. -/
theorem handles_pos_of_response {i : Fin n} {p : Ptr}
    (hp : p ∈ (w.conns i).fetched ++ (w.conns i).held) : 0 < w.ghost.handles p :=
  handles_pos (i := i) (by
    rw [Conn.refs, List.append_assoc]
    exact List.mem_append_right _ hp)

/-- **Every step of the server is a step of the map.** -/
theorem InOrder.cache_step {l : Op n × Reply} (h : w.InOrder cfg) (hst : w.SafeStep cfg l w') :
    Cache.Step cfg (w.store.cache cfg) (w.cacheOp l) (w'.store.cache cfg) := by
  obtain ⟨⟨hen, he⟩, hs⟩ := hst
  obtain ⟨op, r⟩ := l
  simp only at hen he hs
  have hInv := h.ok.inv
  cases op with
  | itemAlloc i key flags exptime nbytes env =>
      obtain ⟨hi, hn, hf⟩ := hen
      have hstep := (allocResult_doItemAlloc hInv rfl hf hs hn exptime).cache_step hInv
      rw [exec] at he
      generalize w.store.doItemAlloc cfg env key flags exptime nbytes 0 = a at hstep he
      obtain ⟨s', o⟩ := a
      cases o with
      | none =>
          obtain ⟨rfl, -⟩ := Prod.mk.inj he
          exact hstep
      | some p =>
          obtain ⟨rfl, -⟩ := Prod.mk.inj he
          exact hstep
  | nread i d v =>
      obtain ⟨it, hi, hd⟩ := hen
      simp only [exec, hi] at he
      obtain ⟨rfl, rfl⟩ := Prod.mk.inj he
      obtain ⟨h1, hl⟩ := h.ok.pending i it hi
      exact hInv.cache_nread (by omega) hl v hd
  | storeItem i comm env =>
      obtain ⟨it, hi, hcrlf, -⟩ := id hen
      have hres := h.ok.storeResult hen hs hi
      have hstep := hres.cache_step hInv (h.ok.pending' hi hcrlf)
      simp only [exec, hi] at he
      obtain ⟨rfl, rfl⟩ := Prod.mk.inj he
      simp only [cacheOp, hi]
      exact hstep
  | dropItem i =>
      obtain ⟨it, hi⟩ := Option.isSome_iff_exists.mp hen
      simp only [exec, hi] at he
      obtain ⟨rfl, rfl⟩ := Prod.mk.inj he
      have ht : Trace cfg w.store w.ghost [.deref it] (w.store.doItemRemove cfg it) (w.ghost.drop it) :=
        .single (.deref (handles_pos (i := i) (by simp [Conn.refs, hi])))
      exact ht.cache_other hInv (by simp [Event.Rewrites, Event.casIds])
  | itemGet i key response =>
      have hstep := (getResult_doItemGet hInv hs).cache_step hInv
      rw [exec] at he
      generalize w.store.doItemGet cfg key (cfg.hash key) = a at hstep he
      obtain ⟨rfl, rfl⟩ := Prod.mk.inj he
      exact hstep
  | itemTouch i key exptime response =>
      have hstep := (touchResult_doItemTouch hInv exptime hs).cache_step hInv
      rw [exec] at he
      generalize w.store.doItemTouch cfg key exptime (cfg.hash key) = a at hstep he
      obtain ⟨rfl, rfl⟩ := Prod.mk.inj he
      exact hstep
  | respond i p =>
      obtain ⟨rfl, rfl⟩ := Prod.mk.inj he
      exact .other (.refl _) rfl
  | itemUpdate i p =>
      obtain ⟨rfl, rfl⟩ := Prod.mk.inj he
      have hp : 0 < w.ghost.handles p := handles_pos_of_response hen
      have ht : Trace cfg w.store w.ghost [.refresh p] (w.store.doItemUpdate p) w.ghost :=
        .single (.refresh (Or.inr hp))
      exact ht.cache_other hInv (by simp [Event.Rewrites, Event.casIds])
  | itemUnlink i p =>
      obtain ⟨rfl, rfl⟩ := Prod.mk.inj he
      have hp : 0 < w.ghost.handles p := handles_pos_of_response hen
      have hchunk := hInv.choose_spec.isChunk_of_handles p hp
      simp only [cacheOp]
      split_ifs with hl
      · exact hInv.cache_unlink ⟨hchunk, hl⟩
      · rw [putStore, Store.doItemUnlink, if_neg hl]
        exact .other (.refl _) rfl
  | itemRemove i p =>
      obtain ⟨rfl, rfl⟩ := Prod.mk.inj he
      have hp : 0 < w.ghost.handles p := handles_pos_of_response hen
      have ht : Trace cfg w.store w.ghost [.deref p] (w.store.doItemRemove cfg p) (w.ghost.drop p) :=
        .single (.deref hp)
      exact ht.cache_other hInv (by simp [Event.Rewrites, Event.casIds])
  | addDelta i key incr delta reqCas env beyond =>
      obtain ⟨rfl, rfl⟩ := Prod.mk.inj he
      exact (deltaResult_doAddDelta hInv rfl beyond incr delta reqCas hs.1 hs.2 hen).cache_step hInv
        h.headed
  | flushAll exptime =>
      obtain ⟨rfl, rfl⟩ := Prod.mk.inj he
      obtain ⟨evs, ht, he'⟩ := Trace.flushAll hInv exptime
      exact ht.cache_other (hInv.congr rfl) fun e hm => (he' e hm).plain
  | lruCrawl sid tocrawl =>
      obtain ⟨rfl, rfl⟩ := Prod.mk.inj he
      have ht : Trace cfg w.store w.ghost [.crawl] (w.store.crawlStart sid tocrawl) w.ghost :=
        .single (.crawlStart hs tocrawl)
      exact ht.cache_other hInv (by simp [Event.Rewrites, Event.casIds])
  | crawl sid trylock =>
      obtain ⟨rfl, rfl⟩ := Prod.mk.inj he
      obtain ⟨evs, ht, he'⟩ := Trace.crawlStep hInv trylock sid
      exact ht.cache_other hInv fun e hm => (he' e hm).plain
  | clock now =>
      obtain ⟨rfl, rfl⟩ := Prod.mk.inj he
      exact .other (.refl _) rfl
  | rebalance signal slabStart slabEnd =>
      obtain ⟨rfl, rfl⟩ := Prod.mk.inj he
      exact .other (.refl _) rfl

end World

/-! ## CAS ids -/

/-- A cache as a map whose entries carry versions. -/
def Cache.versioned (c : Cache) : LossyMap.Versioned Bytes Entry := ⟨c.table, c.casId⟩

/-- The same but for the expiry time. -/
def Entry.SameValue (e e' : Entry) : Prop := e'.flags = e.flags ∧ e'.value = e.value

/-- Where CAS ids are in use, they are versions. -/
theorem Cache.Step.versionStep {c c' : Cache} {op : CacheOp} (hu : cfg.useCas = true)
    (h : Cache.Step cfg c op c') :
    LossyMap.VersionStep Entry.cas Entry.SameValue c.versioned c'.versioned := by
  have hnext : c.nextCas cfg = c.casId + 1 := by rw [Cache.nextCas, if_pos hu]
  have hid : c.nextId cfg = c.casId + 1 := by rw [Cache.nextId, if_pos hu]
  cases h with
  | other hl hn | miss hk hl hn | untouched hl hn | refused ho ha hr hl hn
  | storeNoRoom hcomm hk hk' hl hn | uncounted hk hk' hr hl hn | notFound hl hn | delete hk hl hn =>
      exact .lose hl hn
  | hit hk hw hn => exact .amend hk rfl ⟨rfl, rfl⟩ hw hn
  | @touched _ key e exptime hk hw hn =>
      exact .amend (f := { e with exptime := exptime }) hk rfl ⟨rfl, rfl⟩ hw hn
  | @stored _ comm _ new o ho ha hw hn =>
      refine .write ?_ hw (hn.trans hid)
      have hcas : (comm.written new (c.nextCas cfg) o).cas = c.nextCas cfg := by
        cases o with
        | none => rfl
        | some e =>
            simp only [Comm.written]
            split <;> rfl
      exact hcas.trans hnext
  | counted hk hcas hm hbuf hw hn => exact .write hnext hw (hn.trans hid)

namespace World

/-- The steps of a server that is in order. -/
theorem run_inOrder {ls : List (Op n × Reply)} (h : w.InOrder cfg)
    (hr : Run (SafeStep cfg) w ls w') :
    Run (fun w l w' => w.InOrder cfg ∧ w.SafeStep cfg l w') w ls w' :=
  hr.mono h fun h hst => ⟨⟨h, hst⟩, h.step hst⟩

/-- **The server is in order** after every safe run. -/
theorem inOrder_of_run {ls : List (Op n × Reply)} (hr : Run (SafeStep cfg) (World.init n) ls w) :
    w.InOrder cfg :=
  hr.invariant (inOrder_init cfg n) fun h hst => h.step hst

/-- The map of a server that starts is empty. -/
theorem fresh_init (cfg : Settings) (n : ℕ) :
    LossyMap.Fresh Entry.cas ((World.init n).store.cache cfg).versioned := by
  have hempty : ∀ k e, ((World.init n).store.cache cfg).versioned.table k ≠ some e := by
    intro k e hk
    have hk : (World.init n).store.entries cfg k = some e := hk
    obtain ⟨p, hp, -⟩ := (ok_init cfg n).inv.entries_eq_some.mp hk
    exact absurd hp.2 (by simp [World.init, Store.init])
  exact ⟨fun k e hk => absurd hk (hempty k e), fun j k a b ha => absurd ha (hempty j a)⟩

/-- The last version number given out bounds those that are seen. -/
theorem fresh_of_run {ls : List (Op n × Reply)} (hu : cfg.useCas = true)
    (hr : Run (SafeStep cfg) (World.init n) ls w) :
    LossyMap.Fresh Entry.cas (w.store.cache cfg).versioned :=
  LossyMap.Fresh.run (fun w : World n => (w.store.cache cfg).versioned)
    (fun hst => (hst.1.cache_step hst.2).versionStep hu) (fresh_init cfg n)
    (run_inOrder (inOrder_init cfg n) hr)

end World

/-- **CAS ids tell the keys apart**: no two keys have entries with one CAS id, and none is above the
last id given out. -/
theorem casIds_distinct {ls : List (Op n × Reply)} (hu : cfg.useCas = true)
    (hr : Run (World.SafeStep cfg) (World.init n) ls w) {j k : Bytes} {a b : Entry}
    (ha : w.store.entries cfg j = some a) (hb : w.store.entries cfg k = some b) :
    a.cas ≤ w.store.casId ∧ (a.cas = b.cas → j = k) :=
  have hfresh := World.fresh_of_run hu hr
  ⟨hfresh.le j a ha, hfresh.inj j k a b ha hb⟩

/-- The CAS ids of two keys. -/
theorem casIds_distinct_twoKeys :
    1 ≤ World.twoKeys.store.casId ∧ (1 = 2 → [107] = ([109] : Bytes)) := by
  obtain ⟨ls, hrun⟩ := World.run_twoKeys
  have hfirst : World.twoKeys.store.entries .small [107] = some ⟨0, 0, [53], 1⟩ := by decide +kernel
  have hsecond : World.twoKeys.store.entries .small [109] = some ⟨0, 0, [54], 2⟩ := by decide +kernel
  exact casIds_distinct rfl hrun hfirst hsecond

end Memcached
