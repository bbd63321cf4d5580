import Memcached.Deadness
import Memcached.RoundTrip

/-! # Expiration

A client gives an expiration time in one of three forms: never, so many seconds from now, or a time
of the day. The server keeps an unsigned 32-bit number of seconds since it started. What becomes of
the client's time on the way, and for how long the item is found.

* **`deadline`** — what a client's time means.
* **`lapsed_itemExptime`** — when the time that the server keeps has passed.
* **`expiration_of_run`**, **`expiration_appended`** — for how long the item is found, and what
  `append` does to it. -/

namespace Memcached

open CNumber (Bytes)
open Transition (Run)

variable {n : ℕ} {cfg : Settings} {w w' : World n} {s s' : Store} {g g' : Ghost} {e : Event}
  {p q : Ptr} {key : Bytes}

/-! ## What commands make of an expiration time -/

/-- The commands that take an expiration time. -/
inductive ExpiringCommand
  /-- `process_update_command`. -/
  | update (comm : Comm)
  /-- `process_touch_command`. -/
  | touch
  /-- `process_bin_update`. -/
  | binUpdate (comm : Comm)
  /-- `process_bin_get_or_touch`, which touches. -/
  | binTouch
  /-- `complete_incr_bin`, for an item that is not there. -/
  | binIncr
  deriving DecidableEq, Repr

/-- `exptime` of `process_update_command`: a negative one is replaced by one that has passed. -/
def updateExptime (cfg : Settings) (now : ℕ) (exptime : ℤ) : ℕ :=
  realtime cfg now (if exptime < 0 then realtimeMaxdelta + 1 else exptime)

namespace ExpiringCommand

/-- The times a command takes: a `strtol` that fits an `int32_t`, or a `uint32_t`, of which
`complete_incr_bin` leaves one out. -/
def Accepts (exptime : ℤ) : ExpiringCommand → Prop
  | .update _ | .touch => -2 ^ 31 ≤ exptime ∧ exptime < 2 ^ 31
  | .binUpdate comm =>
      0 ≤ exptime ∧ exptime < 2 ^ 32 ∧ comm ≠ .append ∧ comm ≠ .prepend
  | .binTouch => 0 ≤ exptime ∧ exptime < 2 ^ 32
  | .binIncr => 0 ≤ exptime ∧ exptime < 2 ^ 32 - 1

/-- `it->exptime` as the command sets it. -/
def itemExptime (cfg : Settings) (now : ℕ) (exptime : ℤ) : ExpiringCommand → ℕ
  | .update _ => updateExptime cfg now exptime
  | .touch | .binUpdate _ | .binTouch | .binIncr => realtime cfg now exptime

/-- The `comm` of `do_store_item`, for the commands that store. -/
def comm : ExpiringCommand → Option Comm
  | .update c | .binUpdate c => some c
  | .binIncr => some .add
  | .touch | .binTouch => none

end ExpiringCommand

/-! ## Deadlines -/

/-- **What a client's time means**: the Unix time from which on the item is gone, if there is one,
for a command that comes when the clock shows `now`. -/
def deadline (cfg : Settings) (now : ℕ) (exptime : ℤ) : Option ℤ :=
  if exptime = 0 then none
  else if exptime < 0 then some (cfg.processStarted + now)
  else if exptime ≤ realtimeMaxdelta then some (cfg.processStarted + now + exptime)
  else some exptime

/-- The deadline has come when the clock shows `t`. -/
def Reached (cfg : Settings) (t : ℕ) (d : Option ℤ) : Prop :=
  ∃ u, d = some u ∧ u ≤ cfg.processStarted + t

/-- The item's time has come when the clock shows `t`. -/
def Lapsed (x t : ℕ) : Prop := x ≠ 0 ∧ x ≤ t

/-- What has expired stays expired. -/
theorem Lapsed.mono {x t t' : ℕ} (h : Lapsed x t) (ht : t ≤ t') : Lapsed x t' :=
  ⟨h.1, h.2.trans ht⟩

/-- **The times the server can keep**: it was started after January 1970, the deadline is less than
2 ^ 32 seconds after that, and a `touch` is not given a negative time. -/
structure Keepable (cfg : Settings) (now : ℕ) (cmd : ExpiringCommand) (exptime : ℤ) : Prop where
  started : realtimeMaxdelta < cfg.processStarted
  fits : ∀ u, deadline cfg now exptime = some u → u - cfg.processStarted < 2 ^ 32
  touch : cmd = .touch → 0 ≤ exptime

/-- `realtime` keeps a deadline. -/
theorem lapsed_realtime {now t : ℕ} {exptime : ℤ} (h0 : 0 ≤ exptime) (hnow : 1 ≤ now)
    (hfits : ∀ u, deadline cfg now exptime = some u → u - cfg.processStarted < 2 ^ 32)
    (ht : now ≤ t) :
    Lapsed (realtime cfg now exptime) t ↔ Reached cfg t (deadline cfg now exptime) := by
  unfold Lapsed Reached realtime deadline at *
  by_cases hz : exptime = 0
  · subst hz
    simp
  · rw [if_neg hz, if_neg hz]
    have hneg : ¬ exptime < 0 := by omega
    rw [if_neg hz, if_neg hneg] at hfits
    rw [if_neg hneg]
    by_cases hd : exptime ≤ realtimeMaxdelta
    · -- a number of seconds from now
      have hgt : ¬ exptime > realtimeMaxdelta := not_lt.mpr hd
      rw [if_pos hd] at hfits ⊢
      rw [if_neg hgt]
      have hlt := hfits _ rfl
      simp only [Option.some.injEq, exists_eq_left']
      omega
    · -- a Unix time
      have hgt : exptime > realtimeMaxdelta := not_le.mp hd
      rw [if_neg hd] at hfits ⊢
      rw [if_pos hgt]
      have hlt := hfits _ rfl
      simp only [Option.some.injEq, exists_eq_left']
      split <;> omega

/-- **Every command keeps the deadline it is given**, for times that can be kept. -/
theorem lapsed_itemExptime {cmd : ExpiringCommand} {now t : ℕ} {exptime : ℤ}
    (ha : cmd.Accepts exptime) (hk : Keepable cfg now cmd exptime) (hnow : 1 ≤ now) (ht : now ≤ t) :
    Lapsed (cmd.itemExptime cfg now exptime) t ↔ Reached cfg t (deadline cfg now exptime) := by
  have hreal (h0 : 0 ≤ exptime) :
      Lapsed (realtime cfg now exptime) t ↔ Reached cfg t (deadline cfg now exptime) :=
    lapsed_realtime h0 hnow hk.fits ht
  cases cmd with
  | update comm =>
      show Lapsed (updateExptime cfg now exptime) t ↔ _
      unfold updateExptime
      split
      · -- a negative time has passed
        rename_i hneg
        have hz : exptime ≠ 0 := by omega
        have hpast : realtime cfg now (realtimeMaxdelta + 1) = 1 := by
          have hmax : realtimeMaxdelta + 1 ≠ 0 := by decide
          rw [realtime, if_neg hmax, if_pos (by omega), if_pos (by have := hk.started; omega)]
        rw [hpast, deadline, if_neg hz, if_pos hneg]
        unfold Lapsed Reached
        simp only [Option.some.injEq, exists_eq_left']
        omega
      · rename_i hneg
        exact hreal (by omega)
  | touch => exact hreal (hk.touch rfl)
  | binUpdate comm | binTouch | binIncr => exact hreal ha.1

/-! ## Who sets the expiration time of an item -/

/-- The key and the expiration time of an item. -/
def Store.lease (s : Store) (p : Ptr) : Bytes × ℕ := (s.key p, s.exptime p)

/-- The step sets the expiration time of `q`. -/
def Event.SetsExptime (q : Ptr) : Event → Prop
  | touch p _ | create p _ _ _ _ => q = p
  | _ => False

/-- A step leaves the key and the expiration time of an item in use, unless it sets them. -/
theorem Prim.lease (hm : Prim cfg s g e s' g') (h : Inv cfg s g) (he : ¬ e.SetsExptime q)
    (hu : s'.InUse g' q) : s'.lease q = s.lease q := by
  have hlease : ∀ {t : Store} {i : Item}, t.item q = i → t.lease q = (i.key, i.exptime) := by
    rintro t i rfl
    rfl
  rw [hlease (hm.item h hu)]
  cases e with
  | touch p _ | create p _ _ _ _ =>
      have hne : ¬ q = p := he
      rw [Event.item, if_neg hne]
      rfl
  | unlink p | link p _ | refresh p | write p _ | setCas p _ | inPlace p _ =>
      rw [Event.item]
      split <;> rfl
  | _ => rfl

/-- A section that does not set them leaves the key and the expiration time of an item in use. -/
theorem Trace.lease {es : List Event} (h : Trace cfg s g es s' g') (hI : Inv cfg s g)
    (he : ∀ e ∈ es, ¬ e.SetsExptime q) (hu : s'.InUse g' q) :
    s.InUse g q ∧ s'.lease q = s.lease q := by
  -- by induction on the section, from the state after it
  induction h with
  | nil => exact ⟨hu, rfl⟩
  | cons hm ht ih =>
      rename_i s s₁ s₂ g g₁ g₂ e es
      obtain ⟨hu₁, hs⟩ := ih (hm.inv hI) (fun e' he' => he e' (List.mem_cons_of_mem _ he')) hu
      have hne := he e (by simp)
      refine ⟨(hm.inUse hI hu₁).resolve_right fun hc => hne ?_, hs.trans (hm.lease hI hne hu₁)⟩
      cases e with
      | create => exact hc
      | _ => exact hc.elim

/-- The step neither links an item under the key nor touches one. -/
def Event.SparesKey (s : Store) (key : Bytes) : Event → Prop
  | link _ k => k ≠ key
  | touch p _ => s.key p ≠ key
  | _ => True

/-- **A section that neither links nor touches** leaves the items under a key their expiration
times. -/
theorem Trace.lease_frame {es : List Event} (ht : Trace cfg s g es s' g') (h : Inv cfg s g)
    (he : ∀ e ∈ es, e.SparesKey s key) (hq : s'.Linked q) (hk : s'.key q = key) :
    s.Linked q ∧ s.key q = key ∧ s'.exptime q = s.exptime q := by
  refine ht.preserves (P := fun t _ => ∀ q, t.Linked q → t.key q = key →
    s.Linked q ∧ s.key q = key ∧ t.exptime q = s.exptime q) h (fun q hq hk => ⟨hq, hk, rfl⟩) ?_
    q hq hk
  intro t f e t' f' hm hmem hI hP q hq hk
  have hspare := he e hmem
  have hlink : ∀ k, e = .link q k → k = key := by
    rintro k rfl
    have hi := congrArg Item.key (hm.item hI (Or.inl hq))
    rw [Event.item, if_pos rfl] at hi
    have hkt : t.key q = k := by
      cases hm
      rfl
    exact hkt.symm.trans (hi.symm.trans hk)
  rcases hm.linked_or_link hI hq with hl | ⟨k, rfl⟩
  · by_cases hset : e.SetsExptime q
    · -- `q` was touched, and was not linked under the key before the section
      exfalso
      cases e with
      | touch p x =>
          obtain rfl : q = p := hset
          have hi := congrArg Item.key (hm.item hI (Or.inl hq))
          rw [Event.item, if_pos rfl] at hi
          exact hspare (hP q hl (hi.symm.trans hk)).2.1
      | create p _ _ _ _ =>
          obtain rfl : q = p := hset
          have hi := congrArg Item.linked (hm.item hI (Or.inl hq))
          rw [Event.item, if_pos rfl] at hi
          exact absurd (hi.symm.trans hq.2) (by simp)
      | _ => exact hset
    · have hle := hm.lease hI hset (Or.inl hq)
      have hkey : t'.key q = t.key q := congrArg Prod.fst hle
      have hexp : t'.exptime q = t.exptime q := congrArg Prod.snd hle
      obtain ⟨h₁, h₂, h₃⟩ := hP q hl (hkey.symm.trans hk)
      exact ⟨h₁, h₂, hexp.trans h₃⟩
  · exact absurd (hlink k rfl) hspare

/-- What a section links and does not unlink again is linked after it. -/
theorem Trace.linked_of_link {pre post : List Event} {k : Bytes}
    (ht : Trace cfg s g (pre ++ .link p k :: post) s' g') (h : Inv cfg s g)
    (hpost : .unlink p ∉ post) : s'.Linked p := by
  obtain ⟨t, f, h₁, h₂⟩ := ht.split
  cases h₂ with
  | cons hm h₃ =>
      rename_i t' f'
      have hinv := h₁.inv h
      have hheld : 0 < f.handles p ∧ 0 < f'.handles p := by
        cases hm
        exact ⟨‹_›, ‹_›⟩
      have hi := hm.item hinv (Or.inr hheld.2)
      rw [Event.item, if_pos rfl] at hi
      exact h₃.linked (hm.inv hinv) ⟨hinv.choose_spec.isChunk_of_handles p hheld.1,
        congrArg Item.linked hi⟩ hpost

/-- **A new item takes over the expiration time** it is created with. -/
theorem Trace.lease_created {pre post : List Event} {flags : ℤ} {exptime nbytes : ℕ}
    (ht : Trace cfg s g (pre ++ .create p key flags exptime nbytes :: post) s' g')
    (h : Inv cfg s g) (hpost : ∀ e ∈ post, ¬ e.SetsExptime p) (hp : s'.Linked p) :
    s'.lease p = (key, exptime) := by
  obtain ⟨t, f, h₁, h₂⟩ := ht.split
  cases h₂ with
  | cons hm h₃ =>
      have hinv := h₁.inv h
      obtain ⟨hu, hle⟩ := h₃.lease (hm.inv hinv) hpost (Or.inl hp)
      have hi := hm.item hinv hu
      rw [Event.item, if_pos rfl] at hi
      rw [hle]
      exact Prod.ext (congrArg Item.key hi) (congrArg Item.exptime hi)

/-! ## Commands that set it -/

/-- What `add`, `set`, `replace` and `cas` link is the item that was uploaded, with its expiration
time. -/
theorem StoreResult.lease_stored {it : Ptr} {comm : Comm} {busy : List Ptr}
    {r : Store × StoreItemType × Option ℕ} (hr : StoreResult cfg s g it comm busy r)
    (h : Inv cfg s g) (hit : s.Pending g it) (hcomm : comm ≠ .append ∧ comm ≠ .prepend)
    (hst : r.2.1 = .stored) : r.1.Linked it ∧ r.1.lease it = s.lease it := by
  cases hr with
  | new s' evs _ ht he hdead =>
      have hl := (ht.linked_item evs [] h (fun e hm => (he e hm).not_rewrites) (by simp)).1
      refine ⟨hl, (ht.lease h ?_ (Or.inl hl)).2⟩
      intro e hm
      rcases List.mem_append.mp hm with hm | hm
      · have hb := he e hm
        cases e <;> first | exact id | exact hb.elim
      · rw [List.mem_singleton.mp hm]
        exact id
  | replaced s' p hp hk hd _ ht =>
      have hne : it ≠ p := by
        rintro rfl
        exact absurd hp.2 (by simp [hit.unlinked])
      have hl := (ht.linked_item [.ref p, .fetch p, .unlink p, .deref p] [.deref p] h
        (by simp [Event.Rewrites]) (by simp [Event.Rewrites])).1
      exact ⟨hl, (ht.lease h (by simp [Event.SetsExptime]) (Or.inl hl)).2⟩
  | absent s' evs _ ht he hdead =>
      simp only at hst
      split at hst <;> exact absurd hst (by simp)
  | present | mismatch | noRoom => exact absurd hst (by simp)
  | joined s' p n evs h' => exact absurd h' (by simp [hcomm])

namespace World

/-- **A command sets an expiration time under a key**: it touches the item, or it uploads one while
the others go on, and stores it. -/
inductive SetsExptime (cfg : Settings) (key : Bytes) (x : ℕ) :
    Option Comm → World n → World n → Prop
  | touch {w w' : World n} {i : Fin n} {response : Bool} {p : Ptr}
      (h : w.SafeStep cfg (.itemTouch i key x response, .item (some p)) w') :
      SetsExptime cfg key x none w w'
  | store {w w₁ w₂ w₃ : World n} {i : Fin n} {flags : ℤ} {nbytes : ℕ} {env env' : AllocEnv}
      {it : Ptr} {ls : List (Op n × Reply)} {comm : Comm} {cas : Option ℕ}
      (halloc : w.SafeStep cfg (.itemAlloc i key flags x nbytes env, .item (some it)) w₁)
      (hupload : Run (fun w l w' => w.SafeStep cfg l w' ∧ (w'.conns i).item = some it) w₁ ls w₂)
      (hstore : w₂.SafeStep cfg (.storeItem i comm env', .stored .stored cas) w₃) :
      SetsExptime cfg key x (some comm) w w₃

/-- The clock does not run backwards. -/
theorem Ok.currentTime_le (h : w.Ok cfg) {l : Op n × Reply} (hst : w.SafeStep cfg l w') :
    w.store.currentTime ≤ w'.store.currentTime := by
  obtain ⟨⟨hen, he⟩, hs⟩ := hst
  obtain rfl := (congrArg Prod.fst he).symm
  by_cases hop : l.1.Global
  · cases hl : l.1 with
    | flushAll exptime =>
        obtain ⟨evs, ht, -⟩ := Trace.flushAll h.inv exptime
        exact ht.currentTime.ge
    | clock now =>
        rw [hl] at hen
        exact hen
    | rebalance signal slabStart slabEnd => exact le_rfl
    | _ =>
        rw [hl] at hop
        exact hop.elim
  · obtain ⟨evs, ht, -⟩ := h.effect hen hs hop
    exact ht.currentTime.ge

/-- The item a connection uploads keeps its key and its expiration time. -/
theorem Ok.lease_upload (h : w.Ok cfg) {l : Op n × Reply} (hst : w.SafeStep cfg l w') {i : Fin n}
    {it : Ptr} (hi : (w.conns i).item = some it) (hi' : (w'.conns i).item = some it) :
    w'.store.lease it = w.store.lease it := by
  obtain ⟨⟨hen, he⟩, hs⟩ := hst
  obtain rfl := (congrArg Prod.fst he).symm
  obtain ⟨hone, hunlinked⟩ := h.pending i it hi
  have hu : (w.exec cfg l.1).1.store.InUse (w.exec cfg l.1).1.ghost it :=
    Or.inr (World.handles_pos (i := i) (by simp [Conn.refs, hi']))
  by_cases hop : l.1.Global
  · cases hl : l.1 with
    | flushAll exptime =>
        rw [hl] at hu
        obtain ⟨evs, ht, hf⟩ := Trace.flushAll h.inv exptime
        refine (ht.lease (h.inv.congr rfl) (fun e hm => ?_) hu).2
        have := hf e hm
        cases e <;> first | exact id | exact this.elim
    | clock now => rfl
    | rebalance signal slabStart slabEnd => rfl
    | _ =>
        rw [hl] at hop
        exact hop.elim
  · obtain ⟨evs, ht, hev⟩ := h.effect hen hs hop
    refine (ht.lease h.inv (fun e hm => ?_) hu).2
    have hwithin := hev e hm
    cases e with
    | touch p x =>
        rintro rfl
        exact absurd hwithin.1.2 (by simp [hunlinked])
    | create p key flags exptime nbytes =>
        rintro rfl
        have := hwithin.2
        omega
    | _ => exact id

/-- Every item under the key expires at `x`; and there is one, or `x` has come. -/
structure Expires (s : Store) (key : Bytes) (x : ℕ) : Prop where
  exptime : ∀ p, s.Linked p → s.key p = key → s.exptime p = x
  linked : (∃ p, s.Linked p ∧ s.key p = key) ∨ Lapsed x s.currentTime

/-- One item under the key tells for all. -/
theorem Ok.expires (h : w.Ok cfg) {x : ℕ} (hp : w.store.Linked p)
    (hle : w.store.lease p = (key, x)) : Expires w.store key x := by
  have hk : w.store.key p = key := congrArg Prod.fst hle
  refine ⟨fun q hq hkq => ?_, Or.inl ⟨p, hp, hk⟩⟩
  obtain ⟨L, hwf⟩ := h.inv
  rw [hwf.key_inj q p hq hp (hkq.trans hk.symm)]
  exact congrArg Prod.snd hle

/-- **A command that sets an expiration time does.** -/
theorem Ok.expires_of_sets (h : w.Ok cfg) {x : ℕ} {comm : Option Comm}
    (hset : SetsExptime cfg key x comm w w')
    (hcomm : comm ≠ some .append ∧ comm ≠ some .prepend) :
    w'.Ok cfg ∧ Expires w'.store key x ∧ w.store.currentTime ≤ w'.store.currentTime := by
  cases hset with
  | @touch _ _ i response p hst =>
      have hok := h.step hst
      refine ⟨hok, ?_, h.currentTime_le hst⟩
      obtain ⟨⟨hen, he⟩, hs⟩ := hst
      have htouch := touchResult_doItemTouch h.inv x hs
      rw [World.exec] at he
      generalize w.store.doItemTouch cfg key x (cfg.hash key) = r at htouch he
      cases htouch with
      | miss s' evs ht he' hdead => exact absurd (congrArg Prod.snd he) (by simp)
      | hit s' q hq hk hd ht =>
          obtain ⟨rfl, -⟩ := Prod.mk.inj he
          have hl : s'.Linked q := ht.linked h.inv hq (by simp)
          refine hok.expires hl ?_
          have ht' : Trace cfg w.store w.ghost ([.ref q, .fetch q] ++ [.touch q x]) s'
            (w.ghost.hold q) := ht
          obtain ⟨t, f, h₁, h₂⟩ := ht'.split
          cases h₂ with
          | cons hm h₃ =>
              cases h₃
              have hi := hm.item (h₁.inv h.inv) (Or.inl hl)
              rw [Event.item, if_pos rfl] at hi
              obtain ⟨-, hle⟩ := h₁.lease h.inv (by simp [Event.SetsExptime])
                (q := q) (Or.inl (h₁.linked h.inv hq (by simp)))
              have hkt : t.key q = w.store.key q := congrArg Prod.fst hle
              have hks : s'.key q = t.key q := congrArg Item.key hi
              exact Prod.ext (hks.trans (hkt.trans hk)) (congrArg Item.exptime hi)
  | @store _ w₁ w₂ _ i flags nbytes env env' it ls comm cas halloc hupload hstore =>
      have hle₁ : (w₁.conns i).item = some it ∧ w₁.store.lease it = (key, x) := by
        obtain ⟨⟨⟨hi, hn, hf⟩, he⟩, hs⟩ := halloc
        have hal := allocResult_doItemAlloc h.inv rfl hf hs hn x
        rw [World.exec] at he
        generalize w.store.doItemAlloc cfg env key flags x nbytes 0 = r at hal he
        cases hal with
        | fail s' evs ht he' => exact absurd (congrArg Prod.snd he) (by simp)
        | ok s' q evs ht he' h0 =>
            obtain ⟨rfl, hq⟩ := Prod.mk.inj he
            obtain rfl : q = it := by simpa using hq
            obtain ⟨hk, -, -, hx, -⟩ := ht.created h.inv
            exact ⟨by simp, Prod.ext hk hx⟩
      obtain ⟨hok₂, hi₂, hle₂, hnow₂⟩ : w₂.Ok cfg ∧ (w₂.conns i).item = some it ∧
          w₂.store.lease it = (key, x) ∧ w.store.currentTime ≤ w₂.store.currentTime := by
        refine hupload.invariant (P := fun v => v.Ok cfg ∧ (v.conns i).item = some it ∧
          v.store.lease it = (key, x) ∧ w.store.currentTime ≤ v.store.currentTime)
          ⟨h.step halloc, hle₁.1, hle₁.2, h.currentTime_le halloc⟩ ?_
        rintro u l v ⟨hok, hi, hle, hnow⟩ ⟨hst, hi'⟩
        exact ⟨hok.step hst, hi', (hok.lease_upload hst hi hi').trans hle,
          hnow.trans (hok.currentTime_le hst)⟩
      have hok := hok₂.step hstore
      refine ⟨hok, ?_, hnow₂.trans (hok₂.currentTime_le hstore)⟩
      obtain ⟨⟨hen, he⟩, hs⟩ := hstore
      have hr := hok₂.storeResult hen hs hi₂
      obtain ⟨it', hi', hcrlf, -⟩ := hen
      obtain rfl : it' = it := Option.some.inj (hi'.symm.trans hi₂)
      simp only [World.exec, hi₂] at he
      generalize w₂.store.doStoreItem cfg env' it' comm (cfg.hash (w₂.store.key it')) = r at hr he
      obtain ⟨rfl, hrep⟩ := Prod.mk.inj he
      have hstored : r.2.1 = .stored := by
        have := Reply.stored.inj hrep
        exact this.1
      obtain ⟨hl, hle⟩ := hr.lease_stored hok₂.inv (hok₂.pending' hi₂ hcrlf)
        ⟨fun hc => hcomm.1 (by rw [hc]), fun hc => hcomm.2 (by rw [hc])⟩ hstored
      exact hok.expires hl (hle.trans hle₂)

/-! ## Until it is found -/

/-- **A step that leaves an expiration time alone**: it does not touch the key, stores nothing under
it but what it appends or prepends, and unlinks no item under it before the item has expired. -/
structure LeavesExptime (cfg : Settings) (key : Bytes) (w : World n) (l : Op n × Reply)
    (w' : World n) : Prop where
  step : w.SafeStep cfg l w'
  notTouched : ∀ i exptime response, l.1 ≠ .itemTouch i key exptime response
  notStored : w.Stored key l → ∃ i comm env, l.1 = .storeItem i comm env ∧
    (comm = .append ∨ comm = .prepend)
  kept : (∃ p, w.store.Linked p ∧ w.store.key p = key ∧ w.store.expired p = false) →
    ∃ q, w'.store.Linked q ∧ w'.store.key q = key

/-- What is linked under a key after a section that links nothing there but a copy of the old item
has the expiration time of an item linked before. -/
def Inherits (s s' : Store) (key : Bytes) : Prop :=
  ∀ q, s'.Linked q → s'.key q = key →
    ∃ p, s.Linked p ∧ s.key p = key ∧ s'.exptime q = s.exptime p

/-- A section that spares the key leaves its items their times. -/
theorem inherits_of_spares {evs : List Event} (ht : Trace cfg s g evs s' g') (h : Inv cfg s g)
    (he : ∀ e ∈ evs, e.SparesKey s key) : Inherits s s' key := by
  intro q hq hk
  obtain ⟨h₁, h₂, h₃⟩ := ht.lease_frame h he hq hk
  exact ⟨q, h₁, h₂, h₃⟩

/-- A section that ends with a new item linked, created with the expiration time of the old one. -/
theorem inherits_of_created {pre mid post : List Event} {flags : ℤ} {nbytes : ℕ} {p r : Ptr}
    (ht : Trace cfg s g
      (pre ++ .create r key flags (s.exptime p) nbytes :: (mid ++ .link r key :: post)) s' g')
    (h : Inv cfg s g) (hp : s.Linked p) (hk : s.key p = key)
    (hmid : ∀ e ∈ mid, ¬ e.SetsExptime r) (hpost : ∀ e ∈ post, ¬ e.SetsExptime r)
    (hun : .unlink r ∉ post) : Inherits s s' key := by
  have hr : s'.Linked r := by
    have ht' := ht
    rw [← List.cons_append, ← List.append_assoc] at ht'
    exact ht'.linked_of_link h hun
  intro q hq hkq
  have hle := ht.lease_created h (fun e hm => by
    rcases List.mem_append.mp hm with hm | hm
    · exact hmid e hm
    · rcases List.mem_cons.mp hm with rfl | hm
      · exact id
      · exact hpost e hm) hr
  have hkr : s'.key r = key := congrArg Prod.fst hle
  have hxr : s'.exptime r = s.exptime p := congrArg Prod.snd hle
  obtain ⟨L, hwf⟩ := ht.inv h
  obtain rfl := hwf.key_inj q r hq hr (hkq.trans hkr.symm)
  exact ⟨p, hp, hk, hxr⟩

end World

/-- An event that buries dead items spares every key. -/
theorem Event.Buries.spares {e : Event} {k : Bytes} (h : e.Buries s k) : e.SparesKey s key := by
  cases e <;> trivial

/-- An event of an allocation spares every key. -/
theorem Event.Allocs.spares {e : Event} {curHv : ℕ} {busy : List Ptr}
    (h : e.Allocs cfg s g curHv busy) : e.SparesKey s key := by
  cases e <;> trivial

/-- Looking an item up, an allocation, and letting go of the item. -/
theorem spares_alloc {evs : List Event} {curHv : ℕ} {busy : List Ptr} {p : Ptr}
    (he : ∀ e ∈ evs, e.Allocs cfg s g curHv busy) :
    ∀ e ∈ [.ref p, .fetch p] ++ evs ++ [.deref p], e.SparesKey s key := by
  refine List.forall_mem_append.mpr ⟨List.forall_mem_append.mpr ⟨?_, fun e hm => (he e hm).spares⟩,
    ?_⟩ <;> simp [Event.SparesKey]

/-- `do_store_item`, unless it stores another item than a joined one. -/
theorem StoreResult.inherits {it : Ptr} {comm : Comm} {busy : List Ptr}
    {r : Store × StoreItemType × Option ℕ} (hr : StoreResult cfg s g it comm busy r)
    (h : Inv cfg s g) (hst : r.2.1 = .stored → comm = .append ∨ comm = .prepend) :
    World.Inherits s r.1 (s.key it) := by
  cases hr with
  | new s' evs hcomm => exact absurd (hst rfl) (by rcases hcomm with rfl | rfl <;> simp)
  | replaced s' p hp hk hd hcomm =>
      exact absurd (hst rfl) (by rcases hcomm with rfl | rfl | ⟨rfl, -⟩ <;> simp)
  | absent s' evs hcomm ht he => exact World.inherits_of_spares ht h fun e hm => (he e hm).spares
  | present s' p hcomm hp hk hd ht | mismatch s' p hp hk hd hcas ht =>
      exact World.inherits_of_spares ht h (by simp [Event.SparesKey])
  | noRoom s' p evs hcomm hp hk hd hcas ht he =>
      exact World.inherits_of_spares ht h (spares_alloc he)
  | joined s' p m evs hcomm hp hk hd hcas ht he hm hne =>
      refine @World.inherits_of_created _ _ _ _ _ _ ([.ref p, .fetch p] ++ evs)
        [.write m _, .unlink p, .deref p] [.deref p, .deref m] _ _ _ _ ht h hp hk ?_ ?_ (by simp) <;>
      simp [Event.SetsExptime]

/-- `do_add_delta` keeps the expiration time. -/
theorem DeltaResult.inherits {beyond : Bytes} {incr : Bool} {delta reqCas : ℕ} {busy : List Ptr}
    {r : Store × DeltaResultType × Option (ℕ × ℕ)}
    (hr : DeltaResult cfg beyond s g key incr delta reqCas busy r) (h : Inv cfg s g) :
    World.Inherits s r.1 key := by
  cases hr with
  | notFound s' evs ht he => exact World.inherits_of_spares ht h fun e hm => (he e hm).spares
  | mismatch s' p hp hk hd hcas ht | nonNumeric s' p hp hk hd hcas hnum ht
  | inPlace s' p value hp hk hd hcas hnum h0 ht =>
      exact World.inherits_of_spares ht h (by simp [Event.SparesKey])
  | noRoom s' p evs hp hk hd hcas ht he => exact World.inherits_of_spares ht h (spares_alloc he)
  | replaced s' p m value evs hp hk hd hcas hnum hbig ht he hm hne =>
      refine @World.inherits_of_created _ _ _ _ _ _ ([.ref p, .fetch p] ++ evs)
        [.write m _, .unlink p, .deref p] [.setCas p _, .deref m, .deref p] _ _ _ _ ht h hp hk
        ?_ ?_ (by simp) <;>
      simp [Event.SetsExptime]

namespace World

/-- A step is about the keys it may link an item under. -/
theorem about_of_links {op : Op n} (h : w.Links op key) : w.About op key := by
  cases op <;> first | exact h | exact h.elim

/-- **One step**: what is linked under the key has the expiration time of what was. -/
theorem Ok.inherits (h : w.Ok cfg) {l : Op n × Reply} (hst : w.LeavesExptime cfg key l w') :
    Inherits w.store w'.store key := by
  obtain ⟨op, r⟩ := l
  obtain ⟨⟨⟨hen, he⟩, hs⟩, htouch, hstored, -⟩ := hst
  obtain rfl : (w.exec cfg op).1 = w' := congrArg Prod.fst he
  obtain rfl : (w.exec cfg op).2 = r := congrArg Prod.snd he
  by_cases hop : op.Global
  · cases op with
    | flushAll exptime =>
        obtain ⟨evs, ht, hf⟩ := Trace.flushAll h.inv exptime
        intro q hq hk
        obtain ⟨hl, hi⟩ := ht.linked_of_flushes (h.inv.congr rfl) hf hq
        exact ⟨q, hl, (congrArg Item.key hi).symm.trans hk, congrArg Item.exptime hi⟩
    | clock now | rebalance signal slabStart slabEnd =>
        exact fun q hq hk => ⟨q, hq, hk, rfl⟩
    | _ => exact hop.elim
  by_cases habout : w.About op key
  swap
  · -- another key: the step may link or touch only items of the keys it is about
    obtain ⟨evs, ht, hev⟩ := h.effect hen hs hop
    refine inherits_of_spares ht h.inv fun e hm => ?_
    have hwithin := hev e hm
    cases e with
    | link p k =>
        rintro rfl
        exact habout (about_of_links hwithin.1)
    | touch p x =>
        intro hk
        exact habout (hk ▸ hwithin.2.1)
    | _ => trivial
  cases op with
  | itemAlloc i k flags exptime nbytes env =>
      obtain ⟨hi, hn, hf⟩ := hen
      have hal := allocResult_doItemAlloc h.inv rfl hf hs hn exptime
      rw [World.exec]
      generalize w.store.doItemAlloc cfg env k flags exptime nbytes 0 = r at hal
      cases hal with
      | fail s' evs ht he' => exact inherits_of_spares ht h.inv fun e hm => (he' e hm).spares
      | ok s' p evs ht he' h0 =>
          refine inherits_of_spares ht h.inv (List.forall_mem_append.mpr
            ⟨fun e hm => (he' e hm).spares, ?_⟩)
          simp [Event.SparesKey]
  | itemGet i k response =>
      have hget := getResult_doItemGet h.inv hs
      rw [World.exec]
      generalize w.store.doItemGet cfg k (cfg.hash k) = r at hget
      cases hget with
      | miss s' evs ht he' hdead hno =>
          exact inherits_of_spares ht h.inv fun e hm => (he' e hm).spares
      | hit s' p hp hk hd hs' ht => exact inherits_of_spares ht h.inv (by simp [Event.SparesKey])
  | itemTouch i k exptime response =>
      obtain rfl : key = k := habout
      exact absurd rfl (htouch i exptime response)
  | storeItem i comm env =>
      obtain ⟨it, hi, rfl⟩ := habout
      have hres := h.storeResult hen hs hi
      have hcomm : (w.store.doStoreItem cfg env it comm (cfg.hash (w.store.key it))).2.1 = .stored →
          comm = .append ∨ comm = .prepend := by
        intro hr
        obtain ⟨i', comm', env', hop', hc⟩ := hstored (by
          simp only [World.exec, hi, Stored, hr]
          exact ⟨it, hi, rfl⟩)
        obtain ⟨-, rfl, -⟩ := Op.storeItem.inj hop'
        exact hc
      simp only [World.exec, hi]
      exact hres.inherits h.inv hcomm
  | itemUnlink i p =>
      have hp : 0 < w.ghost.handles p := World.handles_pos (i := i) (by
        rw [Conn.refs, List.append_assoc]
        exact List.mem_append_right _ hen)
      by_cases hl : (w.store.itFlags p).linked = true
      · exact inherits_of_spares (Trace.doItemUnlink cfg w.ghost
          ⟨h.inv.choose_spec.isChunk_of_handles p hp, hl⟩) h.inv (by simp [Event.SparesKey])
      · rw [World.exec, Store.doItemUnlink, if_neg hl]
        exact fun q hq hk => ⟨q, hq, hk, rfl⟩
  | addDelta i k incr delta reqCas env beyond =>
      obtain rfl : key = k := habout
      exact (deltaResult_doAddDelta h.inv rfl beyond incr delta reqCas hs.1 hs.2 hen).inherits h.inv
  | _ => exact habout.elim

/-- **One step leaves the key to expire** when it was to expire. -/
theorem Ok.expires_step (h : w.Ok cfg) {x : ℕ} (hx : Expires w.store key x) {l : Op n × Reply}
    (hst : w.LeavesExptime cfg key l w') : Expires w'.store key x := by
  have hnow := h.currentTime_le hst.step
  refine ⟨fun q hq hk => ?_, ?_⟩
  · obtain ⟨p, hp, hkp, he⟩ := h.inherits hst q hq hk
    exact he.trans (hx.exptime p hp hkp)
  · rcases hx.linked with ⟨p, hp, hk⟩ | hl
    · cases hexp : w.store.expired p with
      | false => exact Or.inl (hst.kept ⟨p, hp, hk, hexp⟩)
      | true =>
          -- it may go now
          right
          simp only [Store.expired, Bool.and_eq_true, bne_iff_ne, decide_eq_true_eq,
            hx.exptime p hp hk] at hexp
          exact Lapsed.mono hexp hnow
    · exact Or.inr (hl.mono hnow)

/-- No item under the key is covered by a flush point, or lies in a page that is being moved. -/
def Spared (s : Store) (key : Bytes) : Prop :=
  ∀ p, s.Linked p → s.key p = key → s.inRebalPage p = false ∧ s.flushed p = false

/-- Without a flush point and a page being moved. -/
theorem spared_of_idle (ho : s.oldestLive = 0) (hsig : s.slabRebalanceSignal = 0) :
    Spared s key := by
  intro p hp hk
  constructor
  · cases p <;> simp [Store.inRebalPage, hsig]
  · simp [Store.flushed, ho]

/-- **What `do_item_get` finds** under a key that expires at `x`. -/
theorem Ok.found_iff (h : w.Ok cfg) {x : ℕ} (hx : Expires w.store key x)
    (hsp : Spared w.store key) :
    (w.store.doItemGet cfg key (cfg.hash key)).2.isSome = true ↔
      ¬ Lapsed x w.store.currentTime := by
  obtain ⟨L, hwf⟩ := h.inv
  cases hfind : w.store.assocFind key (cfg.hash key) with
  | none =>
      have hno := hwf.assocFind_eq_none.mp hfind
      have hl := hx.linked.resolve_left fun ⟨p, hp, hk⟩ => hno p hp hk
      rw [Store.doItemGet, hfind]
      simp [hl]
  | some p =>
      obtain ⟨hp, hk⟩ := hwf.assocFind_eq_some.mp hfind
      obtain ⟨hpage, hfl⟩ := hsp p hp hk
      have hdead : w.store.dead p = true ↔ Lapsed x w.store.currentTime := by
        rw [Store.dead, hpage, hfl, Bool.false_or, Bool.false_or, Store.expired, Bool.and_eq_true,
          bne_iff_ne, decide_eq_true_eq, hx.exptime p hp hk]
        rfl
      rw [← hdead, Store.doItemGet_eq hfind]
      cases w.store.dead p <;> simp

end World

/-- **Expiration**: an item whose expiration time a command has set is found until its deadline has
come, and not after that, whatever else goes on, for times that can be kept. -/
theorem expiration_of_run {w₁ : World n} {cmd : ExpiringCommand} {exptime : ℤ}
    {ls ls' : List (Op n × Reply)} (ha : cmd.Accepts exptime)
    (hcomm : cmd.comm ≠ some .append ∧ cmd.comm ≠ some .prepend)
    (hr : Run (World.SafeStep cfg) (World.init n) ls w)
    (hk : Keepable cfg w.store.currentTime cmd exptime)
    (hset : World.SetsExptime cfg key (cmd.itemExptime cfg w.store.currentTime exptime) cmd.comm
      w w₁)
    (hrest : Run (World.LeavesExptime cfg key) w₁ ls' w') (hsp : World.Spared w'.store key) :
    (w'.store.doItemGet cfg key (cfg.hash key)).2.isSome = true ↔
      ¬ Reached cfg w'.store.currentTime (deadline cfg w.store.currentTime exptime) := by
  have hok := World.ok_of_run hr
  obtain ⟨hok₁, hx₁, hnow₁⟩ := hok.expires_of_sets hset hcomm
  obtain ⟨hok', hx', hnow'⟩ : w'.Ok cfg ∧ World.Expires w'.store key
      (cmd.itemExptime cfg w.store.currentTime exptime) ∧
        w.store.currentTime ≤ w'.store.currentTime := by
    refine hrest.invariant (P := fun v => v.Ok cfg ∧ World.Expires v.store key
      (cmd.itemExptime cfg w.store.currentTime exptime) ∧
        w.store.currentTime ≤ v.store.currentTime) ⟨hok₁, hx₁, hnow₁⟩ ?_
    rintro u l v ⟨hok, hx, hnow⟩ hst
    exact ⟨hok.step hst.step, hok.expires_step hx hst, hnow.trans (hok.currentTime_le hst.step)⟩
  have hclock : 1 ≤ w.store.currentTime := by
    have := hok.inv.choose_spec.clock
    omega
  rw [hok'.found_iff hx' hsp, lapsed_itemExptime ha hk hclock hnow']

/-- `Settings.small`, started in February 1970. -/
def Settings.dated : Settings := { Settings.small with processStarted := 3000000 }

/-- The server when `k` is stored without an expiration time. -/
def World.lasting (cfg : Settings) (i : Fin n) : World n :=
  (((World.init n).exec cfg (.itemAlloc i [107] 0 0 3 (.quick (some 0)))).1.execs cfg
    (uploadOps i firstChunk .set [53, 13, 10] 0)).1

/-- The server when `k` has been touched. -/
def World.touched (i : Fin n) : World n :=
  ((World.lasting .dated i).exec .dated (.itemTouch i [107] 162 false)).1

/-- A touch with 100 seconds, and 150 seconds more. -/
theorem expiration_of_run_touched :
    (((World.touched (0 : Fin 1)).exec .dated (.clock 212)).1.store.doItemGet .dated
      [107] 1).2.isSome = true ↔
      ¬ Reached .dated 212 (deadline .dated 62 100) := by
  have hrun : Run (World.SafeStep .dated) (World.init 1) _ (World.lasting .dated 0) :=
    .cons ⟨World.step_first .dated [107] 0 0 (by decide), Or.inl rfl⟩
      (World.run_execs_safe _ rfl (by decide +kernel))
  have hnow : (World.lasting .dated (0 : Fin 1)).store.currentTime = 62 := by decide +kernel
  have htouch : World.SafeStep .dated (World.lasting .dated (0 : Fin 1))
      (.itemTouch 0 [107] 162 false, .item (some firstChunk)) (World.touched 0) :=
    World.safeStep_of_ready rfl (by decide +kernel)
  have hkeep : Keepable .dated (World.lasting .dated (0 : Fin 1)).store.currentTime .touch 100 := by
    refine ⟨by decide, ?_, fun _ => by decide⟩
    rw [hnow]
    rintro u hu
    obtain rfl := Option.some.inj hu
    decide
  exact expiration_of_run (show ExpiringCommand.touch.Accepts 100 from ⟨by decide, by decide⟩)
    ⟨by simp [ExpiringCommand.comm], by simp [ExpiringCommand.comm]⟩ hrun hkeep (.touch htouch)
    (.single (i := (.clock 212, .none)) ⟨World.safeStep_of_ready rfl (by decide +kernel), by simp,
      False.elim, fun _ => ⟨firstChunk, by decide +kernel, by decide +kernel⟩⟩)
    (World.spared_of_idle (by decide +kernel) (by decide +kernel))

/-- The server when the upload of an `append` has begun, its value has arrived, and it is stored. -/
def World.appending (i : Fin n) : World n :=
  ((World.lasting .dated i).exec .dated (.itemAlloc i [107] 0 162 3 (.quick none))).1

def World.uploaded (i : Fin n) : World n :=
  ((World.appending i).exec .dated (.nread i [54, 13, 10] 0)).1

def World.appended (i : Fin n) : World n :=
  ((World.uploaded i).exec .dated (.storeItem i .append (.quick none))).1

/-- **An `append` does not set the expiration time it is given**: the item it extends, stored
without one, is found after 150 seconds although the `append` came with 100. -/
theorem expiration_appended : ¬ ∀ (cfg : Settings) (n : ℕ) (w w₁ w' : World n) (key : Bytes)
    (cmd : ExpiringCommand) (exptime : ℤ) (ls ls' : List (Op n × Reply)), cmd.Accepts exptime →
    Run (World.SafeStep cfg) (World.init n) ls w →
    World.SetsExptime cfg key (cmd.itemExptime cfg w.store.currentTime exptime) cmd.comm w w₁ →
    Run (World.LeavesExptime cfg key) w₁ ls' w' → World.Spared w'.store key →
    ((w'.store.doItemGet cfg key (cfg.hash key)).2.isSome = true ↔
      ¬ Reached cfg w'.store.currentTime (deadline cfg w.store.currentTime exptime)) := by
  intro hall
  have hrun : Run (World.SafeStep .dated) (World.init 1) _ (World.lasting .dated 0) :=
    .cons ⟨World.step_first .dated [107] 0 0 (by decide), Or.inl rfl⟩
      (World.run_execs_safe _ rfl (by decide +kernel))
  have hnow : (World.lasting .dated (0 : Fin 1)).store.currentTime = 62 := by decide +kernel
  have hset : World.SetsExptime .dated [107] 162 (some .append) (World.lasting .dated (0 : Fin 1))
      (World.appended 0) := by
    have halloc : World.SafeStep .dated (World.lasting .dated (0 : Fin 1))
        (.itemAlloc 0 [107] 0 162 3 (.quick none), .item (some (.chunk 768)))
        (World.appending 0) :=
      World.safeStep_of_ready rfl (by decide +kernel)
    have hstore : World.SafeStep .dated (World.uploaded (0 : Fin 1))
        (.storeItem 0 .append (.quick none), .stored .stored (some 2)) (World.appended 0) :=
      World.safeStep_of_ready rfl (by decide +kernel)
    have hread : World.SafeStep .dated (World.appending (0 : Fin 1))
        (.nread 0 [54, 13, 10] 0, .none) (World.uploaded 0) :=
      World.safeStep_of_ready rfl (by decide +kernel)
    exact .store halloc (.single ⟨hread, by decide +kernel⟩) hstore
  have hiff := hall .dated 1 (World.lasting .dated (0 : Fin 1)) (World.appended 0)
    ((World.appended (0 : Fin 1)).exec .dated (.clock 212)).1 [107] (.update .append) 100 _ _
    ⟨by decide, by decide⟩ hrun (by rw [hnow]; exact hset)
    (.single (i := (.clock 212, .none)) ⟨World.safeStep_of_ready rfl (by decide +kernel), by simp,
      False.elim, fun _ => ⟨.chunk 640, by decide +kernel, by decide +kernel⟩⟩)
    (World.spared_of_idle (by decide +kernel) (by decide +kernel))
  rw [hnow] at hiff
  refine hiff.mp (by decide +kernel) ⟨3000162, by decide, by decide +kernel⟩

end Memcached
