import Memcached.Agreement
import Memcached.Protocol

/-! # Storing and fetching

What a client that stores an item gets back when it fetches it. Flags and length survive only as
the text in the item's suffix, which one protocol sends as it is and the other reads again.

* **`Carries`** — what a response should say of an item.
* **`Ok.holds_of_setThenGet`** — what a stored item has, until it is fetched.
* **`roundTrip_iff`**, **`roundTrip_fails`** — when the response says it. -/

namespace Memcached

open CNumber (Bytes toInt32)
open Transition (Run)

variable {n : ℕ} {cfg : Settings} {w w' : World n} {s s' : Store} {g g' : Ghost} {it p : Ptr}

/-! ## Responses -/

/-- `strtoul(str, NULL, 10)` on a 64-bit `unsigned long`. -/
def strtoul (str : Bytes) : ℕ :=
  match CNumber.scanNumeral str with
  | none => 0
  | some num => if 2 ^ 64 ≤ CNumber.digitsValue num.digits then 2 ^ 64 - 1 else CNumber.toULL num

/-- What `process_get_command` sends for an item: the suffix and the data go out as they are. -/
def asciiValue (s : Store) (it : Ptr) : Bytes :=
  ascii "VALUE " ++ s.key it ++ (s.suffix it ++ s.data it)

/-- The fields of `protocol_binary_response_get`, and the value after them. -/
structure BinValue where
  /-- The length announced in the header: the flags and the value. -/
  bodylen : ℕ
  flags : ℕ
  value : Bytes
  deriving DecidableEq, Repr

/-- What `process_bin_get_or_touch` sends for an item. -/
def binValue (s : Store) (it : Ptr) : BinValue where
  bodylen := (4 + (s.nbytes it - 2)) % 2 ^ 32
  flags := strtoul (s.suffix it) % 2 ^ 32
  value := (s.data it).take (s.nbytes it - 2)

/-- The protocol of a fetch. -/
inductive Fetch
  | ascii
  | binary
  deriving DecidableEq, Repr

/-- **The property of one response**: it carries the flags, as an unsigned number, the length of the
data and the data. -/
def Carries (s : Store) (it : Ptr) (key : Bytes) (flags : ℕ) (data : Bytes) : Fetch → Prop
  | .ascii => asciiValue s it = ascii "VALUE " ++ key ++ (32 :: CNumber.decDigits flags ++
      32 :: CNumber.decDigits data.length ++ crlf ++ (data ++ crlf))
  | .binary => binValue s it = ⟨4 + data.length, flags, data⟩

/-- The item holds what was stored: its flags as an `int`. -/
structure Holds (s : Store) (it : Ptr) (key : Bytes) (flags : ℕ) (data : Bytes) : Prop where
  key : s.key it = key
  suffix : ∃ nkey, s.suffix it = (itemMakeHeader nkey (toInt32 flags) (data.length + 2)).1
  nbytes : s.nbytes it = data.length + 2
  data : s.data it = data ++ crlf

/-- The text of a suffix. -/
theorem itemMakeHeader_fst (nkey : ℕ) (flags : ℤ) (nbytes : ℕ) :
    (itemMakeHeader nkey flags nbytes).1 =
      32 :: (CNumber.formatInt flags ++ (32 :: CNumber.decDigits (nbytes - 2) ++ crlf)) := by
  have h : (itemMakeHeader nkey flags nbytes).1 =
      32 :: CNumber.formatInt flags ++ 32 :: CNumber.decDigits (nbytes - 2) ++ crlf := rfl
  rw [h, List.append_assoc, List.cons_append]

/-- The flags are found in a suffix. -/
theorem scanNumeral_suffix (nkey : ℕ) (flags : ℤ) (nbytes : ℕ) :
    CNumber.scanNumeral (itemMakeHeader nkey flags nbytes).1 =
      some ⟨decide (flags < 0), CNumber.decDigits flags.natAbs,
        32 :: CNumber.decDigits (nbytes - 2) ++ crlf⟩ := by
  have hspace : CNumber.isspace 32 = true := by decide
  have hdrop : ∀ t : Bytes, CNumber.scanNumeral (32 :: t) = CNumber.scanNumeral t := fun t => by
    rw [CNumber.scanNumeral, CNumber.scanNumeral, List.dropWhile_cons_of_pos hspace]
  rw [itemMakeHeader_fst, hdrop, CNumber.scanNumeral_formatInt]
  intro c hc
  obtain rfl := Option.some.inj hc
  decide

/-- The suffix is read again as the flags, whatever their sign has become. -/
theorem strtoul_suffix {flags : ℕ} (h : flags < 2 ^ 32) (nkey nbytes : ℕ) :
    strtoul (itemMakeHeader nkey (toInt32 flags) nbytes).1 % 2 ^ 32 = flags := by
  have hcases : toInt32 flags = flags ∨ toInt32 flags = (flags : ℤ) - 2 ^ 32 ∧ 2 ^ 31 ≤ flags := by
    rw [toInt32, Int.bmod_def]
    omega
  rw [strtoul, scanNumeral_suffix]
  simp only [CNumber.digitsValue_decDigits, CNumber.toULL, decide_eq_true_eq]
  generalize toInt32 (flags : ℤ) = z at hcases ⊢
  have hlt : ¬ 2 ^ 64 ≤ z.natAbs := by omega
  rw [if_neg hlt]
  rcases hcases with rfl | ⟨rfl, hbig⟩
  · have hpos : ¬ (flags : ℤ) < 0 := by omega
    rw [if_neg hpos, Int.natAbs_natCast, Nat.mod_eq_of_lt h]
  · have hneg : (flags : ℤ) - 2 ^ 32 < 0 := by omega
    rw [if_pos hneg]
    omega

/-- The sign of an `int` is printed. -/
theorem formatInt_eq_decDigits {flags : ℕ} (h : flags < 2 ^ 32) :
    CNumber.formatInt (toInt32 flags) = CNumber.decDigits flags ↔ flags < 2 ^ 31 := by
  rw [CNumber.formatInt]
  constructor
  · intro he
    by_contra hbig
    have hneg : toInt32 (flags : ℤ) < 0 := by
      rw [toInt32, Int.bmod_def]
      omega
    rw [if_pos hneg] at he
    have hmem : (45 : UInt8) ∈ CNumber.decDigits flags := he ▸ List.mem_cons_self
    exact absurd (CNumber.isdigit_of_mem_decDigits hmem) (by decide)
  · intro hlt
    have he : toInt32 (flags : ℤ) = flags := CNumber.toInt32_of_bounds (by omega) (by omega)
    rw [he, if_neg (by omega), Int.natAbs_natCast]

/-- **What the response for an item carries.** -/
theorem Holds.carries_iff {key data : Bytes} {flags : ℕ} (h : Holds s it key flags data)
    (hflags : flags < 2 ^ 32) (hdata : data.length + 2 < 2 ^ 31) (fetch : Fetch) :
    Carries s it key flags data fetch ↔ (fetch = .ascii → flags < 2 ^ 31) := by
  obtain ⟨nkey, hsuffix⟩ := h.suffix
  cases fetch with
  | ascii =>
      have hsuffix' : s.suffix it = 32 :: (CNumber.formatInt (toInt32 flags) ++
          (32 :: CNumber.decDigits data.length ++ crlf)) := by
        rw [hsuffix, itemMakeHeader_fst, Nat.add_sub_cancel]
      rw [Carries, asciiValue, h.key, hsuffix', h.data, List.append_right_inj,
        List.append_left_inj, ← formatInt_eq_decDigits hflags]
      generalize CNumber.formatInt (toInt32 flags) = printed
      simp
  | binary =>
      have hbody : (4 + (s.nbytes it - 2)) % 2 ^ 32 = 4 + data.length := by
        rw [h.nbytes]
        omega
      have hflag : strtoul (s.suffix it) % 2 ^ 32 = flags := by
        rw [hsuffix]
        exact strtoul_suffix hflags nkey (data.length + 2)
      have hvalue : (s.data it).take (s.nbytes it - 2) = data := by
        rw [h.nbytes, h.data, Nat.add_sub_cancel, List.take_left]
      refine iff_of_true ?_ (by simp)
      rw [Carries, binValue, hbody, hflag, hvalue]

/-! ## Storing -/

/-- Burying dead items does not rewrite one that is not linked. -/
theorem Event.Buries.not_rewrites {key : Bytes} {e : Event} (he : e.Buries s key) :
    ¬ e.Rewrites it := by
  cases e <;> first | exact fun hc => hc | exact absurd he (by simp [Event.Buries])

/-- **An item that is linked keeps what it holds.** -/
theorem Trace.linked_item (pre post : List Event) {k : Bytes}
    (ht : Trace cfg s g (pre ++ .link it k :: post) s' g') (h : Inv cfg s g)
    (hpre : ∀ e ∈ pre, ¬ e.Rewrites it)
    (hpost : ∀ e ∈ post, ¬ e.Rewrites it ∧ e ≠ .unlink it) :
    s'.Linked it ∧ s'.key it = s.key it ∧ s'.suffix it = s.suffix it ∧
      s'.nbytes it = s.nbytes it ∧ s'.data it = s.data it := by
  obtain ⟨t, f, h₁, h₂⟩ := ht.split
  cases h₂ with
  | cons hm h₃ =>
      rename_i t' f'
      have hinv := h₁.inv h
      have hheld : 0 < f.handles it ∧ 0 < f'.handles it := by
        cases hm
        exact ⟨‹_›, ‹_›⟩
      have hi₂ := hm.item hinv (Or.inr hheld.2)
      simp only [Event.item, if_true] at hi₂
      have hlinked : t'.Linked it :=
        ⟨hinv.choose_spec.isChunk_of_handles it hheld.1, congrArg Item.linked hi₂⟩
      have hlinked' : s'.Linked it :=
        h₃.linked (hm.inv hinv) hlinked fun hmem => (hpost _ hmem).2 rfl
      obtain ⟨-, b₃, t₃, hi₃, -⟩ := h₃.item_eq (hm.inv hinv) (fun e he => (hpost e he).1)
        (Or.inl hlinked')
      obtain ⟨-, b₁, t₁, hi₁, -⟩ := h₁.item_eq h hpre (Or.inr hheld.1)
      rw [hi₂, hi₁] at hi₃
      exact ⟨hlinked', congrArg Item.key hi₃, congrArg Item.suffix hi₃, congrArg Item.nbytes hi₃,
        congrArg Item.data hi₃⟩

/-- **What `set` links** is the item that was uploaded. -/
theorem StoreResult.set_linked {busy : List Ptr} {r : Store × StoreItemType × Option ℕ}
    (hr : StoreResult cfg s g it .set busy r) (h : Inv cfg s g) (hit : s.Pending g it) :
    r.1.Linked it ∧ r.1.key it = s.key it ∧ r.1.suffix it = s.suffix it ∧
      r.1.nbytes it = s.nbytes it ∧ r.1.data it = s.data it := by
  cases hr with
  | new s' evs hcomm ht he hdead =>
      exact ht.linked_item evs [] h (fun e hm => (he e hm).not_rewrites) (by simp)
  | replaced s' p hp hk hd hcomm ht =>
      have hne : it ≠ p := by
        rintro rfl
        exact absurd hp.2 (by simp [hit.unlinked])
      exact ht.linked_item [.ref p, .fetch p, .unlink p, .deref p] [.deref p] h
        (by simp [Event.Rewrites]) (by simp [Event.Rewrites])
  | absent s' evs hcomm ht he hdead => exact absurd (Or.inr rfl) hcomm
  | present s' p hcomm => exact absurd hcomm (by simp)
  | mismatch s' p hp hk hd hcas ht => exact absurd hcas.2 (by simp)
  | noRoom s' p evs hcomm => exact absurd hcomm (by simp)
  | joined s' p n evs hcomm => exact absurd hcomm (by simp)

namespace World

/-- The steps of a `set` and of a `get` after it, on two connections or on one. -/
def setThenGet (i j : Fin n) (key : Bytes) (flags exptime : ℕ) (data : Bytes) (cas : ℕ)
    (env env' : AllocEnv) (it p : Ptr) (stored : Option ℕ) : List (Op n × Reply) :=
  [(.itemAlloc i key (toInt32 flags) exptime (data.length + 2) env, .item (some it)),
    (.nread i (data ++ crlf) cas, .none), (.storeItem i .set env', .stored .stored stored),
    (.itemGet j key true, .item (some p))]

variable {i : Fin n} {key data : Bytes}

/-- An upload gets an item. -/
theorem Ok.itemAlloc_step {flags : ℤ} {exptime nbytes : ℕ} {env : AllocEnv} (h : w.Ok cfg)
    (hst : SafeStep cfg w (.itemAlloc i key flags exptime nbytes env, .item (some it)) w') :
    (w'.conns i).item = some it ∧ w'.store.key it = key ∧
      w'.store.suffix it = (itemMakeHeader (key.length + 1) flags nbytes).1 ∧
      w'.store.nbytes it = nbytes := by
  obtain ⟨⟨⟨hi, hn, hf⟩, he⟩, hs⟩ := hst
  have hal := allocResult_doItemAlloc h.inv rfl hf hs hn exptime
  rw [World.exec] at he
  generalize w.store.doItemAlloc cfg env key flags exptime nbytes 0 = r at hal he
  cases hal with
  | fail s' evs ht he' => exact absurd (congrArg Prod.snd he) (by simp)
  | ok s' q evs ht he' h0 =>
      obtain ⟨rfl, hq⟩ := Prod.mk.inj he
      obtain rfl : q = it := by simpa using hq
      obtain ⟨hk, hsuffix, hnbytes, -⟩ := ht.created h.inv
      exact ⟨by simp, hk, hsuffix, hnbytes⟩

/-- The value arrives. -/
theorem nread_step {d : Bytes} {cas : ℕ} (hi : (w.conns i).item = some it)
    (hst : SafeStep cfg w (.nread i d cas, .none) w') :
    (w'.conns i).item = some it ∧ w'.store.data it = d ∧ w'.store.key it = w.store.key it ∧
      w'.store.suffix it = w.store.suffix it ∧ w'.store.nbytes it = w.store.nbytes it := by
  have he := hst.1.2
  simp only [exec, hi] at he
  obtain ⟨rfl, -⟩ := Prod.mk.inj he
  exact ⟨hi, by simp [putStore, Store.setData], rfl, rfl, rfl⟩

/-- A `set` links its item. -/
theorem Ok.set_step {env : AllocEnv} {stored : Option ℕ} (h : w.Ok cfg)
    (hi : (w.conns i).item = some it)
    (hst : SafeStep cfg w (.storeItem i .set env, .stored .stored stored) w') :
    w'.store.Linked it ∧ w'.store.key it = w.store.key it ∧
      w'.store.suffix it = w.store.suffix it ∧ w'.store.nbytes it = w.store.nbytes it ∧
      w'.store.data it = w.store.data it := by
  obtain ⟨⟨hen, he⟩, hs⟩ := hst
  have hr := h.storeResult hen hs hi
  obtain ⟨it', hi', hcrlf, -⟩ := hen
  obtain rfl : it' = it := Option.some.inj (hi'.symm.trans hi)
  have hl := hr.set_linked h.inv (h.pending' hi hcrlf)
  have hw : (w.exec cfg (.storeItem i .set env)).1.store =
      (w.store.doStoreItem cfg env it' .set (cfg.hash (w.store.key it'))).1 := by
    simp only [World.exec, hi]
    rfl
  rw [he] at hw
  rw [← hw] at hl
  exact hl

/-- A fetch finds the linked item of its key. -/
theorem Ok.get_step (h : w.Ok cfg) (hl : w.store.Linked it) (hk : w.store.key it = key)
    (hst : SafeStep cfg w (.itemGet i key true, .item (some p)) w') :
    p = it ∧ w'.store.key it = w.store.key it ∧ w'.store.suffix it = w.store.suffix it ∧
      w'.store.nbytes it = w.store.nbytes it ∧ w'.store.data it = w.store.data it := by
  obtain ⟨⟨-, he⟩, hs⟩ := hst
  have hget := getResult_doItemGet h.inv hs
  rw [World.exec] at he
  generalize w.store.doItemGet cfg key (cfg.hash key) = r at hget he
  cases hget with
  | miss s' evs ht he' hdead hno => exact absurd (congrArg Prod.snd he) (by simp)
  | hit s' q hq hkq hd hs' ht =>
      obtain ⟨rfl, hqp⟩ := Prod.mk.inj he
      obtain rfl : q = p := by simpa using hqp
      obtain ⟨L, hwf⟩ := h.inv
      subst hs'
      exact ⟨hwf.key_inj q it hq hl (hkq.trans hk.symm), rfl, rfl, rfl, rfl⟩

/-- **A fetch returns what was stored.** -/
theorem Ok.holds_of_setThenGet {i j : Fin n} {key data : Bytes} {flags exptime cas : ℕ}
    {env env' : AllocEnv} {stored : Option ℕ} (h : w.Ok cfg)
    (hr : Run (SafeStep cfg) w
      (setThenGet i j key flags exptime data cas env env' it p stored) w') :
    Holds w'.store p key flags data := by
  cases hr with
  | @cons _ w₁ _ _ _ h₁ hr =>
  cases hr with
  | @cons _ w₂ _ _ _ h₂ hr =>
  cases hr with
  | @cons _ w₃ _ _ _ h₃ hr =>
  cases hr with
  | @cons _ w₄ _ _ _ h₄ hr =>
  cases hr
  obtain ⟨hi₁, hk₁, hs₁, hn₁⟩ := h.itemAlloc_step h₁
  obtain ⟨hi₂, hd₂, hk₂, hs₂, hn₂⟩ := nread_step hi₁ h₂
  have ok₂ := (h.step h₁).step h₂
  obtain ⟨hl₃, hk₃, hs₃, hn₃, hd₃⟩ := ok₂.set_step hi₂ h₃
  have hk : w₃.store.key it = key := hk₃.trans (hk₂.trans hk₁)
  obtain ⟨rfl, hk₄, hs₄, hn₄, hd₄⟩ := (ok₂.step h₃).get_step hl₃ hk h₄
  exact ⟨hk₄.trans hk, ⟨_, hs₄.trans (hs₃.trans (hs₂.trans hs₁))⟩,
    hn₄.trans (hn₃.trans (hn₂.trans hn₁)), hd₄.trans (hd₃.trans hd₂)⟩

end World

/-- **Store then fetch**: in every state that the server comes to, what a `set` of either protocol
stores and a `get` fetches right after it comes back as it was, unless the `get` is an ASCII one
and the flags are 2 ^ 31 or more. -/
theorem roundTrip_iff {ls : List (Op n × Reply)} {i j : Fin n} {key data : Bytes}
    {flags exptime cas : ℕ} {env env' : AllocEnv} {stored : Option ℕ} (hflags : flags < 2 ^ 32)
    (hdata : data.length + 2 < 2 ^ 31)
    (hr : Run (World.SafeStep cfg) (World.init n) ls w)
    (hset : Run (World.SafeStep cfg) w
      (World.setThenGet i j key flags exptime data cas env env' it p stored) w') (fetch : Fetch) :
    Carries w'.store p key flags data fetch ↔ (fetch = .ascii → flags < 2 ^ 31) :=
  ((World.ok_of_run hr).holds_of_setThenGet hset).carries_iff hflags hdata fetch

/-- A step that passes its checks and has the answer `r`, tail repair being off. -/
theorem World.safeStep_of_ready {op : Op n} {r : Reply} (hrep : cfg.tailRepairTime = 0)
    (h : (w.ready op && w.safe cfg op && decide ((w.exec cfg op).2 = r)) = true) :
    World.SafeStep cfg w (op, r) (w.exec cfg op).1 := by
  simp only [Bool.and_eq_true, decide_eq_true_eq] at h
  exact ⟨⟨World.enabled_of_ready h.1.1, Prod.ext rfl h.2⟩, World.safe_of_check hrep h.1.2⟩

/-- A step of a small server that passes its checks and has the answer `r`. -/
theorem World.safeStep_of_check {op : Op n} {r : Reply}
    (h : (w.ready op && w.safe .small op && decide ((w.exec .small op).2 = r)) = true) :
    World.SafeStep .small w (op, r) (w.exec .small op).1 :=
  World.safeStep_of_ready rfl h

/-- A value. -/
def hello : Bytes := [104, 101, 108, 108, 111]

/-- The server when an item for key `k` and `hello` has been allocated, with the flags. -/
def World.allocated (flags : ℤ) : World 1 :=
  ((World.init 1).exec .small (.itemAlloc 0 [107] flags 0 (hello.length + 2)
    (.quick (some 0)))).1

/-- The server when `hello` has arrived. -/
def World.uploading (flags : ℤ) : World 1 :=
  ((World.allocated flags).exec .small (.nread 0 (hello ++ crlf) 0)).1

/-- The server when `hello` is stored. -/
def World.stored (flags : ℤ) : World 1 :=
  ((World.uploading flags).exec .small (.storeItem 0 .set (.quick none))).1

/-- The server when `hello` is fetched. -/
def World.fetched (flags : ℤ) : World 1 :=
  ((World.stored flags).exec .small (.itemGet 0 [107] true)).1

/-- The `set` and the `get` of a new server are a run. -/
theorem World.run_fetched (flags : ℤ)
    (h₁ : ((World.init 1).exec .small (.itemAlloc 0 [107] flags 0 (hello.length + 2)
      (.quick (some 0)))).2 = .item (some firstChunk))
    (h₂ : World.SafeStep .small (World.allocated flags) (.nread 0 (hello ++ crlf) 0, .none) (World.uploading flags))
    (h₃ : World.SafeStep .small (World.uploading flags)
      (.storeItem 0 .set (.quick none), .stored .stored (some 1)) (World.stored flags))
    (h₄ : World.SafeStep .small (World.stored flags) (.itemGet 0 [107] true, .item (some firstChunk))
      (World.fetched flags)) :
    Run (World.SafeStep .small) (World.init 1)
      [(.itemAlloc 0 [107] flags 0 (hello.length + 2) (.quick (some 0)), .item (some firstChunk)),
        (.nread 0 (hello ++ crlf) 0, .none),
        (.storeItem 0 .set (.quick none), .stored .stored (some 1)),
        (.itemGet 0 [107] true, .item (some firstChunk))] (World.fetched flags) := by
  have hfirst := World.step_first (i := (0 : Fin 1)) .small [107] flags 0
    (by decide : 2 ≤ hello.length + 2)
  rw [h₁] at hfirst
  exact .cons ⟨hfirst, Or.inl rfl⟩ (.cons h₂ (.cons h₃ (.single h₄)))

/-- Flags of 5 come back. -/
theorem roundTrip_iff_five :
    Carries (World.fetched (toInt32 (5 : ℕ))).store firstChunk [107] 5 hello .ascii ↔
      (Fetch.ascii = .ascii → 5 < 2 ^ 31) :=
  roundTrip_iff (by decide) (by decide) .nil
    (World.run_fetched _ (by decide +kernel) (World.safeStep_of_check (by decide +kernel))
      (World.safeStep_of_check (by decide +kernel)) (World.safeStep_of_check (by decide +kernel)))
    .ascii

/-- **Large flags come back negative**: what is stored with flags of 2 ^ 32 - 1 is fetched with
flags of -1. -/
theorem roundTrip_fails : ¬ ∀ (cfg : Settings) (n : ℕ) (ls : List (Op n × Reply)) (w w' : World n)
    (i j : Fin n) (key data : Bytes) (flags exptime cas : ℕ) (env env' : AllocEnv) (it p : Ptr)
    (stored : Option ℕ) (fetch : Fetch), flags < 2 ^ 32 → data.length + 2 < 2 ^ 31 →
    Run (World.SafeStep cfg) (World.init n) ls w → Run (World.SafeStep cfg) w
      (World.setThenGet i j key flags exptime data cas env env' it p stored) w' →
    Carries w'.store p key flags data fetch := by
  intro hall
  have hrun := World.run_fetched (toInt32 (4294967295 : ℕ)) (by decide +kernel)
    (World.safeStep_of_check (by decide +kernel)) (World.safeStep_of_check (by decide +kernel))
    (World.safeStep_of_check (by decide +kernel))
  have hcarries := hall .small 1 [] _ _ 0 0 [107] hello 4294967295 0 0 _ _ _ _ _ .ascii
    (by decide) (by decide) .nil hrun
  have hholds : Holds (World.fetched (toInt32 (4294967295 : ℕ))).store firstChunk [107] 4294967295
      hello := (World.ok_init .small 1).holds_of_setThenGet hrun
  exact absurd ((hholds.carries_iff (by decide) (by decide) .ascii).mp hcarries rfl) (by decide)

end Memcached
