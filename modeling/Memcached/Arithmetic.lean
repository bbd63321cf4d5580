import Memcached.Expiration
import Memcached.Snapshot

/-! # Arithmetic

`incr` and `decr` on the text of a value. The number is parsed as a C string, which the value is
not: it ends with a CRLF, not with a NUL. When the parse is one of the value alone, and what a
sequence of commands then makes of the number.

* **`number`** — the number that a value denotes, and `ReadsOwn`, that the parser reads that number.
* **`Folds`** — what a sequence of commands makes of a number.
* **`arithmetic_of_run`**, **`arithmetic_wraps`** — the value follows the commands, and where it
  does not. -/

namespace Memcached

open CNumber (Bytes isspace isdigit scanNumeral scanSign endsNumber digitsValue safeStrtoull strchr
  toULL decDigits Numeral)
open Transition (Run)

/-! ## The number of a value -/

/-- **The number a value denotes**: white space, a sign and digits that its end, white space or a
NUL follows, in the range of 64 bits. -/
def number (v : Bytes) : Option ℕ :=
  match scanNumeral v with
  | none => none
  | some num =>
      if endsNumber num.rest = true ∧ 0 ≤ num.value ∧ num.value < 2 ^ 64 then some num.value.toNat
      else none

/-- **The parse stays within the value**: a value of white space is not followed by a number, the
number is not one that wraps around, and one of 2 ^ 63 or more has no minus sign anywhere after it,
up to the first NUL. -/
structure ReadsOwn (v beyond : Bytes) : Prop where
  blank : v.dropWhile isspace = [] → safeStrtoull beyond = none
  negative : ∀ num, scanNumeral v = some num → endsNumber num.rest = true → num.neg = true →
    digitsValue num.digits ≤ 2 ^ 63 ∨ 2 ^ 64 ≤ digitsValue num.digits
  large : ∀ num, scanNumeral v = some num → endsNumber num.rest = true → num.neg = false →
    2 ^ 63 ≤ digitsValue num.digits → digitsValue num.digits < 2 ^ 64 →
      strchr (v ++ (crlf ++ beyond)) 45 = false

/-- What `do_add_delta` parses of a value of white space. -/
theorem safeStrtoull_blank {v : Bytes} (hv : v.dropWhile isspace = []) (beyond : Bytes) :
    safeStrtoull (v ++ (crlf ++ beyond)) = safeStrtoull beyond := by
  have hspace : ∀ c ∈ v ++ crlf, isspace c = true := by
    intro c hm
    rcases List.mem_append.mp hm with hm | hm
    · exact List.dropWhile_eq_nil_iff.mp hv c hm
    · fin_cases hm <;> decide
  have hall : (v ++ crlf).dropWhile isspace = [] := List.dropWhile_eq_nil_iff.mpr hspace
  unfold safeStrtoull
  rw [← List.append_assoc, CNumber.scanNumeral_of_space hall, CNumber.strchr_space hspace]

/-- **`do_add_delta` finds the number of the value** if the parse stays within it, and only then. -/
theorem safeStrtoull_eq_number_iff (v beyond : Bytes) :
    safeStrtoull (v ++ (crlf ++ beyond)) = number v ↔ ReadsOwn v beyond := by
  by_cases hv : v.dropWhile isspace = []
  · have hnone : scanNumeral v = none := by
      have := CNumber.scanNumeral_of_space hv []
      rw [List.append_nil] at this
      exact this
    rw [safeStrtoull_blank hv, number, hnone]
    constructor
    · intro h
      exact ⟨fun _ => h, by simp [hnone], by simp [hnone]⟩
    · intro h
      exact h.blank hv
  have happ := CNumber.scanNumeral_append (t := crlf ++ beyond) hv (by
    rintro c hc
    obtain rfl := Option.some.inj hc
    decide)
  unfold number safeStrtoull
  rw [happ]
  cases hnum : scanNumeral v with
  | none => simpa [hnum] using (⟨fun h => absurd h hv, by simp [hnum], by simp [hnum]⟩ :
      ReadsOwn v beyond)
  | some num =>
      have hends : endsNumber (num.rest ++ (crlf ++ beyond)) = endsNumber num.rest := by
        cases num.rest with
        | nil => rfl
        | cons c r => rfl
      have hchr := fun hneg => CNumber.strchr_of_neg (t := crlf ++ beyond) hnum hneg
      have hreads : ReadsOwn v beyond ↔ (endsNumber num.rest = true →
          (num.neg = true → digitsValue num.digits ≤ 2 ^ 63 ∨ 2 ^ 64 ≤ digitsValue num.digits) ∧
          (num.neg = false → 2 ^ 63 ≤ digitsValue num.digits → digitsValue num.digits < 2 ^ 64 →
            strchr (v ++ (crlf ++ beyond)) 45 = false)) := by
        constructor
        · exact fun h hend => ⟨h.negative num hnum hend, h.large num hnum hend⟩
        · intro h
          refine ⟨fun he => absurd he hv, ?_, ?_⟩
          · rintro m hm
            obtain rfl := Option.some.inj (hnum.symm.trans hm)
            exact fun hend => (h hend).1
          · rintro m hm
            obtain rfl := Option.some.inj (hnum.symm.trans hm)
            exact fun hend => (h hend).2
      rw [hreads]
      simp only [Option.map_some, hends, toULL, Numeral.value]
      by_cases hend : endsNumber num.rest = true
      · simp only [hend, true_and, true_implies, if_true]
        cases hneg : num.neg with
        | true =>
            have hfound := hchr hneg
            simp only [if_true, hfound, Bool.and_true, decide_eq_true_eq, true_implies,
              Bool.true_eq_false, false_implies, and_true]
            by_cases hbig : 2 ^ 64 ≤ digitsValue num.digits
            · rw [if_pos hbig, if_neg (by omega)]
              exact iff_of_true rfl (Or.inr hbig)
            · rw [if_neg hbig]
              by_cases hz : digitsValue num.digits = 0
              · simp [hz]
              · rw [if_neg (by omega : ¬ (0 ≤ -(digitsValue num.digits : ℤ) ∧
                  -(digitsValue num.digits : ℤ) < 2 ^ 64))]
                split <;> simp <;> omega
        | false =>
            simp only [Bool.false_eq_true, if_false, false_implies, true_and, true_implies]
            by_cases hbig : 2 ^ 64 ≤ digitsValue num.digits
            · rw [if_pos hbig, if_neg (by omega)]
              exact iff_of_true rfl fun _ hlt => absurd hlt (not_lt.mpr hbig)
            · have hvalue : (if 0 ≤ (digitsValue num.digits : ℤ) ∧
                  (digitsValue num.digits : ℤ) < 2 ^ 64 then
                    some (digitsValue num.digits : ℤ).toNat else none) =
                  some (digitsValue num.digits) := by
                rw [if_pos ⟨by omega, by omega⟩, Int.toNat_natCast]
              rw [if_neg hbig, hvalue]
              cases hs : strchr (v ++ (crlf ++ beyond)) 45 with
              | false =>
                  rw [Bool.and_false]
                  exact iff_of_true rfl fun _ _ => rfl
              | true =>
                  rw [Bool.and_true]
                  split
                  · rename_i hlarge
                    exact iff_of_false (by simp) fun h =>
                      absurd (h (of_decide_eq_true hlarge) (not_le.mp hbig)) (by simp)
                  · rename_i hsmall
                    exact iff_of_true rfl fun h => absurd (decide_eq_true h) hsmall
      · simp [hend]

/-- **A number that was written is read back**, whatever blanks follow it. -/
theorem number_decDigits {m : ℕ} (hm : m < 2 ^ 64) (k : ℕ) :
    number (decDigits m ++ List.replicate k 32) = some m := by
  have hscan : CNumber.scanNumeral (decDigits m ++ List.replicate k 32)
      = some ⟨false, decDigits m, List.replicate k 32⟩ := by
    refine CNumber.scanNumeral_decDigits m fun c hc => ?_
    cases k with
    | zero => exact absurd hc (by simp)
    | succ k =>
        obtain rfl := Option.some.inj hc
        decide
  have hends : endsNumber (List.replicate k 32) = true := by
    cases k <;> rfl
  rw [number, hscan]
  simp only [hends, Numeral.value, CNumber.digitsValue_decDigits, Bool.false_eq_true, if_false,
    true_and]
  rw [if_pos ⟨by omega, by omega⟩, Int.toNat_natCast]

/-- The result of an increment or decrement fits 64 bits. -/
theorem deltaValue_lt {incr : Bool} {m delta : ℕ} (hm : m < 2 ^ 64) :
    deltaValue incr m delta < 2 ^ 64 := by
  unfold deltaValue
  split
  · exact Nat.mod_lt _ (by decide)
  · split <;> omega

/-- A number that is read fits 64 bits. -/
theorem number_lt {v : Bytes} {m : ℕ} (h : number v = some m) : m < 2 ^ 64 := by
  unfold number at h
  split at h
  · exact absurd h (by simp)
  · split at h
    · obtain rfl := Option.some.inj h
      omega
    · exact absurd h (by simp)

/-! ## One command -/

variable {n : ℕ} {cfg : Settings} {w w' : World n} {s s' : Store} {g g' : Ghost} {p q : Ptr}
  {key : Bytes} {o : Option ℕ}

/-- There is an item under the key, and its value denotes `o`. -/
def Store.Counts (s : Store) (key : Bytes) (o : Option ℕ) : Prop :=
  ∃ p, s.Linked p ∧ s.key p = key ∧ number (s.value p) = o

/-- The same items are linked, and they are what they were. -/
def Store.SameItems (s s' : Store) : Prop :=
  ∀ q, (s'.Linked q ↔ s.Linked q) ∧ (s.Linked q → s'.item q = s.item q)

/-- Looking an item up and letting go of it. -/
theorem Trace.sameItems (ht : Trace cfg s g [.ref p, .fetch p, .deref p] s' g') (h : Inv cfg s g) :
    s.SameItems s' := by
  intro q
  have hiff : s'.Linked q ↔ s.Linked q := by
    constructor
    · intro hq
      exact (ht.linked_or_link h hq).resolve_right (by simp)
    · intro hq
      exact ht.linked h hq (by simp)
  refine ⟨hiff, fun hq => ?_⟩
  obtain ⟨-, b, t, hi, hb, hx⟩ := ht.item_eq h (by simp [Event.Rewrites]) (Or.inl (hiff.mpr hq))
  obtain rfl := hb.resolve_right (by simp)
  obtain rfl := hx.resolve_right (by simp)
  exact hi

/-- What a section writes into an item, and leaves alone after that, is its value. -/
theorem Trace.value_written {pre post : List Event} {e : Event} {d : Bytes}
    (ht : Trace cfg s g (pre ++ e :: post) s' g') (h : Inv cfg s g)
    (he : e = .write p (d ++ crlf) ∨ e = .inPlace p (d ++ crlf))
    (hkey : ∀ t f, Trace cfg s g pre t f → t.key p = key)
    (hpost : ∀ e ∈ post, ¬ e.Overwrites p) (hp : s'.Linked p) :
    s'.key p = key ∧ s'.value p = d := by
  obtain ⟨t, f, h₁, h₂⟩ := ht.split
  cases h₂ with
  | cons hm h₃ =>
      rename_i u f'
      have hinv := h₁.inv h
      obtain ⟨hu, hsent⟩ := h₃.sent (hm.inv hinv) hpost (Or.inl hp)
      have hn : t.nbytes p = d.length + 2 := by
        rcases he with rfl | rfl
        · cases hm with
          | write hp hl hd => exact hd.symm.trans List.length_append
        · cases hm with
          | inPlace hp hd hcrlf => exact hd.symm.trans List.length_append
      have hi := hm.item hinv hu
      have hitem : u.key p = t.key p ∧ u.data p = d ++ crlf ∧ u.nbytes p = t.nbytes p := by
        rcases he with rfl | rfl
        all_goals
          rw [Event.item, if_pos rfl] at hi
          exact ⟨congrArg Item.key hi, congrArg Item.data hi, congrArg Item.nbytes hi⟩
      have hk' : s'.key p = u.key p := congrArg Sent.key hsent
      have hd' : s'.data p = u.data p := congrArg Sent.data hsent
      have hn' : s'.nbytes p = u.nbytes p := congrArg Sent.nbytes hsent
      refine ⟨hk'.trans (hitem.1.trans (hkey t f h₁)), ?_⟩
      rw [Store.value, hd', hn', hitem.2.1, hitem.2.2, hn, Nat.add_sub_cancel, List.take_left]

/-- **`do_add_delta` computes with the number of the value** when the parse stays within it, and
leaves everything as it is when there is none. -/
theorem DeltaResult.folds {beyond : Bytes} {incr : Bool} {delta reqCas : ℕ} {busy : List Ptr}
    {r : Store × DeltaResultType × Option (ℕ × ℕ)}
    (hr : DeltaResult cfg beyond s g key incr delta reqCas busy r) (h : Inv cfg s g)
    (hp : s.Linked p) (hk : s.key p = key) (hd : s.dead p = false)
    (hcas : reqCas ≠ 0 → s.itemGetCas p = reqCas) (hroom : r.2.1 ≠ .eom)
    (hown : ReadsOwn (s.value p) beyond) :
    match number (s.value p) with
    | some m => (∃ cas, r.2 = (.ok, some (deltaValue incr m delta, cas))) ∧
        r.1.Counts key (some (deltaValue incr m delta))
    | none => r.2 = (.nonNumeric, none) ∧ s.SameItems r.1 := by
  obtain ⟨L, hwf⟩ := id h
  have huniq : ∀ q, s.Linked q → s.key q = key → q = p := fun q hq hkq =>
    hwf.key_inj q p hq hp (hkq.trans hk.symm)
  have hdata := Store.data_eq_value (hwf.length_data p (Or.inl hp)) (hwf.crlf p hp)
  have hparse : safeStrtoull (s.data p ++ beyond) = number (s.value p) := by
    rw [hdata, List.append_assoc]
    exact (safeStrtoull_eq_number_iff _ _).mpr hown
  cases hr with
  | notFound s' evs ht he hdead => exact absurd (hdead p hp hk) (by simp [hd])
  | mismatch s' q hq hkq hdq hcasq =>
      obtain rfl := huniq q hq hkq
      exact absurd (hcas hcasq.1) hcasq.2
  | noRoom => exact absurd rfl hroom
  | nonNumeric s' q hq hkq hdq hcasq hnum ht =>
      obtain rfl := huniq q hq hkq
      rw [← hparse, hnum]
      exact ⟨rfl, ht.sameItems h⟩
  | inPlace s' q m hq hkq hdq hcasq hnum h0 ht =>
      obtain rfl := huniq q hq hkq
      rw [hparse] at hnum
      rw [hnum]
      have hlt : deltaValue incr m delta < 2 ^ 64 := deltaValue_lt (number_lt hnum)
      have hl : s'.Linked q := ht.linked h hq (by simp)
      have hkey : ∀ t f, Trace cfg s g [.ref q, .fetch q] t f → t.key q = key := by
        intro t f h₁
        have hu : t.InUse f q := Or.inl (h₁.linked h hq (by simp))
        exact (congrArg Prod.fst (h₁.lease h (by simp [Event.SetsExptime]) hu).2).trans hk
      obtain ⟨hk', hv⟩ := Trace.value_written ht h (Or.inr rfl) hkey (by simp [Event.Overwrites]) hl
      refine ⟨⟨_, rfl⟩, q, hl, hk', ?_⟩
      rw [hv]
      exact number_decDigits hlt _
  | replaced s' q r m evs hq hkq hdq hcasq hnum hbig ht he hr hne =>
      obtain rfl := huniq q hq hkq
      rw [hparse] at hnum
      rw [hnum]
      have hlt : deltaValue incr m delta < 2 ^ 64 := deltaValue_lt (number_lt hnum)
      set buf := decDigits (deltaValue incr m delta)
      have hsplit : ∀ pre post : List Event,
          Trace cfg s g ([.ref q, .fetch q] ++ evs ++ (pre ++ post)) s' g →
            Trace cfg s g ([.ref q, .fetch q] ++ evs ++ pre ++ post) s' g := by
        intro pre post htr
        rw [List.append_assoc]
        exact htr
      have hlink := hsplit [.create r key (s.deltaFlags q) (s.exptime q) (buf.length + 2),
        .write r (buf ++ crlf), .unlink q, .deref q] _ ht
      have hl : s'.Linked r := hlink.linked_of_link h (by simp)
      have ht' := hsplit [.create r key (s.deltaFlags q) (s.exptime q) (buf.length + 2)] _ ht
      obtain ⟨hk', hv⟩ := ht'.value_written h (Or.inl rfl) (fun t f h₁ => (h₁.created h).1)
        (by simp [Event.Overwrites]) hl
      refine ⟨⟨_, rfl⟩, r, hl, hk', ?_⟩
      have hread := number_decDigits hlt 0
      rw [List.replicate_zero, List.append_nil] at hread
      rw [hv]
      exact hread

/-! ## A sequence of commands -/

/-- The number after a sequence of steps: the successful `incr` and `decr` commands of the key,
folded over the number at the start. -/
def foldNumber (key : Bytes) : Option ℕ → List (Op n × Reply) → Option ℕ
  | o, [] => o
  | o, (.addDelta _ k incr delta _ _ _, _) :: ls =>
      foldNumber key (if k = key then o.map (deltaValue incr · delta) else o) ls
  | o, _ :: ls => foldNumber key o ls

namespace World

/-- **A step of a sequence of arithmetic commands** on a key: an `incr` or `decr` of its live item,
whose CAS id, if it is given, matches and whose allocation succeeds; or a lookup, or a step about
other keys, that leaves an item under the key. -/
structure ArithmeticStep (cfg : Settings) (key : Bytes) (w : World n) (l : Op n × Reply)
    (w' : World n) : Prop where
  step : w.SafeStep cfg l w'
  live : ∀ i incr delta reqCas env beyond, l.1 = .addDelta i key incr delta reqCas env beyond →
    ∃ p, w.store.Linked p ∧ w.store.key p = key ∧ w.store.dead p = false ∧
      (reqCas ≠ 0 → w.store.itemGetCas p = reqCas)
  room : ∀ v, l.2 ≠ .delta .eom v
  other : (∀ i incr delta reqCas env beyond, l.1 ≠ .addDelta i key incr delta reqCas env beyond) →
    (¬ w.About l.1 key ∨ ∃ i response, l.1 = .itemGet i key response) ∧
      ∃ q, w'.store.Linked q ∧ w'.store.key q = key

/-- The parse of the step stays within the value. -/
def ParsesOwn (key : Bytes) (w : World n) : Op n → Prop
  | .addDelta _ k _ _ _ _ beyond => k = key → ∀ p, w.store.Linked p → w.store.key p = key →
      ReadsOwn (w.store.value p) beyond
  | _ => True

/-- **A step does what arithmetic says**, the key's value denoting `o` before it: a command answers
with the new number, which is the one of the value from then on, or with `NON_NUMERIC`, and then the
items stay as they are; any other step keeps the number. -/
def Folds (key : Bytes) (o : Option ℕ) (w : World n) (l : Op n × Reply) (w' : World n) : Prop :=
  match l.1 with
  | .addDelta _ k incr delta _ _ _ =>
      if k = key then
        match o with
        | some m => (∃ cas, l.2 = .delta .ok (some (deltaValue incr m delta, cas))) ∧
            w'.store.Counts key (some (deltaValue incr m delta))
        | none => l.2 = .delta .nonNumeric none ∧ w.store.SameItems w'.store
      else w'.store.Counts key o
  | _ => w'.store.Counts key o

/-- The value of the one item under a key. -/
theorem Ok.number_eq (h : w.Ok cfg) (hc : w.store.Counts key o) (hp : w.store.Linked p)
    (hk : w.store.key p = key) : number (w.store.value p) = o := by
  obtain ⟨q, hq, hkq, hn⟩ := hc
  obtain ⟨L, hwf⟩ := h.inv
  obtain rfl := hwf.key_inj p q hp hq (hk.trans hkq.symm)
  exact hn

/-- The value is part of what a client sees. -/
theorem value_of_entry {t : Store} (he : t.entry q = s.entry q) : t.value q = s.value q :=
  congrArg Entry.value he

/-- A step that is no command on the key keeps its number. -/
theorem Ok.counts_other (h : w.Ok cfg) (hc : w.store.Counts key o) {l : Op n × Reply}
    (hst : w.SafeStep cfg l w')
    (hother : ¬ w.About l.1 key ∨ ∃ i response, l.1 = .itemGet i key response)
    (hkept : ∃ q, w'.store.Linked q ∧ w'.store.key q = key) : w'.store.Counts key o := by
  obtain ⟨q, hq, hk⟩ := hkept
  obtain ⟨op, r⟩ := l
  obtain ⟨⟨hen, he⟩, hs⟩ := hst
  obtain rfl : (w.exec cfg op).1 = w' := congrArg Prod.fst he
  obtain hsame : w.store.Linked q ∧ w.store.key q = key ∧
      (w.exec cfg op).1.store.value q = w.store.value q := by
    by_cases hop : op.Global
    · cases op with
      | flushAll exptime =>
          obtain ⟨evs, ht, hf⟩ := Trace.flushAll h.inv exptime
          obtain ⟨hl, hi⟩ := ht.linked_of_flushes (h.inv.congr rfl) hf hq
          exact ⟨hl, (congrArg Item.key hi).symm.trans hk,
            congrArg Entry.value (congrArg Item.entry hi)⟩
      | clock now | rebalance signal slabStart slabEnd => exact ⟨hq, hk, rfl⟩
      | _ => exact hop.elim
    rcases hother with habout | ⟨i, response, rfl⟩
    · obtain ⟨evs, ht, hev⟩ := h.effect hen hs hop
      have hlinks : ∀ k, w.Links op k → k ≠ key := by
        rintro k hlk rfl
        exact habout (about_of_links hlk)
      have hkeep := ht.key_frame h.inv (fun q hl hk => Or.inr habout)
        (fun it hm => h.mine_unlinked hm) (fun e hm => (hev e hm).mono hlinks) hq hk
      exact ⟨hkeep.linked, hkeep.key, congrArg Entry.value hkeep.entry⟩
    · have hget := getResult_doItemGet h.inv hs
      rw [World.exec] at hq hk ⊢
      generalize w.store.doItemGet cfg key (cfg.hash key) = r at hget hq hk
      cases hget with
      | miss s' evs ht he' hdead hno => exact absurd hk (hno q hq)
      | hit s' p hp hkp hd hs' ht =>
          have hl := (ht.linked_or_link h.inv hq).resolve_right (by simp)
          have hi := (ht.sent h.inv (by simp [Event.Overwrites]) (Or.inl hq)).2
          have hval : s'.value q = w.store.value q := by
            rw [Store.value, Store.value, show s'.data q = w.store.data q from congrArg Sent.data hi,
              show s'.nbytes q = w.store.nbytes q from congrArg Sent.nbytes hi]
          exact ⟨hl, (congrArg Sent.key hi).symm.trans hk, hval⟩
  refine ⟨q, hq, hk, ?_⟩
  rw [hsame.2.2]
  exact h.number_eq hc hsame.1 hsame.2.1

/-- **One step does what arithmetic says** when its parse stays within the value. -/
theorem Ok.folds_step (h : w.Ok cfg) (hc : w.store.Counts key o) {l : Op n × Reply}
    (hst : w.ArithmeticStep cfg key l w') (hown : w.ParsesOwn key l.1) : w.Folds key o l w' := by
  by_cases hcmd : ∃ i incr delta reqCas env beyond, l.1 = .addDelta i key incr delta reqCas env beyond
  · obtain ⟨i, incr, delta, reqCas, env, beyond, hl⟩ := hcmd
    obtain ⟨p, hp, hk, hd, hcas⟩ := hst.live i incr delta reqCas env beyond hl
    have hroom := hst.room
    obtain ⟨op, r⟩ := l
    obtain rfl : op = .addDelta i key incr delta reqCas env beyond := hl
    obtain ⟨⟨hen, he⟩, hs⟩ := hst.step
    have hres := deltaResult_doAddDelta h.inv rfl beyond incr delta reqCas hs.1 hs.2 hen
    rw [World.exec] at he
    generalize w.store.doAddDelta cfg env beyond key incr delta reqCas (cfg.hash key) = res at hres he
    obtain ⟨s', t, v⟩ := res
    obtain ⟨rfl, rfl⟩ := Prod.mk.inj he
    have hfold := hres.folds h.inv hp hk hd hcas
      (fun e => hroom v (congrArg (Reply.delta · v) e)) (hown rfl p hp hk)
    rw [h.number_eq hc hp hk] at hfold
    simp only [Folds, if_true]
    cases o with
    | none =>
        obtain ⟨hr, hsame⟩ := hfold
        obtain ⟨rfl, rfl⟩ := Prod.mk.inj hr
        exact ⟨rfl, hsame⟩
    | some m =>
        obtain ⟨⟨cas, hr⟩, hcounts⟩ := hfold
        obtain ⟨rfl, rfl⟩ := Prod.mk.inj hr
        exact ⟨⟨cas, rfl⟩, hcounts⟩
  · have hno : ∀ i incr delta reqCas env beyond,
        l.1 ≠ .addDelta i key incr delta reqCas env beyond :=
      fun i incr delta reqCas env beyond e => hcmd ⟨i, incr, delta, reqCas, env, beyond, e⟩
    obtain ⟨hother, hkept⟩ := hst.other hno
    have hcounts := h.counts_other hc hst.step hother hkept
    unfold Folds
    split
    · rename_i i k incr delta reqCas env beyond hl
      rw [if_neg]
      · exact hcounts
      · rintro rfl
        exact hno _ _ _ _ _ _ hl
    · exact hcounts

/-- After the step the number is the folded one. -/
theorem Folds.counts {l : Op n × Reply} (hf : w.Folds key o l w') (hc : w.store.Counts key o) :
    w'.store.Counts key (foldNumber key o [l]) := by
  obtain ⟨op, r⟩ := l
  cases op with
  | addDelta i k incr delta reqCas env beyond =>
      unfold Folds at hf
      simp only [foldNumber] at hf ⊢
      split at hf
      · rename_i hk
        rw [if_pos hk]
        cases o with
        | some m => exact hf.2
        | none =>
            -- no item has changed
            obtain ⟨p, hp, hkp, hn⟩ := hc
            have hi := (hf.2 p).2 hp
            refine ⟨p, (hf.2 p).1.mpr hp, (congrArg Item.key hi).trans hkp, ?_⟩
            rw [value_of_entry (congrArg Item.entry hi)]
            exact hn
      · rename_i hk
        rw [if_neg hk]
        exact hf
  | _ => exact hf

/-- The first step of a run comes first in the fold. -/
theorem foldNumber_cons (l : Op n × Reply) (ls : List (Op n × Reply)) :
    foldNumber key o (l :: ls) = foldNumber key (foldNumber key o [l]) ls := by
  obtain ⟨op, r⟩ := l
  cases op <;> rfl

/-- **The number after a sequence of commands** is the folded one. -/
theorem Ok.counts_of_run {ls : List (Op n × Reply)} (h : w.Ok cfg) (hc : w.store.Counts key o)
    (hr : Run (fun w l w' => w.ArithmeticStep cfg key l w' ∧ w.ParsesOwn key l.1) w ls w') :
    w'.Ok cfg ∧ w'.store.Counts key (foldNumber key o ls) := by
  -- by induction on the run; `Counts` is the invariant, with the folded number
  induction hr generalizing o with
  | nil => exact ⟨h, hc⟩
  | cons hst hrest ih =>
      rw [foldNumber_cons]
      -- one command folds its number in
      exact ih (h.step hst.1.step) ((h.folds_step hc hst.1 hst.2).counts hc)

end World

/-- **Arithmetic is a fold over the value** as long as every parse stays within it: after any
sequence of commands the next one does what arithmetic says with the number folded so far. -/
theorem arithmetic_of_run {w₀ : World n} {ls₀ ls : List (Op n × Reply)} {l : Op n × Reply}
    (hr : Run (World.SafeStep cfg) (World.init n) ls₀ w₀) (hc : w₀.store.Counts key o)
    (hrun : Run (fun w l w' => w.ArithmeticStep cfg key l w' ∧ w.ParsesOwn key l.1) w₀ ls w)
    (hst : w.ArithmeticStep cfg key l w') (hown : w.ParsesOwn key l.1) :
    w.Folds key (foldNumber key o ls) l w' := by
  obtain ⟨hok, hcounts⟩ := (World.ok_of_run hr).counts_of_run hc hrun
  exact hok.folds_step hcounts hst hown

/-- An `incr` of a small server's `k`. -/
def incrOp (i : Fin n) : Op n := .addDelta i [107] true 3 0 (.quick none) []

/-- The `incr` of a live item is a step of a sequence of commands. -/
theorem arithmeticStep_incr {w : World 1} {r : Reply} (hl : w.store.Linked firstChunk)
    (hk : w.store.key firstChunk = [107]) (hd : w.store.dead firstChunk = false)
    (hroom : ∀ v, r ≠ .delta .eom v)
    (h : (w.ready (incrOp 0) && w.safe .small (incrOp 0) && decide ((w.exec .small (incrOp 0)).2 = r)) = true) :
    w.ArithmeticStep .small [107] (incrOp 0, r) (w.exec .small (incrOp 0)).1 where
  step := World.safeStep_of_check h
  live := by
    rintro i incr delta reqCas env beyond he
    cases he
    exact ⟨firstChunk, hl, hk, hd, fun h0 => absurd rfl h0⟩
  room := hroom
  other := fun hno => absurd rfl (hno 0 true 3 0 (.quick none) [])

/-- 5 and 3 are 8. -/
theorem arithmetic_five :
    (World.seeded (0 : Fin 1) [107] [53, 13, 10]).Folds [107] (some 5)
      (incrOp 0, .delta .ok (some (8, 2)))
      ((World.seeded (0 : Fin 1) [107] [53, 13, 10]).exec .small (incrOp 0)).1 := by
  obtain ⟨ls, hrun⟩ := World.run_seeded (n := 1) (i := 0) (k := [107]) (d := [53, 13, 10])
    (by decide) (by decide +kernel)
  have hl : (World.seeded (0 : Fin 1) [107] [53, 13, 10]).store.Linked firstChunk := by
    decide +kernel
  have hk : (World.seeded (0 : Fin 1) [107] [53, 13, 10]).store.key firstChunk = [107] := by
    decide +kernel
  refine arithmetic_of_run hrun ⟨firstChunk, hl, hk, by decide +kernel⟩ .nil
    (arithmeticStep_incr hl hk (by decide +kernel) (by simp) (by decide +kernel)) ?_
  intro _ p hp hkp
  obtain ⟨L, hwf⟩ := (World.ok_of_run hrun).inv
  obtain rfl := hwf.key_inj p firstChunk hp hl (hkp.trans hk.symm)
  exact (safeStrtoull_eq_number_iff _ _).mp (by decide +kernel)

/-- **A number below -2 ^ 63 wraps around**: `-18446744073709551615`, and 3 more, is 4. -/
theorem arithmetic_wraps : ¬ ∀ (cfg : Settings) (n : ℕ) (w₀ w w' : World n) (key : Bytes)
    (o : Option ℕ) (ls₀ ls : List (Op n × Reply)) (l : Op n × Reply),
    Run (World.SafeStep cfg) (World.init n) ls₀ w₀ → w₀.store.Counts key o →
    Run (World.ArithmeticStep cfg key) w₀ ls w → w.ArithmeticStep cfg key l w' →
    w.Folds key (foldNumber key o ls) l w' := by
  intro hall
  obtain ⟨ls, hrun⟩ := World.run_seeded (n := 1) (i := 0) (k := [107])
    (d := ascii "-18446744073709551615" ++ crlf) (by decide) (by decide +kernel)
  set w := World.seeded (0 : Fin 1) [107] (ascii "-18446744073709551615" ++ crlf) with hw
  have hl : w.store.Linked firstChunk := by rw [hw]; decide +kernel
  have hk : w.store.key firstChunk = [107] := by rw [hw]; decide +kernel
  have hn : number (w.store.value firstChunk) = none := by rw [hw]; decide +kernel
  have hfold := hall .small 1 w w _ [107] none ls [] (incrOp 0, .delta .ok (some (4, 2))) hrun
    ⟨firstChunk, hl, hk, hn⟩ .nil
    (arithmeticStep_incr hl hk (by rw [hw]; decide +kernel) (by simp) (by rw [hw]; decide +kernel))
  simp only [World.Folds, incrOp, if_true] at hfold
  exact absurd hfold.1 (by simp)

end Memcached
