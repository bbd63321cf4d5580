import Memcached.Types
import Memcached.Lib.CNumber

/-! # Prefix statistics

With detailed statistics on, the gets, sets and deletes of a key are counted for its prefix, the bytes
before the delimiter. The records are found through a hash table of 256 chains, a new record at the head
of its chain, and are freed all together only. A record is named by its place in the order in which the
records were allocated.

* **`statsPrefixFind`**, **`statsPrefixRecord`** — the table as the commands use it.
* **`PrefixTable.WellFormed`** — every record is on the chain of its prefix, the newest one first.
* **`countsPerPrefix_iff`** — when the counters of a prefix count its calls. -/

namespace Memcached

open CNumber (Bytes decDigits toInt32)

/-! ## The table -/

/-- `PREFIX_STATS`, less its link. -/
structure PrefixStats where
  pfx : Bytes
  numGets : ℕ
  numSets : ℕ
  numDeletes : ℕ
  numHits : ℕ
  deriving DecidableEq, Repr

/-- The static variables of stats.c: the records, in the order of their allocation, and
`prefix_stats`, the chains. -/
structure PrefixTable where
  records : List PrefixStats
  chains : ℕ → List ℕ
  numPrefixes : ℤ
  totalPrefixSize : ℤ

/-- `PREFIX_HASH_SIZE`. -/
def prefixHashSize : ℕ := 256

/-- `stats_prefix_init`. -/
def statsPrefixInit : PrefixTable where
  records := []
  chains := fun _ => []
  numPrefixes := 0
  totalPrefixSize := 0

/-- The first loop of `stats_prefix_find`: `length`, or `none` on a bailout. -/
def prefixLength (delimiter : UInt8) : Bytes → Option ℕ
  | [] => none
  | c :: key =>
      if c = 0 then none
      else if c = delimiter then some 0
      else (prefixLength delimiter key).map (· + 1)

/-- `strncmp(a, b, n) == 0`; the NUL behind the bytes of a string is not one of them. -/
def strncmpEq : Bytes → Bytes → ℕ → Bool
  | _, _, 0 => true
  | a, b, n + 1 =>
      a.headD 0 == b.headD 0 && (a.headD 0 == 0 || strncmpEq a.tail b.tail n)

/-- The prefixes of the records. -/
def PrefixTable.prefixes (t : PrefixTable) : List Bytes := t.records.map PrefixStats.pfx

/-- A new record at the head of a chain. -/
def PrefixTable.push (t : PrefixTable) (hashval : ℕ) (pfx : Bytes) : PrefixTable where
  records := t.records ++ [⟨pfx, 0, 0, 0, 0⟩]
  -- a new record is the first of its chain
  chains := Function.update t.chains hashval (t.records.length :: t.chains hashval)
  numPrefixes := toInt32 (t.numPrefixes + 1)
  totalPrefixSize := toInt32 (t.totalPrefixSize + pfx.length)

/-- **`stats_prefix_find`**, where `alloc` tells whether `calloc` and `malloc` both succeed. -/
def statsPrefixFind (hash : Bytes → ℕ) (delimiter : UInt8) (alloc : Bool) (key : Bytes)
    (t : PrefixTable) : Option ℕ × PrefixTable :=
  match prefixLength delimiter key with
  | none => (none, t)
  | some length =>
      -- the hash is that of the prefix, the comparison that of its first `length` bytes only
      let hashval := hash (key.take length) % prefixHashSize
      match (t.chains hashval).find? fun pfs => strncmpEq (t.prefixes.getD pfs []) key length with
      | some pfs => (some pfs, t)
      | none =>
          if alloc then (some t.records.length, t.push hashval (key.take length)) else (none, t)

/-- What is recorded of a key. -/
inductive PrefixEvent
  | get (isHit : Bool)
  | set
  | delete
  deriving DecidableEq, Repr

/-- An increment of a `uint64_t`. -/
def succ64 (n : ℕ) : ℕ := (n + 1) % 2 ^ 64

/-- The counters that an event increments. -/
def PrefixStats.count (pfs : PrefixStats) : PrefixEvent → PrefixStats
  | .get isHit =>
      { pfs with
        numGets := succ64 pfs.numGets
        numHits := if isHit then succ64 pfs.numHits else pfs.numHits }
  | .set => { pfs with numSets := succ64 pfs.numSets }
  | .delete => { pfs with numDeletes := succ64 pfs.numDeletes }

/-- The counters of a record. -/
inductive PrefixCounter
  | gets
  | hits
  | sets
  | deletes
  deriving DecidableEq, Repr

def PrefixStats.counter (pfs : PrefixStats) : PrefixCounter → ℕ
  | .gets => pfs.numGets
  | .hits => pfs.numHits
  | .sets => pfs.numSets
  | .deletes => pfs.numDeletes

/-- The events that a counter is about. -/
def PrefixEvent.counts : PrefixEvent → PrefixCounter → Bool
  | .get _, .gets => true
  | .get isHit, .hits => isHit
  | .set, .sets => true
  | .delete, .deletes => true
  | _, _ => false

/-- A call of `stats_prefix_record_get`, `stats_prefix_record_set` or `stats_prefix_record_delete`. -/
structure PrefixCall where
  key : Bytes
  event : PrefixEvent
  alloc : Bool
  deriving DecidableEq, Repr

/-- The `stats_prefix_record_*` functions: the record that is counted at, and the table. -/
def statsPrefixRecord (hash : Bytes → ℕ) (delimiter : UInt8) (t : PrefixTable) (c : PrefixCall) :
    Option ℕ × PrefixTable :=
  match statsPrefixFind hash delimiter c.alloc c.key t with
  | (none, t') => (none, t')
  | (some pfs, t') => (some pfs, { t' with records := t'.records.modify pfs (·.count c.event) })

/-- The table after some calls. -/
def prefixTableAfter (hash : Bytes → ℕ) (delimiter : UInt8) (calls : List PrefixCall) : PrefixTable :=
  calls.foldl (fun t c => (statsPrefixRecord hash delimiter t c).2) statsPrefixInit

/-- The record that a call is attributed to, after some calls. -/
def recordOf (hash : Bytes → ℕ) (delimiter : UInt8) (pre : List PrefixCall) (c : PrefixCall) :
    Option ℕ :=
  (statsPrefixRecord hash delimiter (prefixTableAfter hash delimiter pre) c).1

/-- The bytes of a key before the delimiter. -/
def ownPrefix (delimiter : UInt8) (key : Bytes) : Bytes := key.takeWhile (· ≠ delimiter)

/-! ## Finding a record -/

section Find

variable {hash : Bytes → ℕ} {delimiter : UInt8}

/-- A length is found where a delimiter comes before any NUL. -/
theorem prefixLength_eq_some {key : Bytes} {n : ℕ} (h : prefixLength delimiter key = some n) :
    delimiter ∈ key ∧ key.take n = ownPrefix delimiter key ∧ n = (ownPrefix delimiter key).length ∧
      delimiter ≠ 0 ∧ 0 ∉ ownPrefix delimiter key := by
  induction key generalizing n with
  | nil => simp [prefixLength] at h
  | cons c key ih =>
      rw [prefixLength] at h
      split_ifs at h with h0 hd
      · obtain rfl : 0 = n := by simpa using h
        subst hd
        simp [ownPrefix, h0]
      · obtain ⟨m, hm, rfl⟩ := Option.map_eq_some_iff.mp h
        obtain ⟨hmem, htake, hlen, hne, hnul⟩ := ih hm
        have hown : ownPrefix delimiter (c :: key) = c :: ownPrefix delimiter key := by
          simp [ownPrefix, hd]
        refine ⟨List.mem_cons_of_mem _ hmem, ?_, ?_, hne, ?_⟩
        · rw [hown, List.take_succ_cons, htake]
        · rw [hown, List.length_cons, ← hlen]
        · rw [hown]
          simpa [hnul] using Ne.symm h0

/-- The prefix ends at the first delimiter. -/
theorem prefixLength_eq_some_of_mem {key : Bytes} (hmem : delimiter ∈ key) (hne : delimiter ≠ 0)
    (hnul : 0 ∉ ownPrefix delimiter key) :
    prefixLength delimiter key = some (ownPrefix delimiter key).length := by
  induction key with
  | nil => simp at hmem
  | cons c key ih =>
      rw [prefixLength]
      by_cases hd : c = delimiter
      · subst hd
        simp [ownPrefix, hne]
      · have hown : ownPrefix delimiter (c :: key) = c :: ownPrefix delimiter key := by
          simp [ownPrefix, hd]
        rw [hown] at hnul ⊢
        have h0 : c ≠ 0 := fun h => hnul (h ▸ List.mem_cons_self)
        have hmem' : delimiter ∈ key := by
          rcases List.mem_cons.mp hmem with h | h
          · exact absurd h.symm hd
          · exact h
        rw [if_neg h0, if_neg hd, ih hmem' fun h => hnul (List.mem_cons_of_mem _ h)]
        simp

/-- A string agrees with the first bytes of a key, none of them NUL, where it extends them. -/
theorem strncmpEq_iff {a b : Bytes} {n : ℕ} (hn : n ≤ b.length) (h0 : 0 ∉ b.take n) :
    strncmpEq a b n = true ↔ b.take n <+: a := by
  induction n generalizing a b with
  | zero => simp [strncmpEq]
  | succ n ih =>
      cases b with
      | nil => simp at hn
      | cons x b =>
          have hx : x ≠ 0 := by
            rintro rfl
            simp at h0
          have hb : 0 ∉ b.take n := fun h => h0 (by simp [h])
          cases a with
          | nil => simp [strncmpEq, hx.symm]
          | cons y a =>
              have hih := ih (a := a) (b := b) (by simpa using hn) hb
              rw [List.take_succ_cons, List.cons_prefix_cons, ← hih, strncmpEq]
              by_cases hyx : y = x
              · subst hyx
                simp [hx]
              · simp [hyx, Ne.symm hyx]

end Find

/-! ## The invariant of the table -/

/-- The chain of a prefix. -/
def prefixChain (hash : Bytes → ℕ) (pfx : Bytes) : ℕ := hash pfx % prefixHashSize

/-- **What holds of the table after any calls.** -/
structure PrefixTable.WellFormed (hash : Bytes → ℕ) (t : PrefixTable) : Prop where
  /-- A chain holds the records of its prefixes, the newest one first. -/
  chains : ∀ b, t.chains b =
    ((List.range t.records.length).filter
      fun p => prefixChain hash (t.prefixes.getD p []) = b).reverse
  /-- No prefix is extended by that of an older record of its chain. -/
  order : ∀ (p q : ℕ) (x y : Bytes), p < q → t.prefixes[p]? = some x → t.prefixes[q]? = some y →
    prefixChain hash x = prefixChain hash y → ¬ y <+: x
  noNul : ∀ x ∈ t.prefixes, 0 ∉ x
  numPrefixes : t.numPrefixes = toInt32 t.records.length
  totalPrefixSize : t.totalPrefixSize = toInt32 ((t.prefixes.map List.length).sum : ℕ)
  counters : ∀ r ∈ t.records, ∀ k, r.counter k < 2 ^ 64

variable {hash : Bytes → ℕ} {delimiter : UInt8}

/-- Every record has a prefix. -/
@[simp] theorem PrefixTable.length_prefixes (t : PrefixTable) :
    t.prefixes.length = t.records.length := by
  simp [PrefixTable.prefixes]

/-- A new record has the new prefix. -/
@[simp] theorem PrefixTable.prefixes_push (t : PrefixTable) (b : ℕ) (x : Bytes) :
    (t.push b x).prefixes = t.prefixes ++ [x] := by
  simp [PrefixTable.prefixes, PrefixTable.push]

/-- Counting leaves the prefix. -/
@[simp] theorem PrefixStats.count_pfx (r : PrefixStats) (e : PrefixEvent) : (r.count e).pfx = r.pfx := by
  cases e <;> rfl

/-- An event counts in the counters it is for. -/
theorem PrefixStats.count_counter (r : PrefixStats) (e : PrefixEvent) (k : PrefixCounter) :
    (r.count e).counter k = if e.counts k then succ64 (r.counter k) else r.counter k := by
  cases e with
  | get isHit => cases k <;> cases isHit <;> rfl
  | set => cases k <;> rfl
  | delete => cases k <;> rfl

/-- A counter stays in range. -/
theorem succ64_lt (n : ℕ) : succ64 n < 2 ^ 64 := Nat.mod_lt _ (by norm_num)

/-- An empty table is well formed. -/
theorem wellFormed_statsPrefixInit : statsPrefixInit.WellFormed hash where
  chains := by simp [statsPrefixInit]
  order := by simp [statsPrefixInit, PrefixTable.prefixes]
  noNul := by simp [statsPrefixInit, PrefixTable.prefixes]
  numPrefixes := by simp [statsPrefixInit, toInt32]
  totalPrefixSize := by simp [statsPrefixInit, toInt32, PrefixTable.prefixes]
  counters := by simp [statsPrefixInit]

namespace PrefixTable.WellFormed

variable {t : PrefixTable}

/-- A chain has the records whose prefixes hash to it. -/
theorem mem_chains (ht : t.WellFormed hash) {b p : ℕ} :
    p ∈ t.chains b ↔ ∃ x, t.prefixes[p]? = some x ∧ prefixChain hash x = b := by
  rw [ht.chains b, List.mem_reverse, List.mem_filter, List.mem_range]
  constructor
  · rintro ⟨hp, hb⟩
    have hp' : p < t.prefixes.length := by simpa using hp
    refine ⟨t.prefixes[p], List.getElem?_eq_getElem hp', ?_⟩
    simpa [List.getD_eq_getElem?_getD, List.getElem?_eq_getElem hp'] using hb
  · rintro ⟨x, hx, hb⟩
    have hp : p < t.prefixes.length := (List.getElem?_eq_some_iff.mp hx).1
    exact ⟨by simpa using hp, by simpa [List.getD_eq_getElem?_getD, hx] using hb⟩

/-- Two records have different prefixes. -/
theorem eq_of_getElem_prefixes (ht : t.WellFormed hash) {p q : ℕ} {x : Bytes} (hp : t.prefixes[p]? = some x)
    (hq : t.prefixes[q]? = some x) : p = q := by
  rcases Nat.lt_trichotomy p q with h | h | h
  · exact absurd (List.prefix_refl x) (ht.order p q x x h hp hq rfl)
  · exact h
  · exact absurd (List.prefix_refl x) (ht.order q p x x h hq hp rfl)

/-- What the walk down a chain finds: the newest record whose prefix extends the one looked for. -/
theorem find_eq_some (ht : t.WellFormed hash) {y : Bytes} {p : ℕ}
    (h : (t.chains (prefixChain hash y)).find? (fun p => decide (y <+: t.prefixes.getD p [])) = some p) :
    (∃ x, t.prefixes[p]? = some x ∧ prefixChain hash x = prefixChain hash y ∧ y <+: x) ∧
      ∀ (q : ℕ) (x : Bytes), p < q → t.prefixes[q]? = some x → prefixChain hash x = prefixChain hash y → ¬ y <+: x := by
  obtain ⟨hyp, as, bs, hsplit, has⟩ := List.find?_eq_some_iff_append.mp h
  have hmem : p ∈ t.chains (prefixChain hash y) := List.mem_of_find?_eq_some h
  obtain ⟨x, hx, hchain⟩ := ht.mem_chains.mp hmem
  refine ⟨⟨x, hx, hchain, by simpa [List.getD_eq_getElem?_getD, hx] using hyp⟩, ?_⟩
  intro q x' hpq hx' hchain' hpre
  have hq : q ∈ t.chains (prefixChain hash y) := ht.mem_chains.mpr ⟨x', hx', hchain'⟩
  -- the addresses fall along a chain
  have hdesc : (t.chains (prefixChain hash y)).Pairwise (· > ·) := by
    rw [ht.chains]
    exact List.pairwise_reverse.mpr (List.pairwise_lt_range.filter _)
  rw [hsplit] at hq hdesc
  rcases List.mem_append.mp hq with hq | hq
  · have := has q hq
    simp [List.getD_eq_getElem?_getD, hx', hpre] at this
  · rcases List.mem_cons.mp hq with rfl | hq
    · exact Nat.lt_irrefl _ hpq
    · have hlt : q < p := (List.pairwise_cons.mp (List.pairwise_append.mp hdesc).2.1).1 q hq
      omega

/-- What is not found in its chain is the beginning of no prefix there. -/
theorem find_eq_none (ht : t.WellFormed hash) {y : Bytes}
    (h : (t.chains (prefixChain hash y)).find? (fun p => decide (y <+: t.prefixes.getD p [])) = none)
    {q : ℕ} {x : Bytes} (hx : t.prefixes[q]? = some x) (hchain : prefixChain hash x = prefixChain hash y) :
    ¬ y <+: x := by
  have := List.find?_eq_none.mp h q (ht.mem_chains.mpr ⟨x, hx, hchain⟩)
  simpa [List.getD_eq_getElem?_getD, hx] using this

end PrefixTable.WellFormed

/-- **What a lookup can do.** -/
inductive PrefixFound (hash : Bytes → ℕ) (delimiter : UInt8) (alloc : Bool) (key : Bytes)
    (t : PrefixTable) : Option ℕ × PrefixTable → Prop
  /-- There is no delimiter before the first NUL. -/
  | bailout (h : prefixLength delimiter key = none) : PrefixFound hash delimiter alloc key t (none, t)
  /-- The newest record whose prefix extends that of the key. -/
  | found {p : ℕ} {x : Bytes} (h : prefixLength delimiter key ≠ none) (hx : t.prefixes[p]? = some x)
      (hchain : prefixChain hash x = prefixChain hash (ownPrefix delimiter key))
      (hpre : ownPrefix delimiter key <+: x)
      (hnewest : ∀ (q : ℕ) (y : Bytes), p < q → t.prefixes[q]? = some y →
        prefixChain hash y = prefixChain hash (ownPrefix delimiter key) →
          ¬ ownPrefix delimiter key <+: y) :
      PrefixFound hash delimiter alloc key t (some p, t)
  | created (h : prefixLength delimiter key ≠ none) (halloc : alloc = true)
      (hnone : ∀ (q : ℕ) (y : Bytes), t.prefixes[q]? = some y →
        prefixChain hash y = prefixChain hash (ownPrefix delimiter key) →
          ¬ ownPrefix delimiter key <+: y) :
      PrefixFound hash delimiter alloc key t
        (some t.records.length,
          t.push (prefixChain hash (ownPrefix delimiter key)) (ownPrefix delimiter key))
  | outOfMemory (h : prefixLength delimiter key ≠ none) (halloc : alloc = false)
      (hnone : ∀ (q : ℕ) (y : Bytes), t.prefixes[q]? = some y →
        prefixChain hash y = prefixChain hash (ownPrefix delimiter key) →
          ¬ ownPrefix delimiter key <+: y) :
      PrefixFound hash delimiter alloc key t (none, t)

/-- **What `stats_prefix_find` returns.** -/
theorem PrefixTable.WellFormed.find {t : PrefixTable} (ht : t.WellFormed hash) (delimiter : UInt8)
    (alloc : Bool) (key : Bytes) :
    PrefixFound hash delimiter alloc key t (statsPrefixFind hash delimiter alloc key t) := by
  unfold statsPrefixFind
  cases hlen : prefixLength delimiter key with
  | none => exact .bailout hlen
  | some n =>
      obtain ⟨hmem, htake, hn, hne, hnul⟩ := prefixLength_eq_some hlen
      have hsome : prefixLength delimiter key ≠ none := by simp [hlen]
      have hle : n ≤ key.length := by
        rw [hn]
        exact (List.takeWhile_prefix _).length_le
      -- a stored prefix matches when it extends the one that is looked for
      have hcmp : (fun p => strncmpEq (t.prefixes.getD p []) key n) =
          fun p => decide (ownPrefix delimiter key <+: t.prefixes.getD p []) := by
        funext p
        rw [← htake] at hnul ⊢
        rw [Bool.eq_iff_iff, strncmpEq_iff hle hnul, decide_eq_true_iff]
      simp only [hcmp, htake]
      change PrefixFound hash delimiter alloc key t
        (match (t.chains (prefixChain hash (ownPrefix delimiter key))).find? _ with
          | some pfs => _
          | none => _)
      cases hfind : (t.chains (prefixChain hash (ownPrefix delimiter key))).find?
          fun p => decide (ownPrefix delimiter key <+: t.prefixes.getD p []) with
      | some p =>
          obtain ⟨⟨x, hx, hchain, hpre⟩, hnewest⟩ := ht.find_eq_some hfind
          exact .found hsome hx hchain hpre hnewest
      | none =>
          have hnone : ∀ (q : ℕ) (y : Bytes), t.prefixes[q]? = some y →
              prefixChain hash y = prefixChain hash (ownPrefix delimiter key) →
                ¬ ownPrefix delimiter key <+: y := fun q y hy hc => ht.find_eq_none hfind hy hc
          cases alloc with
          | true => exact .created hsome rfl hnone
          | false => exact .outOfMemory hsome rfl hnone

/-! ## A call -/

/-- A new prefix that no record of its chain extends keeps the table well formed. -/
theorem PrefixTable.WellFormed.push {t : PrefixTable} (ht : t.WellFormed hash) {y : Bytes} (hy : 0 ∉ y)
    (hnone : ∀ (q : ℕ) (x : Bytes), t.prefixes[q]? = some x → prefixChain hash x = prefixChain hash y →
      ¬ y <+: x) : (t.push (prefixChain hash y) y).WellFormed hash := by
  -- a record of the new table is an old one or the last
  have hlast : ∀ {q : ℕ} {x : Bytes}, (t.prefixes ++ [y])[q]? = some x →
      t.prefixes[q]? = some x ∨ q = t.records.length ∧ x = y := by
    intro q x hq
    by_cases hlt : q < t.prefixes.length
    · exact .inl (by rwa [List.getElem?_append_left hlt] at hq)
    · rw [List.getElem?_append_right (Nat.le_of_not_lt hlt), List.getElem?_singleton] at hq
      rw [PrefixTable.length_prefixes] at hlt hq
      split_ifs at hq with h0
      exact .inr ⟨by omega, (Option.some.inj hq).symm⟩
  refine ⟨fun b => ?_, ?_, ?_, ?_, ?_, ?_⟩
  · have hlen : (t.push (prefixChain hash y) y).records.length = t.records.length + 1 := by
      simp [PrefixTable.push]
    have hold : (List.range t.records.length).filter
          (fun p => prefixChain hash ((t.prefixes ++ [y]).getD p []) = b) =
        (List.range t.records.length).filter
          fun p => prefixChain hash (t.prefixes.getD p []) = b := by
      refine List.filter_congr fun p hp => ?_
      have hp' : p < t.prefixes.length := by simpa using hp
      simp [List.getD_eq_getElem?_getD, List.getElem?_append_left hp']
    rw [hlen, PrefixTable.prefixes_push, List.range_succ, List.filter_append, hold,
      List.reverse_append, ← ht.chains b]
    by_cases hb : prefixChain hash y = b
    · subst hb
      simp [PrefixTable.push]
    · simp [PrefixTable.push, hb, Function.update_of_ne (Ne.symm hb)]
  · intro p q x z hpq hp hq hchain
    rw [PrefixTable.prefixes_push] at hp hq
    rcases hlast hq with hq' | ⟨rfl, rfl⟩
    · have hlt := (List.getElem?_eq_some_iff.mp hq').1
      rw [PrefixTable.length_prefixes] at hlt
      rcases hlast hp with hp' | ⟨rfl, -⟩
      · exact ht.order p q x z hpq hp' hq' hchain
      · omega
    · rcases hlast hp with hp | ⟨rfl, rfl⟩
      · exact hnone p x hp hchain
      · exact absurd hpq (Nat.lt_irrefl _)
  · intro x hx
    rw [PrefixTable.prefixes_push, List.mem_append] at hx
    rcases hx with hx | hx
    · exact ht.noNul x hx
    · rwa [List.mem_singleton.mp hx]
  · simp [PrefixTable.push, ht.numPrefixes, toInt32]
  · simp [PrefixTable.push, ht.totalPrefixSize, toInt32, PrefixTable.prefixes]
  · intro r hr
    rcases List.mem_append.mp hr with hr | hr
    · exact ht.counters r hr
    · rw [List.mem_singleton.mp hr]
      intro k
      cases k <;> simp [PrefixStats.counter]

/-- Counting at a record. -/
def PrefixTable.countAt (t : PrefixTable) (p : ℕ) (e : PrefixEvent) : PrefixTable :=
  { t with records := t.records.modify p (·.count e) }

/-- Counting leaves the prefixes. -/
@[simp] theorem PrefixTable.prefixes_countAt (t : PrefixTable) (p : ℕ) (e : PrefixEvent) :
    (t.countAt p e).prefixes = t.prefixes := by
  refine List.ext_getElem? fun q => ?_
  simp only [PrefixTable.prefixes, PrefixTable.countAt, List.getElem?_map, List.getElem?_modify]
  cases t.records[q]? with
  | none => rfl
  | some r => by_cases hpq : p = q <;> simp [hpq]

/-- The records after an event is counted in one of them. -/
theorem PrefixTable.mem_countAt {t : PrefixTable} {p : ℕ} {e : PrefixEvent} {r : PrefixStats}
    (h : r ∈ (t.countAt p e).records) :
    ∃ q s, t.records[q]? = some s ∧ r = if p = q then s.count e else s := by
  obtain ⟨q, hq⟩ := List.mem_iff_getElem?.mp h
  rw [PrefixTable.countAt, List.getElem?_modify] at hq
  obtain ⟨s, hs, rfl⟩ := Option.map_eq_some_iff.mp hq
  exact ⟨q, s, hs, rfl⟩

/-- Counting keeps the table well formed. -/
theorem PrefixTable.WellFormed.countAt {t : PrefixTable} (ht : t.WellFormed hash) (p : ℕ)
    (e : PrefixEvent) : (t.countAt p e).WellFormed hash where
  chains b := by
    rw [PrefixTable.prefixes_countAt]
    simpa [PrefixTable.countAt] using ht.chains b
  order := by simpa using ht.order
  noNul := by simpa using ht.noNul
  numPrefixes := by simpa [PrefixTable.countAt] using ht.numPrefixes
  totalPrefixSize := by
    rw [PrefixTable.prefixes_countAt]
    exact ht.totalPrefixSize
  counters r hr k := by
    obtain ⟨q, s, hs, rfl⟩ := PrefixTable.mem_countAt hr
    have hlt := ht.counters s (List.mem_of_getElem? hs) k
    split_ifs
    · rw [PrefixStats.count_counter]
      split_ifs
      · exact succ64_lt _
      · exact hlt
    · exact hlt

/-- A call finds its record and counts in it. -/
theorem statsPrefixRecord_eq (hash : Bytes → ℕ) (delimiter : UInt8) (t : PrefixTable) (c : PrefixCall) :
    statsPrefixRecord hash delimiter t c =
      ((statsPrefixFind hash delimiter c.alloc c.key t).1,
        match (statsPrefixFind hash delimiter c.alloc c.key t).1 with
        | none => (statsPrefixFind hash delimiter c.alloc c.key t).2
        | some p => (statsPrefixFind hash delimiter c.alloc c.key t).2.countAt p c.event) := by
  unfold statsPrefixRecord
  rcases statsPrefixFind hash delimiter c.alloc c.key t with ⟨r, t'⟩
  cases r <;> rfl

/-- A prefix that is found has no NUL. -/
theorem ownPrefix_noNul {key : Bytes} (h : prefixLength delimiter key ≠ none) :
    0 ∉ ownPrefix delimiter key := by
  obtain ⟨n, hn⟩ := Option.ne_none_iff_exists'.mp h
  exact (prefixLength_eq_some hn).2.2.2.2

/-- **A call keeps the table well formed.** -/
theorem PrefixTable.WellFormed.record {t : PrefixTable} (ht : t.WellFormed hash) (c : PrefixCall) :
    (statsPrefixRecord hash delimiter t c).2.WellFormed hash := by
  rw [statsPrefixRecord_eq]
  rcases ht.find delimiter c.alloc c.key with h
  generalize statsPrefixFind hash delimiter c.alloc c.key t = f at h
  cases h with
  | bailout => exact ht
  | found => exact ht.countAt _ _
  | created h _ hnone => exact (ht.push (ownPrefix_noNul h) hnone).countAt _ _
  | outOfMemory => exact ht

/-- The table after one more call. -/
theorem prefixTableAfter_snoc (calls : List PrefixCall) (c : PrefixCall) :
    prefixTableAfter hash delimiter (calls ++ [c]) =
      (statsPrefixRecord hash delimiter (prefixTableAfter hash delimiter calls) c).2 := by
  simp [prefixTableAfter]

/-- **The table is well formed** after any calls. -/
theorem wellFormed_prefixTableAfter (hash : Bytes → ℕ) (delimiter : UInt8) (calls : List PrefixCall) :
    (prefixTableAfter hash delimiter calls).WellFormed hash := by
  induction calls using List.reverseRecOn with
  | nil => exact wellFormed_statsPrefixInit
  | append_singleton calls c ih =>
      rw [prefixTableAfter_snoc]
      exact ih.record c

/-! ## The records over a run -/

/-- The prefixes only grow. -/
theorem prefixes_record (c : PrefixCall) {t : PrefixTable} (ht : t.WellFormed hash) :
    t.prefixes <+: (statsPrefixRecord hash delimiter t c).2.prefixes := by
  rw [statsPrefixRecord_eq]
  rcases ht.find delimiter c.alloc c.key with h
  generalize statsPrefixFind hash delimiter c.alloc c.key t = f at h
  cases h <;> simp

/-- No record is lost. -/
theorem prefixes_prefixTableAfter (hash : Bytes → ℕ) (delimiter : UInt8) (pre post : List PrefixCall) :
    (prefixTableAfter hash delimiter pre).prefixes <+:
      (prefixTableAfter hash delimiter (pre ++ post)).prefixes := by
  -- by induction on the later calls: records are added only at the end
  induction post using List.reverseRecOn with
  | nil => simp
  | append_singleton post c ih =>
      rw [← List.append_assoc, prefixTableAfter_snoc]
      exact ih.trans (prefixes_record c (wellFormed_prefixTableAfter hash delimiter _))

/-- The record of a call, and its prefix. -/
theorem recordOf_cases {pre : List PrefixCall} {c : PrefixCall} {p : ℕ}
    (h : recordOf hash delimiter pre c = some p) :
    prefixLength delimiter c.key ≠ none ∧ ∃ x,
      (prefixTableAfter hash delimiter (pre ++ [c])).prefixes[p]? = some x ∧
      ownPrefix delimiter c.key <+: x ∧
      ((prefixTableAfter hash delimiter pre).prefixes[p]? = some x ∨
        c.alloc = true ∧ x = ownPrefix delimiter c.key) := by
  have ht := wellFormed_prefixTableAfter hash delimiter pre
  have hfind := ht.find delimiter c.alloc c.key
  rw [prefixTableAfter_snoc]
  rw [recordOf] at h
  rw [statsPrefixRecord_eq] at h ⊢
  generalize statsPrefixFind hash delimiter c.alloc c.key (prefixTableAfter hash delimiter pre) = f
    at h hfind
  cases hfind with
  | bailout => simp at h
  | outOfMemory => simp at h
  | @found q x hsome hx _ hpre _ =>
      obtain rfl : q = p := by simpa using h
      exact ⟨hsome, x, by simpa using hx, hpre, .inl hx⟩
  | created hsome halloc _ =>
      obtain rfl : (prefixTableAfter hash delimiter pre).records.length = p := by simpa using h
      refine ⟨hsome, ownPrefix delimiter c.key, ?_, List.prefix_refl _, .inr ⟨halloc, rfl⟩⟩
      rw [PrefixTable.prefixes_countAt, PrefixTable.prefixes_push, ← PrefixTable.length_prefixes,
        List.getElem?_concat_length]

/-- A record has the prefix of a call. -/
theorem mem_prefixes_prefixTableAfter {calls : List PrefixCall} {x : Bytes}
    (h : x ∈ (prefixTableAfter hash delimiter calls).prefixes) :
    ∃ d ∈ calls, delimiter ∈ d.key ∧ ownPrefix delimiter d.key = x := by
  induction calls using List.reverseRecOn with
  | nil => simp [prefixTableAfter, statsPrefixInit, PrefixTable.prefixes] at h
  | append_singleton calls c ih =>
      have hold : x ∈ (prefixTableAfter hash delimiter calls).prefixes →
          ∃ d ∈ calls ++ [c], delimiter ∈ d.key ∧ ownPrefix delimiter d.key = x := by
        intro hx
        obtain ⟨d, hd, hmem, hown⟩ := ih hx
        exact ⟨d, List.mem_append_left _ hd, hmem, hown⟩
      have ht := wellFormed_prefixTableAfter hash delimiter calls
      have hfind := ht.find delimiter c.alloc c.key
      rw [prefixTableAfter_snoc, statsPrefixRecord_eq] at h
      generalize statsPrefixFind hash delimiter c.alloc c.key (prefixTableAfter hash delimiter calls)
        = f at h hfind
      cases hfind with
      | bailout => exact hold h
      | outOfMemory => exact hold h
      | found => exact hold (by simpa using h)
      | created hsome _ _ =>
          rw [PrefixTable.prefixes_countAt, PrefixTable.prefixes_push, List.mem_append] at h
          rcases h with h | h
          · exact hold h
          · obtain ⟨n, hn⟩ := Option.ne_none_iff_exists'.mp hsome
            exact ⟨c, by simp, (prefixLength_eq_some hn).1, (List.mem_singleton.mp h).symm⟩

/-! ## Counting per prefix -/

/-- The calls for a prefix whose event a counter is about. -/
def eventsOf (delimiter : UInt8) (calls : List PrefixCall) (x : Bytes) (k : PrefixCounter) : ℕ :=
  calls.countP fun c =>
    decide (delimiter ∈ c.key) && decide (ownPrefix delimiter c.key = x) && c.event.counts k

/-- **Statistics per prefix**: a call is attributed to the record of its own prefix, whose counters
count the calls for that prefix. -/
structure CountsPerPrefix (hash : Bytes → ℕ) (delimiter : UInt8) (calls : List PrefixCall) : Prop where
  attributed : ∀ pre c post, calls = pre ++ c :: post → delimiter ∈ c.key →
    ∃ p, recordOf hash delimiter pre c = some p ∧
      (prefixTableAfter hash delimiter calls).prefixes[p]? = some (ownPrefix delimiter c.key)
  shared : ∀ pre c post pre' c' post', calls = pre ++ c :: post → calls = pre' ++ c' :: post' →
    delimiter ∈ c.key → delimiter ∈ c'.key →
      (recordOf hash delimiter pre c = recordOf hash delimiter pre' c' ↔
        ownPrefix delimiter c.key = ownPrefix delimiter c'.key)
  counted : ∀ r ∈ (prefixTableAfter hash delimiter calls).records, ∀ k,
    r.counter k = eventsOf delimiter calls r.pfx k
  unattributed : ∀ pre c post, calls = pre ++ c :: post → delimiter ∉ c.key →
    recordOf hash delimiter pre c = none

/-- The calls that the records can count per prefix. -/
structure PrefixesApart (hash : Bytes → ℕ) (delimiter : UInt8) (calls : List PrefixCall) : Prop where
  /-- No NUL ends a key before its delimiter. -/
  noNul : ∀ c ∈ calls, delimiter ∈ c.key → delimiter ≠ 0 ∧ 0 ∉ ownPrefix delimiter c.key
  /-- There is memory for the first record of a prefix. -/
  memory : ∀ pre c post, calls = pre ++ c :: post → delimiter ∈ c.key →
    c.alloc = true ∨ ∃ d ∈ pre, delimiter ∈ d.key ∧ ownPrefix delimiter d.key = ownPrefix delimiter c.key
  /-- A prefix never comes after a longer one that it begins, in the same chain. -/
  unextended : ∀ pre c post, calls = pre ++ c :: post → delimiter ∈ c.key →
    ∀ d ∈ pre, delimiter ∈ d.key → ownPrefix delimiter c.key <+: ownPrefix delimiter d.key →
      prefixChain hash (ownPrefix delimiter d.key) = prefixChain hash (ownPrefix delimiter c.key) →
        ownPrefix delimiter d.key = ownPrefix delimiter c.key
  /-- No counter wraps around. -/
  few : ∀ x k, eventsOf delimiter calls x k < 2 ^ 64

/-- The events of a prefix, with one more call. -/
theorem eventsOf_snoc (calls : List PrefixCall) (c : PrefixCall) (x : Bytes) (k : PrefixCounter) :
    eventsOf delimiter (calls ++ [c]) x k = eventsOf delimiter calls x k +
      if delimiter ∈ c.key ∧ ownPrefix delimiter c.key = x ∧ c.event.counts k = true then 1 else 0 := by
  simp [eventsOf, List.countP_append, List.countP_singleton, and_assoc]

/-- Events are never taken back. -/
theorem eventsOf_append_le (calls rest : List PrefixCall) (x : Bytes) (k : PrefixCounter) :
    eventsOf delimiter calls x k ≤ eventsOf delimiter (calls ++ rest) x k := by
  simp [eventsOf, List.countP_append]

/-- The condition holds of the calls before. -/
theorem PrefixesApart.left {calls rest : List PrefixCall}
    (h : PrefixesApart hash delimiter (calls ++ rest)) : PrefixesApart hash delimiter calls where
  noNul c hc := h.noNul c (List.mem_append_left _ hc)
  memory pre c post hsplit := h.memory pre c (post ++ rest) (by simp [hsplit])
  unextended pre c post hsplit := h.unextended pre c (post ++ rest) (by simp [hsplit])
  few x k := lt_of_le_of_lt (eventsOf_append_le calls rest x k) (h.few x k)

/-- The prefixes of the calls have records, which count them. -/
structure Counted (hash : Bytes → ℕ) (delimiter : UInt8) (calls : List PrefixCall) : Prop where
  recorded : ∀ c ∈ calls, delimiter ∈ c.key →
    ownPrefix delimiter c.key ∈ (prefixTableAfter hash delimiter calls).prefixes
  counted : ∀ r ∈ (prefixTableAfter hash delimiter calls).records, ∀ k,
    r.counter k = eventsOf delimiter calls r.pfx k

/-- A call that does not disturb the counts finds its own record, or makes it. -/
theorem Counted.attributed {calls : List PrefixCall} {c : PrefixCall}
    (hc : Counted hash delimiter calls) (hap : PrefixesApart hash delimiter (calls ++ [c]))
    (hmem : delimiter ∈ c.key) :
    (∃ p, statsPrefixFind hash delimiter c.alloc c.key (prefixTableAfter hash delimiter calls) =
        (some p, prefixTableAfter hash delimiter calls) ∧
      (prefixTableAfter hash delimiter calls).prefixes[p]? = some (ownPrefix delimiter c.key)) ∨
    (statsPrefixFind hash delimiter c.alloc c.key (prefixTableAfter hash delimiter calls) =
        (some (prefixTableAfter hash delimiter calls).records.length,
          (prefixTableAfter hash delimiter calls).push (prefixChain hash (ownPrefix delimiter c.key))
            (ownPrefix delimiter c.key)) ∧
      ownPrefix delimiter c.key ∉ (prefixTableAfter hash delimiter calls).prefixes) := by
  have ht := wellFormed_prefixTableAfter hash delimiter calls
  have hfind := ht.find delimiter c.alloc c.key
  generalize hf : statsPrefixFind hash delimiter c.alloc c.key (prefixTableAfter hash delimiter calls)
    = f at hfind ⊢
  obtain ⟨hne, hnul⟩ := hap.noNul c (by simp) hmem
  cases hfind with
  | bailout h => simp [prefixLength_eq_some_of_mem hmem hne hnul] at h
  -- no earlier prefix of the chain is longer, so the record found is the own one
  | @found p x _ hx hchain hpre _ =>
      obtain ⟨d, hd, hdmem, rfl⟩ := mem_prefixes_prefixTableAfter (List.mem_of_getElem? hx)
      have heq := hap.unextended calls c [] rfl hmem d hd hdmem hpre hchain
      exact .inl ⟨p, rfl, by rw [hx, heq]⟩
  | created _ _ hnone =>
      refine .inr ⟨rfl, fun hin => ?_⟩
      obtain ⟨q, hq⟩ := List.mem_iff_getElem?.mp hin
      exact hnone q _ hq rfl (List.prefix_refl _)
  -- the prefix is there, so no memory is asked for
  | outOfMemory _ halloc hnone =>
      rcases hap.memory calls c [] rfl hmem with h | ⟨d, hd, hdmem, heq⟩
      · simp [halloc] at h
      · obtain ⟨q, hq⟩ := List.mem_iff_getElem?.mp (heq ▸ hc.recorded d hd hdmem)
        exact absurd (List.prefix_refl _) (hnone q _ hq rfl)

/-- A key without the delimiter has no prefix. -/
theorem prefixLength_eq_none {key : Bytes} (h : delimiter ∉ key) : prefixLength delimiter key = none := by
  cases hlen : prefixLength delimiter key with
  | none => rfl
  | some n => exact absurd (prefixLength_eq_some hlen).1 h

/-- Counting a call at the record of its own prefix. -/
theorem counted_countAt {calls : List PrefixCall} {c : PrefixCall} {t : PrefixTable}
    (ht : t.WellFormed hash) {p : ℕ} (hmem : delimiter ∈ c.key)
    (hp : t.prefixes[p]? = some (ownPrefix delimiter c.key))
    (hcounted : ∀ r ∈ t.records, ∀ k, r.counter k = eventsOf delimiter calls r.pfx k)
    (hfew : ∀ x k, eventsOf delimiter (calls ++ [c]) x k < 2 ^ 64) :
    ∀ r ∈ (t.countAt p c.event).records, ∀ k,
      r.counter k = eventsOf delimiter (calls ++ [c]) r.pfx k := by
  intro r hr k
  obtain ⟨q, s, hs, rfl⟩ := PrefixTable.mem_countAt hr
  have hold := hcounted s (List.mem_of_getElem? hs) k
  have hspfx : t.prefixes[q]? = some s.pfx := by simp [PrefixTable.prefixes, hs]
  -- the counter that goes up, below the bound where it would wrap
  by_cases hpq : p = q
  · subst hpq
    have hown : ownPrefix delimiter c.key = s.pfx := Option.some.inj (hp.symm.trans hspfx)
    have hlt := hfew s.pfx k
    rw [if_pos rfl, PrefixStats.count_counter, PrefixStats.count_pfx, eventsOf_snoc, hold]
    rw [eventsOf_snoc] at hlt
    by_cases hk : c.event.counts k = true
    · rw [if_pos ⟨hmem, hown, hk⟩] at hlt
      rw [if_pos hk, if_pos ⟨hmem, hown, hk⟩, succ64, Nat.mod_eq_of_lt hlt]
    · rw [if_neg hk, if_neg fun h => hk h.2.2, Nat.add_zero]
  · have hne : ownPrefix delimiter c.key ≠ s.pfx := fun h => hpq (ht.eq_of_getElem_prefixes hp (h ▸ hspfx))
    rw [if_neg hpq, eventsOf_snoc, if_neg fun h => hne h.2.1, Nat.add_zero, hold]

/-- **One more call keeps the counts.** -/
theorem Counted.snoc {calls : List PrefixCall} {c : PrefixCall} (hc : Counted hash delimiter calls)
    (hap : PrefixesApart hash delimiter (calls ++ [c])) : Counted hash delimiter (calls ++ [c]) := by
  have ht := wellFormed_prefixTableAfter hash delimiter calls
  by_cases hmem : delimiter ∈ c.key
  -- the call counts at the record of its prefix, or makes one
  · rcases hc.attributed hap hmem with ⟨p, hfind, hp⟩ | ⟨hfind, hnew⟩
    · have hafter : prefixTableAfter hash delimiter (calls ++ [c]) =
          (prefixTableAfter hash delimiter calls).countAt p c.event := by
        rw [prefixTableAfter_snoc, statsPrefixRecord_eq, hfind]
      refine ⟨fun d hd hdmem => ?_, ?_⟩
      · rw [hafter, PrefixTable.prefixes_countAt]
        rcases List.mem_append.mp hd with hd | hd
        · exact hc.recorded d hd hdmem
        · rw [List.mem_singleton.mp hd]
          exact List.mem_of_getElem? hp
      · rw [hafter]
        exact counted_countAt ht hmem hp hc.counted hap.few
    · have hafter : prefixTableAfter hash delimiter (calls ++ [c]) =
          ((prefixTableAfter hash delimiter calls).push (prefixChain hash (ownPrefix delimiter c.key))
            (ownPrefix delimiter c.key)).countAt (prefixTableAfter hash delimiter calls).records.length
              c.event := by
        rw [prefixTableAfter_snoc, statsPrefixRecord_eq, hfind]
      refine ⟨fun d hd hdmem => ?_, ?_⟩
      · rw [hafter, PrefixTable.prefixes_countAt, PrefixTable.prefixes_push, List.mem_append]
        rcases List.mem_append.mp hd with hd | hd
        · exact .inl (hc.recorded d hd hdmem)
        · rw [List.mem_singleton.mp hd]
          exact .inr List.mem_cons_self
      · have hpush := ht.push (hap.noNul c (by simp) hmem).2 fun q x hq hchain hpre => by
          obtain ⟨d, hd, hdmem, rfl⟩ := mem_prefixes_prefixTableAfter (List.mem_of_getElem? hq)
          have heq := hap.unextended calls c [] rfl hmem d hd hdmem hpre hchain
          exact hnew (heq ▸ List.mem_of_getElem? hq)
        rw [hafter]
        refine counted_countAt hpush hmem ?_ ?_ hap.few
        · rw [PrefixTable.prefixes_push, ← PrefixTable.length_prefixes, List.getElem?_concat_length]
        · intro r hr k
          rcases List.mem_append.mp hr with hr | hr
          · exact hc.counted r hr k
          · -- a new record has counted nothing, and no call had its prefix
            rw [List.mem_singleton.mp hr]
            have hzero : eventsOf delimiter calls (ownPrefix delimiter c.key) k = 0 := by
              refine List.countP_eq_zero.mpr fun d hd h => hnew ?_
              simp only [Bool.and_eq_true, decide_eq_true_eq] at h
              exact h.1.2 ▸ hc.recorded d hd h.1.1
            rw [hzero]
            cases k <;> rfl
  · have hafter : prefixTableAfter hash delimiter (calls ++ [c]) =
        prefixTableAfter hash delimiter calls := by
      rw [prefixTableAfter_snoc, statsPrefixRecord_eq, statsPrefixFind, prefixLength_eq_none hmem]
    refine ⟨fun d hd hdmem => ?_, fun r hr k => ?_⟩
    · rw [hafter]
      rcases List.mem_append.mp hd with hd | hd
      · exact hc.recorded d hd hdmem
      · exact absurd (List.mem_singleton.mp hd ▸ hdmem) hmem
    · rw [hafter] at hr
      rw [eventsOf_snoc, if_neg fun h => hmem h.1, Nat.add_zero]
      exact hc.counted r hr k

/-- **The counts are right** after any calls that meet the condition. -/
theorem counted_prefixTableAfter {calls : List PrefixCall} (h : PrefixesApart hash delimiter calls) :
    Counted hash delimiter calls := by
  -- by induction on the calls from the last one; `Counted` is the invariant
  induction calls using List.reverseRecOn with
  | nil => exact ⟨by simp, by simp [prefixTableAfter, statsPrefixInit]⟩
  | append_singleton calls c ih => exact (ih h.left).snoc h

/-- The prefix of a record is what it was made with. -/
theorem prefixes_of_split {calls pre post : List PrefixCall} {c : PrefixCall} {p : ℕ} {x : Bytes}
    (hsplit : calls = pre ++ c :: post)
    (h : (prefixTableAfter hash delimiter (pre ++ [c])).prefixes[p]? = some x) :
    (prefixTableAfter hash delimiter calls).prefixes[p]? = some x := by
  have hcalls : calls = (pre ++ [c]) ++ post := by simp [hsplit]
  rw [hcalls]
  obtain ⟨rest, hrest⟩ := prefixes_prefixTableAfter hash delimiter (pre ++ [c]) post
  rw [← hrest, List.getElem?_append_left (List.getElem?_eq_some_iff.mp h).1, h]

/-- The condition is enough. -/
theorem countsPerPrefix_of_prefixesApart {calls : List PrefixCall}
    (h : PrefixesApart hash delimiter calls) : CountsPerPrefix hash delimiter calls := by
  -- what a call finds when it is made is still there after all of them
  have hattr : ∀ pre c post, calls = pre ++ c :: post → delimiter ∈ c.key →
      ∃ p, recordOf hash delimiter pre c = some p ∧
        (prefixTableAfter hash delimiter calls).prefixes[p]? = some (ownPrefix delimiter c.key) := by
    intro pre c post hsplit hmem
    have hcalls : calls = (pre ++ [c]) ++ post := by simp [hsplit]
    have hpre : PrefixesApart hash delimiter (pre ++ [c]) := PrefixesApart.left (hcalls ▸ h)
    rcases (counted_prefixTableAfter hpre.left).attributed hpre hmem with ⟨p, hfind, hp⟩ | ⟨hfind, -⟩
    · refine ⟨p, by rw [recordOf, statsPrefixRecord_eq, hfind], prefixes_of_split hsplit ?_⟩
      rw [prefixTableAfter_snoc, statsPrefixRecord_eq, hfind]
      simpa using hp
    · refine ⟨_, by rw [recordOf, statsPrefixRecord_eq, hfind], prefixes_of_split hsplit ?_⟩
      rw [prefixTableAfter_snoc, statsPrefixRecord_eq, hfind]
      simp only [PrefixTable.prefixes_countAt, PrefixTable.prefixes_push]
      rw [← PrefixTable.length_prefixes, List.getElem?_concat_length]
  refine ⟨hattr, ?_, (counted_prefixTableAfter h).counted, ?_⟩
  · intro pre c post pre' c' post' hsplit hsplit' hmem hmem'
    obtain ⟨p, hp, hx⟩ := hattr pre c post hsplit hmem
    obtain ⟨p', hp', hx'⟩ := hattr pre' c' post' hsplit' hmem'
    rw [hp, hp']
    constructor
    · rintro hpp
      rw [Option.some.inj hpp] at hx
      exact Option.some.inj (hx.symm.trans hx')
    · intro hown
      rw [hown] at hx
      rw [(wellFormed_prefixTableAfter hash delimiter calls).eq_of_getElem_prefixes hx hx']
  · intro pre c post _ hmem
    rw [recordOf, statsPrefixRecord_eq, statsPrefixFind, prefixLength_eq_none hmem]

/-- A call whose record has its own prefix could be counted there. -/
theorem apart_of_recordOf {calls pre post : List PrefixCall} {c : PrefixCall}
    (h : CountsPerPrefix hash delimiter calls) (hsplit : calls = pre ++ c :: post)
    (hmem : delimiter ∈ c.key) :
    (delimiter ≠ 0 ∧ 0 ∉ ownPrefix delimiter c.key) ∧
      (c.alloc = true ∨
        ∃ d ∈ pre, delimiter ∈ d.key ∧ ownPrefix delimiter d.key = ownPrefix delimiter c.key) ∧
      ∀ d ∈ pre, delimiter ∈ d.key → ownPrefix delimiter c.key <+: ownPrefix delimiter d.key →
        prefixChain hash (ownPrefix delimiter d.key) = prefixChain hash (ownPrefix delimiter c.key) →
          ownPrefix delimiter d.key = ownPrefix delimiter c.key := by
  obtain ⟨p, hp, hx⟩ := h.attributed pre c post hsplit hmem
  obtain ⟨hsome, x, hx', -, hor⟩ := recordOf_cases hp
  obtain rfl := Option.some.inj ((prefixes_of_split hsplit hx').symm.trans hx)
  obtain ⟨n, hn⟩ := Option.ne_none_iff_exists'.mp hsome
  refine ⟨(prefixLength_eq_some hn).2.2.2, ?_, ?_⟩
  · rcases hor with hold | ⟨halloc, -⟩
    · exact .inr (mem_prefixes_prefixTableAfter (List.mem_of_getElem? hold))
    · exact .inl halloc
  · intro d hd hdmem hpre hchain
    -- the record of the earlier call, as it was when the later one was made
    obtain ⟨pre₁, pre₂, hpre₁⟩ := List.append_of_mem hd
    have hcalls : calls = pre₁ ++ d :: (pre₂ ++ c :: post) := by simp [hsplit, hpre₁]
    obtain ⟨q, hq, hy⟩ := h.attributed pre₁ d (pre₂ ++ c :: post) hcalls hdmem
    obtain ⟨-, y, hy', -, -⟩ := recordOf_cases hq
    obtain rfl := Option.some.inj ((prefixes_of_split hcalls hy').symm.trans hy)
    have hq' := prefixes_of_split hpre₁ hy'
    -- the walk stops at the newest record that extends the prefix of the call
    have ht := wellFormed_prefixTableAfter hash delimiter pre
    have hfind := ht.find delimiter c.alloc c.key
    rw [recordOf, statsPrefixRecord_eq] at hp
    generalize statsPrefixFind hash delimiter c.alloc c.key (prefixTableAfter hash delimiter pre) = f
      at hp hfind
    cases hfind with
    | bailout => simp at hp
    | outOfMemory => simp at hp
    | created _ _ hnone => exact absurd hpre (hnone q _ hq' hchain)
    | @found r z _ hz hzchain hzpre hnewest =>
        obtain rfl : r = p := by simpa using hp
        have hz' : z = ownPrefix delimiter c.key := by
          have hle : (prefixTableAfter hash delimiter pre).prefixes <+:
              (prefixTableAfter hash delimiter calls).prefixes := by
            rw [hsplit]
            exact prefixes_prefixTableAfter hash delimiter pre (c :: post)
          obtain ⟨rest, hrest⟩ := hle
          rw [← hrest, List.getElem?_append_left (List.getElem?_eq_some_iff.mp hz).1, hz] at hx
          exact Option.some.inj hx
        subst hz'
        -- an earlier record would not be reached, a later one would break the order of the chain
        rcases Nat.lt_trichotomy r q with hlt | rfl | hlt
        · exact absurd hpre (hnewest q _ hlt hq' hchain)
        · exact Option.some.inj (hq'.symm.trans hz)
        · exact absurd hpre (ht.order q r _ _ hlt hq' hz hchain)

/-- The condition is necessary. -/
theorem prefixesApart_of_countsPerPrefix {calls : List PrefixCall}
    (h : CountsPerPrefix hash delimiter calls) : PrefixesApart hash delimiter calls where
  noNul c hc hmem := by
    obtain ⟨pre, post, hsplit⟩ := List.append_of_mem hc
    exact (apart_of_recordOf h hsplit hmem).1
  memory _ _ _ hsplit hmem := (apart_of_recordOf h hsplit hmem).2.1
  unextended _ _ _ hsplit hmem := (apart_of_recordOf h hsplit hmem).2.2
  few x k := by
    rcases Nat.eq_zero_or_pos (eventsOf delimiter calls x k) with h0 | hpos
    · rw [h0]
      norm_num
    -- a prefix with events has a record, and its counter is less than 2 ^ 64
    · obtain ⟨c, hc, hk⟩ := List.countP_pos_iff.mp hpos
      simp only [Bool.and_eq_true, decide_eq_true_eq] at hk
      obtain ⟨pre, post, hsplit⟩ := List.append_of_mem hc
      obtain ⟨p, -, hp⟩ := h.attributed pre c post hsplit hk.1.1
      obtain ⟨r, hr, hrx⟩ := List.mem_map.mp (List.mem_of_getElem? hp)
      have hcount := h.counted r hr k
      rw [hrx, hk.1.2] at hcount
      exact hcount ▸ (wellFormed_prefixTableAfter hash delimiter calls).counters r hr k

/-- **The statistics are per prefix where no prefix comes after a longer one of its chain**, keys have
no NUL before their delimiter, and memory and counters suffice. -/
theorem countsPerPrefix_iff (hash : Bytes → ℕ) (delimiter : UInt8) (calls : List PrefixCall) :
    CountsPerPrefix hash delimiter calls ↔ PrefixesApart hash delimiter calls :=
  ⟨prefixesApart_of_countsPerPrefix, countsPerPrefix_of_prefixesApart⟩

/-- With `abc:x` set before `ab:x`, in one chain, both are counted for the prefix `abc`. -/
theorem countsPerPrefix_extended :
    recordOf (fun _ => 0) 58 [⟨[97, 98, 99, 58, 120], .set, true⟩] ⟨[97, 98, 58, 120], .set, true⟩ =
        some 0 ∧
      (prefixTableAfter (fun _ => 0) 58
        [⟨[97, 98, 99, 58, 120], .set, true⟩, ⟨[97, 98, 58, 120], .set, true⟩]).records =
          [⟨[97, 98, 99], 0, 2, 0, 0⟩] ∧
      ¬ CountsPerPrefix (fun _ => 0) 58
        [⟨[97, 98, 99, 58, 120], .set, true⟩, ⟨[97, 98, 58, 120], .set, true⟩] := by
  have hrecord : recordOf (fun _ => 0) 58 [⟨[97, 98, 99, 58, 120], .set, true⟩]
      ⟨[97, 98, 58, 120], .set, true⟩ = some 0 := by decide
  have htable : (prefixTableAfter (fun _ => 0) 58
      [⟨[97, 98, 99, 58, 120], .set, true⟩, ⟨[97, 98, 58, 120], .set, true⟩]).records =
        [⟨[97, 98, 99], 0, 2, 0, 0⟩] := by decide
  refine ⟨hrecord, htable, fun h => ?_⟩
  obtain ⟨p, hp, hx⟩ := h.attributed [⟨[97, 98, 99, 58, 120], .set, true⟩]
    ⟨[97, 98, 58, 120], .set, true⟩ [] rfl (by decide)
  rw [hrecord] at hp
  rw [← Option.some.inj hp, PrefixTable.prefixes, htable] at hx
  exact absurd hx (by decide)

end Memcached
