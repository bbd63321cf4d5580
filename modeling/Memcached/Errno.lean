import Memcached.CrawlCommand
import Memcached.Protocol

/-! # `errno` across commands

`strtol` sets `errno` where a number is out of range and leaves it alone otherwise; the `safe_strto*`
functions clear it first. `flush_all` and `slabs reassign` read it after a `strtol`, and `errno` is that
of the worker thread.

* **`callErrno`** — what a conversion does to `errno`.
* **`LeavesErange`** — the histories that leave `ERANGE` behind.
* **`adminDecision_eq_iff`** — when the answer of a command depends on its text alone. -/

namespace Memcached

open CNumber (Bytes scanNumeral digitsValue strtol toInt32)

/-! ## Conversions -/

/-- `ERANGE`. -/
def erange : ℕ := 34

/-- The number is not one of a `long`. -/
def longOutOfRange (str : Bytes) : Bool :=
  match scanNumeral str with
  | none => false
  -- `-2 ^ 63` is a `long`, `2 ^ 63` is not
  | some n => if n.neg then 2 ^ 63 < digitsValue n.digits else 2 ^ 63 ≤ digitsValue n.digits

/-- The number, less its sign, is not one of an `unsigned long`. -/
def ulongOutOfRange (str : Bytes) : Bool :=
  match scanNumeral str with
  | none => false
  -- a minus sign only negates the result
  | some n => 2 ^ 64 ≤ digitsValue n.digits

/-- A call that converts a string to a number. -/
inductive Conversion
  | strtol (str : Bytes)
  | strtoul (str : Bytes)
  | safeStrtol (str : Bytes)
  | safeStrtoul (str : Bytes)
  | safeStrtoull (str : Bytes)
  deriving DecidableEq, Repr

namespace Conversion

/-- The conversion sets `errno` to `ERANGE`. -/
def outOfRange : Conversion → Bool
  | strtol str | safeStrtol str => longOutOfRange str
  | strtoul str | safeStrtoul str | safeStrtoull str => ulongOutOfRange str

/-- The function sets `errno` to 0 first. -/
def clears : Conversion → Bool
  | strtol _ | strtoul _ => false
  | safeStrtol _ | safeStrtoul _ | safeStrtoull _ => true

/-- The function does not return false. -/
def succeeds : Conversion → Bool
  | strtol _ | strtoul _ => true
  | safeStrtol str => (CNumber.safeStrtol str).isSome
  | safeStrtoul str => (CNumber.safeStrtoul str).isSome
  | safeStrtoull str => (CNumber.safeStrtoull str).isSome

/-- `errno` after the call. -/
def errno (c : Conversion) (e : ℕ) : ℕ :=
  if c.outOfRange then erange else if c.clears then 0 else e

end Conversion

/-- The conversions of a chain of `&&` that are made: those up to the first that fails. -/
def conversionsUntil : List Conversion → List Conversion
  | [] => []
  | c :: cs => c :: if c.succeeds then conversionsUntil cs else []

/-! ## The conversions of a command -/

/-- The settings that `process_command` looks at before it converts a number. -/
structure AdminSettings where
  flushEnabled : Bool := true
  slabReassign : Bool := false
  lruCrawler : Bool := false
  /-- Another client's crawl holds `lru_crawler_lock`. -/
  crawlerRunning : Bool := false
  deriving DecidableEq, Repr

/-- `process_update_command`. -/
def updateConversions (tokens : List Bytes) (handleCas : Bool) : List Conversion :=
  if (tokens.getD 1 []).length > keyMaxLength then []
  else conversionsUntil
    ([.safeStrtoul (tokens.getD 2 []), .safeStrtol (tokens.getD 3 []), .safeStrtol (tokens.getD 4 [])] ++
      if handleCas then [.safeStrtoull (tokens.getD 5 [])] else [])

/-- The loop of `lru_crawler_crawl` over the class ids, which a bad one ends. -/
def crawlConversions : List Bytes → List Conversion
  | [] => []
  | p :: ps => .safeStrtoul p :: if crawlId p = none then [] else crawlConversions ps

/-- **The conversions of `process_command`**, in the order of its branches. -/
def commandConversions (cfg : AdminSettings) (tokens : List Bytes) : List Conversion :=
  let ntokens := tokens.length + 1
  let word := tokens.headD []
  let arg := tokens.getD 1 []
  if 3 ≤ ntokens ∧ (word = ascii "get" ∨ word = ascii "bget") then []
  else if (ntokens = 6 ∨ ntokens = 7) ∧ storageWord word ≠ none then updateConversions tokens false
  else if (ntokens = 7 ∨ ntokens = 8) ∧ word = ascii "cas" then updateConversions tokens true
  else if (ntokens = 4 ∨ ntokens = 5) ∧ (word = ascii "incr" ∨ word = ascii "decr") then
    if arg.length > keyMaxLength then [] else [.safeStrtoull (tokens.getD 2 [])]
  else if (ntokens = 4 ∨ ntokens = 5) ∧ word = ascii "touch" then
    if arg.length > keyMaxLength then [] else [.safeStrtol (tokens.getD 2 [])]
  else if 2 ≤ ntokens ∧ word = ascii "stats" then
    if arg = ascii "cachedump" ∧ 5 ≤ ntokens then
      conversionsUntil [.safeStrtoul (tokens.getD 2 []), .safeStrtoul (tokens.getD 3 [])]
    else []
  else if (2 ≤ ntokens ∧ ntokens ≤ 4) ∧ word = ascii "flush_all" then
    -- `set_noreply_maybe` has looked at the last token
    if cfg.flushEnabled = false ∨ ntokens = (if tokens.getLast? = some (ascii "noreply") then 3 else 2) then
      []
    else [.strtol arg]
  else if 1 < ntokens ∧ word = ascii "slabs" then
    if ntokens = 5 ∧ arg = ascii "reassign" then
      -- both are converted before `errno` is looked at
      if cfg.slabReassign = false then [] else [.strtol (tokens.getD 2 []), .strtol (tokens.getD 3 [])]
    else if ntokens = 4 ∧ arg = ascii "automove" then [.strtoul (tokens.getD 2 [])]
    else []
  else if 1 < ntokens ∧ word = ascii "lru_crawler" then
    if ntokens = 4 ∧ arg = ascii "crawl" then
      if cfg.lruCrawler = false ∨ cfg.crawlerRunning = true ∨ tokens.getD 2 [] = ascii "all" then []
      else crawlConversions (crawlTokens (tokens.getD 2 []))
    else if ntokens = 4 ∧ (arg = ascii "tocrawl" ∨ arg = ascii "sleep") then
      [.safeStrtoul (tokens.getD 2 [])]
    else []
  else if (ntokens = 3 ∨ ntokens = 4) ∧ word = ascii "verbosity" then [.strtoul arg]
  else []

/-! ## The administrative commands -/

/-- What `flush_all` and `slabs reassign` decide. -/
inductive AdminDecision
  | flushNotAllowed
  /-- `flush_all` without a delay. -/
  | flushNow
  | flushAt (exptime : ℤ)
  | reassignDisabled
  | reassign (src dst : ℤ)
  | badFormat
  deriving DecidableEq, Repr

/-- The branch of `process_command` for `flush_all`; the connection's `noreply` is that of this line. -/
def processFlushAll (cfg : AdminSettings) (tokens : List Bytes) (errno : ℕ) : AdminDecision :=
  let ntokens := tokens.length + 1
  let noreply := tokens.getLast? = some (ascii "noreply")
  if cfg.flushEnabled = false then .flushNotAllowed
  else if ntokens = (if noreply then 3 else 2) then .flushNow
  else
    -- nothing sets `errno` to 0 here
    let exptime := strtol (tokens.getD 1 [])
    let errno := (Conversion.strtol (tokens.getD 1 [])).errno errno
    if errno = erange then .badFormat else .flushAt exptime

/-- The branch for `slabs reassign`, up to the call of `slabs_reassign`. -/
def processSlabsReassign (cfg : AdminSettings) (tokens : List Bytes) (errno : ℕ) : AdminDecision :=
  if cfg.slabReassign = false then .reassignDisabled
  else
    let src := toInt32 (strtol (tokens.getD 2 []))
    let errno := (Conversion.strtol (tokens.getD 2 [])).errno errno
    let dst := toInt32 (strtol (tokens.getD 3 []))
    let errno := (Conversion.strtol (tokens.getD 3 [])).errno errno
    -- one test for both numbers
    if errno = erange then .badFormat else .reassign src dst

/-- The line is a `flush_all`. -/
def isFlushAll (tokens : List Bytes) : Prop :=
  (2 ≤ tokens.length + 1 ∧ tokens.length + 1 ≤ 4) ∧ tokens.headD [] = ascii "flush_all"

/-- The line is a `slabs reassign`. -/
def isSlabsReassign (tokens : List Bytes) : Prop :=
  tokens.length + 1 = 5 ∧ tokens.headD [] = ascii "slabs" ∧ tokens.getD 1 [] = ascii "reassign"

instance (tokens : List Bytes) : Decidable (isFlushAll tokens) := by
  unfold isFlushAll
  infer_instance

instance (tokens : List Bytes) : Decidable (isSlabsReassign tokens) := by
  unfold isSlabsReassign
  infer_instance

/-- What an administrative command decides on a line; `none` for other lines. -/
def adminDecision (cfg : AdminSettings) (errno : ℕ) (line : Bytes) : Option AdminDecision :=
  let tokens := (tokenizeCommand line).1
  if isFlushAll tokens then some (processFlushAll cfg tokens errno)
  else if isSlabsReassign tokens then some (processSlabsReassign cfg tokens errno)
  else none

/-! ## Histories -/

/-- What a worker thread does that can touch `errno`. -/
inductive ThreadEvent
  /-- A command line. -/
  | command (cfg : AdminSettings) (line : Bytes)
  /-- A number that a command reads from the store: the value or the suffix of an item. -/
  | stored (c : Conversion)
  /-- A library call that fails, and leaves this `errno`. -/
  | libraryCall (errno : ℕ)
  deriving DecidableEq, Repr

/-- The calls of an event that can touch `errno`, one by one. -/
def ThreadEvent.calls : ThreadEvent → List (Conversion ⊕ ℕ)
  | command cfg line => (commandConversions cfg (tokenizeCommand line).1).map .inl
  | stored c => [.inl c]
  | libraryCall errno => [.inr errno]

/-- `errno` after a call. -/
def callErrno (e : ℕ) : Conversion ⊕ ℕ → ℕ
  | .inl c => c.errno e
  | .inr errno => errno

/-- `errno` of the thread after a history. -/
def errnoAfter (history : List ThreadEvent) : ℕ :=
  (history.flatMap ThreadEvent.calls).foldl callErrno 0

/-- The call sets `errno` to `ERANGE`. -/
def setsErange : Conversion ⊕ ℕ → Prop
  | .inl c => c.outOfRange = true
  | .inr errno => errno = erange

/-- The call leaves `errno` alone: a `strtol` or `strtoul` of a number that is in range. -/
def keepsErrno : Conversion ⊕ ℕ → Prop
  | .inl c => c.outOfRange = false ∧ c.clears = false
  | .inr _ => False

/-- **An out-of-range number is still in `errno`**: since a call that set `ERANGE` there were only
conversions that leave `errno` alone. -/
def LeavesErange (history : List ThreadEvent) : Prop :=
  ∃ pre c post, history.flatMap ThreadEvent.calls = pre ++ c :: post ∧ setsErange c ∧
    ∀ d ∈ post, keepsErrno d

/-- The command reads `errno`, and its own numbers are in range. -/
structure ReadsErrno (cfg : AdminSettings) (line : Bytes) : Prop where
  reads : (isFlushAll (tokenizeCommand line).1 ∧ cfg.flushEnabled = true ∧
      (tokenizeCommand line).1.length + 1 ≠
        (if (tokenizeCommand line).1.getLast? = some (ascii "noreply") then 3 else 2)) ∨
    (isSlabsReassign (tokenizeCommand line).1 ∧ cfg.slabReassign = true)
  inRange : ∀ c ∈ commandConversions cfg (tokenizeCommand line).1, c.outOfRange = false

/-! ## What a history leaves in `errno` -/

/-- A call that is out of range leaves `ERANGE`. -/
theorem callErrno_of_setsErange {c : Conversion ⊕ ℕ} (h : setsErange c) (e : ℕ) :
    callErrno e c = erange := by
  cases c with
  | inl c => exact if_pos h
  | inr errno => exact h

/-- A call in range leaves `errno` as it was. -/
theorem callErrno_of_keepsErrno {c : Conversion ⊕ ℕ} (h : keepsErrno c) (e : ℕ) : callErrno e c = e := by
  cases c with
  | inl c =>
      obtain ⟨hrange, hclears⟩ := h
      simp [callErrno, Conversion.errno, hrange, hclears]
  | inr errno => exact h.elim

/-- Every other call leaves another number. -/
theorem callErrno_ne_erange {c : Conversion ⊕ ℕ} (hsets : ¬ setsErange c) (hkeeps : ¬ keepsErrno c)
    (e : ℕ) : callErrno e c ≠ erange := by
  cases c with
  | inl c =>
      have hrange : c.outOfRange = false := by simpa [setsErange] using hsets
      -- a conversion in range that is no bare `strtol` has set `errno` to 0
      have hclears : c.clears = true := by simpa [keepsErrno, hrange] using hkeeps
      simp [callErrno, Conversion.errno, hrange, hclears, erange]
  | inr errno => exact hsets

/-- **After some calls `errno` is `ERANGE` iff the last call that did not leave it alone set it so.** -/
theorem foldl_callErrno_eq_erange_iff (calls : List (Conversion ⊕ ℕ)) :
    calls.foldl callErrno 0 = erange ↔
      ∃ pre c post, calls = pre ++ c :: post ∧ setsErange c ∧ ∀ d ∈ post, keepsErrno d := by
  -- by induction on the calls from the last one
  induction calls using List.reverseRecOn with
  | nil => simp [erange]
  | append_singleton calls d ih =>
      rw [List.foldl_append, List.foldl_cons, List.foldl_nil]
      by_cases hsets : setsErange d
      · rw [callErrno_of_setsErange hsets]
        exact ⟨fun _ => ⟨calls, d, [], rfl, hsets, by simp⟩, fun _ => rfl⟩
      · -- the call that set it is an earlier one
        have hsplit : ∀ {pre c post}, calls ++ [d] = pre ++ c :: post → setsErange c →
            ∃ post', post = post' ++ [d] ∧ calls = pre ++ c :: post' := by
          intro pre c post h hc
          rcases List.eq_nil_or_concat post with rfl | ⟨post', d', rfl⟩
          · have hd := (List.append_inj' h rfl).2
            rw [List.cons.injEq] at hd
            exact absurd (hd.1 ▸ hc) hsets
          · rw [List.concat_eq_append, ← List.cons_append, ← List.append_assoc] at h
            obtain ⟨hcalls, hd⟩ := List.append_inj' h rfl
            rw [List.cons.injEq] at hd
            exact ⟨post', by rw [hd.1, List.concat_eq_append], hcalls⟩
        by_cases hkeeps : keepsErrno d
        · rw [callErrno_of_keepsErrno hkeeps, ih]
          constructor
          · rintro ⟨pre, c, post, rfl, hc, hpost⟩
            refine ⟨pre, c, post ++ [d], by simp, hc, fun d' hd' => ?_⟩
            rcases List.mem_append.mp hd' with hd' | hd'
            · exact hpost d' hd'
            · rwa [List.mem_singleton.mp hd']
          · rintro ⟨pre, c, post, h, hc, hpost⟩
            obtain ⟨post', rfl, hcalls⟩ := hsplit h hc
            exact ⟨pre, c, post', hcalls, hc, fun d' hd' => hpost d' (List.mem_append_left _ hd')⟩
        · refine ⟨fun h => absurd h (callErrno_ne_erange hsets hkeeps _), ?_⟩
          rintro ⟨pre, c, post, h, hc, hpost⟩
          obtain ⟨post', rfl, -⟩ := hsplit h hc
          exact absurd (hpost d (by simp)) hkeeps

/-- `errno` is `ERANGE` iff the history leaves it there. -/
theorem errnoAfter_eq_erange_iff (history : List ThreadEvent) :
    errnoAfter history = erange ↔ LeavesErange history :=
  foldl_callErrno_eq_erange_iff _

/-! ## What a command makes of it -/

/-- `flush_all` converts its delay. -/
theorem commandConversions_flushAll (cfg : AdminSettings) {tokens : List Bytes} (h : isFlushAll tokens) :
    commandConversions cfg tokens =
      if cfg.flushEnabled = false ∨
          tokens.length + 1 = (if tokens.getLast? = some (ascii "noreply") then 3 else 2) then []
      else [.strtol (tokens.getD 1 [])] := by
  obtain ⟨hn, hword⟩ := h
  have hne : ∀ w ∈ ["get", "bget", "cas", "incr", "decr", "touch", "stats"],
      ascii "flush_all" ≠ ascii w := by decide
  simp only [List.mem_cons, List.not_mem_nil, or_false, forall_eq_or_imp, forall_eq] at hne
  obtain ⟨hget, hbget, hcas, hincr, hdecr, htouch, hstats⟩ := hne
  have hstorage : storageWord (ascii "flush_all") = none := by decide
  simp only [commandConversions, hword, hget, hbget, hcas, hincr, hdecr, htouch, hstats, hstorage, hn,
    or_self, and_false, and_self, ne_eq, not_true_eq_false, if_true, if_false]

/-- `slabs reassign` converts both classes. -/
theorem commandConversions_slabsReassign (cfg : AdminSettings) {tokens : List Bytes}
    (h : isSlabsReassign tokens) :
    commandConversions cfg tokens =
      if cfg.slabReassign = false then []
      else [.strtol (tokens.getD 2 []), .strtol (tokens.getD 3 [])] := by
  obtain ⟨hn, hword, harg⟩ := h
  have hne : ∀ w ∈ ["get", "bget", "cas", "incr", "decr", "touch", "stats", "flush_all"],
      ascii "slabs" ≠ ascii w := by decide
  simp only [List.mem_cons, List.not_mem_nil, or_false, forall_eq_or_imp, forall_eq] at hne
  obtain ⟨hget, hbget, hcas, hincr, hdecr, htouch, hstats, hflush⟩ := hne
  have hstorage : storageWord (ascii "slabs") = none := by decide
  simp only [commandConversions, hn, hword, harg, hget, hbget, hcas, hincr, hdecr, htouch, hstats,
    hflush, hstorage, or_self, and_false, and_self, ne_eq, not_true_eq_false, if_true, if_false,
    Nat.one_lt_ofNat]

/-- A `flush_all` is no `slabs reassign`. -/
theorem not_isSlabsReassign {tokens : List Bytes} (h : isFlushAll tokens) : ¬ isSlabsReassign tokens := by
  intro h'
  have hne : ascii "flush_all" ≠ ascii "slabs" := by decide
  exact hne (h.2.symm.trans h'.2.1)

/-- `strtol` of a number in range leaves `errno` alone. -/
theorem errno_strtol_of_inRange {str : Bytes} (h : (Conversion.strtol str).outOfRange = false) (e : ℕ) :
    (Conversion.strtol str).errno e = e := by
  simp [Conversion.errno, h, Conversion.clears]

/-- `strtol` of a number out of range sets `ERANGE`. -/
theorem errno_strtol_of_outOfRange {str : Bytes} (h : (Conversion.strtol str).outOfRange = true) (e : ℕ) :
    (Conversion.strtol str).errno e = erange := by
  simp [Conversion.errno, h]

/-- **A command that reads `errno` refuses its numbers because of what it finds there.** -/
theorem adminDecision_of_readsErrno {cfg : AdminSettings} {line : Bytes} (h : ReadsErrno cfg line) :
    ∃ d, d ≠ AdminDecision.badFormat ∧ ∀ e, adminDecision cfg e line =
      some (if e = erange then .badFormat else d) := by
  obtain ⟨hreads, hrange⟩ := h
  rcases hreads with ⟨hflush, hen, hn⟩ | ⟨hreassign, hen⟩
  · have hconv := commandConversions_flushAll cfg hflush
    rw [if_neg (by simp [hen, hn])] at hconv
    have hin := hrange (.strtol ((tokenizeCommand line).1.getD 1 [])) (by rw [hconv]; simp)
    refine ⟨.flushAt (strtol ((tokenizeCommand line).1.getD 1 [])), by simp, fun e => ?_⟩
    rw [adminDecision]
    rw [if_pos hflush, processFlushAll, if_neg (by simp [hen]), if_neg hn]
    simp only [errno_strtol_of_inRange hin]
  · have hconv := commandConversions_slabsReassign cfg hreassign
    rw [if_neg (by simp [hen])] at hconv
    have hsrc := hrange (.strtol ((tokenizeCommand line).1.getD 2 [])) (by rw [hconv]; simp)
    have hdst := hrange (.strtol ((tokenizeCommand line).1.getD 3 [])) (by rw [hconv]; simp)
    have hnot : ¬ isFlushAll (tokenizeCommand line).1 := fun hf => not_isSlabsReassign hf hreassign
    refine ⟨.reassign (toInt32 (strtol ((tokenizeCommand line).1.getD 2 [])))
      (toInt32 (strtol ((tokenizeCommand line).1.getD 3 []))), by simp, fun e => ?_⟩
    rw [adminDecision]
    rw [if_neg hnot, if_pos hreassign, processSlabsReassign, if_neg (by simp [hen])]
    simp only [errno_strtol_of_inRange hsrc, errno_strtol_of_inRange hdst]

/-- A command that does not read `errno`, or has set it itself, does not depend on it. -/
theorem adminDecision_of_not_readsErrno {cfg : AdminSettings} {line : Bytes} (h : ¬ ReadsErrno cfg line)
    (e₁ e₂ : ℕ) : adminDecision cfg e₁ line = adminDecision cfg e₂ line := by
  rw [adminDecision, adminDecision]
  by_cases hflush : isFlushAll (tokenizeCommand line).1
  · rw [if_pos hflush, if_pos hflush]
    have hconv := commandConversions_flushAll cfg hflush
    simp only [processFlushAll]
    by_cases hen : cfg.flushEnabled = false
    · rw [if_pos hen, if_pos hen]
    · rw [if_neg hen, if_neg hen]
      by_cases hn : (tokenizeCommand line).1.length + 1 =
          (if (tokenizeCommand line).1.getLast? = some (ascii "noreply") then 3 else 2)
      · rw [if_pos hn, if_pos hn]
      · rw [if_neg (by simp [hen, hn])] at hconv
        -- its delay is out of range
        have hout : (Conversion.strtol ((tokenizeCommand line).1.getD 1 [])).outOfRange = true := by
          by_contra hin
          refine h ⟨.inl ⟨hflush, by simpa using hen, hn⟩, ?_⟩
          rw [hconv]
          simpa using hin
        rw [errno_strtol_of_outOfRange hout, errno_strtol_of_outOfRange hout]
  · rw [if_neg hflush, if_neg hflush]
    by_cases hreassign : isSlabsReassign (tokenizeCommand line).1
    · rw [if_pos hreassign, if_pos hreassign]
      have hconv := commandConversions_slabsReassign cfg hreassign
      simp only [processSlabsReassign]
      by_cases hen : cfg.slabReassign = false
      · rw [if_pos hen, if_pos hen]
      · rw [if_neg hen] at hconv
        rw [if_neg hen, if_neg hen]
        -- one of its classes is out of range
        cases hdst : (Conversion.strtol ((tokenizeCommand line).1.getD 3 [])).outOfRange with
        | true => rw [errno_strtol_of_outOfRange hdst, errno_strtol_of_outOfRange hdst]
        | false =>
            have hsrc : (Conversion.strtol ((tokenizeCommand line).1.getD 2 [])).outOfRange = true := by
              by_contra hin
              refine h ⟨.inr ⟨hreassign, by simpa using hen⟩, ?_⟩
              rw [hconv]
              intro c hc
              rcases List.mem_cons.mp hc with rfl | hc
              · exact Bool.eq_false_iff.mpr hin
              · rwa [List.mem_singleton.mp hc]
            rw [errno_strtol_of_outOfRange hsrc, errno_strtol_of_outOfRange hsrc]
    · rw [if_neg hreassign, if_neg hreassign]

end Memcached
