import Memcached.GetAnswers

/-! # The keys of a get command, in the read buffer

`tokenize_command` cuts a command line up where it lies: it writes a NUL behind every token that a
space ends, and leaves a pointer to the first character it has not looked at. `process_get_command`
goes on from there, seven tokens at a time. A pointer into the buffer is its offset.

* **`tokenizeAt`** — `tokenize_command` on a position of the buffer.
* **`tokenizeAt_spec`** — the words that it finds.
* **`keys_enumerated`** — the keys are those of the line, each once, and nothing outside is written. -/

namespace Memcached

open CNumber (Bytes)

/-! ## The tokenizer -/

/-- `token_t`. -/
structure Token where
  value : Option ℕ
  length : ℕ
  deriving DecidableEq, Repr

/-- The entries of `tokens` that are written, the buffer, and the pointers `s` and `e`, after the
loop of `tokenize_command`. -/
structure TokenScan where
  tokens : List Token
  buf : Bytes
  s : ℕ
  e : ℕ
  deriving DecidableEq, Repr

/-- The loop of `tokenize_command`, `n` characters before the end of the string. The buffer has fewer
than 2 ^ 31 bytes, so the index `i` does not wrap around. -/
def tokenScan (maxTokens : ℕ) : ℕ → ℕ → Bytes → ℕ → ℕ → TokenScan
  | 0, _, buf, s, e => ⟨[], buf, s, e⟩
  | n + 1, ntokens, buf, s, e =>
      if buf.getD e 0 = 32 then
        if s ≠ e then
          -- with the last entry but one taken, the loop is left
          if ntokens + 1 = maxTokens - 1 then ⟨[⟨some s, e - s⟩], buf.set e 0, e + 1, e + 1⟩
          else
            let r := tokenScan maxTokens n (ntokens + 1) (buf.set e 0) (e + 1) (e + 1)
            { r with tokens := ⟨some s, e - s⟩ :: r.tokens }
        else tokenScan maxTokens n ntokens buf (e + 1) (e + 1)
      else tokenScan maxTokens n ntokens buf s (e + 1)

/-- `strlen`. -/
def strlen (buf : Bytes) (p : ℕ) : ℕ := ((buf.drop p).takeWhile (· ≠ 0)).length

/-- `tokenize_command`: the buffer and the entries of `tokens`, the terminal one at the end. -/
def tokenizeAt (maxTokens : ℕ) (buf : Bytes) (command : ℕ) : Bytes × List Token :=
  let r := tokenScan maxTokens (strlen buf command) 0 buf command command
  (r.buf, r.tokens ++ (if r.s ≠ r.e then [⟨some r.s, r.e - r.s⟩] else []) ++
    [⟨if r.buf.getD r.e 0 = 0 then none else some r.e, 0⟩])

/-! ## The lookups -/

/-- The string at a token. -/
def Token.read (buf : Bytes) (t : Token) : Bytes :=
  match t.value with
  | none => []
  | some s => (buf.drop s).take t.length

/-- The inner loop of `process_get_command`: the keys looked up, and the token it ends at, `none`
where a key is too long. -/
def lookupKeys (buf : Bytes) : List Token → List Bytes × Option Token
  | [] => ([], none)
  | t :: ts =>
      if t.length = 0 then ([], some t)
      else if t.length > keyMaxLength then ([], none)
      else ((lookupKeys buf ts).1.cons (t.read buf), (lookupKeys buf ts).2)

/-- `process_get_command` from the token `key_token` on: the keys looked up, and whether one of them
is refused. -/
def processGetCommand : ℕ → Bytes → List Token → Option (List Bytes × Bool)
  | 0, _, _ => none
  | fuel + 1, buf, keyToken =>
      match lookupKeys buf keyToken with
      | (keys, none) => some (keys, true)
      | (keys, some t) =>
          match t.value with
          | none => some (keys, false)
          | some command =>
              let (buf, tokens) := tokenizeAt maxTokens buf command
              if (tokens.head?.bind Token.value) = none then some (keys, false)
              else (processGetCommand fuel buf tokens).map fun r => (keys ++ r.1, r.2)

/-- The keys that `process_command` looks up for the command line at the start of the buffer. -/
def processGetLine (fuel : ℕ) (buf : Bytes) : Option (List Bytes × Bool) :=
  let (buf, tokens) := tokenizeAt maxTokens buf 0
  if getCommand tokens.length ((tokens.map (Token.read buf)).headD []) then
    processGetCommand fuel buf (tokens.drop 1)
  else some ([], true)

/-! ## What the tokenizer writes -/

/-- The buffer `buf'` is `buf` with some of its spaces replaced by NUL. -/
def SpacesCut (buf buf' : Bytes) : Prop :=
  buf'.length = buf.length ∧
    ∀ j : ℕ, buf'[j]? = buf[j]? ∨ buf[j]? = some 32 ∧ buf'[j]? = some 0

/-- No space has been cut yet. -/
theorem SpacesCut.refl (buf : Bytes) : SpacesCut buf buf := ⟨rfl, fun _ => Or.inl rfl⟩

/-- One space more. -/
theorem SpacesCut.of_set {buf buf' : Bytes} {e : ℕ} (he : buf.getD e 0 = 32)
    (h : SpacesCut (buf.set e 0) buf') : SpacesCut buf buf' := by
  have hsome : buf[e]? = some 32 := by
    rw [List.getD_eq_getElem?_getD] at he
    cases hb : buf[e]? with
    | none =>
        rw [hb] at he
        exact absurd he (by decide)
    | some b =>
        rw [hb] at he
        exact congrArg some he
  have hlt : e < buf.length := (List.getElem?_eq_some_iff.mp hsome).1
  refine ⟨h.1.trans (List.length_set ..), fun j => ?_⟩
  by_cases hj : j = e
  · subst hj
    refine Or.inr ⟨hsome, ?_⟩
    obtain hj | hj := h.2 j
    · rw [hj, List.getElem?_set_self hlt]
    · exact hj.2
  · have := h.2 j
    rwa [List.getElem?_set_ne (Ne.symm hj)] at this

/-- The loop cuts spaces, and leaves room for a token that ends with the string, and for the terminal
one. -/
theorem tokenScan_writes {maxTokens : ℕ} (n ntokens : ℕ) (buf : Bytes) (s e : ℕ)
    (hroom : ntokens < maxTokens - 1) :
    let r := tokenScan maxTokens n ntokens buf s e
    SpacesCut buf r.buf ∧ (ntokens + r.tokens.length < maxTokens - 1 ∨
      ntokens + r.tokens.length = maxTokens - 1 ∧ r.s = r.e) := by
  induction n generalizing ntokens buf s e with
  | zero => exact ⟨.refl buf, Or.inl hroom⟩
  | succ n ih =>
      simp only
      rw [tokenScan]
      split
      · rename_i hspace
        split
        · split
          · rename_i hlast
            exact ⟨(SpacesCut.refl _).of_set hspace, Or.inr ⟨by simpa using hlast, rfl⟩⟩
          · obtain ⟨hcut, hlen⟩ := ih (ntokens + 1) (buf.set e 0) (e + 1) (e + 1) (by omega)
            refine ⟨hcut.of_set hspace, ?_⟩
            simp only [List.length_cons]
            omega
        · exact ih _ _ _ _ hroom
      · exact ih _ _ _ _ hroom

/-- **`tokenize_command` writes `max_tokens` entries at most**, and only NULs over spaces. -/
theorem tokenizeAt_writes {maxTokens : ℕ} (h : 1 < maxTokens) (buf : Bytes) (command : ℕ) :
    SpacesCut buf (tokenizeAt maxTokens buf command).1 ∧
      (tokenizeAt maxTokens buf command).2.length ≤ maxTokens := by
  obtain ⟨hcut, hlen⟩ := tokenScan_writes (strlen buf command) 0 buf command command
    (show 0 < maxTokens - 1 by omega)
  refine ⟨hcut, ?_⟩
  unfold tokenizeAt
  simp only [List.length_append, List.length_cons, List.length_nil]
  split
  · rename_i hne
    obtain hlen | hlen := hlen
    · simp only [List.length_cons, List.length_nil]
      omega
    · exact absurd hlen.2 hne
  · simp only [List.length_nil]
    omega

/-! ## What the tokens are -/

/-- **The loop finds the tokens of the string**, read in the buffer it leaves. -/
theorem tokenScan_spec {maxTokens : ℕ} (ntokens left : ℕ) (pre tok : Bytes) {l : Bytes}
    (tail : Bytes) (h0 : (0 : UInt8) ∉ l)
    (hleft : ntokens + left = maxTokens - 1) (hpos : 1 ≤ left) :
    let r := tokenScan maxTokens l.length ntokens (pre ++ (tok ++ (l ++ tail))) pre.length
      (pre.length + tok.length)
    ∃ pre' tok', r.buf = pre' ++ (tok' ++ ((tokenizeFrom left tok l).2 ++ tail)) ∧
      r.s = pre'.length ∧ r.e = pre'.length + tok'.length ∧ pre <+: r.buf ∧
      r.tokens.map (Token.read r.buf) ++ (if tok' = [] then [] else [tok'])
        = (tokenizeFrom left tok l).1 ∧
      (∀ t ∈ r.tokens, t.length = (t.read r.buf).length ∧ t.length ≠ 0 ∧ t.value ≠ none) ∧
      (tok' ≠ [] → (tokenizeFrom left tok l).2 = []) := by
  -- by induction on the string, with the token at hand read so far as `tok`
  induction l generalizing ntokens left pre tok with
  | nil =>
      refine ⟨pre, tok, rfl, rfl, rfl, List.prefix_append .., ?_, by simp [tokenScan], fun _ => rfl⟩
      simp [tokenScan, tokenizeFrom]
  | cons b l ih =>
      have h0' : (0 : UInt8) ∉ l := fun hm => h0 (List.mem_cons_of_mem _ hm)
      have hget : (pre ++ (tok ++ (b :: l ++ tail))).getD (pre.length + tok.length) 0 = b := by
        rw [List.getD_eq_getElem?_getD, List.getElem?_append_right (by omega),
          List.getElem?_append_right (by omega)]
        simp
      have hset : (pre ++ (tok ++ (b :: l ++ tail))).set (pre.length + tok.length) 0
          = (pre ++ (tok ++ [0])) ++ ([] ++ (l ++ tail)) := by
        rw [← List.append_assoc, ← List.length_append, List.set_append_right _ _ le_rfl]
        simp
      simp only
      rw [List.length_cons, tokenScan, hget, tokenizeFrom]
      by_cases hb : b = 32
      · rw [if_pos hb, if_neg (not_not.mpr hb)]
        by_cases htok : tok = []
        · -- a space in front of the token
          subst htok
          have hbuf : pre ++ ([] ++ (b :: l ++ tail)) = (pre ++ [b]) ++ ([] ++ (l ++ tail)) := by simp
          rw [if_neg (by simp), if_pos rfl, hbuf]
          obtain ⟨pre', tok', h₁, h₂, h₃, h₄, h₅⟩ := ih ntokens left (pre ++ [b]) [] h0' hleft
            hpos
          simp only [List.length_append, List.length_cons, List.length_nil, Nat.add_zero,
            Nat.zero_add] at h₁ h₂ h₃ h₄ h₅ ⊢
          exact ⟨pre', tok', h₁, h₂, h₃, (List.prefix_append ..).trans h₄, h₅⟩
        · -- a space behind the token
          have htoken : ∀ {buf : Bytes}, pre ++ (tok ++ [0]) <+: buf →
              Token.read buf ⟨some pre.length, pre.length + tok.length - pre.length⟩ = tok := by
            rintro buf ⟨t, rfl⟩
            simp [Token.read]
          have hlen : (pre ++ (tok ++ [0])).length = pre.length + tok.length + 1 := by
            simp [Nat.add_assoc]
          have hpos' : tok.length ≠ 0 := by simpa using htok
          rw [if_pos (by omega), if_neg htok, hset]
          by_cases hlast : left ≤ 1
          · rw [if_pos hlast, if_pos (by omega)]
            refine ⟨pre ++ (tok ++ [0]), [], rfl, hlen.symm, hlen.symm, ?_, ?_, ?_, by simp⟩
            · exact (List.prefix_append ..).trans (List.prefix_append ..)
            · rw [List.map_singleton, htoken (List.prefix_append ..)]
              rfl
            · simp only [List.mem_singleton, forall_eq]
              rw [htoken (List.prefix_append ..)]
              exact ⟨by omega, by omega, by simp⟩
          · rw [if_neg hlast, if_neg (by omega)]
            obtain ⟨pre', tok', h₁, h₂, h₃, h₄, h₅, h₆, h₇⟩ := ih (ntokens + 1) (left - 1)
              (pre ++ (tok ++ [0])) [] h0' (by omega) (by omega)
            rw [List.length_nil, Nat.add_zero, hlen] at h₁ h₂ h₃ h₄ h₅ h₆
            refine ⟨pre', tok', h₁, h₂, h₃, (List.prefix_append ..).trans h₄, ?_, ?_, h₇⟩
            · simp only
              rw [List.map_cons, htoken h₄, List.cons_append, h₅]
            · intro t ht
              obtain rfl | ht := List.mem_cons.mp ht
              · rw [htoken h₄]
                exact ⟨by simp only; omega, by simp only; omega, by simp⟩
              · exact h₆ t ht
      · -- a character of the token
        have hbuf : pre ++ (tok ++ (b :: l ++ tail)) = pre ++ ((tok ++ [b]) ++ (l ++ tail)) := by simp
        rw [if_neg hb, if_pos hb, hbuf]
        have := ih ntokens left pre (tok ++ [b]) h0' hleft hpos
        rwa [List.length_append, List.length_singleton, ← Nat.add_assoc] at this

/-- **What `tokenize_command` finds**: the tokens of the string, and a terminal token that leads to the
rest of it. -/
theorem tokenizeAt_spec {maxTokens : ℕ} (hmax : 1 < maxTokens) (pre : Bytes) {l : Bytes}
    (tail : Bytes) (h0 : (0 : UInt8) ∉ l) (htail : tail.headD 0 = 0) :
    ∃ buf toks term,
      tokenizeAt maxTokens (pre ++ (l ++ tail)) pre.length = (buf, toks ++ [⟨term, 0⟩]) ∧
      toks.map (Token.read buf) = (tokenizeFrom (maxTokens - 1) [] l).1 ∧
      (∀ t ∈ toks, t.length = (t.read buf).length ∧ t.length ≠ 0 ∧ t.value ≠ none) ∧
      ((tokenizeFrom (maxTokens - 1) [] l).2 = [] ∧ term = none ∨
        (tokenizeFrom (maxTokens - 1) [] l).2 ≠ [] ∧ ∃ pre', term = some pre'.length ∧
          buf = pre' ++ ((tokenizeFrom (maxTokens - 1) [] l).2 ++ tail)) := by
  have hlen : strlen (pre ++ (l ++ tail)) pre.length = l.length := by
    have hl : l.takeWhile (· ≠ 0) = l := by
      rw [List.takeWhile_eq_self_iff]
      intro b hb
      simp only [ne_eq, decide_eq_true_eq]
      rintro rfl
      exact h0 hb
    have ht : tail.takeWhile (· ≠ 0) = [] := by
      cases tail with
      | nil => rfl
      | cons b tail =>
          obtain rfl : b = 0 := htail
          simp
    rw [strlen, List.drop_left, List.takeWhile_append, hl, ht]
    simp
  obtain ⟨pre', tok', h₁, h₂, h₃, h₄, h₅, h₆, h₇⟩ := @tokenScan_spec maxTokens 0 (maxTokens - 1)
    pre [] l tail h0 (by omega) (by omega)
  have hnot : (0 : UInt8) ∉ (tokenizeFrom (maxTokens - 1) [] l).2 := fun hm =>
    h0 ((tokenizeFrom_suffix _ _ _).subset hm)
  unfold tokenizeAt
  rw [hlen]
  simp only [List.nil_append, List.length_nil, Nat.add_zero] at h₁ h₂ h₃ h₄ h₅ h₆ ⊢
  generalize tokenScan maxTokens l.length 0 (pre ++ (l ++ tail)) pre.length pre.length = r at *
  generalize tokenizeFrom (maxTokens - 1) [] l = w at *
  have hsplit : r.tokens ++ (if r.s ≠ r.e then [⟨some r.s, r.e - r.s⟩] else [])
      = r.tokens ++ (if tok' = [] then [] else [⟨some pre'.length, tok'.length⟩]) := by
    rw [h₂, h₃]
    by_cases ht : tok' = []
    · simp [ht]
    · have : tok'.length ≠ 0 := by simpa using ht
      rw [if_pos (by omega), if_neg ht, Nat.add_sub_cancel_left]
  have hread : Token.read r.buf ⟨some pre'.length, tok'.length⟩ = tok' := by
    simp [Token.read, h₁]
  have hend : r.buf.getD r.e 0 = (w.2 ++ tail).headD 0 := by
    rw [h₁, h₃, List.getD_eq_getElem?_getD, List.getElem?_append_right (by omega),
      List.getElem?_append_right (by omega), List.headD_eq_head?_getD, List.head?_eq_getElem?]
    simp
  refine ⟨r.buf, _, _, rfl, ?_, ?_, ?_⟩
  · rw [hsplit, List.map_append, ← h₅]
    by_cases ht : tok' = []
    · simp [ht]
    · simp [ht, hread]
  · rw [hsplit]
    intro t ht
    obtain ht | ht := List.mem_append.mp ht
    · exact h₆ t ht
    · by_cases he : tok' = []
      · simp [he] at ht
      · rw [if_neg he, List.mem_singleton] at ht
        subst ht
        rw [hread]
        exact ⟨rfl, by simpa using he, by simp⟩
  · rw [hend]
    by_cases hw : w.2 = []
    · refine Or.inl ⟨hw, ?_⟩
      rw [hw, List.nil_append, if_pos htail]
    · refine Or.inr ⟨hw, pre', ?_, ?_⟩
      · obtain ⟨b, rest, hb⟩ := List.exists_cons_of_ne_nil hw
        have hne : b ≠ 0 := by
          rintro rfl
          exact hnot (by simp [hb])
        have ht : tok' = [] := not_not.mp fun ht => hw (h₇ ht)
        rw [hb, List.cons_append, List.headD_cons, if_neg hne, h₃, ht]
        rfl
      · have ht : tok' = [] := not_not.mp fun ht => hw (h₇ ht)
        rw [h₁, ht, List.nil_append]

/-! ## The keys of a line -/

/-- A batch of tokens none of which is too long. -/
theorem lookupKeys_append {buf : Bytes} {toks : List Token} (term : Option ℕ)
    (h : ∀ t ∈ toks, t.length ≠ 0 ∧ t.length ≤ keyMaxLength) :
    lookupKeys buf (toks ++ [⟨term, 0⟩]) = (toks.map (Token.read buf), some ⟨term, 0⟩) := by
  induction toks with
  | nil => rfl
  | cons t toks ih =>
      obtain ⟨hne, hle⟩ := h t (List.mem_cons_self ..)
      rw [List.cons_append, lookupKeys, if_neg hne, if_neg (by omega),
        ih fun t ht => h t (List.mem_cons_of_mem _ ht)]
      rfl

/-- A string that is not empty leaves less. -/
theorem length_tokenizeFrom_lt (left : ℕ) (tok : Bytes) {l : Bytes} (h : l ≠ []) :
    (tokenizeFrom left tok l).2.length < l.length := by
  obtain ⟨b, l, rfl⟩ := List.exists_cons_of_ne_nil h
  rw [tokenizeFrom, List.length_cons]
  split
  · exact Nat.lt_succ_of_le (tokenizeFrom_suffix ..).length_le
  · split
    · exact Nat.lt_succ_of_le (tokenizeFrom_suffix ..).length_le
    · split
      · exact Nat.lt_succ_self _
      · exact Nat.lt_succ_of_le (tokenizeFrom_suffix ..).length_le

/-- **The batches of `process_get_command`**: from a batch and a pointer to the rest of the line, it
looks up the tokens of the batch and the words of the rest. -/
theorem processGetCommand_spec {fuel : ℕ} {buf rest : Bytes} (tail : Bytes) {toks : List Token}
    {term : Option ℕ} (htail : tail.headD 0 = 0) (h0 : (0 : UInt8) ∉ rest)
    (htoks : ∀ t ∈ toks, t.length = (t.read buf).length ∧ t.length ≠ 0)
    (hrest : rest = [] ∧ term = none ∨
      rest ≠ [] ∧ ∃ pre, term = some pre.length ∧ buf = pre ++ (rest ++ tail))
    (hkeys : ∀ k ∈ toks.map (Token.read buf) ++ wordsFrom [] rest, k.length ≤ keyMaxLength)
    (hfuel : rest.length < fuel) :
    processGetCommand fuel buf (toks ++ [⟨term, 0⟩])
      = some (toks.map (Token.read buf) ++ wordsFrom [] rest, false) := by
  -- by induction on the batches, each of which takes something of the line
  induction fuel generalizing buf rest toks term with
  | zero => omega
  | succ fuel ih =>
      have hlook := @lookupKeys_append buf toks term fun t ht =>
        ⟨(htoks t ht).2, (htoks t ht).1 ▸ hkeys _ (List.mem_append_left _ (List.mem_map_of_mem ht))⟩
      rw [processGetCommand, hlook]
      obtain ⟨rfl, rfl⟩ | ⟨hne, pre, rfl, rfl⟩ := hrest
      · simp [wordsFrom]
      · obtain ⟨buf', toks', term', htok, hread, hall, hrest'⟩ :=
          tokenizeAt_spec (show 1 < maxTokens by decide) pre tail h0 htail
        have hwords := tokenizeFrom_wordsFrom (maxTokens - 1) [] rest
        simp only [htok]
        cases toks' with
        | nil =>
            -- only spaces are left
            have hnil : (tokenizeFrom (maxTokens - 1) [] rest).2 = [] :=
              tokenizeFrom_rest (by rw [← hread]; rfl)
            obtain ⟨-, rfl⟩ := hrest'.resolve_right fun hc => hc.1 hnil
            rw [hnil, ← hread] at hwords
            simp [← hwords, wordsFrom]
        | cons t toks' =>
            have hvalue : (((t :: toks') ++ [(⟨term', 0⟩ : Token)]).head?.bind Token.value) ≠ none :=
              (hall t (List.mem_cons_self ..)).2.2
            have hkeys' : ∀ k ∈ (t :: toks').map (Token.read buf')
                ++ wordsFrom [] (tokenizeFrom (maxTokens - 1) [] rest).2,
                k.length ≤ keyMaxLength := by
              rw [hread, hwords]
              exact fun k hk => hkeys k (List.mem_append_right _ hk)
            have hlens : ∀ t' ∈ t :: toks', t'.length = (t'.read buf').length ∧ t'.length ≠ 0 :=
              fun t' ht' => ⟨(hall t' ht').1, (hall t' ht').2.1⟩
            have hnext := ih (fun hm => h0 ((tokenizeFrom_suffix ..).subset hm)) hlens hrest' hkeys'
              (by
                have := length_tokenizeFrom_lt (maxTokens - 1) [] hne
                omega)
            rw [if_neg hvalue, hnext, hread, hwords]
            rfl

/-- The words of a string are what its spaces separate. -/
theorem wordsFrom_eq_splitOn (tok l : Bytes) (htok : (32 : UInt8) ∉ tok) :
    wordsFrom tok l = ((tok ++ l).splitOn 32).filter (· ≠ []) := by
  induction l generalizing tok with
  | nil =>
      rw [List.append_nil, List.splitOn_eq_singleton htok, wordsFrom]
      by_cases h : tok = [] <;> simp [h]
  | cons b l ih =>
      rw [wordsFrom]
      by_cases hb : b = 32
      · subst hb
        rw [if_neg (by simp), List.splitOn_append_cons_self_of_not_mem htok]
        by_cases h : tok = []
        · rw [if_pos h, ih [] (by simp), List.filter_cons_of_neg (by simp [h]), List.nil_append]
        · rw [if_neg h, ih [] (by simp), List.filter_cons_of_pos (by simpa using h),
            List.nil_append]
      · rw [if_pos hb, ih (tok ++ [b]) (by simpa [htok] using Ne.symm hb)]
        simp

/-- The maximal parts of a command line without spaces. -/
def spaceFree (line : Bytes) : List Bytes := (line.splitOn 32).filter (· ≠ [])

/-- A batch that leaves a rest is full. -/
theorem length_tokenizeFrom {left : ℕ} (tok : Bytes) {l : Bytes} (hleft : 1 ≤ left)
    (h : (tokenizeFrom left tok l).2 ≠ []) : (tokenizeFrom left tok l).1.length = left := by
  induction l generalizing left tok with
  | nil => exact absurd rfl h
  | cons b l ih =>
      rw [tokenizeFrom] at h ⊢
      by_cases hb : b ≠ 32
      · rw [if_pos hb] at h ⊢
        exact ih _ hleft h
      · rw [if_neg hb] at h ⊢
        by_cases ht : tok = []
        · rw [if_pos ht] at h ⊢
          exact ih _ hleft h
        · rw [if_neg ht] at h ⊢
          by_cases hlast : left ≤ 1
          · rw [if_pos hlast]
            simp only [List.length_singleton]
            omega
          · rw [if_neg hlast] at h ⊢
            rw [List.length_cons, ih _ (by omega) h]
            omega

/-- The first batch of a line. -/
theorem tokenizeFrom_head (left : ℕ) {tok l word : Bytes} {keys : List Bytes}
    (h : wordsFrom tok l = word :: keys) : ∃ ws, (tokenizeFrom left tok l).1 = word :: ws ∧
      ws ++ wordsFrom [] (tokenizeFrom left tok l).2 = keys := by
  have hwords := tokenizeFrom_wordsFrom left tok l
  cases hfirst : (tokenizeFrom left tok l).1 with
  | nil =>
      rw [tokenizeFrom_rest hfirst, hfirst, h] at hwords
      exact absurd hwords (by simp [wordsFrom])
  | cons w ws =>
      rw [hfirst, h] at hwords
      obtain ⟨rfl, hws⟩ := List.cons.inj hwords
      exact ⟨ws, rfl, hws⟩

/-- **The keys of a get command.** The server looks up the parts of the line without spaces, behind
the command word, one after the other; and `tokenize_command` stays inside its array and only
replaces spaces by NUL. -/
theorem keys_enumerated :
    (∀ line after word keys fuel, (0 : UInt8) ∉ line → spaceFree line = word :: keys →
      word ∈ [ascii "get", ascii "gets"] → (∀ k ∈ keys, k.length ≤ keyMaxLength) →
      line.length < fuel →
        (processGetLine fuel (line ++ 0 :: after)).map Prod.fst = some keys) ∧
    ∀ max buf command, 1 < max → SpacesCut buf (tokenizeAt max buf command).1 ∧
      (tokenizeAt max buf command).2.length ≤ max := by
  refine ⟨?_, fun max buf command hmax => tokenizeAt_writes hmax buf command⟩
  intro line after word keys fuel h0 hwords hword hlen hfuel
  have hwordsFrom : wordsFrom [] line = word :: keys := by
    rw [wordsFrom_eq_splitOn [] line (by simp), List.nil_append]
    exact hwords
  obtain ⟨ws, hws, hrest⟩ := tokenizeFrom_head (maxTokens - 1) hwordsFrom
  obtain ⟨buf, toks, term, htok, hread, hall, hterm⟩ :=
    tokenizeAt_spec (show 1 < maxTokens by decide) [] (0 :: after) h0 rfl
  have hhead : ((toks ++ [(⟨term, 0⟩ : Token)]).map (Token.read buf)).headD [] = word := by
    rw [List.map_append, hread, hws]
    rfl
  rw [List.nil_append, List.length_nil] at htok
  rw [hws] at hread
  unfold processGetLine
  rw [htok]
  simp only [hhead]
  cases toks with
  | nil => exact absurd hread (by simp)
  | cons t toks =>
      obtain ⟨-, hread⟩ := List.cons.inj hread
      by_cases hkeys : keys = []
      · -- a command word without keys is no get command
        subst hkeys
        obtain ⟨hws', hrest'⟩ := List.append_eq_nil_iff.mp hrest
        have htoks : toks = [] := by
          rw [hws'] at hread
          exact List.map_eq_nil_iff.mp hread
        rw [if_neg (by simp [htoks, getCommand])]
        rfl
      · have htoks : toks ≠ [] := by
          rintro rfl
          obtain rfl : ws = [] := hread.symm
          have hfull := length_tokenizeFrom (l := line) [] (show 1 ≤ maxTokens - 1 by decide)
            fun hnil => hkeys (by rw [← hrest, hnil]; rfl)
          rw [hws] at hfull
          exact absurd hfull (by simp [maxTokens])
        obtain ⟨u, us, hu⟩ := List.exists_cons_of_ne_nil htoks
        have hget : getCommand ((t :: toks) ++ [(⟨term, 0⟩ : Token)]).length word = true := by
          simp only [List.mem_cons, List.not_mem_nil, or_false] at hword
          obtain rfl | rfl := hword <;> simp [getCommand, hu]
        have hdone := processGetCommand_spec (0 :: after) rfl
          (fun hm => h0 ((tokenizeFrom_suffix (maxTokens - 1) [] line).subset hm))
          (fun t' ht' => ⟨(hall t' (List.mem_cons_of_mem _ ht')).1,
            (hall t' (List.mem_cons_of_mem _ ht')).2.1⟩) hterm
          (by rw [hread, hrest]; exact hlen)
          (lt_of_le_of_lt (tokenizeFrom_suffix (maxTokens - 1) [] line).length_le hfuel)
        rw [if_pos hget, List.cons_append, List.drop_one, List.tail_cons, hdone, hread, hrest]
        rfl

/-- Nine keys, between runs of spaces. -/
theorem keys_enumerated_nine : (processGetLine 40 (ascii " get a  b c d e f g  h i  " ++ [0])).map
    Prod.fst = some ((ascii "abcdefghi").map fun b => [b]) :=
  keys_enumerated.1 _ [] (ascii "get") _ 40 (by decide) (by decide) (by decide) (by decide)
    (by decide)

end Memcached
