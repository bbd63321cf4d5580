import Memcached.Connection

/-! # The numbers of the commands

Which texts the parsers of numbers accept, and what they make of them. `safe_strtoull` guesses from
the sign of the result that `strtoull` has wrapped around a negative number, and `safe_strtoul` and
`safe_strtol` keep the low 32 bits of a `long`.

* **`safeStrtoull_decimal_iff`** — when a parser accepts decimal numbers only.
* **`narrowsUInt32_iff`**, **`narrowsInt32_iff`** — when it keeps a number as it is.
* **`fields_exact_iff`** — when the fields of a command are what its text says. -/

namespace Memcached

open CNumber (Bytes isspace strchr Decimal Denotes safeStrtoull safeStrtoul safeStrtol toInt32)

/-! ## Numbers of 64 bits -/

/-- `safe_strtoull` is right about the text: it accepts it if it starts with a number of 64 bits, and
gives that number. -/
def ReadsUInt64 (str : Bytes) : Prop :=
  ∀ v : ℕ, safeStrtoull str = some v ↔ v < 2 ^ 64 ∧ Decimal str v

/-- The text after a number and the white space that ends it does not change the answer. -/
def IgnoresText (text : Bytes) (c : UInt8) : Prop :=
  ∀ after after', safeStrtoull (text ++ c :: after) = safeStrtoull (text ++ c :: after')

/-- The number that a text starts with is neither one that wraps around to a small number, nor one
whose sign bit is set in a string that has a minus sign after it. -/
def SignGuessed (str : Bytes) : Prop :=
  ∀ u, Decimal str u → ¬ (-2 ^ 64 < u ∧ u < -2 ^ 63) ∧
    (2 ^ 63 ≤ u → u < 2 ^ 64 → strchr str 45 = false)

/-- `safe_strtoull` is right where the sign of the result tells that of the number. -/
theorem readsUInt64_iff (str : Bytes) : ReadsUInt64 str ↔ SignGuessed str := by
  constructor
  · intro h u hu
    constructor
    · intro hwrap
      have hsome : safeStrtoull str = some (u + 2 ^ 64).toNat :=
        CNumber.safeStrtoull_eq_some.mpr ⟨u, hu, Or.inr (Or.inr ⟨hwrap.1, hwrap.2, by omega⟩)⟩
      have := ((h _).mp hsome).2.unique hu
      omega
    · intro hbig hlt
      have hv : ((u.toNat : ℕ) : ℤ) = u := Int.toNat_of_nonneg (by omega)
      obtain ⟨w, hw, hcase⟩ := CNumber.safeStrtoull_eq_some.mp
        ((h u.toNat).mpr ⟨by omega, hv.symm ▸ hu⟩)
      obtain rfl := hw.unique hu
      obtain hcase | hcase | hcase := hcase
      · omega
      · exact hcase.2.2.1
      · omega
  · intro h v
    rw [CNumber.safeStrtoull_eq_some]
    constructor
    · rintro ⟨u, hu, hcase⟩
      obtain ⟨-, hlt, rfl⟩ | ⟨-, hlt, -, rfl⟩ | hcase := hcase
      · exact ⟨by omega, hu⟩
      · exact ⟨by omega, hu⟩
      · exact absurd ⟨hcase.1, hcase.2.1⟩ (h u hu).1
    · rintro ⟨hlt, hv⟩
      refine ⟨v, hv, ?_⟩
      by_cases hbig : v < 2 ^ 63
      · exact Or.inl ⟨by omega, by omega, rfl⟩
      · exact Or.inr (Or.inl ⟨by omega, by omega, (h _ hv).2 (by omega) (by omega), rfl⟩)

/-- The number of a text that white space ends. -/
theorem decimal_ended {text : Bytes} {u : ℤ} (h : Denotes text u) {c : UInt8}
    (hc : isspace c = true) (after : Bytes) : Decimal (text ++ c :: after) u := by
  obtain ⟨num, hscan, hrest, rfl⟩ := h
  have hne : text.dropWhile isspace ≠ [] := by
    intro hnil
    have hblank := CNumber.scanNumeral_of_space hnil []
    rw [List.append_nil, hscan] at hblank
    exact absurd hblank (by simp [CNumber.scanNumeral, CNumber.scanSign])
  have hscan' := CNumber.scanNumeral_append (t := c :: after) hne
    (CNumber.not_isdigit_of_endsNumber (by rw [CNumber.endsNumber, hc, Bool.true_or]))
  rw [hscan, Option.map_some, hrest, List.nil_append] at hscan'
  refine CNumber.decimal_iff.mpr ⟨_, hscan', ?_, rfl⟩
  rw [CNumber.endsNumber, hc, Bool.true_or]

/-- The text after the number is searched for a minus sign, when the text before it has none. -/
theorem strchr_after {text : Bytes} {u : ℤ} (h : Denotes text u) (hu : 0 < u) {c : UInt8}
    (hc : isspace c = true) :
    strchr (text ++ [c]) 45 = false ∧ strchr (text ++ [c, 45]) 45 = true := by
  have hminus := h.not_mem_minus hu
  have hnul : ∀ d ∈ text ++ [c], (d != 0) = true := by
    intro d hd
    rw [bne_iff_ne]
    obtain hd | hd := List.mem_append.mp hd
    · exact h.ne_nul hd
    · obtain rfl := List.mem_singleton.mp hd
      rintro rfl
      exact absurd hc (by decide)
  have hne : (45 : UInt8) ≠ c := by
    rintro rfl
    exact absurd hc (by decide)
  have hsplit : text ++ [c, 45] = (text ++ [c]) ++ [45] := by simp
  constructor
  · rw [strchr, ← Bool.not_eq_true, List.contains_iff_mem, List.takeWhile_eq_self_iff.mpr hnul]
    simp [hminus, hne]
  · rw [hsplit, strchr, List.contains_iff_mem, List.takeWhile_append_of_pos hnul]
    simp

/-- **The text after the number is looked at** if the number has the sign bit set, and only then. -/
theorem ignoresText_iff {text : Bytes} {u : ℤ} (h : Denotes text u) {c : UInt8}
    (hc : isspace c = true) : IgnoresText text c ↔ ¬ (2 ^ 63 ≤ u ∧ u < 2 ^ 64) := by
  have hdec := decimal_ended h hc
  constructor
  · rintro hsame ⟨hbig, hlt⟩
    obtain ⟨hnone, hfound⟩ := strchr_after h (by omega) hc
    have hread : safeStrtoull (text ++ [c]) = some u.toNat :=
      CNumber.safeStrtoull_eq_some.mpr
        ⟨u, hdec [], Or.inr (Or.inl ⟨hbig, hlt, hnone, by omega⟩)⟩
    rw [hsame [] [45]] at hread
    obtain ⟨w, hw, hcase⟩ := CNumber.safeStrtoull_eq_some.mp hread
    obtain rfl := hw.unique (hdec [45])
    rw [hfound] at hcase
    simp only [Bool.true_eq_false, false_and, and_false, false_or] at hcase
    omega
  · intro hsmall after after'
    refine Option.ext fun v => ?_
    rw [CNumber.safeStrtoull_eq_some, CNumber.safeStrtoull_eq_some]
    constructor
    · rintro ⟨w, hw, hcase⟩
      obtain rfl := hw.unique (hdec after)
      exact ⟨w, hdec after', by omega⟩
    · rintro ⟨w, hw, hcase⟩
      obtain rfl := hw.unique (hdec after')
      exact ⟨w, hdec after, by omega⟩

/-- **What `safe_strtoull` accepts**: it is right about a text exactly where the sign of the result
tells that of the number, and the text after a number changes the answer exactly for the numbers
with the sign bit set. -/
theorem safeStrtoull_decimal_iff (str : Bytes) :
    (ReadsUInt64 str ↔ SignGuessed str) ∧
      ∀ u c, Denotes str u → isspace c = true →
        (IgnoresText str c ↔ ¬ (2 ^ 63 ≤ u ∧ u < 2 ^ 64)) :=
  ⟨readsUInt64_iff str, fun _ _ h hc => ignoresText_iff h hc⟩

/-- `-9223372036854775809` is read as `9223372036854775807`, and `9223372036854775808 -` is
refused. -/
theorem safeStrtoull_guesses : ¬ ((∀ str, ReadsUInt64 str) ∧
    ∀ text u c, Denotes text u → isspace c = true → IgnoresText text c) := by
  rintro ⟨h, -⟩
  have hread : safeStrtoull (ascii "-9223372036854775809") = some 9223372036854775807 := by decide
  obtain ⟨num, hscan, -, hvalue⟩ := CNumber.decimal_iff.mp ((h _ _).mp hread).2
  have hnum : CNumber.scanNumeral (ascii "-9223372036854775809")
      = some ⟨true, ascii "9223372036854775809", []⟩ := by decide
  obtain rfl := Option.some.inj (hnum.symm.trans hscan)
  exact absurd hvalue (by decide)

/-- Both answers for `0 `, of which the text after the space is not looked at. -/
theorem safeStrtoull_decimal_zero : ReadsUInt64 (ascii "0 ") ∧ IgnoresText (ascii "0") 32 := by
  have hzero : Denotes (ascii "0") 0 := ⟨⟨false, [48], []⟩, by decide, rfl, by decide⟩
  refine ⟨(safeStrtoull_decimal_iff _).1.mpr fun u hu => ?_,
    ((safeStrtoull_decimal_iff _).2 0 32 hzero (by decide)).mpr (by omega)⟩
  obtain rfl := hu.unique (decimal_ended hzero (c := 32) (by decide) [])
  exact ⟨by omega, by omega⟩

/-! ## Fields of 32 bits -/

/-- `safe_strtoul` is right about the text. -/
def ReadsUInt32 (str : Bytes) : Prop :=
  ∀ v : ℕ, safeStrtoul str = some v ↔ v < 2 ^ 32 ∧ Decimal str v

/-- `safe_strtol` is right about the text. -/
def ReadsInt32 (str : Bytes) : Prop :=
  ∀ v : ℤ, safeStrtol str = some v ↔ (-2 ^ 31 ≤ v ∧ v < 2 ^ 31) ∧ Decimal str v

/-- The text starts with a number of an unsigned field. -/
def FitsUInt32 (str : Bytes) : Prop := ∃ u, Decimal str u ∧ 0 ≤ u ∧ u < 2 ^ 32

/-- The text starts with a number of a signed field. -/
def FitsInt32 (str : Bytes) : Prop := ∃ u, Decimal str u ∧ -2 ^ 31 ≤ u ∧ u < 2 ^ 31

/-- The text starts with a number that an `unsigned long` holds and an unsigned field does not, or
with a negative one that wraps around to one without the sign bit. -/
def NarrowsUInt32 (str : Bytes) : Prop :=
  ∃ u, Decimal str u ∧ (-2 ^ 64 < u ∧ u < -2 ^ 63 ∨ 2 ^ 32 ≤ u ∧ u < 2 ^ 63 ∨
    2 ^ 63 ≤ u ∧ u < 2 ^ 64 ∧ strchr str 45 = false)

/-- The text starts with a number that a `long` holds and a signed field does not. -/
def NarrowsInt32 (str : Bytes) : Prop :=
  ∃ u, Decimal str u ∧ (-2 ^ 63 ≤ u ∧ u < -2 ^ 31 ∨ 2 ^ 31 ≤ u ∧ u < 2 ^ 63)

/-- **What `safe_strtoul` accepts**: what fits, and what it narrows. -/
theorem safeStrtoul_accepts {str : Bytes} :
    (∃ v, safeStrtoul str = some v) ↔ FitsUInt32 str ∨ NarrowsUInt32 str := by
  constructor
  · rintro ⟨v, h⟩
    obtain ⟨u, hu, -, hcase⟩ := CNumber.safeStrtoul_eq_some.mp h
    by_cases hfit : 0 ≤ u ∧ u < 2 ^ 32
    · exact Or.inl ⟨u, hu, hfit⟩
    · refine Or.inr ⟨u, hu, ?_⟩
      obtain hcase | hcase | hcase := hcase
      · exact Or.inr (Or.inl (by omega))
      · exact Or.inr (Or.inr hcase)
      · exact Or.inl hcase
  · intro h
    obtain ⟨u, hu, hcase⟩ : ∃ u, Decimal str u ∧ (0 ≤ u ∧ u < 2 ^ 63 ∨
        2 ^ 63 ≤ u ∧ u < 2 ^ 64 ∧ strchr str 45 = false ∨ -2 ^ 64 < u ∧ u < -2 ^ 63) := by
      obtain ⟨u, hu, hfit⟩ | ⟨u, hu, hcase⟩ := h
      · exact ⟨u, hu, Or.inl (by omega)⟩
      · refine ⟨u, hu, ?_⟩
        obtain hcase | hcase | hcase := hcase
        · exact Or.inr (Or.inr hcase)
        · exact Or.inl (by omega)
        · exact Or.inr (Or.inl hcase)
    exact ⟨(u % 2 ^ 32).toNat, CNumber.safeStrtoul_eq_some.mpr ⟨u, hu, by omega, hcase⟩⟩

/-- **What `safe_strtoul` narrows** is not the number of the text any more. -/
theorem narrowsUInt32_iff {str : Bytes} {v : ℕ} (h : safeStrtoul str = some v) :
    NarrowsUInt32 str ↔ ¬ Decimal str v := by
  obtain ⟨u, hu, hv, hcase⟩ := CNumber.safeStrtoul_eq_some.mp h
  constructor
  · rintro ⟨w, hw, hnarrow⟩ hdec
    obtain rfl := hw.unique hu
    have := hdec.unique hu
    omega
  · intro hno
    have hfit : ¬ (0 ≤ u ∧ u < 2 ^ 32) := fun hfit => by
      have hvu : (v : ℤ) = u := by omega
      exact hno (hvu ▸ hu)
    obtain h | h := safeStrtoul_accepts.mp ⟨v, h⟩
    · obtain ⟨w, hw, hw'⟩ := h
      obtain rfl := hw.unique hu
      exact absurd hw' hfit
    · exact h

/-- **What `safe_strtol` accepts**: what fits, and what it narrows. -/
theorem safeStrtol_accepts {str : Bytes} :
    (∃ v, safeStrtol str = some v) ↔ FitsInt32 str ∨ NarrowsInt32 str := by
  constructor
  · rintro ⟨v, h⟩
    obtain ⟨u, hu, hlow, hhigh, -⟩ := CNumber.safeStrtol_eq_some.mp h
    by_cases hfit : -2 ^ 31 ≤ u ∧ u < 2 ^ 31
    · exact Or.inl ⟨u, hu, hfit⟩
    · exact Or.inr ⟨u, hu, by omega⟩
  · intro h
    obtain ⟨u, hu, hlow, hhigh⟩ : ∃ u, Decimal str u ∧ -2 ^ 63 ≤ u ∧ u < 2 ^ 63 := by
      obtain ⟨u, hu, hcase⟩ | ⟨u, hu, hcase⟩ := h
      · exact ⟨u, hu, by omega, by omega⟩
      · exact ⟨u, hu, by omega, by omega⟩
    exact ⟨toInt32 u, CNumber.safeStrtol_eq_some.mpr ⟨u, hu, hlow, hhigh, rfl⟩⟩

/-- **What `safe_strtol` narrows** is not the number of the text any more. -/
theorem narrowsInt32_iff {str : Bytes} {v : ℤ} (h : safeStrtol str = some v) :
    NarrowsInt32 str ↔ ¬ Decimal str v := by
  obtain ⟨u, hu, hlow, hhigh, rfl⟩ := CNumber.safeStrtol_eq_some.mp h
  constructor
  · rintro ⟨w, hw, hnarrow⟩ hdec
    obtain rfl := hw.unique hu
    have hfit := CNumber.toInt32_eq_iff.mp (hdec.unique hu)
    omega
  · intro hno
    have hfit : ¬ (-2 ^ 31 ≤ u ∧ u < 2 ^ 31) := fun hfit => by
      rw [CNumber.toInt32_eq_iff.mpr hfit] at hno
      exact hno hu
    exact ⟨u, hu, by omega⟩

/-- **`safe_strtoul` is right** about the texts that it does not narrow. -/
theorem readsUInt32_iff (str : Bytes) : ReadsUInt32 str ↔ ¬ NarrowsUInt32 str := by
  constructor
  · intro h hn
    obtain ⟨v, hv⟩ := safeStrtoul_accepts.mpr (Or.inr hn)
    exact (narrowsUInt32_iff hv).mp hn ((h v).mp hv).2
  · intro hn v
    constructor
    · intro hv
      have hdec : Decimal str v := not_not.mp fun hno => hn ((narrowsUInt32_iff hv).mpr hno)
      obtain ⟨u, hu, hlow, hhigh⟩ := (safeStrtoul_accepts.mp ⟨v, hv⟩).resolve_right hn
      have := hdec.unique hu
      exact ⟨by omega, hdec⟩
    · rintro ⟨hlt, hdec⟩
      exact CNumber.safeStrtoul_eq_some.mpr ⟨v, hdec, by omega, Or.inl ⟨by omega, by omega⟩⟩

/-- **`safe_strtol` is right** about the texts that it does not narrow. -/
theorem readsInt32_iff (str : Bytes) : ReadsInt32 str ↔ ¬ NarrowsInt32 str := by
  constructor
  · intro h hn
    obtain ⟨v, hv⟩ := safeStrtol_accepts.mpr (Or.inr hn)
    exact (narrowsInt32_iff hv).mp hn ((h v).mp hv).2
  · intro hn v
    constructor
    · intro hv
      have hdec : Decimal str v := not_not.mp fun hno => hn ((narrowsInt32_iff hv).mpr hno)
      obtain ⟨u, hu, hlow, hhigh⟩ := (safeStrtol_accepts.mp ⟨v, hv⟩).resolve_right hn
      obtain rfl := hdec.unique hu
      exact ⟨⟨hlow, hhigh⟩, hdec⟩
    · rintro ⟨hfit, hdec⟩
      exact CNumber.safeStrtol_eq_some.mpr
        ⟨v, hdec, by omega, by omega, (CNumber.toInt32_eq_iff.mpr hfit).symm⟩

/-! ## The fields of a storage command -/

/-- `flags`, `exptime_int` and `vlen` of `process_update_command`, as they are parsed. -/
structure UpdateFields where
  flags : ℕ
  exptimeInt : ℤ
  vlen : ℤ
  deriving DecidableEq, Repr

/-- The fields of a storage command, if all three parsers accept. -/
def updateFields (tokens : List Bytes) : Option UpdateFields :=
  match safeStrtoul (tokens.getD 2 []), safeStrtol (tokens.getD 3 []),
    safeStrtol (tokens.getD 4 []) with
  | some flags, some exptimeInt, some vlen => some ⟨flags, exptimeInt, vlen⟩
  | _, _, _ => none

/-- The fields of an update are three numbers of the line. -/
theorem updateFields_eq_some {tokens : List Bytes} {f : UpdateFields} :
    updateFields tokens = some f ↔ safeStrtoul (tokens.getD 2 []) = some f.flags ∧
      safeStrtol (tokens.getD 3 []) = some f.exptimeInt ∧
      safeStrtol (tokens.getD 4 []) = some f.vlen := by
  obtain ⟨flags, exptimeInt, vlen⟩ := f
  unfold updateFields
  cases safeStrtoul (tokens.getD 2 []) <;> cases safeStrtol (tokens.getD 3 []) <;>
    cases safeStrtol (tokens.getD 4 []) <;> simp

/-- **What `process_update_command` does with the fields.** -/
theorem processUpdateCommand_fields (a : Answers) (log : List ConnEvent) (c : Connection)
    (tokens : List Bytes) (handleCas : Bool) :
    c.processUpdateCommand a log tokens handleCas =
      let c := c.setNoreplyMaybe tokens
      let nkey := (tokens.getD 1 []).length
      if nkey > keyMaxLength then c.outString
      else
        match updateFields tokens with
        | some f =>
            if handleCas = true ∧ safeStrtoull (tokens.getD 5 []) = none then c.outString
            else if toInt32 (f.vlen + 2) < 0 ∨ toInt32 (f.vlen + 2) - 2 < 0 then c.outString
            else
              match a.alloc log nkey (toInt32 f.flags) (toInt32 (f.vlen + 2)) with
              | .ok => { c with rlbytes := toInt32 (f.vlen + 2), received := [], state := .nread }
              | _ => { c.outString with
                  writeAndGo := .swallow, sbytes := (toInt32 (f.vlen + 2)).toNat }
        | none => c.outString := by
  unfold Connection.processUpdateCommand updateFields
  cases safeStrtoul (tokens.getD 2 []) <;> cases safeStrtol (tokens.getD 3 []) <;>
    cases safeStrtol (tokens.getD 4 []) <;> rfl

/-- The fields are the numbers of the command line. -/
def FieldsWritten (tokens : List Bytes) : Prop :=
  ∀ f, updateFields tokens = some f → Decimal (tokens.getD 2 []) f.flags ∧
    Decimal (tokens.getD 3 []) f.exptimeInt ∧ Decimal (tokens.getD 4 []) f.vlen

/-- The data block that the connection waits for, or throws away, is as long as the command line
says, with its CR and LF. -/
def ExpectsAnnounced (tokens : List Bytes) : Prop :=
  ∀ (announced : ℤ), Decimal (tokens.getD 4 []) announced →
    ∀ (a : Answers) (log : List ConnEvent) (c : Connection) (handleCas : Bool),
      let c' := c.processUpdateCommand a log tokens handleCas
      (c'.state = .nread → c'.rlbytes = announced + 2) ∧
        (c.writeAndGo ≠ .swallow → c'.writeAndGo = .swallow → (c'.sbytes : ℤ) = announced + 2)

/-- No field is narrowed, or one of the three is no number of a `long`. -/
def FieldsFit (tokens : List Bytes) : Prop :=
  (FitsUInt32 (tokens.getD 2 []) ∨ NarrowsUInt32 (tokens.getD 2 [])) →
    (FitsInt32 (tokens.getD 3 []) ∨ NarrowsInt32 (tokens.getD 3 [])) →
    (FitsInt32 (tokens.getD 4 []) ∨ NarrowsInt32 (tokens.getD 4 [])) →
    ¬ NarrowsUInt32 (tokens.getD 2 []) ∧ ¬ NarrowsInt32 (tokens.getD 3 []) ∧
      ¬ NarrowsInt32 (tokens.getD 4 [])

/-- The fields are the numbers of the command line, unless one is narrowed. -/
theorem fieldsWritten_iff (tokens : List Bytes) : FieldsWritten tokens ↔ FieldsFit tokens := by
  constructor
  · intro h h₂ h₃ h₄
    obtain ⟨flags, hflags⟩ := safeStrtoul_accepts.mpr h₂
    obtain ⟨exptime, hexp⟩ := safeStrtol_accepts.mpr h₃
    obtain ⟨vlen, hlen⟩ := safeStrtol_accepts.mpr h₄
    obtain ⟨w₂, w₃, w₄⟩ := h ⟨flags, exptime, vlen⟩ (updateFields_eq_some.mpr ⟨hflags, hexp, hlen⟩)
    exact ⟨fun hn => (narrowsUInt32_iff hflags).mp hn w₂,
      fun hn => (narrowsInt32_iff hexp).mp hn w₃, fun hn => (narrowsInt32_iff hlen).mp hn w₄⟩
  · intro h f hf
    obtain ⟨hflags, hexp, hlen⟩ := updateFields_eq_some.mp hf
    obtain ⟨n₂, n₃, n₄⟩ := h (safeStrtoul_accepts.mp ⟨_, hflags⟩) (safeStrtol_accepts.mp ⟨_, hexp⟩)
      (safeStrtol_accepts.mp ⟨_, hlen⟩)
    exact ⟨not_not.mp fun hno => n₂ ((narrowsUInt32_iff hflags).mpr hno),
      not_not.mp fun hno => n₃ ((narrowsInt32_iff hexp).mpr hno),
      not_not.mp fun hno => n₄ ((narrowsInt32_iff hlen).mpr hno)⟩

/-- The length of a block with its CR and LF, where it passes the check of `vlen`. -/
theorem toInt32_add_two {len : ℤ} (h₁ : -2 ^ 31 ≤ len) (h₂ : len < 2 ^ 31)
    (hpos : ¬ (toInt32 (len + 2) < 0 ∨ toInt32 (len + 2) - 2 < 0)) : toInt32 (len + 2) = len + 2 := by
  by_cases hfit : len + 2 < 2 ^ 31
  · exact CNumber.toInt32_of_bounds (by omega) hfit
  · have hwrap : toInt32 (len + 2) = toInt32 (len + 2 - 2 ^ 32) := by
      rw [toInt32, toInt32, ← Int.emod_bmod, ← Int.emod_bmod (len + 2 - 2 ^ 32)]
      congr 1
      omega
    rw [hwrap, CNumber.toInt32_of_bounds (by omega) (by omega)] at hpos
    omega

/-- **Fields that are the numbers of the command line** make the connection wait for the block that
is announced. -/
theorem FieldsWritten.expectsAnnounced {tokens : List Bytes} (h : FieldsWritten tokens) :
    ExpectsAnnounced tokens := by
  intro announced hann a log c handleCas
  have hout : ∀ d : Connection, d.outString.state ≠ .nread := by
    intro d
    unfold Connection.outString
    split <;> simp
  have hgo : ∀ d : Connection, d.writeAndGo ≠ .swallow → d.outString.writeAndGo ≠ .swallow := by
    intro d hd
    unfold Connection.outString
    split
    · exact hd
    · simp
  have hset : (c.setNoreplyMaybe tokens).writeAndGo = c.writeAndGo := by
    unfold Connection.setNoreplyMaybe
    split <;> rfl
  simp only
  rw [processUpdateCommand_fields]
  simp only
  -- every way out of the command that answers an error, the two of an item and the one without
  split
  · exact ⟨fun hc => absurd hc (hout _), fun hc hs => absurd hs (hgo _ (hset ▸ hc))⟩
  cases hf : updateFields tokens with
  | none => exact ⟨fun hc => absurd hc (hout _), fun hc hs => absurd hs (hgo _ (hset ▸ hc))⟩
  | some f =>
      obtain ⟨-, -, hlen⟩ := h f hf
      obtain rfl := hlen.unique hann
      have hrange : -2 ^ 31 ≤ f.vlen ∧ f.vlen < 2 ^ 31 := by
        obtain ⟨u, -, -, -, hu⟩ := CNumber.safeStrtol_eq_some.mp (updateFields_eq_some.mp hf).2.2
        rw [hu, toInt32]
        exact ⟨Int.le_bmod (by decide), Int.bmod_lt (by decide)⟩
      simp only
      split
      · exact ⟨fun hc => absurd hc (hout _), fun hc hs => absurd hs (hgo _ (hset ▸ hc))⟩
      split
      · exact ⟨fun hc => absurd hc (hout _), fun hc hs => absurd hs (hgo _ (hset ▸ hc))⟩
      · rename_i hpos
        have hvlen := toInt32_add_two hrange.1 hrange.2 hpos
        split
        · exact ⟨fun _ => hvlen, fun hc hs => absurd hs (hset ▸ hc)⟩
        · exact ⟨fun hc => absurd hc (hout _), fun _ _ => by simp only; omega⟩

/-- **The fields of 32 bits**: `safe_strtoul` and `safe_strtol` are right about a text exactly where
they narrow nothing, and `process_update_command` has the numbers of its command line, and waits for
the block that is announced, exactly where no field is narrowed. -/
theorem fields_exact_iff (str : Bytes) (tokens : List Bytes) :
    (ReadsUInt32 str ↔ ¬ NarrowsUInt32 str) ∧ (ReadsInt32 str ↔ ¬ NarrowsInt32 str) ∧
      (FieldsWritten tokens ∧ ExpectsAnnounced tokens ↔ FieldsFit tokens) := by
  refine ⟨readsUInt32_iff str, readsInt32_iff str, fun h => ?_, fun h => ?_⟩
  · exact (fieldsWritten_iff tokens).mp h.1
  · have hwritten := (fieldsWritten_iff tokens).mpr h
    exact ⟨hwritten, hwritten.expectsAnnounced⟩

/-- `set k 4294967296 0 4294967301` has the flags 0, and a block of 5 bytes. -/
theorem fields_narrowed : ¬ ((∀ str, ReadsUInt32 str) ∧ (∀ str, ReadsInt32 str) ∧
    ∀ tokens, FieldsWritten tokens ∧ ExpectsAnnounced tokens) := by
  rintro ⟨-, -, h⟩
  have hf : updateFields [ascii "set", ascii "k", ascii "4294967296", ascii "0", ascii "4294967301"]
      = some ⟨0, 0, 5⟩ := by decide
  obtain ⟨-, -, hlen⟩ := (h _).1 _ hf
  obtain ⟨num, hscan, -, hvalue⟩ := CNumber.decimal_iff.mp hlen
  have hnum : CNumber.scanNumeral (ascii "4294967301") = some ⟨false, ascii "4294967301", []⟩ := by
    decide
  obtain rfl := Option.some.inj (hnum.symm.trans hscan)
  exact absurd hvalue (by decide)

end Memcached
