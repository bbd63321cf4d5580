import Mathlib.Tactic
import Mathlib.Data.List.TakeWhile

/-! # Decimal numerals of the C library

`snprintf` with `%d` / `%llu` and the `strto*` family, over byte strings. A string is the memory
from its first byte on; the end of the list reads as the terminating NUL.

* **`decDigits n`**, **`formatInt n`** — what `%llu` and `%d` print.
* **`scanNumeral str`** — the sign, digits and remaining input that `strtol` and `strtoull` find.
* **`strtol_formatInt`** — reading back what was printed. -/

namespace CNumber

/-- A byte string. -/
abbrev Bytes := List UInt8

/-- `isspace` in the C locale. -/
def isspace (c : UInt8) : Bool := c == 32 || (9 ≤ c && c ≤ 13)

/-- `isdigit`. -/
def isdigit (c : UInt8) : Bool := 48 ≤ c && c ≤ 57

/-- The number a digit string denotes. -/
def digitsValue (ds : Bytes) : ℕ := ds.foldl (fun n c => n * 10 + (c.toNat - 48)) 0

/-! ## Printing -/

/-- The digit `d < 10` as a character. -/
def digitChar (d : ℕ) : UInt8 := UInt8.ofNat (48 + d)

/-- Prepend the digits of `n` to `acc`; `fuel` bounds their number. -/
def decDigitsAux : ℕ → ℕ → Bytes → Bytes
  | 0, _, acc => acc
  | fuel + 1, n, acc =>
      if n < 10 then digitChar n :: acc
      else decDigitsAux fuel (n / 10) (digitChar (n % 10) :: acc)

/-- `%llu`: the decimal digits of `n`. -/
def decDigits (n : ℕ) : Bytes := decDigitsAux (n + 1) n []

/-- `%d`: a minus sign for negative numbers, then the digits. -/
def formatInt (n : ℤ) : Bytes :=
  if n < 0 then 45 :: decDigits n.natAbs else decDigits n.natAbs

/-- The code of a digit. -/
theorem digitChar_toNat {d : ℕ} (h : d < 10) : (digitChar d).toNat = 48 + d := by
  rw [digitChar, UInt8.toNat_ofNat']
  omega

/-- A digit is a digit. -/
theorem isdigit_digitChar {d : ℕ} (h : d < 10) : isdigit (digitChar d) = true := by
  have := digitChar_toNat h
  simp only [isdigit, Bool.and_eq_true, decide_eq_true_eq, UInt8.le_iff_toNat_le, this]
  refine ⟨?_, ?_⟩
  · show 48 ≤ 48 + d; omega
  · show 48 + d ≤ 57; omega

/-- Folding over the printed digits continues the fold over `acc` from `n`. -/
theorem foldl_decDigitsAux (fuel n : ℕ) (acc : Bytes) (h : n < fuel) :
    (decDigitsAux fuel n acc).foldl (fun n c => n * 10 + (c.toNat - 48)) 0
      = acc.foldl (fun n c => n * 10 + (c.toNat - 48)) n := by
  induction fuel generalizing n acc with
  | zero => omega
  | succ fuel ih =>
      rw [decDigitsAux]
      split
      · rename_i h10
        rw [List.foldl_cons, digitChar_toNat h10]
        congr 1
        omega
      · rw [ih _ _ (by omega), List.foldl_cons, digitChar_toNat (Nat.mod_lt _ (by decide))]
        congr 1
        omega

/-- The printed digits denote the number. -/
@[simp] theorem digitsValue_decDigits (n : ℕ) : digitsValue (decDigits n) = n := by
  rw [digitsValue, decDigits, foldl_decDigitsAux _ _ _ (Nat.lt_succ_self n)]
  rfl

/-- What is printed in front of digits is digits. -/
theorem all_isdigit_decDigitsAux (fuel n : ℕ) (acc : Bytes) (h : ∀ c ∈ acc, isdigit c = true) :
    ∀ c ∈ decDigitsAux fuel n acc, isdigit c = true := by
  induction fuel generalizing n acc with
  | zero => exact h
  | succ fuel ih =>
      rw [decDigitsAux]
      split
      · rename_i h10
        intro c hc
        rcases List.mem_cons.mp hc with rfl | hc
        · exact isdigit_digitChar h10
        · exact h c hc
      · refine ih _ _ (fun c hc => ?_)
        rcases List.mem_cons.mp hc with rfl | hc
        · exact isdigit_digitChar (Nat.mod_lt _ (by decide))
        · exact h c hc

/-- Only digits are printed. -/
theorem isdigit_of_mem_decDigits {n : ℕ} {c : UInt8} (h : c ∈ decDigits n) : isdigit c = true :=
  all_isdigit_decDigitsAux (n + 1) n [] (by simp) c h

/-- What is printed in front of something is not empty. -/
theorem decDigitsAux_ne_nil (fuel n : ℕ) {acc : Bytes} (h : acc ≠ []) :
    decDigitsAux fuel n acc ≠ [] := by
  induction fuel generalizing n acc with
  | zero => exact h
  | succ fuel ih =>
      rw [decDigitsAux]
      split
      · simp
      · exact ih _ (by simp)

/-- At least one digit is printed. -/
theorem length_decDigitsAux {k : ℕ} (fuel n : ℕ) (acc : Bytes) (h : n < 10 ^ (k + 1)) :
    (decDigitsAux fuel n acc).length ≤ acc.length + (k + 1) := by
  induction fuel generalizing n acc k with
  | zero => simp [decDigitsAux]
  | succ fuel ih =>
      rw [decDigitsAux]
      split_ifs with hn
      · simp only [List.length_cons]
        omega
      · cases k with
        | zero => simp only [zero_add, pow_one] at h; omega
        | succ k =>
            have hdiv : n / 10 < 10 ^ (k + 1) := by
              rw [Nat.div_lt_iff_lt_mul (by norm_num), ← pow_succ]
              exact h
            have := ih (n / 10) (digitChar (n % 10) :: acc) hdiv
            simp only [List.length_cons] at this
            omega

/-- A 64-bit number has at most twenty digits. -/
theorem length_decDigits_le {n : ℕ} (h : n < 2 ^ 64) : (decDigits n).length ≤ 20 := by
  have h20 : n < 10 ^ (19 + 1) := lt_trans h (by norm_num)
  simpa [decDigits] using length_decDigitsAux (n + 1) n [] h20

/-- A number has a digit. -/
theorem decDigits_ne_nil (n : ℕ) : decDigits n ≠ [] := by
  rw [decDigits, decDigitsAux]
  split
  · simp
  · exact decDigitsAux_ne_nil _ _ (by simp)

/-! ## Scanning -/

/-- A scanned numeral: its sign, its digits and the input after them. -/
structure Numeral where
  /-- A minus sign was read. -/
  neg : Bool
  /-- The digits, at least one. -/
  digits : Bytes
  /-- What follows: `endptr`. -/
  rest : Bytes
  deriving DecidableEq, Repr

/-- The optional sign in front of the digits. -/
def scanSign : Bytes → Bool × Bytes
  | 45 :: t => (true, t)
  | 43 :: t => (false, t)
  | s => (false, s)

/-- White space, an optional sign, digits; `none` when there is no digit (`endptr == str`). -/
def scanNumeral (str : Bytes) : Option Numeral :=
  let (neg, s) := scanSign (str.dropWhile isspace)
  let ds := s.takeWhile isdigit
  if ds = [] then none else some ⟨neg, ds, s.dropWhile isdigit⟩

/-- `strtol(str, NULL, 10)` on 64-bit `long`: saturates out of range, `0` without digits. -/
def strtol (str : Bytes) : ℤ :=
  match scanNumeral str with
  | none => 0
  | some n =>
      if n.neg then max (-(digitsValue n.digits : ℤ)) (-2 ^ 63)
      else min (digitsValue n.digits : ℤ) (2 ^ 63 - 1)

/-- Conversion of a `long` to a 32-bit `int`. -/
def toInt32 (n : ℤ) : ℤ := n.bmod (2 ^ 32)

/-- `strchr(str, c) != NULL`: the search ends at the first NUL. -/
def strchr (str : Bytes) (c : UInt8) : Bool := (str.takeWhile (· != 0)).contains c

/-- A character that may follow a number: white space or the end of the string. -/
def endsNumber (rest : Bytes) : Bool :=
  match rest with
  | [] => true
  | c :: _ => isspace c || c == 0

/-- `strtoull` on an in-range numeral: a negative one is negated modulo `2^64`. -/
def toULL (n : Numeral) : ℕ :=
  if n.neg then (2 ^ 64 - digitsValue n.digits) % 2 ^ 64 else digitsValue n.digits

/-- `safe_strtoull`: the parsed number, or `none` where the function returns false. -/
def safeStrtoull (str : Bytes) : Option ℕ :=
  match scanNumeral str with
  | none => none
  | some n =>
      if 2 ^ 64 ≤ digitsValue n.digits then none
      else if endsNumber n.rest then
        if 2 ^ 63 ≤ toULL n && strchr str 45 then none else some (toULL n)
      else none

/-- `safe_strtoul`: as `safe_strtoull`, with the number stored in 32 bits. -/
def safeStrtoul (str : Bytes) : Option ℕ := (safeStrtoull str).map (· % 2 ^ 32)

/-- The integer a numeral denotes. -/
def Numeral.value (n : Numeral) : ℤ :=
  if n.neg then -(digitsValue n.digits : ℤ) else digitsValue n.digits

/-- `safe_strtol`: the parsed `long`, stored in an `int32_t`. -/
def safeStrtol (str : Bytes) : Option ℤ :=
  match scanNumeral str with
  | none => none
  | some n =>
      if n.value < -2 ^ 63 ∨ 2 ^ 63 ≤ n.value then none
      else if endsNumber n.rest then some (toInt32 n.value)
      else none

/-- The string is a numeral, and it denotes `v`. -/
def Denotes (str : Bytes) (v : ℤ) : Prop :=
  ∃ n, scanNumeral str = some n ∧ n.rest = [] ∧ n.value = v

/-! ## Reading back -/

/-- No digit is white space. -/
theorem isspace_of_isdigit {c : UInt8} (h : isdigit c = true) : isspace c = false := by
  simp only [isdigit, Bool.and_eq_true, decide_eq_true_eq, UInt8.le_iff_toNat_le] at h
  have h₁ : 48 ≤ c.toNat := h.1
  simp only [isspace, Bool.or_eq_false_iff, Bool.and_eq_false_iff, beq_eq_false_iff_ne, ne_eq,
    decide_eq_false_iff_not, UInt8.le_iff_toNat_le]
  refine ⟨?_, Or.inr ?_⟩
  · rintro rfl
    exact absurd h₁ (by decide)
  · show ¬ c.toNat ≤ 13; omega

/-- A numeral ends where its digits end. -/
theorem takeWhile_digits {ds rest : Bytes} (hds : ∀ c ∈ ds, isdigit c = true)
    (hrest : ∀ c, rest.head? = some c → isdigit c = false) :
    (ds ++ rest).takeWhile isdigit = ds ∧ (ds ++ rest).dropWhile isdigit = rest := by
  induction ds with
  | nil => cases rest with
    | nil => simp
    | cons c t => simp [hrest c rfl]
  | cons c t ih =>
      have hc := hds c (by simp)
      have := ih (fun d hd => hds d (List.mem_cons_of_mem c hd))
      simp [hc, this.1, this.2]

/-- A numeral that begins with a digit has no sign. -/
theorem scanSign_digit {c : UInt8} {t : Bytes} (h : isdigit c = true) :
    scanSign (c :: t) = (false, c :: t) := by
  have h₁ : c ≠ 45 := by rintro rfl; exact absurd h (by decide)
  have h₂ : c ≠ 43 := by rintro rfl; exact absurd h (by decide)
  unfold scanSign
  split <;> simp_all

/-- Scanning a printed natural number finds its digits. -/
theorem scanNumeral_decDigits (n : ℕ) {rest : Bytes}
    (hrest : ∀ c, rest.head? = some c → isdigit c = false) :
    scanNumeral (decDigits n ++ rest) = some ⟨false, decDigits n, rest⟩ := by
  obtain ⟨c, t, hct⟩ := List.exists_cons_of_ne_nil (decDigits_ne_nil n)
  have hc : isdigit c = true := isdigit_of_mem_decDigits (n := n) (by simp [hct])
  have htake := takeWhile_digits (fun c hc => isdigit_of_mem_decDigits (n := n) hc) hrest
  have hdrop : (decDigits n ++ rest).dropWhile isspace = decDigits n ++ rest := by
    simp [hct, isspace_of_isdigit hc]
  have hsign : scanSign (decDigits n ++ rest) = (false, decDigits n ++ rest) := by
    rw [hct]; exact scanSign_digit hc
  simp only [scanNumeral, hdrop, hsign, htake.1, htake.2, if_neg (decDigits_ne_nil n)]

/-- Scanning a printed integer finds its sign and digits. -/
theorem scanNumeral_formatInt (n : ℤ) {rest : Bytes}
    (hrest : ∀ c, rest.head? = some c → isdigit c = false) :
    scanNumeral (formatInt n ++ rest) = some ⟨decide (n < 0), decDigits n.natAbs, rest⟩ := by
  rw [formatInt]
  split
  · rename_i h
    have htake := takeWhile_digits
      (fun c hc => isdigit_of_mem_decDigits (n := n.natAbs) hc) hrest
    have hdrop : (45 :: decDigits n.natAbs ++ rest).dropWhile isspace
        = 45 :: (decDigits n.natAbs ++ rest) := by
      rw [List.cons_append, List.dropWhile_cons, if_neg (by decide)]
    simp only [scanNumeral, hdrop, scanSign, htake.1, htake.2, if_neg (decDigits_ne_nil _),
      decide_eq_true h]
  · rename_i h
    rw [scanNumeral_decDigits _ hrest, decide_eq_false h]

/-- White space in front of a numeral is skipped. -/
theorem scanNumeral_space {c : UInt8} (h : isspace c = true) (str : Bytes) :
    scanNumeral (c :: str) = scanNumeral str := by
  simp [scanNumeral, h]

/-- **`strtol` reads back a printed `int`.** -/
theorem strtol_formatInt {n : ℤ} (h₁ : -2 ^ 31 ≤ n) (h₂ : n < 2 ^ 31) {rest : Bytes}
    (hrest : ∀ c, rest.head? = some c → isdigit c = false) :
    strtol (formatInt n ++ rest) = n := by
  rw [strtol, scanNumeral_formatInt n hrest]
  simp only [digitsValue_decDigits, decide_eq_true_eq]
  split <;> omega

/-- An `int` survives the conversion from `long`. -/
theorem toInt32_of_bounds {n : ℤ} (h₁ : -2 ^ 31 ≤ n) (h₂ : n < 2 ^ 31) : toInt32 n = n := by
  rw [toInt32]
  exact Int.bmod_eq_of_le (by norm_num; omega) (by norm_num; omega)

/-- What may end a number is no digit. -/
theorem not_isdigit_of_endsNumber {rest : Bytes} (h : endsNumber rest = true) :
    ∀ c, rest.head? = some c → isdigit c = false := by
  intro c hc
  cases rest with
  | nil => exact absurd hc (by simp)
  | cons d t =>
      obtain rfl : d = c := Option.some.inj hc
      by_contra hd
      rw [Bool.not_eq_false] at hd
      rw [endsNumber, isspace_of_isdigit hd, Bool.false_or, beq_iff_eq] at h
      subst h
      exact absurd hd (by decide)

/-- The characters of a string that is a numeral. -/
theorem mem_numeral {str : Bytes} {n : Numeral} (hn : scanNumeral str = some n) (hrest : n.rest = [])
    {c : UInt8} (hc : c ∈ str) :
    isspace c = true ∨ isdigit c = true ∨ c = 43 ∨ c = 45 ∧ n.neg = true := by
  have hdigits : ∀ {s : Bytes}, s.dropWhile isdigit = [] → c ∈ s → isdigit c = true :=
    fun hs hmem => List.dropWhile_eq_nil_iff.mp hs c hmem
  rw [← List.takeWhile_append_dropWhile (p := isspace) (l := str), List.mem_append] at hc
  obtain hc | hc := hc
  · exact Or.inl (List.mem_takeWhile_imp hc)
  · refine Or.inr ?_
    simp only [scanNumeral] at hn
    split at hn
    · exact absurd hn (by simp)
    · obtain rfl := Option.some.inj hn
      simp only at hrest ⊢
      generalize str.dropWhile isspace = t at hrest hc ⊢
      unfold scanSign at hrest ⊢
      split at hrest
      · obtain rfl | hc := List.mem_cons.mp hc
        · exact Or.inr (Or.inr ⟨rfl, rfl⟩)
        · exact Or.inl (hdigits hrest hc)
      · obtain rfl | hc := List.mem_cons.mp hc
        · exact Or.inr (Or.inl rfl)
        · exact Or.inl (hdigits hrest hc)
      · exact Or.inl (hdigits hrest hc)

/-- A numeral without a minus sign has none in its string. -/
theorem not_mem_minus {str : Bytes} {n : Numeral} (hn : scanNumeral str = some n)
    (hneg : n.neg = false) (hrest : n.rest = []) : (45 : UInt8) ∉ str := by
  intro hmem
  obtain h | h | h | h := mem_numeral hn hrest hmem
  · exact absurd h (by decide)
  · exact absurd h (by decide)
  · exact absurd h (by decide)
  · exact absurd (h.2.symm.trans hneg) (by simp)

/-! ## Scanning a prefix of a string -/

/-- Digits end where what follows is no digit. -/
theorem takeWhile_append_of_head {s t : Bytes} (ht : ∀ c, t.head? = some c → isdigit c = false) :
    (s ++ t).takeWhile isdigit = s.takeWhile isdigit ∧
      (s ++ t).dropWhile isdigit = s.dropWhile isdigit ++ t := by
  induction s with
  | nil =>
      cases t with
      | nil => exact ⟨rfl, rfl⟩
      | cons c t =>
          have hc := ht c rfl
          simp [hc]
  | cons c s ih =>
      by_cases hc : isdigit c = true
      · simp [hc, ih.1, ih.2]
      · simp [hc]

/-- A sign is looked for at the first character only. -/
theorem scanSign_append {s : Bytes} (hs : s ≠ []) (t : Bytes) :
    scanSign (s ++ t) = ((scanSign s).1, (scanSign s).2 ++ t) := by
  cases s with
  | nil => exact absurd rfl hs
  | cons c s =>
      rw [List.cons_append]
      by_cases hm : c = 45
      · subst hm
        rfl
      by_cases hp : c = 43
      · subst hp
        rfl
      have hsign : ∀ u, scanSign (c :: u) = (false, c :: u) := by
        intro u
        unfold scanSign
        split <;> simp_all
      rw [hsign, hsign]
      rfl

/-- **What follows a string that is not all white space** does not change the numeral in it. -/
theorem scanNumeral_append {v t : Bytes} (hv : v.dropWhile isspace ≠ [])
    (ht : ∀ c, t.head? = some c → isdigit c = false) :
    scanNumeral (v ++ t) = (scanNumeral v).map fun num => { num with rest := num.rest ++ t } := by
  have hdrop : (v ++ t).dropWhile isspace = v.dropWhile isspace ++ t := by
    rw [List.dropWhile_append, if_neg (by simpa using hv)]
  have hdigits := takeWhile_append_of_head (s := (scanSign (v.dropWhile isspace)).2) ht
  unfold scanNumeral
  rw [hdrop, scanSign_append hv]
  simp only [hdigits.1, hdigits.2]
  split <;> rfl

/-- White space in front of a string is skipped. -/
theorem scanNumeral_of_space {v : Bytes} (hv : v.dropWhile isspace = []) (t : Bytes) :
    scanNumeral (v ++ t) = scanNumeral t := by
  have hdrop : (v ++ t).dropWhile isspace = t.dropWhile isspace := by
    rw [List.dropWhile_append, if_pos (by simp [hv])]
  unfold scanNumeral
  rw [hdrop]

/-- White space has neither a NUL nor a minus sign. -/
theorem strchr_space {v : Bytes} (hv : ∀ c ∈ v, isspace c = true) (t : Bytes) :
    strchr (v ++ t) 45 = strchr t 45 := by
  induction v with
  | nil => rfl
  | cons c v ih =>
      have hc := hv c (by simp)
      have hnul : (c != 0) = true := by
        rw [bne_iff_ne]
        rintro rfl
        exact absurd hc (by decide)
      have hne : ((45 : UInt8) == c) = false := by
        rw [beq_eq_false_iff_ne]
        rintro rfl
        exact absurd hc (by decide)
      have ih' := ih fun c hm => hv c (List.mem_cons_of_mem _ hm)
      unfold strchr at ih' ⊢
      rw [List.cons_append, List.takeWhile_cons_of_pos (by simpa using hnul), List.contains_cons,
        hne, Bool.false_or]
      exact ih'

/-- The minus sign of a numeral is found. -/
theorem strchr_of_neg {v t : Bytes} {num : Numeral} (h : scanNumeral v = some num)
    (hneg : num.neg = true) : strchr (v ++ t) 45 = true := by
  have hspace : ∀ c ∈ v.takeWhile isspace, isspace c = true := fun c hm =>
    List.mem_takeWhile_imp hm
  rw [← List.takeWhile_append_dropWhile (p := isspace) (l := v), List.append_assoc,
    strchr_space hspace]
  unfold scanNumeral at h
  simp only at h
  split at h
  · exact absurd h (by simp)
  · obtain rfl := Option.some.inj h
    simp only at hneg
    generalize v.dropWhile isspace = u at hneg
    unfold scanSign at hneg
    split at hneg
    · simp [strchr]
    · exact absurd hneg (by simp)
    · exact absurd hneg (by simp)

/-! ## The grammar of the numbers -/

/-- The text starts with the number `u`: white space, a sign and digits, which white space or the
end of the string ends. -/
def Decimal (str : Bytes) (u : ℤ) : Prop :=
  ∃ space sign digits rest, str = space ++ (sign ++ (digits ++ rest)) ∧
    (∀ c ∈ space, isspace c = true) ∧ sign ∈ [[], [43], ([45] : Bytes)] ∧
    digits ≠ [] ∧ (∀ c ∈ digits, isdigit c = true) ∧ endsNumber rest = true ∧
    u = if sign = [45] then -(digitsValue digits : ℤ) else digitsValue digits

/-- What follows the white space is no white space. -/
theorem isspace_head_numeral {sign digits rest : Bytes} (hsign : sign ∈ [[], [43], ([45] : Bytes)])
    (hne : digits ≠ []) (hdigits : ∀ c ∈ digits, isdigit c = true) :
    (sign ++ (digits ++ rest)).dropWhile isspace = sign ++ (digits ++ rest) := by
  obtain ⟨d, ds, rfl⟩ := List.exists_cons_of_ne_nil hne
  have hd := isspace_of_isdigit (hdigits d (by simp))
  simp only [List.mem_cons, List.not_mem_nil, or_false] at hsign
  obtain rfl | rfl | rfl := hsign
  · simp [hd]
  · exact List.dropWhile_cons_of_neg (by decide)
  · exact List.dropWhile_cons_of_neg (by decide)

/-- **The scanner finds the numbers of the grammar**, and no others. -/
theorem decimal_iff {str : Bytes} {u : ℤ} :
    Decimal str u ↔ ∃ num, scanNumeral str = some num ∧ endsNumber num.rest = true ∧
      num.value = u := by
  constructor
  · rintro ⟨space, sign, digits, rest, rfl, hspace, hsign, hne, hdigits, hend, rfl⟩
    have hdrop : (space ++ (sign ++ (digits ++ rest))).dropWhile isspace
        = sign ++ (digits ++ rest) := by
      have hall : space.dropWhile isspace = [] := List.dropWhile_eq_nil_iff.mpr hspace
      rw [List.dropWhile_append, if_pos (by simp [hall]), isspace_head_numeral hsign hne hdigits]
    have htake := takeWhile_digits hdigits (not_isdigit_of_endsNumber hend)
    have hscan : scanSign (sign ++ (digits ++ rest))
        = (decide (sign = [45]), digits ++ rest) := by
      simp only [List.mem_cons, List.not_mem_nil, or_false] at hsign
      obtain rfl | rfl | rfl := hsign
      · obtain ⟨d, ds, rfl⟩ := List.exists_cons_of_ne_nil hne
        exact scanSign_digit (hdigits d (by simp))
      · rfl
      · rfl
    refine ⟨⟨decide (sign = [45]), digits, rest⟩, ?_, hend, ?_⟩
    · simp only [scanNumeral, hdrop, hscan, htake.1, htake.2, if_neg hne]
    · simp [Numeral.value]
  · rintro ⟨num, hscan, hend, rfl⟩
    simp only [scanNumeral] at hscan
    split at hscan
    · exact absurd hscan (by simp)
    · rename_i hne
      obtain rfl := Option.some.inj hscan
      have hsplit : ∀ s : Bytes, ∃ sign ∈ [[], [43], ([45] : Bytes)],
          s = sign ++ (scanSign s).2 ∧ ((scanSign s).1 = true ↔ sign = [45]) := by
        intro s
        unfold scanSign
        split
        · exact ⟨[45], by simp, rfl, by simp⟩
        · exact ⟨[43], by simp, rfl, by simp⟩
        · exact ⟨[], by simp, rfl, by simp⟩
      obtain ⟨sign, hmem, hs, hneg⟩ := hsplit (str.dropWhile isspace)
      refine ⟨str.takeWhile isspace, sign, _, _, ?_, fun c hc => List.mem_takeWhile_imp hc, hmem,
        hne, fun c hc => List.mem_takeWhile_imp hc, hend, ?_⟩
      · rw [List.takeWhile_append_dropWhile, ← hs, List.takeWhile_append_dropWhile]
      · simp only [Numeral.value, hneg]

/-- A text starts with at most one number. -/
theorem Decimal.unique {str : Bytes} {u w : ℤ} (h : Decimal str u) (h' : Decimal str w) :
    u = w := by
  obtain ⟨num, hnum, -, rfl⟩ := decimal_iff.mp h
  obtain ⟨num', hnum', -, rfl⟩ := decimal_iff.mp h'
  rw [Option.some.inj (hnum.symm.trans hnum')]

/-- **What `safe_strtoull` accepts**: the numbers below `2 ^ 63`, those up to `2 ^ 64` in a string
without a minus sign, and the negative ones that wrap around to less than `2 ^ 63`. -/
theorem safeStrtoull_eq_some {str : Bytes} {v : ℕ} :
    safeStrtoull str = some v ↔ ∃ u, Decimal str u ∧
      (0 ≤ u ∧ u < 2 ^ 63 ∧ (v : ℤ) = u ∨
        2 ^ 63 ≤ u ∧ u < 2 ^ 64 ∧ strchr str 45 = false ∧ (v : ℤ) = u ∨
        -2 ^ 64 < u ∧ u < -2 ^ 63 ∧ (v : ℤ) = u + 2 ^ 64) := by
  simp only [decimal_iff]
  cases hscan : scanNumeral str with
  | none => simp [safeStrtoull, hscan]
  | some num =>
      obtain ⟨neg, digits, rest⟩ := num
      simp only [existsAndEq, and_true, Option.some.injEq]
      cases hend : endsNumber rest with
      | false => simp [safeStrtoull, hscan, hend]
      | true =>
          cases neg with
          | true =>
              have hminus : strchr str 45 = true := by
                have := strchr_of_neg (t := []) hscan rfl
                rwa [List.append_nil] at this
              simp only [safeStrtoull, hscan, toULL, Numeral.value, hend, hminus, if_true,
                Bool.and_true, decide_eq_true_eq, Bool.true_eq_false, false_and, and_false,
                false_or, true_and]
              split
              · exact iff_of_false (by simp) (by omega)
              · split
                · exact iff_of_false (by simp) (by omega)
                · rw [Option.some.injEq]
                  omega
          | false =>
              simp only [safeStrtoull, hscan, toULL, Numeral.value, hend, Bool.false_eq_true,
                if_false, if_true, Bool.and_eq_true, decide_eq_true_eq, true_and]
              split
              · exact iff_of_false (by simp) (by omega)
              · cases strchr str 45 with
                | true =>
                    simp only [and_true, Bool.true_eq_false, false_and, and_false, false_or]
                    split
                    · exact iff_of_false (by simp) (by omega)
                    · rw [Option.some.injEq]
                      omega
                | false =>
                    rw [if_neg (by simp), Option.some.injEq]
                    simp only [true_and]
                    omega

/-- **What `safe_strtoul` accepts**, and the low 32 bits that it keeps. -/
theorem safeStrtoul_eq_some {str : Bytes} {v : ℕ} :
    safeStrtoul str = some v ↔ ∃ u, Decimal str u ∧ (v : ℤ) = u % 2 ^ 32 ∧
      (0 ≤ u ∧ u < 2 ^ 63 ∨ 2 ^ 63 ≤ u ∧ u < 2 ^ 64 ∧ strchr str 45 = false ∨
        -2 ^ 64 < u ∧ u < -2 ^ 63) := by
  rw [safeStrtoul, Option.map_eq_some_iff]
  constructor
  · rintro ⟨w, hw, rfl⟩
    obtain ⟨u, hu, h⟩ := safeStrtoull_eq_some.mp hw
    refine ⟨u, hu, ?_, ?_⟩
    · omega
    · obtain h | h | h := h
      · exact Or.inl ⟨h.1, h.2.1⟩
      · exact Or.inr (Or.inl ⟨h.1, h.2.1, h.2.2.1⟩)
      · exact Or.inr (Or.inr ⟨h.1, h.2.1⟩)
  · rintro ⟨u, hu, hv, h⟩
    obtain h | h | h := h
    · exact ⟨u.toNat, safeStrtoull_eq_some.mpr ⟨u, hu, Or.inl ⟨h.1, h.2, by omega⟩⟩, by omega⟩
    · exact ⟨u.toNat, safeStrtoull_eq_some.mpr
        ⟨u, hu, Or.inr (Or.inl ⟨h.1, h.2.1, h.2.2, by omega⟩)⟩, by omega⟩
    · exact ⟨(u + 2 ^ 64).toNat, safeStrtoull_eq_some.mpr
        ⟨u, hu, Or.inr (Or.inr ⟨h.1, h.2, by omega⟩)⟩, by omega⟩

/-- **What `safe_strtol` accepts**, and the `int` that it keeps. -/
theorem safeStrtol_eq_some {str : Bytes} {v : ℤ} :
    safeStrtol str = some v ↔
      ∃ u, Decimal str u ∧ -2 ^ 63 ≤ u ∧ u < 2 ^ 63 ∧ v = toInt32 u := by
  simp only [decimal_iff]
  cases hscan : scanNumeral str with
  | none => simp [safeStrtol, hscan]
  | some num =>
      simp only [safeStrtol, hscan, Option.some.injEq, exists_eq_left', existsAndEq, and_true]
      by_cases hend : endsNumber num.rest = true
      · simp only [hend, if_true, true_and]
        split
        · exact iff_of_false (by simp) (by omega)
        · rw [Option.some.injEq]
          constructor
          · rintro rfl
            exact ⟨by omega, by omega, rfl⟩
          · exact fun h => h.2.2.symm
      · simp [hend]

/-- A `long` is the `int` it is stored in if it fits, and only then. -/
theorem toInt32_eq_iff {u : ℤ} : toInt32 u = u ↔ -2 ^ 31 ≤ u ∧ u < 2 ^ 31 := by
  refine ⟨fun h => ?_, fun h => toInt32_of_bounds h.1 h.2⟩
  have hlow := Int.le_bmod (x := u) (m := 2 ^ 32) (by decide)
  have hhigh := Int.bmod_lt (x := u) (m := 2 ^ 32) (by decide)
  rw [toInt32] at h
  omega

/-! ## Strings that are numerals -/

/-- A numeral is a text that starts with its number. -/
theorem Denotes.decimal {str : Bytes} {v : ℤ} (h : Denotes str v) : Decimal str v := by
  obtain ⟨n, hn, hrest, hv⟩ := h
  refine decimal_iff.mpr ⟨n, hn, ?_, hv⟩
  rw [hrest]
  rfl

/-- A positive numeral has no minus sign. -/
theorem Denotes.not_mem_minus {str : Bytes} {v : ℤ} (h : Denotes str v) (hpos : 0 < v) :
    (45 : UInt8) ∉ str := by
  obtain ⟨n, hn, hrest, rfl⟩ := h
  have hneg : n.neg = false := by
    by_contra hneg
    rw [Numeral.value, if_pos (by simpa using hneg)] at hpos
    omega
  exact CNumber.not_mem_minus hn hneg hrest

/-- The text of a positive number has no minus. -/
theorem Denotes.strchr_minus {str : Bytes} {v : ℤ} (h : Denotes str v) (hpos : 0 < v) :
    strchr str 45 = false := by
  by_contra hchr
  rw [Bool.not_eq_false, strchr, List.contains_iff_mem] at hchr
  exact h.not_mem_minus hpos (List.takeWhile_subset _ hchr)

/-- A numeral has no NUL. -/
theorem Denotes.ne_nul {str : Bytes} {v : ℤ} (h : Denotes str v) {c : UInt8} (hc : c ∈ str) :
    c ≠ 0 := by
  rintro rfl
  obtain ⟨n, hn, hrest, -⟩ := h
  obtain h | h | h | h := mem_numeral hn hrest hc
  · exact absurd h (by decide)
  · exact absurd h (by decide)
  · exact absurd h (by decide)
  · exact absurd h.1 (by decide)

/-- `safe_strtoull` reads a numeral in range. -/
theorem safeStrtoull_of_denotes {str : Bytes} {v : ℤ} (h : Denotes str v) (h₀ : 0 ≤ v)
    (h₁ : v < 2 ^ 64) : safeStrtoull str = some v.toNat := by
  have hv : (v.toNat : ℤ) = v := Int.toNat_of_nonneg h₀
  refine safeStrtoull_eq_some.mpr ⟨v, h.decimal, ?_⟩
  rcases lt_or_ge v (2 ^ 63) with hsmall | hlarge
  · exact Or.inl ⟨h₀, hsmall, hv⟩
  · exact Or.inr (Or.inl ⟨hlarge, h₁, h.strchr_minus (by omega), hv⟩)

/-- `safe_strtoul` reads a numeral in range. -/
theorem safeStrtoul_of_denotes {str : Bytes} {v : ℤ} (h : Denotes str v) (h₀ : 0 ≤ v)
    (h₁ : v < 2 ^ 32) : safeStrtoul str = some v.toNat := by
  rw [safeStrtoul, safeStrtoull_of_denotes h h₀ (by omega), Option.map_some,
    Nat.mod_eq_of_lt (by omega)]

/-- `safe_strtol` reads a numeral in range. -/
theorem safeStrtol_of_denotes {str : Bytes} {v : ℤ} (h : Denotes str v) (h₀ : -2 ^ 31 ≤ v)
    (h₁ : v < 2 ^ 31) : safeStrtol str = some v :=
  safeStrtol_eq_some.mpr
    ⟨v, h.decimal, by omega, by omega, (toInt32_of_bounds h₀ h₁).symm⟩

end CNumber
