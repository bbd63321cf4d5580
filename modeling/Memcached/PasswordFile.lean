import Memcached.Types
import Memcached.Lib.CNumber
import Mathlib.Data.List.GetD

/-! # The SASL password file

`sasl_server_userdb_checkpass` reads the file with `fgets` into a buffer of 256 bytes and compares what
stands there with the user and the password of the request.

* **`saslServerUserdbCheckpass`** — the check.
* **`Listed`** — the first line of the user has the password.
* **`EntryLines`**, **`PlainPass`**, **`NeverRead`** — the files and the passwords for which it is
  right.
* **`checkpass_iff`**, **`checkpass_unlisted`** — when the check accepts what is listed. -/

namespace Memcached

open CNumber (Bytes)

/-! ## The check -/

/-- `MAX_ENTRY_LEN`. -/
def maxEntryLen : ℕ := 256

/-- What one call of `fgets` takes from a file: a line with its newline, or as much as fits. -/
def fgetsChunk (file : Bytes) : Bytes :=
  let chunk := file.take (maxEntryLen - 1)
  chunk.takeWhile (· ≠ 10) ++ (if 10 ∈ chunk then [10] else [])

/-- `fgets`: the buffer, in which the bytes behind the NUL are the old ones, and what is left of the
file; `none` at the end of the file. -/
def fgets (buffer file : Bytes) : Option (Bytes × Bytes) :=
  if file = [] then none
  else
    let chunk := fgetsChunk file
    some (chunk ++ [0] ++ buffer.drop (chunk.length + 1), file.drop chunk.length)

/-- The buffer has an entry of the user. -/
def isUser (user buffer : Bytes) : Bool :=
  buffer.take user.length == user && buffer.getD user.length 0 == 58

/-- The characters that end a password in the buffer. -/
def endsPass (c : UInt8) : Bool := c == 58 || c == 10 || c == 13 || c == 0

/-- The entry has the password, and no more. -/
def isPass (user pass buffer : Bytes) : Bool :=
  (buffer.drop (user.length + 1)).take pass.length == pass &&
    endsPass (buffer.getD (user.length + 1 + pass.length) 0)

/-- The loop over the file, at most `fuel` calls of `fgets`. -/
def checkLoop (user pass : Bytes) : ℕ → Bytes → Bytes → Bool
  | 0, _, _ => false
  | fuel + 1, buffer, file =>
      match fgets buffer file with
      | none => false
      | some (buffer, file) =>
          if isUser user buffer then isPass user pass buffer
          else checkLoop user pass fuel buffer file

/-- **`sasl_server_userdb_checkpass`** with the contents of the file, `none` if it does not open, and
of the buffer: the answer is `SASL_OK`. -/
def saslServerUserdbCheckpass (pwfile : Option Bytes) (buffer user pass : Bytes) : Bool :=
  if pass.length + user.length > maxEntryLen - 4 then false
  else
    match pwfile with
    | none => false
    | some file => checkLoop user pass file.length buffer file

/-! ## What the file lists -/

/-- The lines of a file. -/
def linesOf : Bytes → List Bytes
  | [] => [[]]
  | c :: file =>
      if c = 10 then [] :: linesOf file
      else
        match linesOf file with
        | [] => [[c]]
        | line :: lines => (c :: line) :: lines

/-- The text before the first colon of a line. -/
def userField (line : Bytes) : Option Bytes :=
  if 58 ∈ line then some (line.takeWhile (· ≠ 58)) else none

/-- The text behind that colon, up to the next colon, carriage return or end of line. -/
def passField (line : Bytes) : Bytes :=
  ((line.dropWhile (· ≠ 58)).drop 1).takeWhile fun c => c ≠ 58 && c ≠ 13

/-- The first line of the user has the password. -/
def Listed (file user pass : Bytes) : Prop :=
  ((linesOf file).find? fun line => userField line = some user).map passField = some pass

/-- A text begins with the user and a colon. -/
def isEntry (user text : Bytes) : Prop := user ++ [58] <+: text

instance (user text : Bytes) : Decidable (isEntry user text) := by
  unfold isEntry
  infer_instance

/-- Before the first line with an entry of the user, no continuation of an over-long line begins with
the user and a colon. -/
def NoFragment (file user : Bytes) : Prop :=
  ∀ pre line post, linesOf file = pre ++ line :: post →
    (∀ l ∈ pre ++ [line], ¬ isEntry user l) → ∀ k, ¬ isEntry user (line.drop (255 * (k + 1)))

/-- The password field of an entry of the user. -/
def entryField (user line : Bytes) : Bytes :=
  (line.drop (user.length + 1)).takeWhile fun c => c ≠ 58 && c ≠ 13

/-- **A file whose first entry of a user is a line.** When the password field of that line has a NUL,
what stands before the NUL is not the password that is asked for. -/
structure EntryLines (file user pass : Bytes) : Prop where
  fragment : NoFragment file user
  nul : ∀ line, (linesOf file).find? (fun l => isEntry user l) = some line →
    0 ∈ entryField user line → (entryField user line).takeWhile (· ≠ 0) ≠ pass

/-- No line of a file, and nothing in the buffer, opens with such a password: a newline in the buffer
is the last byte before the NUL. -/
def NeverRead (pass : Bytes) : Prop :=
  ∃ pre c post, pass = pre ++ 10 :: c :: post ∧ 0 ∉ pre ∧ c ≠ 0

/-- A password without colon, newline, carriage return and NUL. -/
def PlainPass (pass : Bytes) : Prop := 58 ∉ pass ∧ 10 ∉ pass ∧ 13 ∉ pass ∧ 0 ∉ pass

/-! ## Reading a chunk -/

section

variable {user pass : Bytes}

/-- A loop that looks for a character passes over a text without it. -/
theorem all_ne_of_not_mem {d : UInt8} {l : Bytes} (h : d ∉ l) : ∀ c ∈ l, decide (c ≠ d) = true := by
  intro c hc
  rw [decide_eq_true_iff]
  rintro rfl
  exact h hc

/-- What stands behind the user and the colon. -/
theorem drop_head (user body : Bytes) : (user ++ [58] ++ body).drop (user.length + 1) = body :=
  List.drop_left' (by simp)

/-- The chunk depends on the first 255 bytes only. -/
theorem fgetsChunk_of_take {file chunk : Bytes} (h : file.take 255 = chunk) :
    fgetsChunk file = chunk.takeWhile (· ≠ 10) ++ (if 10 ∈ chunk then [10] else []) := by
  subst h
  rfl

/-- A short line is taken with its newline. -/
theorem fgetsChunk_newline {line rest : Bytes} (h : 10 ∉ line) (hlen : line.length < 255) :
    fgetsChunk (line ++ 10 :: rest) = line ++ [10] := by
  obtain ⟨m, hm⟩ : ∃ m, 255 - line.length = m + 1 := ⟨254 - line.length, by omega⟩
  have htake : (line ++ 10 :: rest).take 255 = line ++ 10 :: rest.take m := by
    rw [List.take_append, List.take_of_length_le (by omega), hm, List.take_succ_cons]
  rw [fgetsChunk_of_take htake, List.takeWhile_append_of_pos (all_ne_of_not_mem h),
    if_pos (by simp)]
  simp

/-- Of a long line 255 bytes are taken. -/
theorem fgetsChunk_long {line rest : Bytes} (h : 10 ∉ line) (hlen : 255 ≤ line.length) :
    fgetsChunk (line ++ rest) = line.take 255 := by
  have htake : (line ++ rest).take 255 = line.take 255 := List.take_append_of_le_length hlen
  have hno : 10 ∉ line.take 255 := fun hc => h (List.mem_of_mem_take hc)
  rw [fgetsChunk_of_take htake, if_neg hno, List.append_nil, List.takeWhile_eq_self_iff]
  exact all_ne_of_not_mem hno

/-- A last line without a newline is taken as it is. -/
theorem fgetsChunk_last {line : Bytes} (h : 10 ∉ line) (hlen : line.length < 255) :
    fgetsChunk line = line := by
  rw [fgetsChunk_of_take (List.take_of_length_le (by omega)), if_neg h, List.append_nil,
    List.takeWhile_eq_self_iff]
  exact all_ne_of_not_mem h

/-- The user is found where the text begins with it and a colon. -/
theorem isUser_iff {buffer : Bytes} : isUser user buffer = true ↔ isEntry user buffer := by
  rw [isUser, isEntry, Bool.and_eq_true, beq_iff_eq, beq_iff_eq]
  constructor
  · rintro ⟨htake, hcolon⟩
    have hlt : user.length < buffer.length := by
      by_contra hge
      rw [List.getD_eq_default _ _ (Nat.le_of_not_lt hge)] at hcolon
      exact absurd hcolon (by decide)
    refine ⟨buffer.drop (user.length + 1), ?_⟩
    rw [List.getD_eq_getElem _ _ hlt] at hcolon
    conv_rhs => rw [← List.take_append_drop user.length buffer, List.drop_eq_getElem_cons hlt, hcolon,
      htake]
    simp
  · rintro ⟨rest, rfl⟩
    simp [List.append_assoc, List.getD_eq_getElem?_getD]

/-- Behind the NUL of a chunk there is nothing that a user matches. -/
theorem isEntry_buffer_iff (huser : 0 ∉ user) {chunk rest : Bytes} :
    isEntry user (chunk ++ [0] ++ rest) ↔ isEntry user chunk := by
  constructor
  · intro h
    rcases List.prefix_or_prefix_of_prefix h
      (show chunk <+: chunk ++ [0] ++ rest from ⟨[0] ++ rest, by simp⟩) with h' | h'
    · exact h'
    · -- the user would have the NUL
      obtain ⟨tail, htail⟩ := h'
      rw [isEntry, ← htail, List.append_assoc, List.prefix_append_right_inj] at h
      cases tail with
      | nil =>
          rw [List.append_nil] at htail
          exact htail ▸ List.prefix_refl _
      | cons c tail =>
          rw [List.singleton_append, List.cons_prefix_cons] at h
          have hmem : (0 : UInt8) ∈ user ++ [58] := by
            rw [← htail, h.1]
            simp
          rcases List.mem_append.mp hmem with hmem | hmem
          · exact absurd hmem huser
          · exact absurd (List.mem_singleton.mp hmem) (by decide)
  · intro h
    exact h.trans ⟨[0] ++ rest, by simp⟩

/-- A newline is not a part of an entry's head. -/
theorem isEntry_newline_iff {line : Bytes} :
    isEntry user (line ++ [10]) ↔ isEntry user line := by
  constructor
  · intro he
    rcases List.prefix_concat_iff.mp he with heq | he
    · have := congrArg List.getLast? heq
      simp at this
    · exact he
  · exact fun he => he.trans (List.prefix_append _ _)

/-! ## The loop over the lines -/

/-- A newline ends the first line. -/
theorem linesOf_newline {line rest : Bytes} (h : 10 ∉ line) :
    linesOf (line ++ 10 :: rest) = line :: linesOf rest := by
  induction line with
  | nil => simp [linesOf]
  | cons c line ih =>
      have hc : c ≠ 10 := fun hc => h (hc ▸ List.mem_cons_self)
      rw [List.cons_append, linesOf, if_neg hc, ih fun hm => h (List.mem_cons_of_mem _ hm)]

/-- A file without a newline is one line. -/
theorem linesOf_last {line : Bytes} (h : 10 ∉ line) : linesOf line = [line] := by
  induction line with
  | nil => rfl
  | cons c line ih =>
      have hc : c ≠ 10 := fun hc => h (hc ▸ List.mem_cons_self)
      rw [linesOf, if_neg hc, ih fun hm => h (List.mem_cons_of_mem _ hm)]

/-- A file is its first line and the others. -/
theorem file_cases (file : Bytes) :
    10 ∉ file ∨ ∃ line rest, file = line ++ 10 :: rest ∧ 10 ∉ line := by
  by_cases h : 10 ∈ file
  · obtain ⟨line, rest, hfile, hline⟩ := List.eq_append_cons_of_mem h
    exact .inr ⟨line, rest, hfile, hline⟩
  · exact .inl h

/-- What `fgets` leaves in the buffer and in the file. -/
theorem fgets_of_chunk {buffer file chunk : Bytes} (hne : file ≠ []) (h : fgetsChunk file = chunk) :
    fgets buffer file =
      some (chunk ++ [0] ++ buffer.drop (chunk.length + 1), file.drop chunk.length) := by
  rw [fgets, if_neg hne, h]

/-- What `fgets` takes of a line: all of it or its first 255 bytes. -/
structure LineChunk (line chunk : Bytes) : Prop where
  taken : (line.length < 255 ∧ (chunk = line ++ [10] ∨ chunk = line)) ∨
    (255 ≤ line.length ∧ chunk = line.take 255)

/-- A chunk is an entry iff its line is: a user fits a chunk. -/
theorem LineChunk.isEntry_iff {line chunk : Bytes} (h : LineChunk line chunk)
    (hlen : user.length ≤ 252) : isEntry user chunk ↔ isEntry user line := by
  rcases h.taken with ⟨-, rfl | rfl⟩ | ⟨-, rfl⟩
  · exact isEntry_newline_iff
  · exact Iff.rfl
  · constructor
    · exact fun he => he.trans (List.take_prefix _ _)
    · intro he
      rw [isEntry, List.prefix_take_iff]
      refine ⟨he, ?_⟩
      rw [List.length_append, List.length_singleton]
      omega

/-- The chunk at the head of a line that a newline or the end of the file ends. -/
theorem lineChunk_fgetsChunk {line tail : Bytes} (h : 10 ∉ line)
    (htail : tail = [] ∨ ∃ rest, tail = 10 :: rest) : LineChunk line (fgetsChunk (line ++ tail)) := by
  by_cases hlen : line.length < 255
  · rcases htail with rfl | ⟨rest, rfl⟩
    · rw [List.append_nil, fgetsChunk_last h hlen]
      exact ⟨.inl ⟨hlen, .inr rfl⟩⟩
    · rw [fgetsChunk_newline h hlen]
      exact ⟨.inl ⟨hlen, .inl rfl⟩⟩
  · rw [fgetsChunk_long h (Nat.le_of_not_lt hlen)]
    exact ⟨.inr ⟨Nat.le_of_not_lt hlen, rfl⟩⟩

/-- The loop stops at an entry. -/
theorem checkLoop_entry (pass : Bytes) (fuel : ℕ) (buffer : Bytes) {file : Bytes} (huser : 0 ∉ user) (hne : file ≠ [])
    (h : isEntry user (fgetsChunk file)) :
    ∃ rest, checkLoop user pass (fuel + 1) buffer file =
      isPass user pass (fgetsChunk file ++ [0] ++ rest) := by
  refine ⟨buffer.drop ((fgetsChunk file).length + 1), ?_⟩
  rw [checkLoop, fgets_of_chunk hne rfl]
  simp only
  rw [if_pos (isUser_iff.mpr ((isEntry_buffer_iff huser).mpr h))]

/-- The loop goes on behind a chunk that is no entry. -/
theorem checkLoop_other (pass : Bytes) (fuel : ℕ) (buffer : Bytes) {file : Bytes} (huser : 0 ∉ user) (hne : file ≠ [])
    (h : ¬ isEntry user (fgetsChunk file)) :
    ∃ buffer', checkLoop user pass (fuel + 1) buffer file =
      checkLoop user pass fuel buffer' (file.drop (fgetsChunk file).length) := by
  refine ⟨fgetsChunk file ++ [0] ++ buffer.drop ((fgetsChunk file).length + 1), ?_⟩
  rw [checkLoop, fgets_of_chunk hne rfl]
  simp only
  rw [if_neg fun hu => h ((isEntry_buffer_iff huser).mp (isUser_iff.mp hu))]

/-- **A line without an entry is passed over**, chunk by chunk. -/
theorem checkLoop_skip (pass : Bytes) (huser : 0 ∉ user) (hlen : user.length ≤ 252) (line : Bytes) {tail : Bytes}
    (h : 10 ∉ line) (htail : tail = [] ∨ ∃ rest, tail = 10 :: rest)
    (hno : ∀ k, ¬ isEntry user (line.drop (255 * k))) {fuel : ℕ} (buffer : Bytes)
    (hfuel : (line ++ tail).length ≤ fuel) :
    ∃ fuel' buffer', (tail.drop 1).length ≤ fuel' ∧
      checkLoop user pass fuel buffer (line ++ tail) =
        checkLoop user pass fuel' buffer' (tail.drop 1) := by
  -- by induction on the rest of the line
  induction hn : line.length using Nat.strongRecOn generalizing line fuel buffer with
  | _ n ih =>
    by_cases hnil : line ++ tail = []
    · obtain ⟨rfl, rfl⟩ := List.append_eq_nil_iff.mp hnil
      exact ⟨fuel, buffer, by simp, rfl⟩
    · obtain ⟨fuel, rfl⟩ := Nat.exists_eq_succ_of_ne_zero (show fuel ≠ 0 from fun h0 => by
        rw [h0] at hfuel
        exact hnil (List.length_eq_zero_iff.mp (Nat.le_zero.mp hfuel)))
      have hchunk := lineChunk_fgetsChunk h htail
      have hother : ¬ isEntry user (fgetsChunk (line ++ tail)) := fun he =>
        hno 0 (by simpa using (hchunk.isEntry_iff hlen).mp he)
      obtain ⟨buffer', hloop⟩ := checkLoop_other pass fuel buffer huser hnil hother
      rw [Nat.succ_eq_add_one, hloop]
      rcases Nat.lt_or_ge line.length 255 with hshort | hlong
      · rcases htail with rfl | ⟨rest, rfl⟩
        · rw [List.append_nil, fgetsChunk_last h hshort, List.drop_length]
          exact ⟨fuel, buffer', by simp, rfl⟩
        · rw [fgetsChunk_newline h hshort]
          refine ⟨fuel, buffer', ?_, ?_⟩
          · simp only [List.length_append, List.length_cons, Nat.succ_eq_add_one] at hfuel
            simp only [List.drop_one, List.tail_cons]
            omega
          · rw [show line ++ 10 :: rest = (line ++ [10]) ++ rest by simp, List.drop_left]
            rfl
      · rw [fgetsChunk_long h hlong, List.length_take, min_eq_left hlong,
          List.drop_append_of_le_length hlong]
        have hdrop : (line.drop 255).length = line.length - 255 := List.length_drop
        refine ih (line.drop 255).length (by omega) (line.drop 255)
          (fun hm => h (List.mem_of_mem_drop hm)) (fun k => ?_) buffer' ?_ rfl
        · rw [List.drop_drop, show 255 + 255 * k = 255 * (k + 1) by ring]
          exact hno (k + 1)
        · rw [List.length_append, hdrop]
          rw [List.length_append, Nat.succ_eq_add_one] at hfuel
          omega

/-- **The loop answers for the first line that is an entry.** -/
theorem checkLoop_eq (pass : Bytes) (huser : 0 ∉ user) (hlen : user.length ≤ 252) (file : Bytes)
    (hfrag : NoFragment file user) {fuel : ℕ} (buffer : Bytes) (hfuel : file.length ≤ fuel) :
    ((linesOf file).find? (fun l => isEntry user l) = none →
      checkLoop user pass fuel buffer file = false) ∧
    ∀ line, (linesOf file).find? (fun l => isEntry user l) = some line →
      10 ∉ line ∧ ∃ chunk rest, LineChunk line chunk ∧
        checkLoop user pass fuel buffer file = isPass user pass (chunk ++ [0] ++ rest) := by
  -- by induction on the file, from its first line to the rest
  induction hn : file.length using Nat.strongRecOn generalizing file fuel buffer with
  | _ n ih =>
    -- the first line, and what ends it
    obtain ⟨line, tail, rfl, h, htail⟩ : ∃ line tail, file = line ++ tail ∧ 10 ∉ line ∧
        (tail = [] ∨ ∃ rest, tail = 10 :: rest) := by
      rcases file_cases file with h | ⟨line, rest, rfl, h⟩
      · exact ⟨file, [], by simp, h, .inl rfl⟩
      · exact ⟨line, 10 :: rest, rfl, h, .inr ⟨rest, rfl⟩⟩
    have hlines : ∃ lines, linesOf (line ++ tail) = line :: lines ∧
        (tail = [] ∧ lines = [] ∨ ∃ rest, tail = 10 :: rest ∧ lines = linesOf rest) := by
      rcases htail with rfl | ⟨rest, rfl⟩
      · exact ⟨[], by rw [List.append_nil, linesOf_last h], .inl ⟨rfl, rfl⟩⟩
      · exact ⟨linesOf rest, linesOf_newline h, .inr ⟨rest, rfl, rfl⟩⟩
    obtain ⟨lines, hlines, hrest⟩ := hlines
    by_cases he : isEntry user line
    · have hfind : (linesOf (line ++ tail)).find? (fun l => isEntry user l) = some line := by
        rw [hlines, List.find?_cons_of_pos (by simpa using he)]
      have hne : line ++ tail ≠ [] := by
        intro h0
        rw [(List.append_eq_nil_iff.mp h0).1, isEntry, List.prefix_nil] at he
        simp at he
      obtain ⟨fuel, rfl⟩ := Nat.exists_eq_succ_of_ne_zero (show fuel ≠ 0 from fun h0 => by
        rw [h0] at hfuel
        exact hne (List.length_eq_zero_iff.mp (Nat.le_zero.mp hfuel)))
      rw [hfind]
      refine ⟨fun h0 => by simp at h0, fun l hl => ?_⟩
      obtain rfl := Option.some.inj hl
      have hchunk := lineChunk_fgetsChunk h htail
      obtain ⟨rest, hloop⟩ := checkLoop_entry pass fuel buffer huser hne
        ((hchunk.isEntry_iff hlen).mpr he)
      exact ⟨h, _, rest, hchunk, hloop⟩
    · have hno : ∀ k, ¬ isEntry user (line.drop (255 * k)) := by
        intro k
        cases k with
        | zero => simpa using he
        | succ k => exact hfrag [] line lines (by simpa using hlines) (by simpa using he) k
      have hfind : (linesOf (line ++ tail)).find? (fun l => isEntry user l) =
          lines.find? (fun l => isEntry user l) := by
        rw [hlines, List.find?_cons_of_neg (by simpa using he)]
      obtain ⟨fuel', buffer', hfuel', hloop⟩ :=
        checkLoop_skip pass huser hlen line h htail hno buffer hfuel
      rw [hfind, hloop]
      rcases hrest with ⟨rfl, rfl⟩ | ⟨rest, rfl, rfl⟩
      · refine ⟨fun _ => ?_, fun l hl => by simp at hl⟩
        cases fuel' with
        | zero => rfl
        | succ fuel' => rw [checkLoop, fgets]; rfl
      · refine ih rest.length ?_ rest ?_ buffer' (by simpa using hfuel') rfl
        · rw [← hn, List.length_append, List.length_cons]
          omega
        · intro pre l post hsplit hpre
          refine hfrag (line :: pre) l post (by rw [hlines, hsplit]; rfl) ?_
          intro m hm
          rcases List.mem_cons.mp hm with rfl | hm
          · exact he
          · exact hpre m hm

/-! ## The password -/

/-- What stands behind a stopping character is not looked at. -/
theorem takeWhile_append_stop {p : UInt8 → Bool} {c : UInt8} (hc : p c = false) (l rest : Bytes) :
    (l ++ c :: rest).takeWhile p = l.takeWhile p := by
  induction l with
  | nil => simp [hc]
  | cons d l ih =>
      rw [List.cons_append, List.takeWhile_cons, List.takeWhile_cons, ih]

/-- An initial part of a text stops where the text stops, or at its own end. -/
theorem takeWhile_take (p : UInt8 → Bool) (n : ℕ) (l : Bytes) :
    (l.take n).takeWhile p = (l.takeWhile p).take n := by
  induction l generalizing n with
  | nil => simp
  | cons c l ih =>
      cases n with
      | zero => simp
      | succ n =>
          rw [List.take_succ_cons, List.takeWhile_cons, List.takeWhile_cons]
          split_ifs <;> simp [ih]

/-- Nothing in a plain password ends it. -/
theorem PlainPass.all (h : PlainPass pass) : ∀ c ∈ pass, (!endsPass c) = true := by
  obtain ⟨h58, h10, h13, h0⟩ := h
  intro c hc
  have hne : ∀ d, d ∉ pass → c ≠ d := fun d hd hcd => hd (hcd ▸ hc)
  simp [endsPass, hne 58 h58, hne 10 h10, hne 13 h13, hne 0 h0]

/-- The text that an ending character ends is the password. -/
theorem opensWith_iff (h : PlainPass pass) (text : Bytes) :
    (text.take pass.length == pass && endsPass (text.getD pass.length 0)) = true ↔
      text.takeWhile (!endsPass ·) = pass := by
  rw [Bool.and_eq_true, beq_iff_eq]
  constructor
  · rintro ⟨htake, hend⟩
    have hsplit : text = pass ++ text.drop pass.length := by
      conv_lhs => rw [← List.take_append_drop pass.length text, htake]
    rw [hsplit, List.takeWhile_append_of_pos h.all]
    cases hdrop : text.drop pass.length with
    | nil => simp
    | cons c rest =>
        have hc : text.getD pass.length 0 = c := by
          rw [hsplit, hdrop]
          simp [List.getD_eq_getElem?_getD]
        rw [List.takeWhile_cons, if_neg (by rw [← hc, hend]; decide), List.append_nil]
  · intro htext
    have hsplit : text = pass ++ text.dropWhile (!endsPass ·) := by
      conv_lhs => rw [← List.takeWhile_append_dropWhile (p := (!endsPass ·)) (l := text), htext]
    refine ⟨by conv_lhs => rw [hsplit, List.take_left], ?_⟩
    cases hdrop : text.dropWhile (!endsPass ·) with
    | nil =>
        rw [hdrop, List.append_nil] at hsplit
        rw [hsplit, List.getD_eq_default _ _ (le_refl _)]
        rfl
    | cons c rest =>
        have hc := List.head?_dropWhile_not (!endsPass ·) text
        rw [hdrop] at hc
        rw [hsplit, hdrop]
        simpa [List.getD_eq_getElem?_getD] using hc

/-- What stands in a line before the first ending character is the field up to its first NUL. -/
theorem takeWhile_field {body : Bytes} (h10 : 10 ∉ body) :
    body.takeWhile (!endsPass ·)
      = (body.takeWhile fun c => c ≠ 58 && c ≠ 13).takeWhile (· ≠ 0) := by
  induction body with
  | nil => rfl
  | cons c body ih =>
      have hc10 : c ≠ 10 := fun h => h10 (h ▸ List.mem_cons_self)
      have hrest := ih fun hm => h10 (List.mem_cons_of_mem _ hm)
      rw [List.takeWhile_cons, List.takeWhile_cons]
      by_cases hc : c = 58 ∨ c = 13
      · rcases hc with rfl | rfl <;> simp [endsPass]
      · have hc58 : c ≠ 58 := fun h => hc (.inl h)
        have hc13 : c ≠ 13 := fun h => hc (.inr h)
        have hfield : (decide (c ≠ 58) && decide (c ≠ 13)) = true := by simp [hc58, hc13]
        rw [hfield, if_pos rfl, List.takeWhile_cons]
        by_cases hc0 : c = 0
        · simp [hc0, endsPass]
        · rw [if_pos (by simp [endsPass, hc58, hc10, hc13, hc0]), if_pos (by simp [hc0]), hrest]

/-- **The comparison is that of the password field**, up to its first NUL. -/
theorem isPass_iff (hpass : PlainPass pass) (hlen : pass.length + user.length ≤ 252)
    {line chunk : Bytes} (rest : Bytes) (h10 : 10 ∉ line) (hentry : isEntry user line)
    (hchunk : LineChunk line chunk) :
    isPass user pass (chunk ++ [0] ++ rest) = true ↔
      (entryField user line).takeWhile (· ≠ 0) = pass := by
  obtain ⟨body, rfl⟩ := hentry
  have hhead : (user ++ [58]).length = user.length + 1 := by simp
  rw [entryField, drop_head]
  have hbody10 : 10 ∉ body := fun h => h10 (List.mem_append_right _ h)
  obtain ⟨behind, hbehind, hwhile⟩ : ∃ behind, chunk = user ++ [58] ++ behind ∧
      (behind.takeWhile (!endsPass ·) = body.takeWhile (!endsPass ·) ∨
        behind.takeWhile (!endsPass ·) =
          (body.takeWhile (!endsPass ·)).take (254 - user.length)) := by
    rcases hchunk.taken with ⟨-, rfl | rfl⟩ | ⟨hlong, rfl⟩
    · exact ⟨body ++ [10], by simp, .inl (takeWhile_append_stop (by decide) body [])⟩
    · exact ⟨body, rfl, .inl rfl⟩
    · refine ⟨body.take (254 - user.length), ?_, .inr (takeWhile_take _ _ _)⟩
      rw [List.take_append, hhead, List.take_of_length_le (by rw [hhead]; omega),
        show 255 - (user.length + 1) = 254 - user.length by omega]
  have hdrop : (chunk ++ [0] ++ rest).drop (user.length + 1) = behind ++ 0 :: rest := by
    rw [hbehind, List.append_assoc, List.append_assoc, drop_head]
    rfl
  have hget : (chunk ++ [0] ++ rest).getD (user.length + 1 + pass.length) 0 =
      (behind ++ 0 :: rest).getD pass.length 0 := by
    rw [← hdrop, List.getD_eq_getElem?_getD, List.getD_eq_getElem?_getD, List.getElem?_drop]
  rw [isPass, hget, hdrop, opensWith_iff hpass, takeWhile_append_stop (by decide) behind rest,
    ← takeWhile_field hbody10]
  rcases hwhile with h | h
  · rw [h]
  · rw [h]
    -- the chunk cuts off what is longer than the password only
    constructor
    · intro hcut
      have hshort := congrArg List.length hcut
      rw [List.length_take] at hshort
      rwa [List.take_of_length_le (by omega)] at hcut
    · intro hfull
      rw [hfull, List.take_of_length_le (by omega)]

/-- The user field of a line, for a user without a colon. -/
theorem userField_eq_some_iff (hcolon : 58 ∉ user) {line : Bytes} :
    userField line = some user ↔ isEntry user line := by
  have hall := all_ne_of_not_mem hcolon
  constructor
  · intro h
    rw [userField] at h
    split_ifs at h with hmem
    obtain ⟨pre, post, hsplit, hpre⟩ := List.eq_append_cons_of_mem hmem
    rw [hsplit, List.takeWhile_append_of_pos (all_ne_of_not_mem hpre)] at h
    obtain rfl : pre = user := by simpa using h
    exact ⟨post, by rw [hsplit]; simp⟩
  · rintro ⟨body, rfl⟩
    rw [userField, if_pos (by simp), List.append_assoc, List.takeWhile_append_of_pos hall]
    simp

/-- The password field of an entry is the one of its line. -/
theorem passField_of_entry (hcolon : 58 ∉ user) {line : Bytes} (h : isEntry user line) :
    passField line = entryField user line := by
  obtain ⟨body, rfl⟩ := h
  have hall := all_ne_of_not_mem hcolon
  rw [passField, entryField, drop_head, List.append_assoc, List.dropWhile_append_of_pos hall]
  simp

/-- **Plain credentials are checked against the lines.** -/
theorem checkpass_iff_listed (huser : 0 ∉ user) (hcolon : 58 ∉ user) (hpass : PlainPass pass)
    (hlen : pass.length + user.length ≤ 252) {file : Bytes} (hfile : EntryLines file user pass)
    (buffer : Bytes) :
    saslServerUserdbCheckpass (some file) buffer user pass = true ↔ Listed file user pass := by
  have hlong : ¬ pass.length + user.length > maxEntryLen - 4 := by
    simp only [maxEntryLen]
    omega
  have hfind : (fun l => decide (userField l = some user)) = fun l => decide (isEntry user l) := by
    funext l
    rw [decide_eq_decide]
    exact userField_eq_some_iff hcolon
  obtain ⟨hnone, hsome⟩ :=
    checkLoop_eq pass huser (by omega) file hfile.fragment buffer (le_refl _)
  rw [saslServerUserdbCheckpass, if_neg hlong, Listed, hfind]
  cases h : (linesOf file).find? fun l => decide (isEntry user l) with
  | none =>
      rw [hnone h]
      simp
  | some line =>
      obtain ⟨h10, chunk, rest, hchunk, hloop⟩ := hsome line h
      have hentry : isEntry user line := by simpa using List.find?_some h
      simp only [Option.map_some]
      rw [hloop, isPass_iff hpass hlen rest h10 hentry hchunk, passField_of_entry hcolon hentry,
        Option.some_inj]
      by_cases h0 : 0 ∈ entryField user line
      · exact ⟨fun heq => absurd heq (hfile.nul line h h0), fun heq => absurd (heq ▸ h0) hpass.2.2.2⟩
      · rw [List.takeWhile_eq_self_iff.mpr (all_ne_of_not_mem h0)]

/-! ## Credentials that are not plain -/

/-- What an accepting run has read. -/
theorem read_of_checkLoop {fuel : ℕ} {buffer file : Bytes}
    (h : checkLoop user pass fuel buffer file = true) :
    ∃ file' rest, isUser user (fgetsChunk file' ++ [0] ++ rest) = true ∧
      isPass user pass (fgetsChunk file' ++ [0] ++ rest) = true := by
  -- by induction on the calls of `fgets`
  induction fuel generalizing buffer file with
  | zero => simp [checkLoop] at h
  | succ fuel ih =>
      by_cases hne : file = []
      · rw [checkLoop, fgets, if_pos hne] at h
        simp at h
      · rw [checkLoop, fgets_of_chunk hne rfl] at h
        simp only at h
        split_ifs at h with hu
        · exact ⟨file, _, hu, h⟩
        · exact ih h

/-- A newline of a chunk is its last byte. -/
theorem fgetsChunk_split {file pre post : Bytes} (h : fgetsChunk file = pre ++ 10 :: post) :
    post = [] := by
  obtain ⟨line, e, hchunk, hline, he⟩ : ∃ line e, fgetsChunk file = line ++ e ∧ 10 ∉ line ∧
      (e = [] ∨ e = [10]) := by
    refine ⟨_, _, rfl, fun hm => ?_, ?_⟩
    · simpa using List.mem_takeWhile_imp hm
    · split_ifs
      · exact .inr rfl
      · exact .inl rfl
  rw [hchunk] at h
  have hnot : ∀ l : Bytes, line ≠ pre ++ 10 :: l := fun l hl => hline (by rw [hl]; simp)
  rcases List.append_eq_append_iff.mp h with ⟨l, -, hl⟩ | ⟨l, hl, hl'⟩
  · rcases he with rfl | rfl
    · exact absurd hl (by simp)
    · cases l with
      | nil => simpa using hl.symm
      | cons c l =>
          have := congrArg List.length hl
          simp at this
  · cases l with
    | nil =>
        rcases he with rfl | rfl
        · exact absurd hl' (by simp)
        · simpa using hl'
    | cons c l =>
        rw [List.cons_append, List.cons.injEq] at hl'
        exact absurd (hl'.1 ▸ hl) (hnot l)

/-- **Some passwords are never accepted.** -/
theorem not_accepted_of_neverRead (huser : 0 ∉ user) (h : NeverRead pass) (buffer file : Bytes) :
    saslServerUserdbCheckpass (some file) buffer user pass = false := by
  rw [Bool.eq_false_iff]
  intro haccept
  rw [saslServerUserdbCheckpass] at haccept
  split_ifs at haccept
  obtain ⟨file', rest, hu, hp⟩ := read_of_checkLoop haccept
  obtain ⟨pre, c, post, rfl, hpre, hc⟩ := h
  obtain ⟨behind, hbehind⟩ := (isEntry_buffer_iff huser).mp (isUser_iff.mp hu)
  rw [isPass, ← hbehind, List.append_assoc, List.append_assoc, drop_head,
    Bool.and_eq_true, beq_iff_eq] at hp
  have hprefix : pre ++ 10 :: c :: post <+: behind ++ ([0] ++ rest) := by
    rw [← hp.1]
    exact List.take_prefix _ _
  -- the password goes on behind the newline, the chunk ends there
  have hpre' : pre ++ [10] <+: behind ++ ([0] ++ rest) :=
    List.IsPrefix.trans ⟨c :: post, by simp⟩ hprefix
  rcases List.prefix_or_prefix_of_prefix hpre' (List.prefix_append behind ([0] ++ rest)) with h | h
  · obtain ⟨more, rfl⟩ := h
    have hchunk : fgetsChunk file' = (user ++ [58] ++ pre) ++ 10 :: more := by
      rw [← hbehind]
      simp
    rw [fgetsChunk_split hchunk] at hprefix
    simp only [List.append_nil, List.append_assoc, List.singleton_append,
      List.prefix_append_right_inj, List.cons_prefix_cons, true_and] at hprefix
    exact hc hprefix.1
  · obtain ⟨more, hmore⟩ := h
    have hzero : pre ++ [10] <+: behind ++ 0 :: rest := by simpa using hpre'
    rw [← hmore, List.prefix_append_right_inj] at hzero
    cases more with
    | nil =>
        rw [List.append_nil] at hmore
        have hchunk : fgetsChunk file' = (user ++ [58] ++ pre) ++ 10 :: [] := by
          rw [← hbehind, hmore]
          simp
        rw [hmore] at hprefix
        simp only [List.append_assoc, List.singleton_append, List.prefix_append_right_inj,
          List.cons_prefix_cons, true_and] at hprefix
        exact hc hprefix.1
    | cons d more =>
        rw [List.cons_prefix_cons] at hzero
        have hmem : (0 : UInt8) ∈ pre ++ [10] := by
          rw [← hmore, hzero.1]
          simp
        rcases List.mem_append.mp hmem with hmem | hmem
        · exact hpre hmem
        · exact absurd (List.mem_singleton.mp hmem) (by decide)

/-- No line has a newline. -/
theorem not_mem_of_mem_linesOf {file line : Bytes} (h : line ∈ linesOf file) : 10 ∉ line := by
  induction hn : file.length using Nat.strongRecOn generalizing file with
  | _ n ih =>
    rcases file_cases file with hf | ⟨l, rest, rfl, hl⟩
    · rw [linesOf_last hf, List.mem_singleton] at h
      rwa [h]
    · rw [linesOf_newline hl] at h
      rcases List.mem_cons.mp h with rfl | h
      · exact hl
      · refine ih rest.length ?_ h rfl
        rw [← hn, List.length_append, List.length_cons]
        omega

/-- A listed password is on a line, between its colons. -/
theorem listed_iff_exists {file : Bytes} : Listed file user pass ↔
    ∃ line, (linesOf file).find? (fun line => userField line = some user) = some line ∧
      passField line = pass := by
  rw [Listed, Option.map_eq_some_iff]

/-- What a line lists has none of the characters that end a field. -/
theorem plain_of_listed {file : Bytes} (h : Listed file user pass) :
    58 ∉ user ∧ 10 ∉ user ∧ 58 ∉ pass ∧ 10 ∉ pass ∧ 13 ∉ pass := by
  obtain ⟨line, hfind, rfl⟩ := listed_iff_exists.mp h
  have h10 := not_mem_of_mem_linesOf (List.mem_of_find?_eq_some hfind)
  have hfield : userField line = some user := by simpa using List.find?_some hfind
  rw [userField] at hfield
  split_ifs at hfield
  obtain rfl := Option.some.inj hfield
  have hmem : ∀ c ∈ passField line, c ≠ 58 ∧ c ≠ 13 ∧ c ∈ line := by
    intro c hc
    rw [passField] at hc
    have hp := List.mem_takeWhile_imp hc
    simp only [Bool.and_eq_true, decide_eq_true_eq] at hp
    exact ⟨hp.1, hp.2, (List.dropWhile_suffix _).mem
      (List.mem_of_mem_drop ((List.takeWhile_prefix _).mem hc))⟩
  refine ⟨fun hc => ?_, fun hc => h10 ((List.takeWhile_prefix _).mem hc), fun hc => (hmem _ hc).1 rfl,
    fun hc => h10 (hmem _ hc).2.2, fun hc => (hmem _ hc).2.1 rfl⟩
  simpa using List.mem_takeWhile_imp hc

/-- A file of one line, the entry of the user. -/
theorem one_entry (pass : Bytes) (huser : 0 ∉ user) {line e body : Bytes} (he : e = [] ∨ e = [10])
    (hline : line = user ++ [58] ++ body) (h10 : 10 ∉ line) (h0 : 0 ∉ body)
    (hlen : line.length < 255) (hpass : pass.length + user.length ≤ 252) (buffer : Bytes) :
    EntryLines (line ++ e) user pass ∧
      (∀ l, (linesOf (line ++ e)).find? (fun l => isEntry user l) = some l → 0 ∉ entryField user l) ∧
      saslServerUserdbCheckpass (some (line ++ e)) buffer user pass =
        isPass user pass (line ++ e ++ [0] ++ buffer.drop ((line ++ e).length + 1)) := by
  have hentry : isEntry user line := ⟨body, hline.symm⟩
  have hlines : ∃ lines, linesOf (line ++ e) = line :: lines := by
    rcases he with rfl | rfl
    · exact ⟨[], by rw [List.append_nil, linesOf_last h10]⟩
    · exact ⟨linesOf [], linesOf_newline h10⟩
  obtain ⟨lines, hlines⟩ := hlines
  have hchunk : fgetsChunk (line ++ e) = line ++ e := by
    rcases he with rfl | rfl
    · rw [List.append_nil, fgetsChunk_last h10 hlen]
    · exact fgetsChunk_newline h10 hlen
  have hne : line ++ e ≠ [] := by simp [hline]
  have hnul : ∀ l, (linesOf (line ++ e)).find? (fun l => isEntry user l) = some l →
      0 ∉ entryField user l := by
    intro l hl
    rw [hlines, List.find?_cons_of_pos (by simpa using hentry)] at hl
    rw [← Option.some.inj hl, hline, entryField, drop_head]
    exact fun hm => h0 ((List.takeWhile_prefix _).mem hm)
  refine ⟨⟨?_, fun l hl hm => absurd hm (hnul l hl)⟩, hnul, ?_⟩
  · intro pre l post hsplit hpre
    rw [hlines] at hsplit
    exfalso
    cases pre with
    | nil =>
        rw [List.nil_append, List.cons.injEq] at hsplit
        exact hpre l (by simp) (hsplit.1 ▸ hentry)
    | cons m pre =>
        rw [List.cons_append, List.cons.injEq] at hsplit
        exact hpre m (by simp) (hsplit.1 ▸ hentry)
  · obtain ⟨n, hn⟩ := Nat.exists_eq_succ_of_ne_zero (fun h => hne (List.length_eq_zero_iff.mp h))
    have hlong : ¬ pass.length + user.length > maxEntryLen - 4 := by
      simp only [maxEntryLen]
      omega
    have hu : isUser user (line ++ e ++ [0] ++ buffer.drop ((line ++ e).length + 1)) = true :=
      isUser_iff.mpr ((isEntry_buffer_iff huser).mpr (hentry.trans (List.prefix_append _ _)))
    rw [saslServerUserdbCheckpass, if_neg hlong]
    simp only [hn]
    rw [Nat.succ_eq_add_one, checkLoop, fgets_of_chunk hne hchunk]
    simp only [hn] at hu ⊢
    rw [if_pos hu]

/-- A password that an ending character follows in the buffer is accepted. -/
theorem isPass_of_fields {c : UInt8} (hc : endsPass c = true) {text : Bytes}
    (h : user ++ [58] ++ (pass ++ [c]) <+: text) : isPass user pass text = true := by
  obtain ⟨rest, rfl⟩ := h
  have hget : (user ++ [58] ++ (pass ++ [c]) ++ rest).getD (user.length + 1 + pass.length) 0 = c := by
    have hdrop : (user ++ [58] ++ (pass ++ [c]) ++ rest).drop (user.length + 1 + pass.length) =
        c :: rest := by
      rw [show user ++ [58] ++ (pass ++ [c]) ++ rest = (user ++ [58] ++ pass) ++ (c :: rest) by simp,
        List.drop_left' (by simp only [List.length_append, List.length_singleton])]
    rw [List.getD_eq_getElem?_getD, ← Nat.add_zero (user.length + 1 + pass.length),
      ← List.getElem?_drop, hdrop]
    rfl
  rw [isPass, hget, hc, List.append_assoc, drop_head, List.append_assoc, List.take_left]
  simp

/-- Every other password is accepted for some file, whose password field has no NUL. -/
theorem exists_accepted (huser : 0 ∉ user) (h10 : 10 ∉ user)
    (hlen : pass.length + user.length ≤ 252) (hread : ¬ NeverRead pass) :
    ∃ file buffer, buffer.length = maxEntryLen ∧ EntryLines file user pass ∧
      (∀ l, (linesOf file).find? (fun l => isEntry user l) = some l → 0 ∉ entryField user l) ∧
      saslServerUserdbCheckpass (some file) buffer user pass = true := by
  have hno10 : ∀ q : Bytes, 10 ∉ q → 10 ∉ user ++ [58] ++ q := by
    intro q hq
    simp only [List.mem_append, List.mem_singleton, not_or]
    exact ⟨⟨h10, by decide⟩, hq⟩
  -- the text before the first NUL has a newline at its end at most
  have hcut : ∀ p : Bytes, p <+: pass → 0 ∉ p → ∃ t e,
      p = t ++ e ∧ 10 ∉ t ∧ (e = [] ∨ e = [10]) := by
    intro p hp h0
    by_cases hm : 10 ∈ p
    · obtain ⟨t, r, hsplit, ht⟩ := List.eq_append_cons_of_mem hm
      cases r with
      | nil => exact ⟨t, [10], hsplit, ht, .inr rfl⟩
      | cons c r =>
          obtain ⟨more, hmore⟩ := hp
          refine absurd ⟨t, c, r ++ more, ?_, ?_, ?_⟩ hread
          · rw [← hmore, hsplit]
            simp
          · exact fun h => h0 (by rw [hsplit]; simp [h])
          · rintro rfl
            exact h0 (by rw [hsplit]; simp)
    · exact ⟨p, [], by simp, hm, .inl rfl⟩
  by_cases h0 : 0 ∈ pass
  · obtain ⟨p, q, hsplit, hp⟩ := List.eq_append_cons_of_mem h0
    obtain ⟨t, e, rfl, ht, he⟩ := hcut p ⟨0 :: q, hsplit.symm⟩ hp
    have hlenpass : pass.length = t.length + e.length + 1 + q.length := by
      rw [hsplit]
      simp only [List.length_append, List.length_cons]
      omega
    have helen : e.length ≤ 1 := by rcases he with rfl | rfl <;> simp
    have hfilelen : (user ++ [58] ++ t ++ e).length = user.length + 1 + t.length + e.length := by
      simp only [List.length_append, List.length_singleton]
    -- the rest of the password is left over in the buffer
    refine ⟨user ++ [58] ++ t ++ e,
      List.replicate ((user ++ [58] ++ t ++ e).length + 1) 0 ++ (q ++ 58 ::
        List.replicate (254 - user.length - pass.length) 0), ?_, ?_⟩
    · simp only [List.length_append, List.length_replicate, List.length_cons, maxEntryLen,
        List.length_nil]
      omega
    · obtain ⟨hentry, hnul, hcheck⟩ := one_entry pass huser he rfl (hno10 t ht)
        (fun h => hp (List.mem_append_left _ h)) (by simp only [List.length_append, List.length_singleton]; omega)
        hlen (List.replicate ((user ++ [58] ++ t ++ e).length + 1) 0 ++ (q ++ 58 ::
          List.replicate (254 - user.length - pass.length) 0))
      refine ⟨hentry, hnul, hcheck.trans (isPass_of_fields (c := 58) (by decide) ?_)⟩
      rw [List.drop_left' List.length_replicate, hsplit]
      exact ⟨List.replicate (254 - user.length - pass.length) 0, by simp [hsplit]⟩
  · obtain ⟨t, e, hsplit, ht, he⟩ := hcut pass (List.prefix_refl _) h0
    have hp0 : 0 ∉ t := fun h => h0 (by rw [hsplit]; exact List.mem_append_left _ h)
    have hlenpass : pass.length = t.length + e.length := by
      rw [hsplit, List.length_append]
    obtain ⟨hentry, hnul, hcheck⟩ := one_entry pass huser (.inr rfl) rfl (hno10 t ht) hp0
      (by simp only [List.length_append, List.length_singleton]; omega) hlen
      (List.replicate 256 0)
    refine ⟨user ++ [58] ++ t ++ [10], List.replicate 256 0, List.length_replicate, hentry, hnul,
      hcheck.trans ?_⟩
    generalize (List.replicate 256 (0 : UInt8)).drop ((user ++ [58] ++ t ++ [10]).length + 1) = rest
    rcases he with rfl | rfl
    · exact isPass_of_fields (c := 10) (by decide) ⟨[0] ++ rest, by simp [hsplit]⟩
    · exact isPass_of_fields (c := 0) (by decide) ⟨rest, by simp [hsplit]⟩

/-- A user with a newline in it is never found. -/
theorem not_accepted_of_newline (huser : 0 ∉ user) (h10 : 10 ∈ user) (buffer file : Bytes) :
    saslServerUserdbCheckpass (some file) buffer user pass = false := by
  rw [Bool.eq_false_iff]
  intro haccept
  rw [saslServerUserdbCheckpass] at haccept
  split_ifs at haccept
  obtain ⟨file', rest, hu, -⟩ := read_of_checkLoop haccept
  obtain ⟨behind, hbehind⟩ := (isEntry_buffer_iff huser).mp (isUser_iff.mp hu)
  obtain ⟨pre, post, rfl, -⟩ := List.eq_append_cons_of_mem h10
  have hchunk : fgetsChunk file' = pre ++ 10 :: (post ++ 58 :: behind) := by
    rw [← hbehind]
    simp
  exact absurd (fgetsChunk_split hchunk) (by simp)

end

/-- **The check accepts what the file lists**, on every file whose first entry of the user is a line
and does not have the password before a NUL, where neither the user nor the password has one of the characters that end a field, or where nothing
that a buffer holds could match them. -/
theorem checkpass_iff (user pass : Bytes) (huser : 0 ∉ user)
    (hlen : pass.length + user.length ≤ maxEntryLen - 4) :
    (∀ file buffer, buffer.length = maxEntryLen → EntryLines file user pass →
      (saslServerUserdbCheckpass (some file) buffer user pass = true ↔ Listed file user pass)) ↔
      (58 ∉ user ∧ PlainPass pass) ∨ 10 ∈ user ∨ NeverRead pass := by
  have hlen' : pass.length + user.length ≤ 252 := hlen
  constructor
  · intro h
    by_cases h10 : 10 ∈ user
    · exact .inr (.inl h10)
    by_cases hread : NeverRead pass
    · exact .inr (.inr hread)
    -- some file makes the check accept, so it must list the password
    obtain ⟨file, buffer, hbuffer, hentry, hnul, haccept⟩ := exists_accepted huser h10 hlen' hread
    have hlisted := (h file buffer hbuffer hentry).mp haccept
    obtain ⟨hcolon, -, h58, hp10, h13⟩ := plain_of_listed hlisted
    refine .inl ⟨hcolon, h58, hp10, h13, ?_⟩
    obtain ⟨line, hfind, rfl⟩ := listed_iff_exists.mp hlisted
    have hsame : (fun l => decide (userField l = some user)) = fun l => decide (isEntry user l) := by
      funext l
      rw [decide_eq_decide]
      exact userField_eq_some_iff hcolon
    rw [hsame] at hfind
    rw [passField_of_entry hcolon (by simpa using List.find?_some hfind)]
    exact hnul line hfind
  · rintro (⟨hcolon, hpass⟩ | h10 | hread) file buffer - hentry
    · exact checkpass_iff_listed huser hcolon hpass hlen' hentry buffer
    · rw [not_accepted_of_newline huser h10]
      exact ⟨fun h => absurd h (by decide), fun h => absurd h10 (plain_of_listed h).2.1⟩
    · rw [not_accepted_of_neverRead huser hread]
      refine ⟨fun h => absurd h (by decide), fun h => ?_⟩
      obtain ⟨pre, c, post, rfl, -, -⟩ := hread
      exact absurd (show 10 ∈ pre ++ 10 :: c :: post by simp) (plain_of_listed h).2.2.2.1

/-- The user `u` with the password `p`. -/
theorem checkpass_iff_plain :
    saslServerUserdbCheckpass (some [117, 58, 112, 10]) (List.replicate 256 0) [117] [112] = true ∧
      Listed [117, 58, 112, 10] [117] [112] := by
  have hentry : EntryLines ([117, 58, 112] ++ [10]) [117] [112] :=
    (one_entry [112] (by decide) (.inr rfl) (show [117, 58, 112] = [117] ++ [58] ++ [112] from rfl)
      (by decide) (by decide) (by decide) (by decide) []).1
  have hall := (checkpass_iff [117] [112] (by decide) (by decide)).mpr
    (.inl ⟨by decide, by decide, by decide, by decide, by decide⟩)
  have hiff := hall [117, 58, 112, 10] (List.replicate 256 0) List.length_replicate hentry
  have haccept : saslServerUserdbCheckpass (some [117, 58, 112, 10]) (List.replicate 256 0) [117] [112] =
      true := by decide +kernel
  exact ⟨haccept, hiff.mp haccept⟩

/-- Accepted without being listed: the credentials of no line but of the rest of an over-long one, a
user with a colon, and a password that ends in a newline. -/
theorem checkpass_unlisted :
    (saslServerUserdbCheckpass (some (List.replicate 255 120 ++ [117, 58, 112, 10]))
        (List.replicate 256 0) [117] [112] = true ∧
      ¬ Listed (List.replicate 255 120 ++ [117, 58, 112, 10]) [117] [112]) ∧
    (saslServerUserdbCheckpass (some [97, 58, 98, 58, 99, 10]) (List.replicate 256 0) [97, 58, 98] [99] =
        true ∧
      ¬ Listed [97, 58, 98, 58, 99, 10] [97, 58, 98] [99]) ∧
    (saslServerUserdbCheckpass (some [117, 58, 112, 10]) (List.replicate 256 0) [117] [112, 10] = true ∧
      ¬ Listed [117, 58, 112, 10] [117] [112, 10]) := by
  refine ⟨⟨by decide +kernel, fun h => ?_⟩, ⟨by decide +kernel, fun h => ?_⟩, by decide +kernel,
    fun h => ?_⟩
  · unfold Listed at h
    exact absurd h (by decide +kernel)
  · exact (plain_of_listed h).1 (by decide)
  · exact (plain_of_listed h).2.2.2.1 (by decide)

end Memcached
