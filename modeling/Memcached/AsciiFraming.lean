import Memcached.BinaryFraming

/-! # Framing of ASCII storage commands

A pipelined stream of storage commands, each a command line and a data block. Whether the block of
a refused command is thrown away depends on a state that the connection may never enter.

* **`StorageRequest`** — a request as a client writes it.
* **`Machine.Frames`** — every line is taken as one and every block as data.
* **`frames_iff`**, **`frames_fails`** — when a stream is taken so. -/

namespace Memcached

open CNumber (Bytes Denotes)
open Transition (Until)

/-! ## Requests -/

/-- A **well-formed storage request**: a command line with the tokens of a storage command, numbers
in range, and a data block of the length it announces. -/
structure StorageRequest where
  /-- The command line, without CR and LF. -/
  line : Bytes
  word : Bytes
  key : Bytes
  flags : Bytes
  exptime : Bytes
  bytes : Bytes
  /-- The CAS id of a `cas`. -/
  cas : Option Bytes
  noreply : Bool
  /-- The data block, without CR and LF. -/
  data : Bytes
  newline_notMem : 10 ∉ line
  length_lt : line.length < 1024
  tokens_eq : (tokenizeCommand line).1 = [word, key, flags, exptime, bytes] ++ cas.toList ++
    if noreply then [ascii "noreply"] else []
  word_eq : if cas.isSome then word = ascii "cas" else (storageWord word).isSome
  key_le : key.length ≤ keyMaxLength
  flags_eq : ∃ v, Denotes flags v ∧ 0 ≤ v ∧ v < 2 ^ 32
  exptime_eq : ∃ v, Denotes exptime v ∧ -2 ^ 31 ≤ v ∧ v < 2 ^ 31
  bytes_eq : Denotes bytes data.length
  bytes_lt : data.length < 2 ^ 31
  cas_eq : ∀ t ∈ cas, ∃ v, Denotes t v ∧ 0 ≤ v ∧ v < 2 ^ 64

namespace StorageRequest

variable (r : StorageRequest)

/-- The data block with its CR and LF. -/
def block : Bytes := r.data ++ crlf

/-- The bytes of the request. -/
def wire : Bytes := r.line ++ crlf ++ r.block

/-- The flags, as an `int`. -/
def flagsInt : ℤ := CNumber.toInt32 ((CNumber.safeStrtoul r.flags).getD 0)

/-- The data block fits an `int` with its CR and LF. -/
def Fits : Prop := r.data.length + 2 < 2 ^ 31

instance : Decidable r.Fits := inferInstanceAs (Decidable (_ < _))

/-- What `item_alloc` answers. -/
def answer (a : Answers) (log : List ConnEvent) : AllocAnswer :=
  a.alloc log r.key.length r.flagsInt (r.block.length : ℕ)

/-- What the connection does with the request when it keeps to its frame. -/
def events (a : Answers) (log : List ConnEvent) : List ConnEvent :=
  [.line r.line, if r.answer a log = .ok then .data r.block else .skipped r.block]

/-- The request keeps to its frame: its block fits, and it is given an item if it wants no reply. -/
def Framed (a : Answers) (log : List ConnEvent) : Prop :=
  r.Fits ∧ (r.noreply = true → r.answer a log = .ok)

end StorageRequest

/-- **The exact condition**: no block is as long as an `int` can say, and no request without a reply
is refused an item. -/
def FramedAll (a : Answers) : List ConnEvent → List StorageRequest → Prop
  | _, [] => True
  | log, r :: rs => r.Framed a log ∧ FramedAll a (log ++ r.events a log) rs

/-- What is taken of the stream in one piece. -/
inductive Frame
  | command (line : Bytes)
  | block (bytes : Bytes)
  deriving DecidableEq, Repr

/-- What an event takes of an ASCII stream. -/
def ConnEvent.frame : ConnEvent → Option Frame
  | .line l => some (.command l)
  | .data b => some (.block b)
  | .skipped b => some (.block b)
  | _ => none

/-- What the connection has taken of the stream. -/
def frames (log : List ConnEvent) : List Frame := log.filterMap ConnEvent.frame

/-- The frames of a request. -/
def StorageRequest.frames (r : StorageRequest) : List Frame := [.command r.line, .block r.block]

/-- The connection goes on as long as it can. -/
def Machine.Settles (st : ConnSettings) (a : Answers) : Machine → Machine → Prop :=
  Until (Machine.drive st a) fun m => m.drive st a = none

/-- **The property of a stream**: all is taken, every command line as one and every data block as
one. -/
def Machine.Frames (st : ConnSettings) (a : Answers) (m : Machine) (fs : List Frame) : Prop :=
  ∃ m', m.Settles st a m' ∧ m'.input = [] ∧ frames m'.log = frames m.log ++ fs

variable {st : ConnSettings} {a : Answers} {m m' m'' : Machine} {c : Connection} {rest : Bytes}
  {log : List ConnEvent} {r : StorageRequest}

/-! ## Runs -/

/-- A step on the way to rest does not change where the connection rests. -/
theorem settles_of_drive (e : m.drive st a = some m') : m.Settles st a m'' ↔ m'.Settles st a m'' := by
  constructor
  · intro h
    cases h with
    | stop h => exact absurd (h.symm.trans e) (by simp)
    | step _ e' ht =>
        obtain rfl := Option.some.inj (e.symm.trans e')
        exact ht
  · exact fun h => .step (by simp [e]) e h

/-- What has been done is not undone. -/
theorem log_prefix_drive (e : m.drive st a = some m') : m.log <+: m'.log := by
  rw [Machine.drive] at e
  split at e
  · split at e
    · exact absurd e (by simp)
    · obtain rfl := Option.some.inj e
      exact List.prefix_refl _
  · simp only [Machine.tryReadCommand] at e
    split at e
    · split at e
      · exact absurd e (by simp)
      · obtain rfl := Option.some.inj e
        exact List.prefix_append _ _
    · split at e
      · obtain rfl := Option.some.inj e
        exact List.prefix_append _ _
      · exact absurd e (by simp)
  · simp only [Machine.nread] at e
    split at e
    · obtain rfl := Option.some.inj e
      exact List.prefix_append _ _
    · split at e
      · obtain rfl := Option.some.inj e
        exact List.prefix_refl _
      · split at e
        · exact absurd e (by simp)
        · obtain rfl := Option.some.inj e
          exact List.prefix_refl _
  · simp only [Machine.swallow] at e
    split at e
    · obtain rfl := Option.some.inj e
      exact List.prefix_append _ _
    · split at e
      · exact absurd e (by simp)
      · obtain rfl := Option.some.inj e
        exact List.prefix_refl _
  · obtain rfl := Option.some.inj e
    exact List.prefix_refl _
  · obtain rfl := Option.some.inj e
    exact List.prefix_refl _
  all_goals exact absurd e (by simp)

/-- What is logged stays logged. -/
theorem log_prefix (h : m.Settles st a m') : m.log <+: m'.log := by
  induction h with
  | stop => exact List.prefix_refl _
  | step _ e _ ih => exact (log_prefix_drive e).trans ih

/-! ## Command lines -/

/-- The first token starts with what has been read of it. -/
theorem tokenizeFrom_prefix (left : ℕ) {tok : Bytes} (htok : tok ≠ []) (l : Bytes) :
    ∃ t ts, (tokenizeFrom left tok l).1 = t :: ts ∧ tok <+: t := by
  induction l generalizing tok with
  | nil => exact ⟨tok, [], by simp [tokenizeFrom, htok], List.prefix_refl _⟩
  | cons b l ih =>
      rw [tokenizeFrom]
      split
      · obtain ⟨t, ts, e, hp⟩ := ih (by simp : tok ++ [b] ≠ [])
        exact ⟨t, ts, e, (List.prefix_append _ _).trans hp⟩
      · split
        · exact ⟨tok, [], rfl, List.prefix_refl _⟩
        · exact ⟨tok, _, rfl, List.prefix_refl _⟩

/-- The words of the storage commands. -/
theorem storageWord_cases {word : Bytes} {comm : Comm} (h : storageWord word = some comm) :
    word = ascii "add" ∨ word = ascii "set" ∨ word = ascii "replace" ∨ word = ascii "prepend" ∨
      word = ascii "append" := by
  rw [storageWord] at h
  split at h
  · exact Or.inl ‹_›
  split at h
  · exact Or.inr (Or.inl ‹_›)
  split at h
  · exact Or.inr (Or.inr (Or.inl ‹_›))
  split at h
  · exact Or.inr (Or.inr (Or.inr (Or.inl ‹_›)))
  split at h
  · exact Or.inr (Or.inr (Or.inr (Or.inr ‹_›)))
  · exact absurd h (by simp)

namespace StorageRequest

variable (r)

/-- A command line is not empty. -/
theorem line_ne_nil : r.line ≠ [] := by
  intro h
  have ht := r.tokens_eq
  rw [h] at ht
  simp [tokenizeCommand, tokenizeFrom] at ht

/-- A command line is no binary header. -/
theorem head_line : r.line.headD 0 ≠ binaryReq := by
  obtain ⟨b, l, hl⟩ := List.exists_cons_of_ne_nil r.line_ne_nil
  rw [hl, List.headD_cons]
  rintro rfl
  have ht := r.tokens_eq
  rw [hl, tokenizeCommand, List.takeWhile_cons_of_pos (by decide), tokenizeFrom,
    if_pos (by decide)] at ht
  obtain ⟨t, ts, e, hp⟩ := tokenizeFrom_prefix (maxTokens - 1)
    (by simp : ([] : Bytes) ++ [binaryReq] ≠ []) (l.takeWhile (· ≠ 0))
  rw [e] at ht
  obtain ⟨rfl, -⟩ := List.cons.inj ht
  obtain ⟨u, hu⟩ := hp
  have hhead : r.word.head? = some binaryReq := by rw [← hu]; rfl
  have hne : ∀ w : Bytes, w.head? ≠ some binaryReq → r.word ≠ w := by
    rintro w hw rfl
    exact hw hhead
  have hw := r.word_eq
  split at hw
  · exact hne _ (by decide) hw
  · obtain ⟨comm, hcomm⟩ := Option.isSome_iff_exists.mp hw
    rcases storageWord_cases hcomm with h | h | h | h | h <;> exact hne _ (by decide) h

/-- A number is not the word that asks for no reply. -/
theorem ne_noreply {t : Bytes} {v : ℤ} (h : Denotes t v) : t ≠ ascii "noreply" := by
  rintro rfl
  obtain ⟨n, hn, -⟩ := h
  have hnone : CNumber.scanNumeral (ascii "noreply") = none := by decide
  exact absurd (hnone.symm.trans hn) (by simp)

/-- `noreply` is the last token iff the request asks for no reply. -/
theorem getLast_tokens :
    (tokenizeCommand r.line).1.getLast? = some (ascii "noreply") ↔ r.noreply = true := by
  rw [r.tokens_eq]
  cases hno : r.noreply with
  | true => rw [if_pos rfl, List.getLast?_append]; simp
  | false =>
      have hbytes := ne_noreply r.bytes_eq
      cases hcas : r.cas with
      | none => simpa using hbytes
      | some t =>
          obtain ⟨v, hv, -⟩ := r.cas_eq t hcas
          simpa using ne_noreply hv

/-- The word of a storage command is not that of a retrieval. -/
theorem getCommand_word (n : ℕ) : getCommand n r.word = false := by
  have hw := r.word_eq
  have hfalse : (r.word == ascii "get" || r.word == ascii "bget" || r.word == ascii "gets")
      = false := by
    split at hw
    · rw [hw]
      decide
    · obtain ⟨comm, hcomm⟩ := Option.isSome_iff_exists.mp hw
      rcases storageWord_cases hcomm with h | h | h | h | h <;> rw [h] <;> decide
  rw [getCommand, hfalse, Bool.and_false]

/-- The line is taken for an update, with a CAS id iff it has one. -/
theorem updateCommand_tokens : ∃ comm,
    updateCommand ((tokenizeCommand r.line).1.length + 1) r.word = some (comm, r.cas.isSome) := by
  have hw := r.word_eq
  rw [r.tokens_eq, updateCommand]
  cases hcas : r.cas with
  | none =>
      rw [hcas, if_neg (by simp)] at hw
      obtain ⟨comm, hcomm⟩ := Option.isSome_iff_exists.mp hw
      refine ⟨comm, ?_⟩
      rw [if_pos (by cases r.noreply <;> simp), hcomm]
      rfl
  | some t =>
      rw [hcas, if_pos (by simp)] at hw
      refine ⟨.cas, ?_⟩
      have hnone : storageWord (ascii "cas") = none := by decide
      rw [hw, hnone, ite_self]
      simp only
      rw [if_pos ⟨by cases r.noreply <;> simp, trivial⟩]
      rfl

/-- The numbers of the command line are read. -/
theorem read_numbers : ∃ flags exptime,
    CNumber.safeStrtoul r.flags = some flags ∧ r.flagsInt = CNumber.toInt32 flags ∧
      CNumber.safeStrtol r.exptime = some exptime ∧
      CNumber.safeStrtol r.bytes = some (r.data.length : ℤ) ∧
      ∀ t ∈ r.cas, CNumber.safeStrtoull t ≠ none := by
  obtain ⟨v, hv, h₀, h₁⟩ := r.flags_eq
  obtain ⟨e, he, h₂, h₃⟩ := r.exptime_eq
  have hbytes := r.bytes_lt
  refine ⟨v.toNat, e, CNumber.safeStrtoul_of_denotes hv h₀ h₁, ?_,
    CNumber.safeStrtol_of_denotes he h₂ h₃,
    CNumber.safeStrtol_of_denotes r.bytes_eq (by omega) (by omega), fun t ht => ?_⟩
  · rw [flagsInt, CNumber.safeStrtoul_of_denotes hv h₀ h₁]
    rfl
  · obtain ⟨w, hw, h₄, h₅⟩ := r.cas_eq t ht
    simp [CNumber.safeStrtoull_of_denotes hw h₄ h₅]

/-- **What `process_command` makes of the command line.** -/
theorem processCommand_line (hc : c.noreply = false) : c.processCommand st a log r.line =
    if r.Fits then
      match r.answer a log with
      | .ok => { c with
          noreply := r.noreply, rlbytes := (r.block.length : ℕ), received := [], state := .nread }
      | _ => { { c with noreply := r.noreply }.outString with
          writeAndGo := .swallow, sbytes := r.block.length }
    else { c with noreply := r.noreply }.outString := by
  obtain ⟨comm, hcomm⟩ := r.updateCommand_tokens
  obtain ⟨flags, exptime, hflags, hint, hexp, hlen, hcas⟩ := r.read_numbers
  have hword : (tokenizeCommand r.line).1.headD [] = r.word := by rw [r.tokens_eq]; rfl
  have hd : c.setNoreplyMaybe (tokenizeCommand r.line).1 = { c with noreply := r.noreply } := by
    rw [Connection.setNoreplyMaybe]
    split
    · rename_i h
      rw [(r.getLast_tokens).mp h]
    · rename_i h
      rw [r.getLast_tokens, Bool.not_eq_true] at h
      rw [h, ← hc]
  have hkey : (tokenizeCommand r.line).1.getD 1 [] = r.key := by rw [r.tokens_eq]; rfl
  have hflagsTok : (tokenizeCommand r.line).1.getD 2 [] = r.flags := by rw [r.tokens_eq]; rfl
  have hexpTok : (tokenizeCommand r.line).1.getD 3 [] = r.exptime := by rw [r.tokens_eq]; rfl
  have hbytesTok : (tokenizeCommand r.line).1.getD 4 [] = r.bytes := by rw [r.tokens_eq]; rfl
  have hcasTok : ¬ (r.cas.isSome = true ∧
      CNumber.safeStrtoull ((tokenizeCommand r.line).1.getD 5 []) = none) := by
    rintro ⟨hsome, hnone⟩
    obtain ⟨t, ht⟩ := Option.isSome_iff_exists.mp hsome
    refine hcas t ht ?_
    rw [← hnone, r.tokens_eq, ht]
    rfl
  have hblock : (r.block.length : ℤ) = r.data.length + 2 := by simp [block, crlf]
  have hlt := r.bytes_lt
  simp only [Connection.processCommand, hword, r.getCommand_word, hcomm,
    Connection.processUpdateCommand, hd, hkey, hflagsTok, hexpTok, hbytesTok, hflags, hexp, hlen,
    if_neg hcasTok, Bool.false_eq_true, if_false, gt_iff_lt, if_neg (not_lt.mpr r.key_le),
    ← hblock, ← hint]
  by_cases hfit : r.Fits
  · have hv : CNumber.toInt32 (r.block.length : ℤ) = (r.block.length : ℕ) := by
      rw [hblock]
      exact CNumber.toInt32_of_bounds (by omega) (by rw [Fits] at hfit; omega)
    rw [if_pos hfit, hv, if_neg (by omega), answer]
    rfl
  · have hv : CNumber.toInt32 (r.block.length : ℤ) < 0 := by
      rw [hblock, CNumber.toInt32, Int.bmod_def]
      rw [Fits] at hfit
      omega
    rw [if_neg hfit, if_pos (Or.inl hv)]

/-- The command line is read up to its newline. -/
theorem takeWhile_wire : (r.wire ++ rest).takeWhile (· ≠ 10) = r.line ++ [13] ∧
    (r.wire ++ rest).drop ((r.line ++ [13]).length + 1) = r.block ++ rest := by
  have hsplit : r.wire ++ rest = (r.line ++ [13]) ++ 10 :: (r.block ++ rest) := by
    simp [wire, crlf]
  have hline : ∀ b ∈ r.line ++ [13], (b ≠ 10) = true := by
    intro b hb
    simp only [eq_iff_iff, iff_true]
    rintro rfl
    rcases List.mem_append.mp hb with h | h
    · exact r.newline_notMem h
    · exact absurd h (by decide)
  constructor
  · rw [hsplit, List.takeWhile_append_of_pos (by simpa using hline)]
    simp
  · rw [hsplit, ← List.drop_drop, List.drop_left, List.drop_one, List.tail_cons]

/-- The carriage return is not part of the line. -/
theorem stripCr_line : stripCr (r.line ++ [13]) = r.line := by
  have h := List.length_pos_iff.mpr r.line_ne_nil
  rw [stripCr, if_pos ⟨by rw [List.length_append, List.length_singleton]; omega, by simp⟩,
    List.dropLast_concat]

end StorageRequest

/-! ## A request -/

/-- A TCP connection that is ready for an ASCII command. -/
structure Connection.Ready (c : Connection) : Prop where
  state : c.state = .newCmd
  transport : c.transport = .tcp
  noreply : c.noreply = false
  protocol : c.protocol = .ascii ∨ c.protocol = .negotiating

/-- The connection that has read a command line. -/
def Connection.atLine (c : Connection) : Connection :=
  { c.resetCmd with state := .parseCmd, protocol := .ascii }

/-- The command line is read and handed to `process_command`. -/
theorem settles_line (hc : c.Ready) : Machine.Settles st a ⟨c, r.wire ++ rest, log⟩ m'' ↔
    Machine.Settles st a ⟨c.atLine.processCommand st a log r.line, r.block ++ rest,
      log ++ [.line r.line]⟩ m'' := by
  have hne : r.wire ++ rest ≠ [] := by
    simp [StorageRequest.wire, r.line_ne_nil]
  have e₁ : Machine.drive st a ⟨c, r.wire ++ rest, log⟩ =
      some ⟨{ c.resetCmd with state := .parseCmd }, r.wire ++ rest, log⟩ := by
    simp only [Machine.drive, hc.state, if_neg hne]
  have hfirst : ({ c.resetCmd with state := .parseCmd } : Connection).firstByte (r.wire ++ rest)
      ≠ binaryReq := by
    rw [Connection.firstByte, if_neg (by simp [Connection.resetCmd, hc.transport])]
    obtain ⟨b, l, hl⟩ := List.exists_cons_of_ne_nil r.line_ne_nil
    have h := r.head_line
    rw [hl] at h
    simpa [StorageRequest.wire, hl] using h
  have hneg : ({ c.resetCmd with state := .parseCmd } : Connection).negotiate
      (({ c.resetCmd with state := .parseCmd } : Connection).firstByte (r.wire ++ rest))
      = c.atLine := by
    rw [Connection.negotiate, if_neg hfirst, Connection.atLine]
    rcases hc.protocol with h | h
    · rw [if_neg (by simp [Connection.resetCmd, hc.transport, h]), Connection.resetCmd, h]
    · rw [if_pos (by simp [Connection.resetCmd, h])]
  have hmem : (10 : UInt8) ∈ r.wire ++ rest := by simp [StorageRequest.wire, crlf]
  have e₂ : Machine.drive st a ⟨{ c.resetCmd with state := .parseCmd }, r.wire ++ rest, log⟩ =
      some ⟨c.atLine.processCommand st a log r.line, r.block ++ rest, log ++ [.line r.line]⟩ := by
    simp only [Machine.drive, Machine.tryReadCommand, hneg]
    rw [if_neg (by simp [Connection.atLine]), if_pos hmem, r.takeWhile_wire.1, r.takeWhile_wire.2,
      r.stripCr_line]
  rw [settles_of_drive e₁, settles_of_drive e₂]

variable (st a) in
/-- An answer makes the connection ready for the next command. -/
theorem settles_outString (hp : c.protocol = .ascii) (ht : c.transport = .tcp) :
    ∃ d : Connection, d.Ready ∧ d.protocol = .ascii ∧ ∀ input log m'',
      Machine.Settles st a ⟨c.outString, input, log⟩ m'' ↔
        Machine.Settles st a ⟨d, input, log⟩ m'' := by
  rw [Connection.outString]
  split
  · exact ⟨{ c with noreply := false, state := .newCmd }, ⟨rfl, ht, rfl, Or.inl hp⟩, hp,
      fun _ _ _ => Iff.rfl⟩
  · rename_i hno
    refine ⟨{ c with state := .newCmd, writeAndGo := .newCmd, received := [] },
      ⟨rfl, ht, by simpa using hno, Or.inl hp⟩, hp, fun input log m'' => settles_of_drive ?_⟩
    simp [Machine.drive, Connection.afterWrite]

/-- A data block is read. -/
theorem settles_nread {block : Bytes} (hblock : block ≠ []) (hst : c.state = .nread)
    (hp : c.protocol = .ascii) (hr : c.rlbytes = (block.length : ℕ)) (hrec : c.received = []) :
    Machine.Settles st a ⟨c, block ++ rest, log⟩ m'' ↔ Machine.Settles st a
      ⟨{ c with rlbytes := 0, received := block }.outString, rest, log ++ [.data block]⟩ m'' := by
  have hpos := List.length_pos_iff.mpr hblock
  have e₁ : Machine.drive st a ⟨c, block ++ rest, log⟩ =
      some ⟨{ c with rlbytes := 0, received := block }, rest, log⟩ := by
    simp only [Machine.drive, hst, Machine.nread, hr, hrec, Int.toNat_natCast]
    rw [if_neg (by omega), if_neg (by omega), if_neg (by simp)]
    simp
  have e₂ : Machine.drive st a ⟨{ c with rlbytes := 0, received := block }, rest, log⟩ =
      some ⟨{ c with rlbytes := 0, received := block }.outString, rest, log ++ [.data block]⟩ := by
    simp [Machine.drive, hst, Machine.nread, Connection.completeNread, hp]
  rw [settles_of_drive e₁, settles_of_drive e₂]

/-- A data block is thrown away. -/
theorem settles_swallow {block : Bytes} (hblock : block ≠ []) (hst : c.state = .write)
    (hgo : c.writeAndGo = .swallow) (hs : c.sbytes = block.length) :
    Machine.Settles st a ⟨c, block ++ rest, log⟩ m'' ↔ Machine.Settles st a
      ⟨{ c with state := .newCmd, sbytes := 0, received := block }, rest,
        log ++ [.skipped block]⟩ m'' := by
  have hpos := List.length_pos_iff.mpr hblock
  have e₁ : Machine.drive st a ⟨c, block ++ rest, log⟩ =
      some ⟨{ c with state := .swallow, received := [] }, block ++ rest, log⟩ := by
    simp [Machine.drive, hst, Connection.afterWrite, hgo]
  have e₂ : Machine.drive st a ⟨{ c with state := .swallow, received := [] }, block ++ rest, log⟩ =
      some ⟨{ c with state := .swallow, sbytes := 0, received := block }, rest, log⟩ := by
    simp only [Machine.drive, Machine.swallow, hs]
    rw [if_neg (by omega), if_neg (by simp)]
    simp
  have e₃ : Machine.drive st a
      ⟨{ c with state := .swallow, sbytes := 0, received := block }, rest, log⟩ =
      some ⟨{ c with state := .newCmd, sbytes := 0, received := block }, rest,
        log ++ [.skipped block]⟩ := by
    simp [Machine.drive, Machine.swallow]
  rw [settles_of_drive e₁, settles_of_drive e₂, settles_of_drive e₃]

/-- A block has its own end at least. -/
theorem StorageRequest.block_ne_nil (r : StorageRequest) : r.block ≠ [] := by
  simp [StorageRequest.block, crlf]

variable (st) in
/-- **A framed request** is taken as a line and a block. -/
theorem settles_framed (hc : c.Ready) (hf : r.Framed a log) : ∃ d : Connection, d.Ready ∧
    ∀ rest m'', Machine.Settles st a ⟨c, r.wire ++ rest, log⟩ m'' ↔
      Machine.Settles st a ⟨d, rest, log ++ r.events a log⟩ m'' := by
  have hline : c.atLine.processCommand st a log r.line = _ := r.processCommand_line hc.noreply
  rw [if_pos hf.1] at hline
  by_cases hok : r.answer a log = .ok
  · rw [hok] at hline
    obtain ⟨d, hd, -, hs⟩ := settles_outString st a
      (c := { c.atLine with
        noreply := r.noreply, rlbytes := 0, received := r.block, state := .nread }) rfl hc.transport
    refine ⟨d, hd, fun rest m'' => ?_⟩
    rw [settles_line hc, hline, StorageRequest.events, if_pos hok]
    rw [settles_nread r.block_ne_nil rfl rfl rfl rfl, hs, List.append_assoc]
    rfl
  · have hno : r.noreply = false := by
      by_contra hno
      exact hok (hf.2 (by simpa using hno))
    have hline' : c.atLine.processCommand st a log r.line =
        { { c.atLine with noreply := false }.outString with
          writeAndGo := .swallow, sbytes := r.block.length } := by
      rw [hline, hno]
      cases h : r.answer a log with
      | ok => exact absurd h hok
      | tooLarge => rfl
      | noMemory => rfl
    refine ⟨{ { c.atLine with noreply := false }.outString with
        writeAndGo := .swallow, state := .newCmd, sbytes := 0, received := r.block },
      ⟨rfl, hc.transport, rfl, Or.inl rfl⟩, fun rest m'' => ?_⟩
    rw [settles_line hc, hline', StorageRequest.events, if_neg hok]
    rw [settles_swallow r.block_ne_nil rfl rfl rfl, List.append_assoc]
    rfl

variable (st) in
/-- **A request that is not framed** leaves its block to be read as commands. -/
theorem settles_unframed (hc : c.Ready) (hf : ¬ r.Framed a log) : ∃ d : Connection, d.Ready ∧
    d.protocol = .ascii ∧ ∀ rest m'', Machine.Settles st a ⟨c, r.wire ++ rest, log⟩ m'' ↔
      Machine.Settles st a ⟨d, r.block ++ rest, log ++ [.line r.line]⟩ m'' := by
  have hline : c.atLine.processCommand st a log r.line = _ := r.processCommand_line hc.noreply
  by_cases hfit : r.Fits
  · rw [if_pos hfit] at hline
    have hno : r.noreply = true ∧ r.answer a log ≠ .ok := by
      by_contra hno
      refine hf ⟨hfit, fun h => ?_⟩
      by_contra hok
      exact hno ⟨h, hok⟩
    refine ⟨{ { c.atLine with noreply := true }.outString with
        writeAndGo := .swallow, sbytes := r.block.length },
      ⟨rfl, hc.transport, rfl, Or.inl rfl⟩, rfl, fun rest m'' => ?_⟩
    rw [settles_line hc, hline, hno.1]
    cases h : r.answer a log with
    | ok => exact absurd h hno.2
    | tooLarge => rfl
    | noMemory => rfl
  · rw [if_neg hfit] at hline
    obtain ⟨d, hd, hp, hs⟩ := settles_outString st a
      (c := { c.atLine with noreply := r.noreply }) rfl hc.transport
    exact ⟨d, hd, hp, fun rest m'' => by rw [settles_line hc, hline, hs]⟩

/-- What an ASCII connection reads next, where there is a newline, is a command line. -/
theorem settles_next_line {input : Bytes} (hc : c.Ready) (hp : c.protocol = .ascii)
    (hmem : 10 ∈ input) (h : Machine.Settles st a ⟨c, input, log⟩ m'') :
    ∃ line, log ++ [.line line] <+: m''.log := by
  have hne : input ≠ [] := List.ne_nil_of_mem hmem
  have e₁ : Machine.drive st a ⟨c, input, log⟩ =
      some ⟨{ c.resetCmd with state := .parseCmd }, input, log⟩ := by
    simp only [Machine.drive, hc.state, if_neg hne]
  have hneg : ∀ b, ({ c.resetCmd with state := .parseCmd } : Connection).negotiate b =
      { c.resetCmd with state := .parseCmd } := fun b => by
    rw [Connection.negotiate, if_neg (by simp [Connection.resetCmd, hc.transport, hp])]
  have e₂ : ∃ line d rest, Machine.drive st a ⟨{ c.resetCmd with state := .parseCmd }, input, log⟩
      = some ⟨d, rest, log ++ [.line line]⟩ := by
    simp only [Machine.drive, Machine.tryReadCommand, hneg]
    rw [if_neg (by simp [Connection.resetCmd, hp]), if_pos hmem]
    exact ⟨_, _, _, rfl⟩
  obtain ⟨line, d, rest, e₂⟩ := e₂
  rw [settles_of_drive e₁, settles_of_drive e₂] at h
  exact ⟨line, log_prefix h⟩

/-! ## Streams -/

/-- The bytes of a stream of requests. -/
def wire (rs : List StorageRequest) : Bytes := rs.flatMap StorageRequest.wire

/-- The frames of a log are those of its parts. -/
@[simp] theorem frames_append (l l' : List ConnEvent) : frames (l ++ l') = frames l ++ frames l' :=
  List.filterMap_append

/-- What a request logs has its frames. -/
theorem frames_events (r : StorageRequest) (a : Answers) (log : List ConnEvent) :
    frames (r.events a log) = r.frames := by
  rw [StorageRequest.events]
  split <;> rfl

/-- The block of a request that is not framed is not taken as one. -/
theorem not_frames_of_unframed (hc : c.Ready) (hf : ¬ r.Framed a log) (rest : Bytes)
    (fs : List Frame) : ¬ Machine.Frames st a ⟨c, r.wire ++ rest, log⟩ (r.frames ++ fs) := by
  rintro ⟨m'', hm, -, hlog⟩
  obtain ⟨d, hd, hp, hs⟩ := settles_unframed st hc hf
  have hmem : (10 : UInt8) ∈ r.block ++ rest := by simp [StorageRequest.block, crlf]
  obtain ⟨line, hpre⟩ := settles_next_line hd hp hmem ((hs _ _).mp hm)
  -- what follows the command line is taken as another one
  have hpre' : frames (log ++ [.line r.line] ++ [.line line]) <+: frames m''.log :=
    hpre.filterMap _
  rw [hlog, frames_append, frames_append, List.append_assoc,
    List.prefix_append_right_inj] at hpre'
  simp [frames, ConnEvent.frame, StorageRequest.frames] at hpre'

/-- **ASCII framing**: every command line is taken as one, and every data block, if and only if no
block is as long as an `int` can say and no request without a reply is refused an item. -/
theorem frames_iff (hc : c.Ready) (rs : List StorageRequest) :
    Machine.Frames st a ⟨c, wire rs, log⟩ (rs.flatMap StorageRequest.frames) ↔
      FramedAll a log rs := by
  -- by induction on the requests: a framed one leaves the connection ready for the next
  induction rs generalizing c log with
  | nil =>
      refine iff_of_true ⟨⟨c, wire [], log⟩, .stop ?_, rfl, by simp⟩ trivial
      simp [Machine.drive, hc.state, wire]
  | cons r rs ih =>
      rw [FramedAll, wire, List.flatMap_cons, List.flatMap_cons, ← wire]
      by_cases hf : r.Framed a log
      · obtain ⟨d, hd, hs⟩ := settles_framed st hc hf
        rw [and_iff_right hf, ← ih hd]
        simp only [Machine.Frames, hs, frames_append, frames_events, List.append_assoc]
      · exact iff_of_false (not_frames_of_unframed hc hf _ _) fun h => hf h.1

/-- A new connection. -/
def asciiConn : Connection := { protocol := .negotiating }

/-- A new connection is ready for a command. -/
theorem asciiConn_ready : asciiConn.Ready := ⟨rfl, rfl, rfl, Or.inr rfl⟩

/-- `set k 0 0 5 noreply`, of the block `quit`, CR. -/
def setQuit : StorageRequest where
  line := ascii "set k 0 0 5 noreply"
  word := ascii "set"
  key := ascii "k"
  flags := ascii "0"
  exptime := ascii "0"
  bytes := ascii "5"
  cas := none
  noreply := true
  data := ascii "quit\r"
  newline_notMem := by decide
  length_lt := by decide
  tokens_eq := by decide
  word_eq := by decide
  key_le := by decide
  flags_eq := ⟨0, ⟨_, rfl, rfl, rfl⟩, by decide, by decide⟩
  exptime_eq := ⟨0, ⟨_, rfl, rfl, rfl⟩, by decide, by decide⟩
  bytes_eq := ⟨_, rfl, rfl, rfl⟩
  bytes_lt := by decide
  cas_eq := by simp

/-- The request is framed when it is given an item. -/
theorem frames_iff_setQuit :
    Machine.Frames .plain (.allocating .ok) ⟨asciiConn, wire [setQuit], []⟩
        ([setQuit].flatMap StorageRequest.frames) ↔ FramedAll (.allocating .ok) [] [setQuit] :=
  frames_iff asciiConn_ready [setQuit]

/-- **A block may be parsed as a command**: the one of a request without a reply that is refused an
item. The block `quit` is read as a command line with its carriage return, and answered `ERROR`. -/
theorem frames_fails : ¬ ∀ (st : ConnSettings) (a : Answers) (c : Connection), c.Ready →
    ∀ rs : List StorageRequest,
      Machine.Frames st a ⟨c, wire rs, []⟩ (rs.flatMap StorageRequest.frames) := by
  intro hall
  have hf : ¬ setQuit.Framed (.allocating .noMemory) [] := fun h => absurd (h.2 rfl) (by decide)
  exact not_frames_of_unframed asciiConn_ready hf _ _
    (hall .plain (.allocating .noMemory) _ asciiConn_ready [setQuit])

end Memcached
