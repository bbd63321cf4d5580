import Memcached.Connection

/-! # Framing of binary requests

How many bytes of the stream a binary request takes. A header announces the length of what follows;
every opcode checks the lengths in its own way, and errors throw away a number of bytes chosen where
they are found.

* **`Machine.Takes`** — how many bytes a request takes.
* **`FramedWhen`** — when they are those the header announces.
* **`takes_bodylen_iff`**, **`takes_bodylen_fails`** — the equivalence, and a request that misses
  it. -/

namespace Memcached

open CNumber (Bytes toInt32)
open Transition (Until)

variable {st : ConnSettings} {a : Answers} {m m' : Machine} {c : Connection} {input : Bytes}
  {log : List ConnEvent}

/-! ## The bytes a request takes -/

/-- The connection has dealt with a request: it is ready for the next one, or closes. -/
def Machine.AtRest (m : Machine) : Prop := m.conn.state = .newCmd ∨ m.conn.state = .closing

/-- The connection goes on until it has dealt with the request. -/
def Machine.Serves (st : ConnSettings) (a : Answers) : Machine → Machine → Prop :=
  Until (Machine.drive st a) Machine.AtRest

/-- How a request ends: the connection closes, or it takes a number of bytes. -/
def Machine.Ends (st : ConnSettings) (a : Answers) (m : Machine) : Option ℕ → Prop
  | none => ∃ m', m.Serves st a m' ∧ m'.conn.state = .closing
  | some n => n ≤ m.input.length ∧ ∃ m', m.Serves st a m' ∧ m'.conn.state = .newCmd ∧
      m'.input = m.input.drop n

/-- **The property of one request**: the connection closes, or takes exactly `n` bytes. -/
def Machine.Takes (st : ConnSettings) (a : Answers) (m : Machine) (n : ℕ) : Prop :=
  ∃ m', m.Serves st a m' ∧ (m'.conn.state = .closing ∨ m'.input = m.input.drop n)

/-- What a request takes is what it ends with. -/
theorem Machine.Ends.takes_iff {o : Option ℕ} {n : ℕ} (h : m.Ends st a o)
    (hn : n ≤ m.input.length) : m.Takes st a n ↔ ∀ k, o = some k → k = n := by
  cases o with
  | none =>
      obtain ⟨m', hs, hc⟩ := h
      exact iff_of_true ⟨m', hs, Or.inl hc⟩ (by simp)
  | some k =>
      obtain ⟨hk, m', hs, hst, hin⟩ := h
      constructor
      · rintro ⟨m'', hs'', hend⟩ k' hk'
        obtain rfl := hs.unique hs''
        obtain rfl := Option.some.inj hk'
        rcases hend with hc | he
        · exact absurd (hst.symm.trans hc) (by simp)
        · have := congrArg List.length (hin.symm.trans he)
          rw [List.length_drop, List.length_drop] at this
          omega
      · intro hall
        exact ⟨m', hs, Or.inr (hall k rfl ▸ hin)⟩

/-- A step in which `n` bytes are taken. -/
theorem Machine.Ends.step {o : Option ℕ} {n : ℕ} (hrest : ¬ m.AtRest)
    (e : m.drive st a = some m') (hin : m'.input = m.input.drop n) (hn : n ≤ m.input.length)
    (h : m'.Ends st a o) : m.Ends st a (o.map (n + ·)) := by
  cases o with
  | none =>
      obtain ⟨m'', hs, hc⟩ := h
      exact ⟨m'', .step hrest e hs, hc⟩
  | some k =>
      obtain ⟨hk, m'', hs, hst, hin'⟩ := h
      rw [hin, List.length_drop] at hk
      exact ⟨show n + k ≤ m.input.length by omega, m'', .step hrest e hs, hst, by
        rw [hin', hin, List.drop_drop]⟩

/-- A step that takes nothing. -/
theorem Machine.Ends.step_zero {o : Option ℕ} (hrest : ¬ m.AtRest)
    (e : m.drive st a = some m') (hin : m'.input = m.input) (h : m'.Ends st a o) :
    m.Ends st a o := by
  have := Machine.Ends.step (n := 0) hrest e (by rw [hin, List.drop_zero]) (Nat.zero_le _) h
  simpa using this

/-! ## Responses -/

namespace Connection

/-- A connection that starts over takes nothing more. -/
theorem ends_newCmd (h : c.state = .newCmd) : Machine.Ends st a ⟨c, input, log⟩ (some 0) :=
  ⟨Nat.zero_le _, _, .stop (Or.inl h), h, List.drop_zero.symm⟩

/-- A connection that closes takes nothing. -/
theorem ends_closing (h : c.state = .closing) : Machine.Ends st a ⟨c, input, log⟩ none :=
  ⟨_, .stop (Or.inr h), h⟩

/-- The bytes that are thrown away. -/
theorem ends_swallow (h : c.state = .swallow) (hs : c.sbytes ≤ input.length) :
    Machine.Ends st a ⟨c, input, log⟩ (some c.sbytes) := by
  have hend : ∀ (c : Connection) input, c.state = .swallow → c.sbytes = 0 →
      Machine.Ends st a ⟨c, input, log⟩ (some 0) := by
    intro c input h h0
    have e : Machine.drive st a ⟨c, input, log⟩
        = some ⟨{ c with state := .newCmd }, input, log ++ [.skipped c.received]⟩ := by
      simp [Machine.drive, h, Machine.swallow, h0]
    exact Machine.Ends.step_zero (by simp [Machine.AtRest, h]) e rfl (ends_newCmd rfl)
  by_cases h0 : c.sbytes = 0
  · rw [h0]
    exact hend c input h h0
  · have e : Machine.drive st a ⟨c, input, log⟩
        = some ⟨{ c with sbytes := 0, received := c.received ++ input.take c.sbytes },
          input.drop c.sbytes, log⟩ := by
      simp [Machine.drive, h, Machine.swallow, h0, Nat.not_lt.mpr hs]
    simpa using Machine.Ends.step (by simp [Machine.AtRest, h]) e rfl hs (hend _ _ h rfl)

/-- A response is sent. -/
theorem ends_mwrite {o : Option ℕ} (h : c.state = .mwrite) (hp : c.protocol = .binary)
    (ho : Machine.Ends st a ⟨{ c with state := c.writeAndGo, received := [] }, input, log⟩ o) :
    Machine.Ends st a ⟨c, input, log⟩ o := by
  have e : Machine.drive st a ⟨c, input, log⟩
      = some ⟨{ c with state := c.writeAndGo, received := [] }, input, log⟩ := by
    simp [Machine.drive, h, afterWrite, hp]
  exact Machine.Ends.step_zero (by simp [Machine.AtRest, h]) e rfl ho

/-- `write_bin_error` throws away what it is told to. -/
theorem ends_writeBinError (hp : c.protocol = .binary) {n : ℤ} (hn : n.toNat ≤ input.length) :
    Machine.Ends st a ⟨c.writeBinError n, input, log⟩ (some n.toNat) := by
  rw [writeBinError]
  split
  · exact ends_mwrite rfl hp (ends_swallow rfl hn)
  · rename_i h
    rw [Int.toNat_of_nonpos (by omega)]
    exact ends_mwrite rfl hp (ends_newCmd rfl)

/-- A refused value is thrown away if `write_bin_error` is told its length, and that is positive;
else what was left to throw away before. -/
theorem ends_refuseValue (hp : c.protocol = .binary) {n : ℤ} (hn : n.toNat ≤ input.length)
    (hs : c.sbytes ≤ input.length) :
    Machine.Ends st a ⟨c.refuseValue n, input, log⟩
      (some (if 0 < n then n.toNat else c.sbytes)) := by
  rw [refuseValue, writeBinError]
  split
  · exact ends_mwrite rfl hp (ends_swallow rfl hn)
  · exact ends_mwrite rfl hp (ends_swallow rfl hs)

/-- A protocol error closes the connection. -/
theorem ends_protocolError (hp : c.protocol = .binary) :
    Machine.Ends st a ⟨c.handleBinaryProtocolError, input, log⟩ none := by
  rw [handleBinaryProtocolError, writeBinError, if_neg (by omega)]
  exact ends_mwrite rfl hp (ends_closing rfl)

/-- `write_bin_response` takes nothing. -/
theorem ends_writeBinResponse (hp : c.protocol = .binary) (keeps : Bool) :
    Machine.Ends st a ⟨c.writeBinResponse keeps, input, log⟩ (some 0) := by
  rw [writeBinResponse]
  split
  · exact ends_mwrite rfl hp (ends_newCmd rfl)
  · exact ends_newCmd rfl

/-- An answer takes nothing, whether or not it is sent. -/
theorem ends_answer (hp : c.protocol = .binary) (log' : List ConnEvent) (keeps : Bool) :
    Machine.Ends st a ⟨c.answer a log' keeps, input, log⟩ (some 0) := by
  rw [answer]
  split
  · exact ends_writeBinResponse hp keeps
  · exact ends_writeBinError hp (Nat.zero_le _)

/-! ## Keys and values -/

/-- What was asked for is read, and dealt with. -/
theorem ends_nread {o : Option ℕ} {n : ℕ} (h : c.state = .nread) (hp : c.protocol = .binary)
    (hr : c.rlbytes = n) (hn : n ≤ input.length)
    (ho : ∀ log', Machine.Ends st a ⟨{ c with
        rlbytes := 0
        received := c.received ++ input.take n }.completeNreadBinary st a log, input.drop n, log'⟩ o) :
    Machine.Ends st a ⟨c, input, log⟩ (o.map (n + ·)) := by
  have hcomplete : ∀ (c : Connection) input, c.state = .nread → c.protocol = .binary →
      c.rlbytes = 0 →
      (∀ log', Machine.Ends st a ⟨c.completeNreadBinary st a log, input, log'⟩ o) →
      Machine.Ends st a ⟨c, input, log⟩ o := by
    intro c input h hp hr ho
    have e : Machine.drive st a ⟨c, input, log⟩ = some ⟨(c.completeNread st a log).1, input,
        log ++ (c.completeNread st a log).2⟩ := by
      simp [Machine.drive, h, Machine.nread, hr]
    have hc : (c.completeNread st a log).1 = c.completeNreadBinary st a log := by
      rw [completeNread, if_pos hp]
    rw [hc] at e
    exact Machine.Ends.step_zero (by simp [Machine.AtRest, h]) e rfl (ho _)
  by_cases h0 : n = 0
  · subst h0
    have hr : c.rlbytes = 0 := hr
    have hc : { c with rlbytes := 0, received := c.received ++ input.take 0 } = c := by
      rw [List.take_zero, List.append_nil, ← hr]
    rw [hc] at ho
    simpa using hcomplete c input h hp hr ho
  · have e : Machine.drive st a ⟨c, input, log⟩
        = some ⟨{ c with rlbytes := 0, received := c.received ++ input.take n }, input.drop n,
          log⟩ := by
      simp [Machine.drive, h, Machine.nread, hr, h0, Nat.not_lt.mpr hn]
    exact Machine.Ends.step (by simp [Machine.AtRest, h]) e rfl hn (hcomplete _ _ h hp rfl ho)

/-- A value of negative length closes the connection. -/
theorem ends_readValue_neg {substate : Substate} {vlen : ℤ} (h : vlen < 0) :
    Machine.Ends st a ⟨c.readValue substate vlen, input, log⟩ none := by
  have h0 : vlen ≠ 0 := by omega
  have e : Machine.drive st a ⟨c.readValue substate vlen, input, log⟩
      = some ⟨{ c.readValue substate vlen with state := .closing }, input, log⟩ := by
    simp [Machine.drive, readValue, Machine.nread, h0, h]
  exact Machine.Ends.step_zero (by simp [Machine.AtRest, readValue]) e rfl (ends_closing rfl)

/-- After a payload that is not followed by a value, there is an answer only. -/
theorem ends_completeNreadBinary (hp : c.protocol = .binary) (log' : List ConnEvent)
    (hsub : c.substate ≠ .readingSetHeader ∧ c.substate ≠ .readingSaslAuth ∧
      c.substate ≠ .noState) :
    Machine.Ends st a ⟨c.completeNreadBinary st a log, input, log'⟩ (some 0) := by
  rw [completeNreadBinary]
  cases hc : c.substate <;> simp only
  case readingSetHeader => exact absurd hc hsub.1
  case readingSaslAuth => exact absurd hc hsub.2.1
  case noState => exact absurd hc hsub.2.2
  case readingGetKey | readingTouchKey =>
    split
    · exact ends_mwrite rfl hp (ends_newCmd rfl)
    · split
      · exact ends_newCmd rfl
      · exact ends_writeBinError (n := 0) hp (Nat.zero_le _)
  case readingSaslAuthData =>
    rw [processBinCompleteSaslAuth]
    split
    · exact ends_writeBinResponse (c := { c with authenticated := true }) hp false
    · exact ends_mwrite rfl hp (ends_newCmd rfl)
    · exact ends_writeBinError (c := { c with authenticated := false }) (n := 0) hp (Nat.zero_le _)
  all_goals exact ends_answer hp log _

/-- A value is read to its end. -/
theorem ends_readValue (hp : c.protocol = .binary) {substate : Substate} {n : ℕ}
    (hs : substate = .readSetValue ∨ substate = .readingSaslAuthData) (hn : n ≤ input.length) :
    Machine.Ends st a ⟨c.readValue substate n, input, log⟩ (some n) := by
  have hsub : substate ≠ .readingSetHeader ∧ substate ≠ .readingSaslAuth ∧ substate ≠ .noState := by
    rcases hs with rfl | rfl <;> decide
  simpa using ends_nread (o := some 0) (c := c.readValue substate n) rfl hp rfl hn
    fun log' => ends_completeNreadBinary (c := { c.readValue substate n with
      rlbytes := 0, received := _ }) hp log' hsub

/-- `bin_read_key` reads the extras and the key, and goes on with them. -/
theorem ends_binReadKey {o : Option ℕ} {substate : Substate} {extra : ℕ}
    (hp : c.protocol = .binary) (log' : List ConnEvent) (hgrow : a.grow log = true)
    (hn : c.header.keylen.toNat + extra ≤ input.length)
    (ho : ∀ log'', Machine.Ends st a ⟨{ c with
        state := .nread
        substate := substate
        rlbytes := 0
        received := input.take (c.header.keylen.toNat + extra) }.completeNreadBinary st a log',
      input.drop (c.header.keylen.toNat + extra), log''⟩ o) :
    Machine.Ends st a ⟨c.binReadKey a log substate extra, input, log'⟩
      (o.map (c.header.keylen.toNat + extra + ·)) := by
  rw [binReadKey, if_pos hgrow]
  exact ends_nread rfl hp (by simp) hn ho

/-- Without room for the key the connection closes. -/
theorem ends_binReadKey_closing {substate : Substate} {extra : ℕ} (log' : List ConnEvent)
    (hgrow : a.grow log = false) :
    Machine.Ends st a ⟨c.binReadKey a log substate extra, input, log'⟩ none := by
  rw [binReadKey, if_neg (by simp [hgrow])]
  exact ends_closing rfl

/-! ## The length of a value -/

/-- `vlen` is the length of the value if that fits into an `int`, and negative else. -/
theorem binVlen_eq {extlen : ℕ}
    (hle : c.header.keylen.toNat + extlen ≤ c.header.bodylen.toNat)
    (hlt : c.header.bodylen.toNat - (c.header.keylen.toNat + extlen) < 2 ^ 31) :
    c.binVlen extlen = (c.header.bodylen.toNat - (c.header.keylen.toNat + extlen) : ℕ) := by
  have := c.header.bodylen.toNat_lt
  rw [binVlen, toInt32, Int.bmod_def]
  omega

/-- A body shorter than its extras and key has a negative value length, and so has one of 2 GiB
more. -/
theorem binVlen_neg {extlen : ℕ} (h : extlen < 2 ^ 16)
    (hbad : ¬ (c.header.keylen.toNat + extlen ≤ c.header.bodylen.toNat ∧
      c.header.bodylen.toNat - (c.header.keylen.toNat + extlen) < 2 ^ 31)) :
    c.binVlen extlen < 0 := by
  have := c.header.bodylen.toNat_lt
  have := c.header.keylen.toNat_lt
  rw [binVlen, toInt32, Int.bmod_def]
  omega

end Connection

/-! ## When a request is framed -/

/-- The value of a refused request, of `n` bytes, is skipped: either `write_bin_error` is told to,
or as many bytes were left to throw away before. -/
def Skipped (told : Bool) (stale n : ℕ) : Prop := told = true ∧ 0 < n ∧ n < 2 ^ 31 ∨ stale = n

namespace BinHeader

variable (h : BinHeader)

/-- The length of extras, key and value is kept to by a command that stores a value. -/
def ValueFramed (answer : AllocAnswer) (stale extlen : ℕ) : Prop :=
  answer = .ok ∨ h.keylen.toNat + extlen ≤ h.bodylen.toNat ∧
    Skipped (answer = .tooLarge) stale (h.bodylen.toNat - (h.keylen.toNat + extlen))

/-- The same for a SASL payload, which is skipped when it is refused. -/
def SaslFramed (st : ConnSettings) (answer : AllocAnswer) (stale : ℕ) : Prop :=
  if st.sasl = false then
    h.keylen.toNat ≤ h.bodylen.toNat ∧ h.bodylen.toNat - h.keylen.toNat < 2 ^ 31
  else
    h.keylen.toNat ≤ maxSaslMechLen ∧ answer = .ok ∨ h.keylen.toNat ≤ h.bodylen.toNat ∧
      Skipped true stale (h.bodylen.toNat - h.keylen.toNat)

/-- What `item_alloc` answers a storage command that starts at `input`. -/
def allocAnswer (a : Answers) (log : List ConnEvent) (extlen : ℕ) (flags : ℤ) : AllocAnswer :=
  a.alloc (log ++ [.header h]) h.keylen.toNat flags
    (toInt32 (({ protocol := .binary, header := h } : Connection).binVlen extlen + 2))

/-- **When a request is framed**, once its key has been read: the opcodes that check all lengths
always are, the others when the lengths fit together and, if memory is refused, the value is
skipped. -/
def KeyFramed (st : ConnSettings) (a : Answers) (log : List ConnEvent) (stale : ℕ)
    (input : Bytes) : Option Opcode → Prop
  | some .set | some .add | some .replace =>
      h.extlen.toNat = 8 ∧ h.keylen.toNat ≠ 0 ∧ h.keylen.toNat + 8 ≤ h.bodylen.toNat →
        h.ValueFramed (h.allocAnswer a log 8
          (toInt32 (ntoh ((input.drop headerLen).take 4)))) stale 8
  | some .append | some .prepend =>
      0 < h.keylen.toNat ∧ h.extlen.toNat = 0 → h.ValueFramed (h.allocAnswer a log 0 0) stale 0
  | some .stat => h.extlen.toNat = 0 → h.bodylen.toNat = h.keylen.toNat
  | some .touch | some .gat | some .gatK =>
      h.extlen.toNat = 4 ∧ h.keylen.toNat ≠ 0 → h.bodylen.toNat = h.keylen.toNat + 4
  | some .saslAuth | some .saslStep =>
      h.extlen.toNat = 0 ∧ h.keylen.toNat ≠ 0 →
        h.SaslFramed st (a.alloc (log ++ [.header h]) h.keylen.toNat 0
          (({ protocol := .binary, header := h } : Connection).binVlen 0)) stale
  | _ => True

/-- **The exact condition**: the header is refused and the connection closes, or an unknown opcode
announces less than 2 GB, or a known one is framed. -/
def FramedWhen (st : ConnSettings) (a : Answers) (log : List ConnEvent) (c : Connection)
    (input : Bytes) : Prop :=
  h.magic ≠ binaryReq ∨ st.sasl = true ∧ c.isAuthenticated (Opcode.ofByte h.opcode) = false ∨
    keyMaxLength < h.keylen.toNat ∨
    if Opcode.ofByte h.opcode = none then h.bodylen.toNat < 2 ^ 31
    else a.grow log = true →
      h.KeyFramed st a log c.sbytes input ((Opcode.ofByte h.opcode).map Opcode.loud)

end BinHeader

/-! ## Storage commands and SASL payloads -/

namespace Connection

/-- What is taken of a value after its key, `stale` bytes being left to throw away before. -/
def valueTaken (answer : AllocAnswer) (vlen : ℤ) (stale : ℕ) : Option ℕ :=
  match answer with
  | .ok => if vlen < 0 then none else some vlen.toNat
  | .tooLarge => some (if 0 < vlen then vlen.toNat else stale)
  | .noMemory => some stale

/-- What a storage request takes: its value, or what is to be swallowed. -/
theorem ends_processBinUpdate (hp : c.protocol = .binary) (log' : List ConnEvent) (extlen : ℕ)
    (flags : ℤ) (hv : (c.binVlen extlen).toNat ≤ input.length) (hs : c.sbytes ≤ input.length) :
    Machine.Ends st a ⟨c.processBinUpdate a log extlen flags, input, log'⟩
      (valueTaken (a.alloc log c.header.keylen.toNat flags (toInt32 (c.binVlen extlen + 2)))
        (c.binVlen extlen) c.sbytes) := by
  rw [processBinUpdate]
  split <;> rename_i e <;> rw [e, valueTaken]
  · split
    · rename_i hneg
      exact ends_readValue_neg hneg
    · rename_i hneg
      exact Int.toNat_of_nonneg (not_lt.mp hneg) ▸ ends_readValue hp (Or.inl rfl) hv
  · exact ends_refuseValue hp hv hs
  · exact ends_refuseValue (n := 0) hp (Nat.zero_le _) hs

/-- What a storage command takes is what its header announces, exactly when it is framed. -/
theorem valueTaken_iff {extlen : ℕ} (hext : extlen < 2 ^ 16) (answer : AllocAnswer) (stale : ℕ) :
    (∀ k, (valueTaken answer (c.binVlen extlen) stale).map (c.header.keylen.toNat + extlen + ·)
        = some k → k = c.header.bodylen.toNat) ↔
      c.header.ValueFramed answer stale extlen := by
  rw [BinHeader.ValueFramed, Skipped]
  by_cases hfit : c.header.keylen.toNat + extlen ≤ c.header.bodylen.toNat ∧
      c.header.bodylen.toNat - (c.header.keylen.toNat + extlen) < 2 ^ 31
  · rw [binVlen_eq hfit.1 hfit.2]
    cases answer <;> simp only [valueTaken, Option.map_some, Option.some.injEq, forall_eq',
      reduceCtorEq, decide_true, decide_false, true_or, false_or, iff_true, true_and, false_and,
      Bool.false_eq_true, Int.toNat_natCast, Nat.cast_pos]
    · rw [if_neg (by omega)]
      simp only [Option.map_some, Option.some.injEq, forall_eq']
      omega
    · split <;> omega
    · omega
  · have hneg := binVlen_neg (c := c) hext hfit
    cases answer <;> simp only [valueTaken, if_pos hneg, if_neg (not_lt.mpr hneg.le),
      Option.map_some, Option.map_none, Option.some.injEq, forall_eq', reduceCtorEq, decide_true,
      decide_false, true_or, false_or, true_and, false_and, Bool.false_eq_true,
      IsEmpty.forall_iff, implies_true]
    · omega
    · omega

/-- What is taken of a SASL payload after the name of the mechanism. -/
def saslTaken (st : ConnSettings) (answer : AllocAnswer) (nkey : ℕ) (vlen : ℤ) (stale : ℕ) :
    Option ℕ :=
  if st.sasl = false then some vlen.toNat
  else if nkey ≤ maxSaslMechLen ∧ answer = .ok then if vlen < 0 then none else some vlen.toNat
  else some (if 0 < vlen then vlen.toNat else stale)

/-- What an authentication request takes. -/
theorem ends_processBinSaslAuth (hp : c.protocol = .binary) (log' : List ConnEvent)
    (hv : (c.binVlen 0).toNat ≤ input.length) (hs : c.sbytes ≤ input.length) :
    Machine.Ends st a ⟨c.processBinSaslAuth st a log, input, log'⟩
      (saslTaken st (a.alloc log c.header.keylen.toNat 0 (c.binVlen 0)) c.header.keylen.toNat
        (c.binVlen 0) c.sbytes) := by
  rw [processBinSaslAuth, saslTaken]
  split
  · exact ends_writeBinError hp hv
  · split
    · rename_i hlong
      rw [if_neg (by omega)]
      exact ends_refuseValue hp hv hs
    · rename_i hshort
      split
      · rename_i e
        rw [if_pos ⟨by omega, e⟩]
        split
        · rename_i hneg
          exact ends_readValue_neg hneg
        · rename_i hneg
          exact Int.toNat_of_nonneg (not_lt.mp hneg) ▸ ends_readValue hp (Or.inr rfl) hv
      · rename_i e
        rw [if_neg fun hc => e hc.2]
        exact ends_refuseValue hp hv hs

/-- What a SASL command takes is what its header announces, exactly when it is framed. -/
theorem saslTaken_iff (answer : AllocAnswer) (stale : ℕ) :
    (∀ k, (saslTaken st answer c.header.keylen.toNat (c.binVlen 0) stale).map
        (c.header.keylen.toNat + 0 + ·) = some k → k = c.header.bodylen.toNat) ↔
      c.header.SaslFramed st answer stale := by
  rw [BinHeader.SaslFramed, Skipped, saslTaken]
  by_cases hfit : c.header.keylen.toNat + 0 ≤ c.header.bodylen.toNat ∧
      c.header.bodylen.toNat - (c.header.keylen.toNat + 0) < 2 ^ 31
  · rw [binVlen_eq hfit.1 hfit.2, if_neg (by omega : ¬ (_ : ℤ) < 0)]
    split
    · simp only [Option.map_some, Option.some.injEq, forall_eq', Int.toNat_natCast]
      omega
    · split
      · rename_i hok
        simp only [Option.map_some, Option.some.injEq, forall_eq', Int.toNat_natCast, hok,
          and_self, true_or, iff_true]
        omega
      · rename_i hok
        simp only [Option.map_some, Option.some.injEq, forall_eq', hok, false_or, true_and]
        split <;> omega
  · have hneg := binVlen_neg (c := c) (by norm_num : 0 < 2 ^ 16) hfit
    rw [if_pos hneg, Int.toNat_of_nonpos hneg.le, if_neg (not_lt.mpr hneg.le)]
    split
    · simp only [Option.map_some, Option.some.injEq, forall_eq']
      omega
    · split
      · rename_i hok
        simp [hok]
      · rename_i hok
        simp only [Option.map_some, Option.some.injEq, forall_eq', hok, false_or]
        omega

end Connection

/-! ## Every request -/

/-- The request ends, and it takes `n` bytes or closes the connection exactly if `Q` holds. -/
def Machine.EndsWhen (st : ConnSettings) (a : Answers) (m : Machine) (n : ℕ) (Q : Prop) : Prop :=
  ∃ o, m.Ends st a o ∧ ((∀ k, o = some k → k = n) ↔ Q)

namespace Connection

/-- A key that is read before a handler which ends. -/
theorem endsWhen_binReadKey {o : Option ℕ} {substate : Substate} {extra : ℕ} {Q : Prop}
    (hp : c.protocol = .binary) (log' : List ConnEvent)
    (hn : c.header.keylen.toNat + extra ≤ input.length)
    (ho : ∀ log'', Machine.Ends st a ⟨{ c with
        state := .nread
        substate := substate
        rlbytes := 0
        received := input.take (c.header.keylen.toNat + extra) }.completeNreadBinary st a log',
      input.drop (c.header.keylen.toNat + extra), log''⟩ o)
    (hQ : (∀ k, o.map (c.header.keylen.toNat + extra + ·) = some k → k = c.header.bodylen.toNat)
      ↔ Q) :
    Machine.EndsWhen st a ⟨c.binReadKey a log substate extra, input, log'⟩ c.header.bodylen.toNat
      (a.grow log = true → Q) := by
  by_cases hg : a.grow log = true
  · exact ⟨_, ends_binReadKey hp log' hg hn ho, by rw [hQ]; simp [hg]⟩
  · exact ⟨none, ends_binReadKey_closing log' (by simpa using hg), by simp [hg]⟩

/-- The same for a handler that only answers. -/
theorem endsWhen_binReadKey_zero {substate : Substate} {extra : ℕ} {Q : Prop}
    (hp : c.protocol = .binary) (log' : List ConnEvent)
    (hsub : substate ≠ .readingSetHeader ∧ substate ≠ .readingSaslAuth ∧ substate ≠ .noState)
    (hn : c.header.keylen.toNat + extra ≤ input.length)
    (hQ : c.header.keylen.toNat + extra = c.header.bodylen.toNat ↔ Q) :
    Machine.EndsWhen st a ⟨c.binReadKey a log substate extra, input, log'⟩ c.header.bodylen.toNat
      (a.grow log = true → Q) :=
  endsWhen_binReadKey (o := some 0) hp log' hn (fun log'' => ends_completeNreadBinary
    (c := { c with state := .nread, substate := substate, rlbytes := 0, received := _ }) hp log'' hsub)
    (by simpa using hQ)

/-- A malformed request closes the connection, whatever its length. -/
theorem endsWhen_protocolError {n : ℕ} {Q : Prop} (hp : c.protocol = .binary)
    (log' : List ConnEvent) (hQ : Q) :
    Machine.EndsWhen st a ⟨c.handleBinaryProtocolError, input, log'⟩ n Q :=
  ⟨none, ends_protocolError hp, by simp [hQ]⟩

/-- A value is no longer than what the header leaves for it. -/
theorem binVlen_toNat_le (c : Connection) {extlen : ℕ} (he : extlen < 2 ^ 16) :
    (c.binVlen extlen).toNat ≤ c.header.bodylen.toNat - (c.header.keylen.toNat + extlen) := by
  by_cases hfit : c.header.keylen.toNat + extlen ≤ c.header.bodylen.toNat ∧
      c.header.bodylen.toNat - (c.header.keylen.toNat + extlen) < 2 ^ 31
  · rw [binVlen_eq hfit.1 hfit.2, Int.toNat_natCast]
  · rw [Int.toNat_of_nonpos (binVlen_neg he hfit).le]
    exact Nat.zero_le _

/-- **A storage request** reads its key, then its value. -/
theorem endsWhen_readUpdate (st : ConnSettings) (a : Answers) (log : List ConnEvent) (extlen : ℕ)
    (flags : ℤ) (hp : c.protocol = .binary) {rest : Bytes}
    (hext : extlen ≤ c.header.extlen.toNat) (h8 : extlen ≤ 8)
    (hlen : c.header.bodylen.toNat + c.header.keylen.toNat + c.header.extlen.toNat + c.sbytes
      ≤ rest.length)
    (hcomplete : ∀ d : Connection, d.header = c.header → d.cmd = c.cmd →
      d.substate = .readingSetHeader → d.received = rest.take (c.header.keylen.toNat + extlen) →
      d.completeNreadBinary st a (log ++ [.header c.header])
        = d.processBinUpdate a (log ++ [.header c.header]) extlen flags) :
    Machine.EndsWhen st a ⟨c.binReadKey a log .readingSetHeader extlen, rest,
        log ++ [.header c.header]⟩ c.header.bodylen.toNat (a.grow log = true →
      c.header.ValueFramed (c.header.allocAnswer a log extlen flags) c.sbytes extlen) := by
  refine endsWhen_binReadKey (o := valueTaken (c.header.allocAnswer a log extlen flags)
    (c.binVlen extlen) c.sbytes) hp _ (by omega) (fun log'' => ?_) (valueTaken_iff (by omega) _ _)
  set d : Connection := { c with
    state := .nread
    substate := .readingSetHeader
    rlbytes := 0
    received := rest.take (c.header.keylen.toNat + extlen) } with hd
  have e : d.completeNreadBinary st a (log ++ [.header c.header])
      = d.processBinUpdate a (log ++ [.header c.header]) extlen flags :=
    hcomplete d rfl rfl rfl rfl
  rw [e]
  refine ends_processBinUpdate (c := d) hp log'' extlen flags ?_ ?_
  · have hvlen : (d.binVlen extlen).toNat ≤ _ := d.binVlen_toNat_le (by omega)
    rw [List.length_drop]
    exact hvlen.trans (by show c.header.bodylen.toNat - (c.header.keylen.toNat + extlen) ≤ _; omega)
  · rw [List.length_drop]
    show c.sbytes ≤ _
    omega

/-- **An authentication request** reads its mechanism, then its data. -/
theorem endsWhen_readSasl (st : ConnSettings) (a : Answers) (log : List ConnEvent)
    (hp : c.protocol = .binary) {rest : Bytes}
    (hlen : c.header.bodylen.toNat + c.header.keylen.toNat + c.header.extlen.toNat + c.sbytes
      ≤ rest.length) :
    Machine.EndsWhen st a ⟨c.binReadKey a log .readingSaslAuth 0, rest, log ++ [.header c.header]⟩
      c.header.bodylen.toNat (a.grow log = true → c.header.SaslFramed st
        (a.alloc (log ++ [.header c.header]) c.header.keylen.toNat 0 (c.binVlen 0)) c.sbytes) := by
  set d : Connection := { c with
    state := .nread
    substate := .readingSaslAuth
    rlbytes := 0
    received := rest.take (c.header.keylen.toNat + 0) } with hd
  have hvlen : (d.binVlen 0).toNat ≤ c.header.bodylen.toNat - (c.header.keylen.toNat + 0) :=
    d.binVlen_toNat_le (by norm_num)
  have hsbytes : d.sbytes ≤ (rest.drop (c.header.keylen.toNat + 0)).length := by
    rw [List.length_drop]
    show c.sbytes ≤ _
    omega
  have hvalue : (d.binVlen 0).toNat ≤ (rest.drop (c.header.keylen.toNat + 0)).length := by
    rw [List.length_drop]
    omega
  have hend : ∀ log'', Machine.Ends st a
      ⟨d.completeNreadBinary st a (log ++ [ConnEvent.header c.header]),
        rest.drop (c.header.keylen.toNat + 0), log''⟩ _ := fun log'' =>
    ends_processBinSaslAuth (c := d) hp log'' hvalue hsbytes
  exact endsWhen_binReadKey hp (log ++ [ConnEvent.header c.header])
    (by omega : c.header.keylen.toNat + 0 ≤ rest.length) hend (saslTaken_iff _ _)

/-- The list of mechanisms is answered at once. -/
theorem ends_binListSaslMechs (hp : c.protocol = .binary) {rest : Bytes} (log' : List ConnEvent)
    (hkey : c.header.keylen.toNat = 0) (hbody : c.header.bodylen.toNat = 0) :
    Machine.Ends st a ⟨c.binListSaslMechs st a log, rest, log'⟩ (some 0) := by
  rw [binListSaslMechs]
  split
  · have h0 : toInt32 ((c.header.bodylen.toNat : ℤ) - c.header.keylen.toNat) = 0 := by
      simp [hkey, hbody, toInt32]
    rw [h0]
    exact ends_writeBinError (n := 0) hp (Nat.zero_le _)
  · split
    · exact ends_writeBinResponse (c := { c with authenticated := false }) hp false
    · exact ends_writeBinError (c := { c with authenticated := false }) (n := 0) hp (Nat.zero_le _)

/-- **What the second `switch` of `dispatch_bin_command` leads to.** -/
theorem endsWhen_dispatchSwitch (hp : c.protocol = .binary) {op : Opcode}
    (hcmd : c.cmd = some op) (hloud : op.loud = op) (rest : Bytes)
    (hrest : input.drop headerLen = rest)
    (hlen : c.header.bodylen.toNat + c.header.keylen.toNat + c.header.extlen.toNat + c.sbytes
      ≤ rest.length) :
    Machine.EndsWhen st a ⟨c.dispatchSwitch st a log, rest, log ++ [.header c.header]⟩
      c.header.bodylen.toNat
      (a.grow log = true → c.header.KeyFramed st a log c.sbytes input (some op)) := by
  have hresp : ∀ keeps, c.header.bodylen.toNat = 0 →
      Machine.EndsWhen st a ⟨c.writeBinResponse keeps, rest, log ++ [ConnEvent.header c.header]⟩
        c.header.bodylen.toNat (a.grow log = true → True) := fun keeps h0 =>
    ⟨some 0, ends_writeBinResponse hp keeps, by simp [h0]⟩
  rw [dispatchSwitch, hcmd]
  cases op <;> simp only [Opcode.loud, reduceCtorEq] at hloud <;> simp only [BinHeader.KeyFramed]
  -- no key, no extras, no body: the answer is all there is
  case version | noop =>
    split
    · rename_i hlens
      exact hresp false hlens.2.2
    · exact endsWhen_protocolError hp _ (by simp)
  case quit =>
    split
    · rename_i hlens
      refine ⟨none, ?_, by simp⟩
      split
      · exact ends_closing rfl
      · rename_i hq
        rw [writeBinResponse, if_pos (by simp [hq])]
        exact ends_mwrite rfl hp (ends_closing rfl)
    · exact endsWhen_protocolError hp _ (by simp)
  case saslListMechs =>
    split
    · rename_i hlens
      exact ⟨some 0, ends_binListSaslMechs hp _ hlens.2.1 hlens.2.2, by simp [hlens.2.2]⟩
    · exact endsWhen_protocolError hp _ (by simp)
  case flush =>
    split
    · exact endsWhen_binReadKey_zero hp _ (by decide) (by omega) (by simp; omega)
    · exact endsWhen_protocolError hp _ (by simp)
  case get | getK | delete | increment | decrement =>
    split
    · exact endsWhen_binReadKey_zero hp _ (by decide) (by omega) (by simp; omega)
    · exact endsWhen_protocolError hp _ (by simp)
  -- the key is read with the body, whatever its length
  case stat | touch | gat | gatK =>
    split
    · exact endsWhen_binReadKey_zero hp _ (by decide) (by omega) (by omega)
    · rename_i hno
      exact endsWhen_protocolError hp _ fun _ hc => absurd hc hno
  -- the same without extras
  case append | prepend =>
    split
    · rename_i hlens
      have hupd := endsWhen_readUpdate st a log 0 0 hp (Nat.zero_le _) (by omega) hlen
        fun d hdh hdc hds hdr => by simp [completeNreadBinary, hds, hdc, hcmd]
      simpa only [hlens, and_self, forall_const, gt_iff_lt] using hupd
    · rename_i hno
      exact endsWhen_protocolError hp _ fun _ hc => absurd hc hno
  -- the extras and the key are read first; the flags and the expiry time are in them
  case set | add | replace =>
    split
    · rename_i hlens
      have hupd := endsWhen_readUpdate st a log 8 (toInt32 (ntoh (rest.take 4))) hp hlens.1.ge le_rfl
        hlen fun d hdh hdc hds hdr => by
          have htake : (rest.take (c.header.keylen.toNat + 8)).take 4 = rest.take 4 := by
            rw [List.take_take, min_eq_left (by omega)]
          simp [completeNreadBinary, hds, hdc, hcmd, hdh, hlens.1, hdr, htake]
      rw [hrest]
      obtain ⟨o, ho, hiff⟩ := hupd
      exact ⟨o, ho, hiff.trans (imp_congr_right fun _ =>
        ⟨fun hv _ => hv, fun hv => hv ⟨hlens.1, hlens.2.1, hlens.2.2⟩⟩)⟩
    · rename_i hno
      exact endsWhen_protocolError hp _ fun _ hc => absurd hc hno
  case saslAuth | saslStep =>
    split
    · rename_i hlens
      obtain ⟨o, ho, hiff⟩ := endsWhen_readSasl st a log hp hlen
      exact ⟨o, ho, hiff.trans (imp_congr_right fun _ => ⟨fun hv _ => hv, fun hv => hv hlens⟩)⟩
    · rename_i hno
      exact endsWhen_protocolError hp _ fun _ hc => absurd hc hno

/-- **What `dispatch_bin_command` leads to.** -/
theorem endsWhen_readBinCommand (hp : c.protocol = .binary) (h : BinHeader)
    (hlen : h.bodylen.toNat + h.keylen.toNat + h.extlen.toNat + c.sbytes
      ≤ (input.drop headerLen).length) :
    Machine.EndsWhen st a ⟨c.readBinCommand st a log h, input.drop headerLen, log ++ [.header h]⟩
      h.bodylen.toNat (h.FramedWhen st a log c input) := by
  rw [readBinCommand, BinHeader.FramedWhen]
  split
  · rename_i hmagic
    exact ⟨none, ends_closing rfl, by simp [hmagic]⟩
  rename_i hmagic
  rw [dispatchBinCommand]
  split
  · rename_i hauth
    refine ⟨none, ?_, by
      simp only [reduceCtorEq, IsEmpty.forall_iff, implies_true, true_iff]
      exact Or.inr (Or.inl hauth)⟩
    rw [writeBinError, if_neg (by omega)]
    exact ends_mwrite rfl hp (ends_closing rfl)
  rename_i hauth
  split
  · rename_i hkey
    exact ⟨none, ends_protocolError (c := { c with header := h, noreply := true, cmd := _ }) hp, by
      simp only [reduceCtorEq, IsEmpty.forall_iff, implies_true, true_iff]
      exact Or.inr (Or.inr (Or.inl hkey))⟩
  rename_i hkey
  have hrest : ∀ Q : Prop, (h.magic ≠ binaryReq ∨
      st.sasl = true ∧ c.isAuthenticated (Opcode.ofByte h.opcode) = false ∨
      keyMaxLength < h.keylen.toNat ∨ Q) ↔ Q := fun Q =>
    ⟨fun hor => ((hor.resolve_left hmagic).resolve_left hauth).resolve_left hkey,
      fun hq => Or.inr (Or.inr (Or.inr hq))⟩
  rw [hrest]
  cases hop : Opcode.ofByte h.opcode with
  | none =>
      rw [if_pos rfl]
      have hbound := h.bodylen.toNat_lt
      refine ⟨_, ends_writeBinError (c := { c with header := h, cmd := none, noreply := false })
        (n := toInt32 h.bodylen.toNat) hp ?_, ?_⟩
      · rw [toInt32, Int.bmod_def]
        omega
      · simp only [Option.some.injEq, forall_eq', toInt32, Int.bmod_def]
        omega
  | some op =>
      rw [if_neg (by simp)]
      have hloud : op.loud.loud = op.loud := by cases op <;> rfl
      exact endsWhen_dispatchSwitch (c := { c with
        header := h, cmd := some op.loud, noreply := op.quiet }) hp rfl hloud _ rfl hlen

end Connection

/-- What a header at the start of the input leads to. -/
theorem endsWhen_parse {h : BinHeader} (hst : c.state = .parseCmd)
    (hp : (c.negotiate (c.firstByte input)).protocol = .binary)
    (hh : BinHeader.decode input = h)
    (hlen : headerLen + h.bodylen.toNat + h.keylen.toNat + h.extlen.toNat + c.sbytes
      ≤ input.length) :
    Machine.EndsWhen st a ⟨c, input, log⟩ (headerLen + h.bodylen.toNat)
      (h.FramedWhen st a log c input) := by
  set d := c.negotiate (c.firstByte input) with hd
  have hneg : d = { c with protocol := d.protocol } := by
    rw [hd, Connection.negotiate]
    split <;> rfl
  have hs : d.sbytes = c.sbytes := by rw [hneg]
  obtain ⟨o, ho, hiff⟩ : Machine.EndsWhen st a ⟨d.readBinCommand st a log h,
      input.drop headerLen, log ++ [.header h]⟩ h.bodylen.toNat (h.FramedWhen st a log d input) :=
    Connection.endsWhen_readBinCommand hp h (by rw [List.length_drop, hs]; omega)
  have e : Machine.drive st a ⟨c, input, log⟩ = some ⟨d.readBinCommand st a log h,
      input.drop headerLen, log ++ [.header h]⟩ := by
    simp only [Machine.drive, hst, Machine.tryReadCommand, ← hd]
    rw [if_pos hp, if_neg (by omega), hh]
  refine ⟨_, Machine.Ends.step (by simp [Machine.AtRest, hst]) e rfl (by simp only; omega) ho, ?_⟩
  have hframed : h.FramedWhen st a log d input ↔ h.FramedWhen st a log c input := by
    rw [hneg]
    exact Iff.rfl
  rw [← hframed, ← hiff]
  cases o with
  | none => simp
  | some k => simp

/-- A request takes what it ends with. -/
theorem Machine.EndsWhen.takes_iff {n : ℕ} {Q : Prop} (h : m.EndsWhen st a n Q)
    (hn : n ≤ m.input.length) : m.Takes st a n ↔ Q := by
  obtain ⟨o, ho, hiff⟩ := h
  exact (ho.takes_iff hn).trans hiff

/-- **Binary framing**: whatever the header says and the server answers, a request closes the
connection or takes exactly the 24 bytes of its header and as many as that announces, if and only
if it is framed. -/
theorem takes_bodylen_iff {h : BinHeader} (hst : c.state = .parseCmd)
    (hp : (c.negotiate (c.firstByte input)).protocol = .binary)
    (hh : BinHeader.decode input = h)
    (hlen : headerLen + h.bodylen.toNat + h.keylen.toNat + h.extlen.toNat + c.sbytes
      ≤ input.length) :
    Machine.Takes st a ⟨c, input, log⟩ (headerLen + h.bodylen.toNat) ↔
      h.FramedWhen st a log c input :=
  (endsWhen_parse hst hp hh hlen).takes_iff (by simp only; omega)

/-- A server without SASL. -/
def ConnSettings.plain : ConnSettings := ⟨false, false⟩

/-- A server on which everything goes well, but allocation ends with `alloc`. -/
def Answers.allocating (alloc : AllocAnswer) : Answers where
  alloc _ _ _ _ := alloc
  grow _ := true
  done _ := true
  listmech _ := true
  sasl _ := .ok

/-- A binary `set` of key `k` to `hello`, and a `noop` after it. -/
def setThenNoop : Bytes :=
  [0x80, 1, 0, 1, 8, 0, 0, 0, 0, 0, 0, 14] ++ List.replicate 12 0 ++ List.replicate 8 0
    ++ ascii "khello" ++ [0x80, 10] ++ List.replicate 22 0

/-- A connection about to read a binary header. -/
def binaryConn : Connection := { protocol := .binary, state := .parseCmd }

/-- A `set` is framed when its item is allocated. -/
theorem takes_bodylen_iff_set :
    Machine.Takes .plain (.allocating .ok) ⟨binaryConn, setThenNoop, []⟩ (headerLen + 14) ↔
      (BinHeader.decode setThenNoop).FramedWhen .plain (.allocating .ok) [] binaryConn
        setThenNoop :=
  takes_bodylen_iff rfl rfl rfl (by decide)

/-- **A request may lose its frame**: when there is no memory for the item of a `set`, the bytes of
its value are read as the next header. -/
theorem takes_bodylen_fails : ¬ ∀ (st : ConnSettings) (a : Answers) (c : Connection)
    (input : Bytes) (h : BinHeader), c.state = .parseCmd → c.protocol = .binary →
      BinHeader.decode input = h →
      headerLen + h.bodylen.toNat + h.keylen.toNat + h.extlen.toNat + c.sbytes ≤ input.length →
      Machine.Takes st a ⟨c, input, []⟩ (headerLen + h.bodylen.toNat) := by
  intro hall
  have htakes := hall .plain (.allocating .noMemory) binaryConn setThenNoop _ rfl rfl rfl
    (by decide)
  rw [(endsWhen_parse rfl rfl rfl (by decide)).takes_iff (by decide)] at htakes
  have hop : Opcode.ofByte (BinHeader.decode setThenNoop).opcode = some .set := by decide
  rcases htakes with h | h | h | h
  · exact absurd h (by decide)
  · exact absurd h.1 (by decide)
  · exact absurd h (by decide)
  rw [hop, if_neg (by simp)] at h
  -- the value is not thrown away, since nothing was left to throw away before
  rcases h rfl ⟨by decide, by decide, by decide⟩ with hok | ⟨-, ⟨htold, -⟩ | hstale⟩
  · exact absurd hok (by decide)
  · exact absurd htold (by decide)
  · exact absurd hstale (by decide)

end Memcached
