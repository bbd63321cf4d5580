import Memcached.Connection

/-! # The SASL gate

With SASL on, `dispatch_bin_command` asks `authenticated()` before it runs a command of the binary
protocol. Which protocol a connection speaks is a matter of the options at start-up, and of
`try_read_command`.

* **`lastExchange`** — the last exchange that has begun, and how it ended.
* **`Gated`** — every access follows an exchange that succeeded.
* **`Machine.KeepsGate`** — the step neither misses the gate nor forgets a refused exchange.
* **`gated_run`**, **`gated_fails`** — in which runs every access is gated. -/

namespace Memcached

open CNumber (Bytes)
open Transition (Run)

/-! ## The server's connections -/

/-- The protocol of the connections that the server opens, from `settings.sasl` and the option
`-B`; `none` when `main` exits. -/
def bindingProtocol (sasl : Bool) (specified : Option Protocol) : Option Protocol :=
  if sasl then
    match specified with
    | none => some .binary
    | some p => if p ≠ .binary then none else some .binary
  else some (specified.getD .negotiating)

/-- `conn_new`, of a connection that is not a listening one: over UDP it starts to read at once. -/
def connNew (protocol : Protocol) (transport : Transport) : Connection where
  state := if transport = .udp then .read else .newCmd
  protocol := protocol
  transport := transport

/-- What happens to a connection. -/
inductive SessionLabel
  /-- One round of `drive_machine`. -/
  | drive
  /-- Bytes arrive from the socket, over UDP for the item or for `conn_swallow`. -/
  | receive (bytes : Bytes)
  /-- `try_read_udp` fills the buffer with the payload of a datagram. -/
  | datagram (payload : Bytes)
  /-- An error closes the connection. -/
  | fail
  /-- `conn_cleanup`: a UDP connection is used again. -/
  | cleanup
  deriving DecidableEq, Repr

/-- **A step of a connection.** -/
inductive SessionStep (st : ConnSettings) (a : Answers) : Machine → SessionLabel → Machine → Prop
  | drive {m m' : Machine} (h : m.drive st a = some m') : SessionStep st a m .drive m'
  | receive {m : Machine} {bytes : Bytes}
      (h : m.conn.transport = .tcp ∨ m.conn.state = .nread ∨ m.conn.state = .swallow) :
      SessionStep st a m (.receive bytes) { m with input := m.input ++ bytes }
  | datagram {m : Machine} {payload : Bytes} (ht : m.conn.transport = .udp)
      (hst : m.conn.state = .newCmd ∨ m.conn.state = .parseCmd ∨ m.conn.state = .read)
      (hstop : m.drive st a = none) :
      -- what was left of the datagram before is lost
      SessionStep st a m (.datagram payload) { m with
        conn := { m.conn with state := .parseCmd, datagramHead := payload.headD 0 }
        input := payload }
  | fail {m : Machine} :
      SessionStep st a m .fail { m with conn := { m.conn with state := .closing } }
  | cleanup {m : Machine} (ht : m.conn.transport = .udp) (hst : m.conn.state = .closing) :
      SessionStep st a m .cleanup { m with conn := { m.conn with state := .read } }

/-! ## The property -/

/-- A command line that reads or modifies the store. -/
def storeLine (command : Bytes) : Bool :=
  let tokens := (tokenizeCommand command).1
  let ntokens := tokens.length + 1
  let word := tokens.headD []
  getCommand ntokens word || (updateCommand ntokens word).isSome ||
    (decide (ntokens = 3) && word == ascii "delete") ||
    (noreplyCommand ntokens tokens && word != ascii "verbosity" && word != ascii "slabs")

/-- The commands that are complete with such a substate read or modify the store. -/
def Substate.gated : Substate → Bool
  | .noState | .readingSaslAuth | .readingSaslAuthData => false
  | _ => true

/-- A command that reads or modifies the store is executed. -/
def ConnEvent.access : ConnEvent → Bool
  | .line command => storeLine command
  | .data _ => true
  | .body substate _ _ => substate.gated
  | _ => false

/-- How far an authentication exchange has come. -/
inductive Exchange
  /-- It is asked for, and no more has come of it: it is on its way, or it was refused. -/
  | begun
  /-- The SASL library has judged it. -/
  | ended (r : SaslAnswer)
  deriving DecidableEq, Repr

/-- A request for an exchange, or for its next step. -/
def BinHeader.asksSasl (h : BinHeader) : Bool :=
  h.magic = binaryReq ∧
    (Opcode.ofByte h.opcode = some .saslAuth ∨ Opcode.ofByte h.opcode = some .saslStep)

/-- What an event makes of the most recent exchange. -/
def ConnEvent.exchange (last : Option Exchange) : ConnEvent → Option Exchange
  | .header h => if h.asksSasl then some .begun else last
  | .sasl r => some (.ended r)
  | _ => last

/-- The most recent authentication exchange. -/
def lastExchange (log : List ConnEvent) : Option Exchange := log.foldl ConnEvent.exchange none

/-- **The property of one connection**: a command is executed only when the most recent exchange
before it has ended in success. -/
def Gated (log : List ConnEvent) : Prop :=
  ∀ pre e post, log = pre ++ e :: post → e.access = true → lastExchange pre = some (.ended .ok)

/-- The connection is about to refuse an exchange: the mechanism is too long, or there is no memory
for the item that takes the data. -/
def Machine.RefusesExchange (a : Answers) (m : Machine) : Prop :=
  m.conn.state = .nread ∧ m.conn.rlbytes = 0 ∧ m.conn.substate = .readingSaslAuth ∧
    (maxSaslMechLen < m.conn.header.keylen.toNat ∨
      a.alloc m.log m.conn.header.keylen.toNat 0 (m.conn.binVlen 0) ≠ .ok)

/-- **A step that keeps the gate**: a datagram starts as a binary request does, and an authenticated
connection does not go on behind an exchange that was refused or broken off. -/
def Machine.KeepsGate (a : Answers) (m : Machine) : SessionLabel → Prop
  | .datagram payload => payload.headD 0 = binaryReq
  | .drive => m.RefusesExchange a → m.conn.authenticated = false
  | .cleanup => lastExchange m.log = some .begun → m.conn.authenticated = false
  | .receive _ | .fail => True

variable {st : ConnSettings} {a : Answers} {m m' : Machine} {c d e : Connection}
  {log : List ConnEvent}

/-- The last exchange, with one more event. -/
@[simp] theorem lastExchange_append (ev : ConnEvent) :
    lastExchange (log ++ [ev]) = ev.exchange (lastExchange log) := by
  rw [lastExchange, List.foldl_append, List.foldl_cons, List.foldl_nil, ← lastExchange]

/-- One more event, which is no access or follows a success. -/
theorem Gated.append (h : Gated log) {ev : ConnEvent}
    (hev : ev.access = true → lastExchange log = some (.ended .ok)) : Gated (log ++ [ev]) := by
  intro pre e post heq hacc
  rcases List.eq_nil_or_concat post with rfl | ⟨post', x, rfl⟩
  · obtain ⟨rfl, he⟩ := List.append_inj' heq rfl
    obtain rfl := (List.cons.inj he).1
    exact hev hacc
  · rw [List.concat_eq_append, ← List.cons_append, ← List.append_assoc] at heq
    exact h pre e post' (List.append_inj' heq rfl).1 hacc

/-! ## What the handlers keep -/

namespace Connection

/-- A handler has made `d` of `c`: it has not changed protocols and has given no access. -/
structure Kept (c d : Connection) : Prop where
  protocol : d.protocol = c.protocol
  transport : d.transport = c.transport
  datagramHead : d.datagramHead = c.datagramHead
  authenticated : d.authenticated = true → c.authenticated = true
  writeAndGo : c.writeAndGo ≠ .nread → d.writeAndGo ≠ .nread

/-- What two steps keep, both keep. -/
theorem Kept.trans (h : c.Kept d) (h' : d.Kept e) : c.Kept e where
  protocol := h'.protocol.trans h.protocol
  transport := h'.transport.trans h.transport
  datagramHead := h'.datagramHead.trans h.datagramHead
  authenticated := h.authenticated ∘ h'.authenticated
  writeAndGo := h'.writeAndGo ∘ h.writeAndGo

/-- An error keeps the gate. -/
theorem kept_writeBinError (n : ℤ) : c.Kept (c.writeBinError n) := by
  rw [writeBinError]
  split <;> exact ⟨rfl, rfl, rfl, id, fun _ => by simp⟩

/-- A response keeps the gate. -/
theorem kept_writeBinResponse (keeps : Bool) : c.Kept (c.writeBinResponse keeps) := by
  rw [writeBinResponse]
  split
  · exact ⟨rfl, rfl, rfl, id, fun _ => by simp⟩
  · exact ⟨rfl, rfl, rfl, id, id⟩

/-- An answer keeps the gate. -/
theorem kept_answer (keeps : Bool) : c.Kept (c.answer a log keeps) := by
  rw [answer]
  split
  · exact kept_writeBinResponse keeps
  · exact kept_writeBinError 0

/-- A protocol error keeps the gate. -/
theorem kept_protocolError : c.Kept c.handleBinaryProtocolError :=
  (kept_writeBinError 0).trans ⟨rfl, rfl, rfl, id, fun _ => by simp [handleBinaryProtocolError]⟩

/-- A refused value keeps the gate. -/
theorem kept_refuseValue (n : ℤ) : c.Kept (c.refuseValue n) :=
  (kept_writeBinError n).trans ⟨rfl, rfl, rfl, id, fun _ => by simp [refuseValue]⟩

/-- Reading a key keeps the gate. -/
theorem kept_binReadKey (substate : Substate) (extra : ℕ) :
    c.Kept (c.binReadKey a log substate extra) := by
  rw [binReadKey]
  split <;> exact ⟨rfl, rfl, rfl, id, id⟩

/-- The list of mechanisms keeps the gate. -/
theorem kept_binListSaslMechs : c.Kept (c.binListSaslMechs st a log) := by
  have hreset : c.Kept { c with authenticated := false } :=
    ⟨rfl, rfl, rfl, fun h => absurd h (by simp), id⟩
  rw [binListSaslMechs]
  split
  · exact kept_writeBinError _
  · split
    · exact hreset.trans (kept_writeBinResponse false)
    · exact hreset.trans (kept_writeBinError 0)

/-- What a request does before its key is read keeps the gate. -/
theorem kept_dispatchSwitch : c.Kept (c.dispatchSwitch st a log) := by
  rw [dispatchSwitch]
  split <;> (try split) <;> first
    | exact kept_writeBinError _
    | exact kept_protocolError
    | exact kept_writeBinResponse _
    | exact kept_binReadKey _ _
    | exact kept_binListSaslMechs
    | skip
  split
  · exact (kept_writeBinResponse false).trans ⟨rfl, rfl, rfl, id, fun _ => by simp⟩
  · exact (kept_writeBinResponse false).trans ⟨rfl, rfl, rfl, id, fun _ => by simp⟩

/-- A header keeps the gate. -/
theorem kept_readBinCommand (h : BinHeader) : c.Kept (c.readBinCommand st a log h) := by
  rw [readBinCommand]
  split
  · exact ⟨rfl, rfl, rfl, id, id⟩
  · have hc : ∀ cmd noreply, c.Kept { c with header := h, cmd := cmd, noreply := noreply } :=
      fun _ _ => ⟨rfl, rfl, rfl, id, id⟩
    rw [dispatchBinCommand]
    split
    · exact (hc (Opcode.ofByte h.opcode) c.noreply).trans ((kept_writeBinError 0).trans
        ⟨rfl, rfl, rfl, id, fun _ => by simp⟩)
    · split
      · exact (hc _ true).trans kept_protocolError
      · exact (hc _ _).trans kept_dispatchSwitch

/-- What has been read keeps the gate, unless it is the data of an exchange. -/
theorem kept_completeNreadBinary (h : c.substate ≠ .readingSaslAuthData) :
    c.Kept (c.completeNreadBinary st a log) := by
  rw [completeNreadBinary]
  cases hs : c.substate <;> simp only
  case readingSetHeader =>
    split <;> rw [processBinUpdate] <;> split
    all_goals first
      | exact ⟨rfl, rfl, rfl, id, id⟩
      | exact kept_refuseValue _
  case readingGetKey | readingTouchKey =>
    split
    · exact ⟨rfl, rfl, rfl, id, fun _ => by simp⟩
    · split
      · exact ⟨rfl, rfl, rfl, id, id⟩
      · exact kept_writeBinError 0
  case readingSaslAuth =>
    simp only [processBinSaslAuth]
    split
    · exact kept_writeBinError _
    · split
      · exact kept_refuseValue _
      · split
        · exact ⟨rfl, rfl, rfl, id, id⟩
        · exact kept_refuseValue _
  case readingSaslAuthData => exact absurd hs h
  case noState => exact ⟨rfl, rfl, rfl, id, id⟩
  all_goals exact kept_answer _

variable (a log) in
/-- The end of an exchange decides on access. -/
theorem completeSaslAuth_spec (hgo : c.writeAndGo ≠ .nread) :
    let d := c.processBinCompleteSaslAuth a log
    d.protocol = c.protocol ∧ d.transport = c.transport ∧ d.datagramHead = c.datagramHead ∧
      d.state ≠ .nread ∧ d.writeAndGo ≠ .nread ∧
      (d.authenticated = true → a.sasl log = .ok) := by
  simp only [processBinCompleteSaslAuth]
  split
  · rename_i hok
    simp only [writeBinResponse]
    split
    · exact ⟨rfl, rfl, rfl, by simp, by simp, fun _ => hok⟩
    · exact ⟨rfl, rfl, rfl, by simp, hgo, fun _ => hok⟩
  · exact ⟨rfl, rfl, rfl, by simp, by simp, fun h => absurd h (by simp)⟩
  · rw [writeBinError, if_neg (by omega)]
    exact ⟨rfl, rfl, rfl, by simp, by simp, fun h => absurd h (by simp)⟩

/-! ## The gate -/

/-- An error is written next. -/
theorem state_writeBinError (n : ℤ) : (c.writeBinError n).state = .mwrite := by
  rw [writeBinError]
  split <;> rfl

/-- After a response nothing is left to be read. -/
theorem state_writeBinResponse (keeps : Bool) : (c.writeBinResponse keeps).state ≠ .nread := by
  rw [writeBinResponse]
  split <;> simp

/-- What is let through: an authenticated connection, or one of four commands. -/
theorem isAuthenticated_cases {cmd : Option Opcode} (h : c.isAuthenticated cmd = true) :
    c.authenticated = true ∨ cmd = some .saslListMechs ∨ cmd = some .saslAuth ∨
      cmd = some .saslStep ∨ cmd = some .version := by
  unfold isAuthenticated at h
  split at h
  · exact Or.inr (Or.inl rfl)
  · exact Or.inr (Or.inr (Or.inl rfl))
  · exact Or.inr (Or.inr (Or.inr (Or.inl rfl)))
  · exact Or.inr (Or.inr (Or.inr (Or.inr rfl)))
  · exact Or.inl h

/-- The gate does not tell quiet commands from loud ones. -/
theorem isAuthenticated_loud (cmd : Option Opcode) :
    c.isAuthenticated (cmd.map Opcode.loud) = c.isAuthenticated cmd := by
  cases cmd with
  | none => rfl
  | some op => cases op <;> rfl

/-- The commands that need no authentication do not run a command of the store. -/
theorem gated_dispatchSwitch (h : c.isAuthenticated c.cmd = true)
    (hst : (c.dispatchSwitch st a log).state = .nread)
    (hg : (c.dispatchSwitch st a log).substate.gated = true) : c.authenticated = true := by
  rcases isAuthenticated_cases h with h | hcmd | hcmd | hcmd | hcmd
  · exact h
  all_goals simp only [dispatchSwitch, hcmd] at hst hg
  case inr.inl =>
    split at hst
    · rw [binListSaslMechs] at hst
      split at hst
      · exact absurd hst (by simp [state_writeBinError])
      · split at hst
        · exact absurd hst (state_writeBinResponse _)
        · exact absurd hst (by simp [state_writeBinError])
    · exact absurd hst (by simp [handleBinaryProtocolError, state_writeBinError])
  case inr.inr.inl | inr.inr.inr.inl =>
    split at hst
    · rename_i hlens
      rw [if_pos hlens, binReadKey] at hg
      rw [binReadKey] at hst
      split at hst
      · rename_i hgrow
        rw [if_pos hgrow] at hg
        exact absurd hg (by simp [Substate.gated])
      · exact absurd hst (by simp)
    · exact absurd hst (by simp [handleBinaryProtocolError, state_writeBinError])
  case inr.inr.inr.inr =>
    split at hst
    · exact absurd hst (state_writeBinResponse _)
    · exact absurd hst (by simp [handleBinaryProtocolError, state_writeBinError])

/-- **The gate**: `dispatch_bin_command` goes on to a command of the store only on an authenticated
connection. -/
theorem gated_readBinCommand (hsasl : st.sasl = true) (h : BinHeader)
    (hst : (c.readBinCommand st a log h).state = .nread)
    (hg : (c.readBinCommand st a log h).substate.gated = true) : c.authenticated = true := by
  rw [readBinCommand] at hst hg
  split at hst
  · exact absurd hst (by simp)
  rename_i hmagic
  rw [if_neg hmagic, dispatchBinCommand] at hg
  rw [dispatchBinCommand] at hst
  split at hst
  · exact absurd hst (by simp [state_writeBinError])
  rename_i hauth
  rw [if_neg hauth] at hg
  split at hst
  · exact absurd hst (by simp [handleBinaryProtocolError, state_writeBinError])
  rename_i hkey
  rw [if_neg hkey] at hg
  have hauth' : c.isAuthenticated (Opcode.ofByte h.opcode) = true := by
    by_contra hno
    exact hauth ⟨hsasl, (Bool.not_eq_true _).mp hno⟩
  refine gated_dispatchSwitch (c := { c with
    header := h
    cmd := (Opcode.ofByte h.opcode).map Opcode.loud
    noreply := (Opcode.ofByte h.opcode).any Opcode.quiet }) ?_ hst hg
  rw [isAuthenticated_loud]
  exact hauth'

/-- An exchange is on its way, or the connection is about to close. -/
def Pending (c : Connection) : Prop :=
  c.state = .nread ∧ (c.substate = .readingSaslAuth ∨ c.substate = .readingSaslAuthData) ∨
    c.state = .mwrite ∧ c.writeAndGo = .closing ∨ c.state = .closing

/-- A malformed request closes the connection next. -/
theorem pending_protocolError (c : Connection) : c.handleBinaryProtocolError.Pending :=
  Or.inr (Or.inl ⟨state_writeBinError (c := c) 0, rfl⟩)

/-- An exchange that is not on its way closes the connection. -/
theorem pending_dispatchSwitch (h : c.cmd = some .saslAuth ∨ c.cmd = some .saslStep) :
    (c.dispatchSwitch st a log).Pending := by
  have hread : (c.binReadKey a log .readingSaslAuth 0).Pending := by
    rw [binReadKey]
    split
    · exact Or.inl ⟨rfl, Or.inl rfl⟩
    · exact Or.inr (Or.inr rfl)
  rw [dispatchSwitch]
  obtain hcmd | hcmd := h <;>
  · simp only [hcmd]
    split
    · exact hread
    · exact pending_protocolError c

/-- **A request for an exchange** reads on, or closes the connection. -/
theorem pending_readBinCommand {h : BinHeader} (hasks : h.asksSasl = true) :
    (c.readBinCommand st a log h).Pending := by
  obtain ⟨hmagic, hop⟩ : h.magic = binaryReq ∧
      (Opcode.ofByte h.opcode = some .saslAuth ∨ Opcode.ofByte h.opcode = some .saslStep) := by
    simpa [BinHeader.asksSasl] using hasks
  rw [readBinCommand, if_neg (not_not.mpr hmagic), dispatchBinCommand]
  have hauth : ∀ c : Connection, c.isAuthenticated (Opcode.ofByte h.opcode) = true := by
    intro c
    obtain hop | hop := hop <;> rw [hop] <;> rfl
  rw [if_neg (by simp [hauth])]
  split
  · exact pending_protocolError _
  · apply pending_dispatchSwitch
    obtain hop | hop := hop <;> simp [hop, Opcode.loud]

/-- A command of the store is not begun by completing another one. -/
theorem gated_completeNreadBinary (hst : (c.completeNreadBinary st a log).state = .nread)
    (hg : (c.completeNreadBinary st a log).substate.gated = true) : c.substate.gated = true := by
  cases hs : c.substate
  case noState =>
    rw [completeNreadBinary, hs] at hg
    rw [← hs]
    exact hg
  case readingSaslAuth =>
    simp only [completeNreadBinary, hs, processBinSaslAuth] at hst hg
    split at hst
    · exact absurd hst (by simp [state_writeBinError])
    rename_i hon
    rw [if_neg hon] at hg
    split at hst
    · exact absurd hst (by simp [refuseValue, state_writeBinError])
    rename_i hlong
    rw [if_neg hlong] at hg
    split at hst
    · rename_i hok
      rw [hok] at hg
      exact absurd hg (by simp [readValue, Substate.gated])
    · exact absurd hst (by simp [refuseValue, state_writeBinError])
  case readingSaslAuthData =>
    simp only [completeNreadBinary, hs, processBinCompleteSaslAuth] at hst
    split at hst
    · exact absurd hst (state_writeBinResponse _)
    · exact absurd hst (by simp)
    · exact absurd hst (by simp [state_writeBinError])
  all_goals rfl

end Connection

/-! ## Runs -/

/-- **The invariant**: the protocol is binary, access is what the last exchange has given, unless
that exchange is on its way or the connection closes, and a command of the store is read only with
access. -/
structure GateInv (m : Machine) : Prop where
  protocol : m.conn.protocol = .binary
  head : m.conn.transport = .udp →
    m.conn.datagramHead = binaryReq ∨ m.conn.state = .read ∨ m.conn.state = .closing
  authenticated : m.conn.authenticated = true →
    lastExchange m.log = some (.ended .ok) ∨ lastExchange m.log = some .begun ∧ m.conn.Pending
  nread : m.conn.state = .nread → m.conn.substate.gated = true →
    lastExchange m.log = some (.ended .ok)
  writeAndGo : m.conn.writeAndGo ≠ .nread
  gated : Gated m.log

/-- Between two commands no exchange is on its way. -/
theorem GateInv.settled (h : GateInv m) (hp : ¬ m.conn.Pending) (ha : m.conn.authenticated = true) :
    lastExchange m.log = some (.ended .ok) :=
  (h.authenticated ha).resolve_right fun hb => hp hb.2

/-- A step that records nothing of an exchange, and only changes the state of the connection and
what it reads. -/
theorem GateInv.of_kept (h : GateInv m) (hst : m.conn.state ≠ .read ∧ m.conn.state ≠ .closing)
    (hk : m.conn.Kept m'.conn) (hlog : lastExchange m'.log = lastExchange m.log)
    (hgated : Gated m'.log)
    (hpend : m'.conn.authenticated = true → m.conn.Pending → m'.conn.Pending)
    (hnread : m'.conn.state = .nread → m'.conn.substate.gated = true →
      lastExchange m.log = some (.ended .ok)) : GateInv m' where
  protocol := hk.protocol.trans h.protocol
  head := fun ht => by
    rw [hk.datagramHead]
    exact Or.inl ((h.head (hk.transport ▸ ht)).resolve_right (not_or.mpr hst))
  authenticated := fun ha => by
    rw [hlog]
    exact (h.authenticated (hk.authenticated ha)).imp id fun hb => ⟨hb.1, hpend ha hb.2⟩
  nread := fun hs hg => hlog ▸ hnread hs hg
  writeAndGo := hk.writeAndGo h.writeAndGo
  gated := hgated

/-- A command is complete, or an exchange. -/
theorem GateInv.completeNread {input : Bytes} (hsasl : st.sasl = true) (h : GateInv ⟨c, input, log⟩)
    (hs : c.state = .nread) (hr : c.rlbytes = 0)
    (hkeeps : Machine.KeepsGate a ⟨c, input, log⟩ .drive) :
    GateInv ⟨(c.completeNread st a log).1, input, log ++ (c.completeNread st a log).2⟩ := by
  have hgated : Gated (log ++ [.body c.substate c.header c.received]) :=
    h.gated.append fun hacc => h.nread hs hacc
  have hlast : lastExchange (log ++ [.body c.substate c.header c.received]) = lastExchange log :=
    lastExchange_append _
  rw [Connection.completeNread, if_pos h.protocol]
  by_cases hsub : c.substate = .readingSaslAuthData
  · have hc : c.completeNreadBinary st a log = c.processBinCompleteSaslAuth a log := by
      rw [Connection.completeNreadBinary, hsub]
    obtain ⟨hp, ht, hh, hst, hgo, hok⟩ := Connection.completeSaslAuth_spec a log
      h.writeAndGo
    simp only [if_pos hsub, hc]
    rw [List.append_cons]
    exact {
      protocol := hp.trans h.protocol
      head := fun hu => by
        simp only at hu ⊢
        rw [hh]
        exact Or.inl ((h.head (ht ▸ hu)).resolve_right (by simp [hs]))
      authenticated := fun ha => Or.inl (by rw [lastExchange_append, ConnEvent.exchange, hok ha])
      nread := fun hn => absurd hn hst
      writeAndGo := hgo
      gated := hgated.append fun hacc => absurd hacc (by simp [ConnEvent.access]) }
  · simp only [if_neg hsub]
    refine h.of_kept (by simp [hs]) (Connection.kept_completeNreadBinary hsub) hlast hgated
      (fun ha hpend => ?_) fun hn hg => h.nread hs (Connection.gated_completeNreadBinary hn hg)
    -- the mechanism has been read, and the exchange goes on
    have hsub' : c.substate = .readingSaslAuth := by
      simpa [Connection.Pending, hs, hsub] using hpend
    have hkept : c.Kept (c.completeNreadBinary st a log) := Connection.kept_completeNreadBinary hsub
    have hauth : c.authenticated = true := hkept.authenticated ha
    have hgo : ¬ Machine.RefusesExchange a ⟨c, input, log⟩ := fun href =>
      absurd hauth (by simp [show c.authenticated = false from hkeeps href])
    have hfits : c.header.keylen.toNat ≤ maxSaslMechLen ∧
        a.alloc log c.header.keylen.toNat 0 (c.binVlen 0) = .ok := by
      simpa [Machine.RefusesExchange, hs, hr, hsub'] using hgo
    simp only [Connection.completeNreadBinary, hsub', Connection.processBinSaslAuth]
    rw [if_neg (by simp [hsasl]), if_neg (by simpa using hfits.1), hfits.2]
    exact Or.inl ⟨rfl, Or.inr rfl⟩

/-- A header is taken from the stream. -/
theorem GateInv.readBinCommand {input : Bytes} (hsasl : st.sasl = true)
    (h : GateInv ⟨c, input, log⟩) (hs : c.state = .parseCmd) (hd : BinHeader) (rest : Bytes) :
    GateInv ⟨c.readBinCommand st a log hd, rest, log ++ [.header hd]⟩ := by
  have hk : c.Kept (c.readBinCommand st a log hd) := Connection.kept_readBinCommand hd
  have hidle : ¬ c.Pending := by simp [Connection.Pending, hs]
  refine ⟨hk.protocol.trans h.protocol, fun ht => ?_, fun ha => ?_, fun hn hg => ?_,
    hk.writeAndGo h.writeAndGo, h.gated.append fun hacc => absurd hacc (by simp [ConnEvent.access])⟩
  · rw [hk.datagramHead]
    exact Or.inl ((h.head (hk.transport ▸ ht)).resolve_right (by simp [hs]))
  · rw [lastExchange_append, ConnEvent.exchange]
    split
    · rename_i hasks
      exact Or.inr ⟨rfl, Connection.pending_readBinCommand hasks⟩
    · exact Or.inl (h.settled hidle (hk.authenticated ha))
  · rw [lastExchange_append, ConnEvent.exchange]
    split
    · rename_i hasks
      have hsub : (c.readBinCommand st a log hd).substate = .readingSaslAuth ∨
          (c.readBinCommand st a log hd).substate = .readingSaslAuthData := by
        have hpend : (c.readBinCommand st a log hd).Pending :=
          Connection.pending_readBinCommand hasks
        have hn : (c.readBinCommand st a log hd).state = .nread := hn
        simpa [Connection.Pending, hn] using hpend
      obtain hsub | hsub := hsub <;>
      · rw [hsub] at hg
        exact absurd hg (by decide)
    · exact h.settled hidle (Connection.gated_readBinCommand hsasl hd hn hg)

/-- **One round of `drive_machine`** keeps the gate. -/
theorem GateInv.drive (hsasl : st.sasl = true) (h : GateInv m) (hkeeps : m.KeepsGate a .drive)
    (e : m.drive st a = some m') : GateInv m' := by
  obtain ⟨c, input, log⟩ := m
  rw [Machine.drive] at e
  cases hs : c.state <;> simp only [hs] at e
  case newCmd =>
    split at e
    · exact absurd e (by simp)
    · obtain rfl := Option.some.inj e
      exact h.of_kept (by simp [hs]) ⟨rfl, rfl, rfl, id, id⟩ rfl h.gated
        (fun _ hp => absurd hp (by simp [Connection.Pending, hs])) (fun hn => absurd hn (by simp))
  case parseCmd =>
    -- a datagram reaches the parser only under the binary magic
    have hneg : c.negotiate (c.firstByte input) = c := by
      have hp : c.protocol = .binary := h.protocol
      rw [Connection.negotiate, Connection.firstByte]
      split
      · rename_i hor
        have ht : c.transport = .udp := hor.resolve_left (by simp [hp])
        have hhead : c.datagramHead = binaryReq :=
          (h.head ht).resolve_right (by simp [hs])
        rw [if_pos ht, if_pos hhead, ← hp]
      · rfl
    simp only [Machine.tryReadCommand, hneg] at e
    rw [if_pos h.protocol] at e
    split at e
    · exact absurd e (by simp)
    · obtain rfl := Option.some.inj e
      exact h.readBinCommand hsasl hs _ _
  case nread =>
    simp only [Machine.nread] at e
    split at e
    · rename_i hr
      obtain rfl := Option.some.inj e
      exact h.completeNread hsasl hs hr hkeeps
    · split at e
      · obtain rfl := Option.some.inj e
        exact h.of_kept (by simp [hs]) ⟨rfl, rfl, rfl, id, id⟩ rfl h.gated
          (fun _ _ => Or.inr (Or.inr rfl)) fun hn => absurd hn (by simp)
      · split at e
        · exact absurd e (by simp)
        · obtain rfl := Option.some.inj e
          exact h.of_kept (by simp [hs]) ⟨rfl, rfl, rfl, id, id⟩ rfl h.gated (fun _ hp => hp)
            fun _ => h.nread hs
  case swallow =>
    -- what is swallowed is no request of the library
    have hidle : ¬ c.Pending := by simp [Connection.Pending, hs]
    simp only [Machine.swallow] at e
    split at e
    · obtain rfl := Option.some.inj e
      exact h.of_kept (by simp [hs]) ⟨rfl, rfl, rfl, id, id⟩ (lastExchange_append _)
        (h.gated.append fun hacc => absurd hacc (by simp [ConnEvent.access]))
        (fun _ hp => absurd hp hidle) fun hn => absurd hn (by simp)
    · split at e
      · exact absurd e (by simp)
      · obtain rfl := Option.some.inj e
        exact h.of_kept (by simp [hs]) ⟨rfl, rfl, rfl, id, id⟩ rfl h.gated
          (fun _ hp => absurd hp hidle) fun hn => absurd (hs.symm.trans hn) (by simp)
  case write | mwrite =>
    obtain rfl := Option.some.inj e
    have hp : c.protocol = .binary := h.protocol
    refine h.of_kept (by simp [hs]) ⟨rfl, rfl, rfl, id, id⟩ rfl h.gated (fun _ hpend => ?_)
      fun hn => ?_
    · obtain ⟨hn, -⟩ | ⟨-, hgo⟩ | hc := hpend
      · exact absurd (hs.symm.trans hn) (by simp)
      · have hgo : c.writeAndGo = .closing := hgo
        exact Or.inr (Or.inr (by simp [Connection.afterWrite, hp, hgo]))
      · exact absurd (hs.symm.trans hc) (by simp)
    · simp only [Connection.afterWrite] at hn
      split at hn
      · exact absurd hn (by simp)
      · exact absurd hn h.writeAndGo
  all_goals exact absurd e (by simp)

/-- Every step keeps the gate, if datagrams are binary and no exchange is left behind. -/
theorem GateInv.step {l : SessionLabel} (hsasl : st.sasl = true) (h : GateInv m)
    (hl : m.KeepsGate a l) (hstep : SessionStep st a m l m') : GateInv m' := by
  cases hstep with
  | drive e => exact h.drive hsasl hl e
  | receive _ => exact ⟨h.protocol, h.head, h.authenticated, h.nread, h.writeAndGo, h.gated⟩
  | datagram ht hst hstop =>
      have hidle : ¬ m.conn.Pending := by
        obtain hst | hst | hst := hst <;> simp [Connection.Pending, hst]
      exact ⟨h.protocol, fun _ => Or.inl hl, fun ha => Or.inl (h.settled hidle ha),
        fun hn => absurd hn (by simp), h.writeAndGo, h.gated⟩
  | fail =>
      exact ⟨h.protocol, fun _ => Or.inr (Or.inr rfl),
        fun ha => (h.authenticated ha).imp id fun hb => ⟨hb.1, Or.inr (Or.inr rfl)⟩,
        fun hn => absurd hn (by simp), h.writeAndGo, h.gated⟩
  | cleanup ht hst =>
      have hleft : m.conn.authenticated = true → lastExchange m.log ≠ some .begun :=
        fun ha hb => absurd ha (by simp [show m.conn.authenticated = false from hl hb])
      exact ⟨h.protocol, fun _ => Or.inr (Or.inl rfl),
        fun ha => Or.inl ((h.authenticated ha).resolve_right fun hb => hleft ha hb.1),
        fun hn => absurd hn (by simp), h.writeAndGo, h.gated⟩

/-- A connection of a server with SASL speaks the binary protocol. -/
theorem gateInv_connNew {specified : Option Protocol} {protocol : Protocol}
    (h : bindingProtocol true specified = some protocol) (transport : Transport) :
    GateInv ⟨connNew protocol transport, [], []⟩ where
  protocol := by
    simp only [bindingProtocol, if_true] at h
    split at h
    · exact (Option.some.inj h).symm
    · split at h
      · exact absurd h (by simp)
      · exact (Option.some.inj h).symm
  head ht := Or.inr (Or.inl (if_pos ht))
  authenticated ha := absurd ha (by simp [connNew])
  nread hn := by
    simp only [connNew] at hn
    split at hn <;> exact absurd hn (by simp)
  writeAndGo := by simp [connNew]
  gated pre e post heq := absurd heq (by simp)

/-- A server with SASL on which nothing fails. -/
def ConnSettings.withSasl : ConnSettings := ⟨true, false⟩

/-- Everything succeeds. -/
def Answers.willing : Answers where
  alloc _ _ _ _ := .ok
  grow _ := true
  done _ := true
  listmech _ := true
  sasl _ := .ok

instance (a : Answers) (m : Machine) : Decidable (m.RefusesExchange a) := by
  unfold Machine.RefusesExchange
  infer_instance

/-- A session over TCP; a careful one stops before an exchange is refused. -/
def Machine.next (careful : Bool) (m : Machine) : SessionLabel → Option Machine
  | .drive =>
      if careful = true ∧ m.RefusesExchange .willing then none else m.drive .withSasl .willing
  | .receive bytes =>
      if m.conn.transport = .tcp then some { m with input := m.input ++ bytes } else none
  | _ => none

/-- A script whose steps all go through is a run. -/
theorem run_next {careful : Bool} {ls : List SessionLabel} {m m' : Machine}
    (h : ls.foldlM (Machine.next careful) m = some m') :
    Run (fun m l m' => SessionStep .withSasl .willing m l m' ∧
      (careful = true → m.KeepsGate .willing l)) m ls m' := by
  refine (Run.of_foldlM h).mono (P := fun _ => True) trivial fun {m l m'} _ hn => ⟨?_, trivial⟩
  cases l with
  | drive =>
      simp only [Machine.next] at hn
      split at hn
      · exact absurd hn (by simp)
      · rename_i hkeeps
        exact ⟨.drive hn, fun hc href => absurd ⟨hc, href⟩ hkeeps⟩
  | receive bytes =>
      simp only [Machine.next] at hn
      split at hn
      · rename_i ht
        obtain rfl := Option.some.inj hn
        exact ⟨.receive (Or.inl ht), fun _ => trivial⟩
      · exact absurd hn (by simp)
  | datagram | fail | cleanup => exact absurd hn (by simp [Machine.next])

/-- A new TCP connection gets bytes, which are worked off in `n` rounds. -/
def tcpSession (careful : Bool) (bytes : Bytes) (n : ℕ) : Option Machine :=
  (.receive bytes :: List.replicate n .drive).foldlM (Machine.next careful)
    ⟨connNew .binary .tcp, [], []⟩

/-- A binary request without extras. -/
def binRequest (opcode : UInt8) (key value : Bytes) : Bytes :=
  [binaryReq, opcode, 0, UInt8.ofNat key.length, 0, 0, 0, 0, 0, 0, 0,
    UInt8.ofNat (key.length + value.length)] ++ List.replicate 12 0 ++ key ++ value

/-- An `AUTH` request with mechanism `PLAIN`. -/
def plainAuth : Bytes := binRequest 0x21 (ascii "PLAIN") (ascii "x")

/-- **The gate stays open behind a refused exchange**: a mechanism of 33 bytes is refused before
the SASL library sees it, and the access of the exchange before is kept. -/
theorem access_after_refusal : ∃ ls m,
    Run (SessionStep .withSasl .willing) ⟨connNew .binary .tcp, [], []⟩ ls m ∧ ¬ Gated m.log := by
  have hend : (tcpSession false (plainAuth ++ binRequest 0x21 (List.replicate 33 97) (ascii "x") ++
      binRequest 0 (ascii "k") []) 18).map (fun m => (m.log.getLast?.map ConnEvent.access,
        lastExchange m.log.dropLast)) = some (some true, some .begun) := by
    decide +kernel
  obtain ⟨m, hm, heq⟩ := Option.map_eq_some_iff.mp hend
  obtain ⟨ev, hev, hacc⟩ := Option.map_eq_some_iff.mp (congrArg Prod.fst heq)
  have hlast : lastExchange m.log.dropLast = some .begun := congrArg Prod.snd heq
  refine ⟨_, m, (run_next hm).mono (P := fun _ => True) trivial fun _ h => ⟨h.1, trivial⟩,
    fun hgated => ?_⟩
  have hok := hgated m.log.dropLast ev [] (List.dropLast_append_getLast? ev hev).symm hacc
  rw [hlast] at hok
  exact absurd hok (by simp)

/-- What a datagram leads to on a new UDP connection, up to the end of its first command. -/
def udpServed (payload : Bytes) : Option Machine :=
  Machine.drive .withSasl .willing
    ⟨{ connNew .binary .udp with state := .parseCmd, datagramHead := payload.headD 0 }, payload, []⟩

/-- A new UDP connection gets a datagram. -/
theorem run_udpServed {payload : Bytes} {m : Machine} (h : udpServed payload = some m) :
    Run (SessionStep .withSasl .willing) ⟨connNew .binary .udp, [], []⟩
      [.datagram payload, .drive] m :=
  .cons (.datagram rfl (Or.inr (Or.inr rfl)) rfl) (.single (.drive h))

end Memcached
