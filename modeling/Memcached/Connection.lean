import Memcached.Lib.Transition
import Memcached.Protocol

/-! # The connection state machine

`drive_machine` and the handlers it calls, as far as they read from the connection: which bytes are
taken as a command line, a header, a key or a value, and which are thrown away. What the rest of the
server answers (an item is allocated, a command succeeds, the SASL library accepts) is a parameter,
`Answers`. The bytes of the stream are all at hand here; `Segmentation` puts the read buffer and the
socket in their place.

* **`Connection`** — the fields of `conn` that decide what is read.
* **`ConnEvent`** — what a connection does, as far as it matters here.
* **`Machine.drive`** — one round of `drive_machine`. -/

namespace Memcached

open CNumber (Bytes)

/-! ## State -/

/-- `enum conn_states`, of a connection that is open. -/
inductive ConnState
  | newCmd
  | waiting
  | read
  | parseCmd
  | write
  | nread
  | swallow
  | closing
  | mwrite
  deriving DecidableEq, Repr

/-- `enum protocol`. -/
inductive Protocol
  | ascii
  | binary
  | negotiating
  deriving DecidableEq, Repr

/-- `enum network_transport`. -/
inductive Transport
  | tcp
  | udp
  deriving DecidableEq, Repr

/-- `enum bin_substates`. -/
inductive Substate
  | noState
  | readingSetHeader
  | readSetValue
  | readingGetKey
  | readingStat
  | readingDelHeader
  | readingIncrHeader
  | readFlushExptime
  | readingSaslAuth
  | readingSaslAuthData
  | readingTouchKey
  deriving DecidableEq, Repr

/-- How `item_alloc` ends, and on failure what `item_size_ok` says of the item. -/
inductive AllocAnswer
  | ok
  | tooLarge
  | noMemory
  deriving DecidableEq, Repr

/-- What the SASL library makes of an exchange. -/
inductive SaslAnswer
  | ok
  | continue
  | fail
  deriving DecidableEq, Repr

/-- What the connection does with the bytes it takes from the stream. -/
inductive ConnEvent
  /-- `process_command` gets a line. -/
  | line (command : Bytes)
  /-- `complete_nread_ascii` gets a data block. -/
  | data (block : Bytes)
  /-- `dispatch_bin_command` gets a header. -/
  | header (h : BinHeader)
  /-- `complete_nread_binary` gets what its substate asked for. -/
  | body (substate : Substate) (h : BinHeader) (bytes : Bytes)
  /-- The SASL library judged the payload. -/
  | sasl (r : SaslAnswer)
  /-- `conn_swallow` has thrown bytes away. -/
  | skipped (bytes : Bytes)
  deriving DecidableEq, Repr

/-- The settings the connection reads. -/
structure ConnSettings where
  /-- `settings.sasl`. -/
  sasl : Bool
  /-- `settings.shutdown_command`. -/
  shutdownCommand : Bool

/-- The answers of the rest of the server, which may depend on all that has happened. -/
structure Answers where
  /-- `item_alloc` for a key of `nkey` bytes, with `flags` and `nbytes`. -/
  alloc : List ConnEvent → (nkey : ℕ) → (flags nbytes : ℤ) → AllocAnswer
  /-- The `realloc` of `bin_read_key` succeeds, or is not needed. -/
  grow : List ConnEvent → Bool
  /-- The command at hand succeeds: a hit, stored, or no error. -/
  done : List ConnEvent → Bool
  /-- `sasl_listmech` succeeds. -/
  listmech : List ConnEvent → Bool
  /-- The result of `sasl_server_start` or `sasl_server_step`. -/
  sasl : List ConnEvent → SaslAnswer

/-- The fields of `conn` that decide what is read, and how. -/
structure Connection where
  state : ConnState := .newCmd
  protocol : Protocol
  transport : Transport := .tcp
  noreply : Bool := false
  /-- `write_and_go`, the state after the response. -/
  writeAndGo : ConnState := .newCmd
  /-- `sbytes`, what is left to throw away. -/
  sbytes : ℕ := 0
  /-- `rlbytes`, what is left to read. -/
  rlbytes : ℤ := 0
  /-- What has been read, up to `ritem`, or thrown away. -/
  received : Bytes := []
  /-- `cmd`, once `dispatch_bin_command` has made a quiet command a loud one. -/
  cmd : Option Opcode := none
  substate : Substate := .noState
  /-- `binary_header.request`. -/
  header : BinHeader := default
  authenticated : Bool := false
  /-- `rbuf[0]`, of the datagram in the buffer. -/
  datagramHead : UInt8 := 0
  deriving DecidableEq, Repr

namespace Connection

variable (st : ConnSettings) (a : Answers) (log : List ConnEvent) (c : Connection)

/-! ## Responses -/

/-- `out_string`. -/
def outString : Connection :=
  if c.noreply then { c with noreply := false, state := .newCmd }
  else { c with state := .write, writeAndGo := .newCmd }

/-- `write_bin_error`. -/
def writeBinError (swallow : ℤ) : Connection :=
  if swallow > 0 then
    { c with state := .mwrite, sbytes := swallow.toNat, writeAndGo := .swallow }
  else { c with state := .mwrite, writeAndGo := .newCmd }

/-- `write_bin_response`; `keeps` marks the commands that answer in spite of `noreply`. -/
def writeBinResponse (keeps : Bool) : Connection :=
  if !c.noreply || keeps then { c with state := .mwrite, writeAndGo := .newCmd }
  else { c with state := .newCmd }

/-- The end of a handler that only answers. -/
def answer (keeps : Bool) : Connection :=
  if a.done log then c.writeBinResponse keeps else c.writeBinError 0

/-! ## ASCII commands -/

/-- `set_noreply_maybe`. -/
def setNoreplyMaybe (tokens : List Bytes) : Connection :=
  if tokens.getLast? = some (Memcached.ascii "noreply") then { c with noreply := true } else c

/-- `process_update_command`. -/
def processUpdateCommand (tokens : List Bytes) (handleCas : Bool) : Connection :=
  let c := c.setNoreplyMaybe tokens
  let nkey := (tokens.getD 1 []).length
  if nkey > keyMaxLength then c.outString
  else
    match CNumber.safeStrtoul (tokens.getD 2 []), CNumber.safeStrtol (tokens.getD 3 []),
      CNumber.safeStrtol (tokens.getD 4 []) with
    | some flags, some _, some len =>
        if handleCas = true ∧ CNumber.safeStrtoull (tokens.getD 5 []) = none then c.outString
        else
          -- `vlen += 2` on an `int` wraps for the largest lengths
          let vlen := CNumber.toInt32 (len + 2)
          if vlen < 0 ∨ vlen - 2 < 0 then c.outString
          else
            match a.alloc log nkey (CNumber.toInt32 flags) vlen with
            | .ok => { c with rlbytes := vlen, received := [], state := .nread }
            -- the data block that the client sends all the same
            | _ => { c.outString with writeAndGo := .swallow, sbytes := vlen.toNat }
    | _, _, _ => c.outString

/-- `process_command`. Of the commands without a data block only the way they end is modelled. -/
def processCommand (command : Bytes) : Connection :=
  let tokens := (tokenizeCommand command).1
  let ntokens := tokens.length + 1
  let word := tokens.headD []
  if getCommand ntokens word then { c with state := .mwrite }
  else
    match updateCommand ntokens word with
    | some (_, handleCas) => c.processUpdateCommand a log tokens handleCas
    | none =>
        -- these look for `noreply` themselves
        if noreplyCommand ntokens tokens then (c.setNoreplyMaybe tokens).outString
        else if ntokens = 2 ∧ (word = Memcached.ascii "quit" ∨
            word = Memcached.ascii "shutdown" ∧ st.shutdownCommand = true) then
          { c with state := .closing }
        else c.outString

/-! ## Binary commands -/

/-- `handle_binary_protocol_error`. -/
def handleBinaryProtocolError : Connection := { c.writeBinError 0 with writeAndGo := .closing }

/-- `bin_read_key`. -/
def binReadKey (substate : Substate) (extra : ℕ) : Connection :=
  if a.grow log then
    { c with
      substate := substate
      rlbytes := c.header.keylen.toNat + extra
      received := []
      state := .nread }
  else { c with state := .closing }

/-- `authenticated()`: the commands that may come before the authentication, and those after. -/
def isAuthenticated (cmd : Option Opcode) : Bool :=
  match cmd with
  | some .saslListMechs | some .saslAuth | some .saslStep | some .version => true
  -- quiet commands are not known yet: the opcode is the one of the header
  | _ => c.authenticated

/-- `bin_list_sasl_mechs`. -/
def binListSaslMechs : Connection :=
  -- the body is thrown away, so that the stream stays in step
  if st.sasl = false then
    c.writeBinError (CNumber.toInt32 ((c.header.bodylen.toNat : ℤ) - c.header.keylen.toNat))
  else if a.listmech log then { c with authenticated := false }.writeBinResponse false
  else { c with authenticated := false }.writeBinError 0

/-- The second `switch` of `dispatch_bin_command`: check the lengths, and read the key. -/
def dispatchSwitch : Connection :=
  let extlen := c.header.extlen.toNat
  let keylen := c.header.keylen.toNat
  let bodylen := c.header.bodylen.toNat
  match c.cmd with
  | some .version | some .noop =>
      if extlen = 0 ∧ keylen = 0 ∧ bodylen = 0 then c.writeBinResponse false
      else c.handleBinaryProtocolError
  | some .flush =>
      if keylen = 0 ∧ bodylen = extlen ∧ (extlen = 0 ∨ extlen = 4) then
        c.binReadKey a log .readFlushExptime extlen
      else c.handleBinaryProtocolError
  | some .set | some .add | some .replace =>
      if extlen = 8 ∧ keylen ≠ 0 ∧ bodylen ≥ keylen + 8 then
        c.binReadKey a log .readingSetHeader 8
      else c.handleBinaryProtocolError
  | some .get | some .getK =>
      if extlen = 0 ∧ bodylen = keylen ∧ keylen > 0 then c.binReadKey a log .readingGetKey 0
      else c.handleBinaryProtocolError
  | some .delete =>
      if keylen > 0 ∧ extlen = 0 ∧ bodylen = keylen then
        c.binReadKey a log .readingDelHeader extlen
      else c.handleBinaryProtocolError
  | some .increment | some .decrement =>
      if keylen > 0 ∧ extlen = 20 ∧ bodylen = keylen + extlen then
        c.binReadKey a log .readingIncrHeader 20
      else c.handleBinaryProtocolError
  | some .append | some .prepend =>
      if keylen > 0 ∧ extlen = 0 then c.binReadKey a log .readingSetHeader 0
      else c.handleBinaryProtocolError
  | some .stat =>
      if extlen = 0 then c.binReadKey a log .readingStat 0 else c.handleBinaryProtocolError
  | some .quit =>
      if keylen = 0 ∧ extlen = 0 ∧ bodylen = 0 then
        let c' := { c.writeBinResponse false with writeAndGo := .closing }
        -- `quitq` closes at once, `quit` behind its response
        if c.noreply then { c' with state := .closing } else c'
      else c.handleBinaryProtocolError
  | some .saslListMechs =>
      if extlen = 0 ∧ keylen = 0 ∧ bodylen = 0 then c.binListSaslMechs st a log
      else c.handleBinaryProtocolError
  | some .saslAuth | some .saslStep =>
      if extlen = 0 ∧ keylen ≠ 0 then c.binReadKey a log .readingSaslAuth 0
      else c.handleBinaryProtocolError
  | some .touch | some .gat | some .gatK =>
      if extlen = 4 ∧ keylen ≠ 0 then c.binReadKey a log .readingTouchKey 4
      else c.handleBinaryProtocolError
  -- an unknown opcode, whose whole body is thrown away
  | _ => c.writeBinError (CNumber.toInt32 bodylen)

/-- `dispatch_bin_command`. -/
def dispatchBinCommand : Connection :=
  if st.sasl = true ∧ c.isAuthenticated c.cmd = false then
    { c.writeBinError 0 with writeAndGo := .closing }
  else if c.header.keylen.toNat > keyMaxLength then
    -- `noreply` is set before the keys are checked
    { c with noreply := true }.handleBinaryProtocolError
  else
    { c with cmd := c.cmd.map Opcode.loud, noreply := c.cmd.any Opcode.quiet }.dispatchSwitch st a log

/-- `int vlen = bodylen - (nkey + extlen)`. -/
def binVlen (extlen : ℕ) : ℤ :=
  CNumber.toInt32 ((c.header.bodylen.toNat : ℤ) - (c.header.keylen.toNat + extlen : ℕ))

/-- The end of a failed `process_bin_update` or `process_bin_append_prepend`: `write_and_go` is set
once more, whatever `write_bin_error` has made of it. -/
def refuseValue (swallow : ℤ) : Connection := { c.writeBinError swallow with writeAndGo := .swallow }

/-- Read the value that follows the key. -/
def readValue (substate : Substate) (vlen : ℤ) : Connection :=
  { c with rlbytes := vlen, received := [], state := .nread, substate := substate }

/-- `process_bin_update` and `process_bin_append_prepend`, which differ in the extras. -/
def processBinUpdate (extlen : ℕ) (flags : ℤ) : Connection :=
  let vlen := c.binVlen extlen
  match a.alloc log c.header.keylen.toNat flags (CNumber.toInt32 (vlen + 2)) with
  | .ok => c.readValue .readSetValue vlen
  | .tooLarge => c.refuseValue vlen
  -- `out_of_memory` does not know the length of the value
  | .noMemory => c.refuseValue 0

/-- `process_bin_sasl_auth`. -/
def processBinSaslAuth : Connection :=
  let nkey := c.header.keylen.toNat
  let vlen := c.binVlen 0
  if st.sasl = false then c.writeBinError vlen
  -- the mechanism is too long
  else if nkey > maxSaslMechLen then c.refuseValue vlen
  else
    match a.alloc log nkey 0 vlen with
    | .ok => c.readValue .readingSaslAuthData vlen
    | _ => c.refuseValue vlen

/-- `process_bin_complete_sasl_auth`. -/
def processBinCompleteSaslAuth : Connection :=
  match a.sasl log with
  | .ok => { c with authenticated := true }.writeBinResponse false
  -- the exchange goes on with `sasl_step`
  | .continue => { c with authenticated := false, state := .mwrite, writeAndGo := .newCmd }
  | .fail => { c with authenticated := false }.writeBinError 0

/-- `complete_nread_binary`. -/
def completeNreadBinary : Connection :=
  match c.substate with
  | .readingSetHeader =>
      if c.cmd = some .append ∨ c.cmd = some .prepend then c.processBinUpdate a log 0 0
      else
        c.processBinUpdate a log c.header.extlen.toNat (CNumber.toInt32 (ntoh (c.received.take 4)))
  | .readSetValue => c.answer a log false
  | .readingGetKey | .readingTouchKey =>
      -- a quiet command does not answer a miss
      if a.done log then { c with state := .mwrite, writeAndGo := .newCmd }
      else if c.noreply then { c with state := .newCmd }
      else c.writeBinError 0
  | .readingStat => c.answer a log true
  | .readingDelHeader | .readingIncrHeader | .readFlushExptime => c.answer a log false
  | .readingSaslAuth => c.processBinSaslAuth st a log
  | .readingSaslAuthData => c.processBinCompleteSaslAuth a log
  | .noState => c

/-- `complete_nread`, with what it records. -/
def completeNread : Connection × List ConnEvent :=
  if c.protocol = .binary then
    (c.completeNreadBinary st a log,
      -- the outcome of the exchange is recorded behind its data
      .body c.substate c.header c.received ::
        if c.substate = .readingSaslAuthData then [.sasl (a.sasl log)] else [])
  else (c.outString, [.data c.received])

/-- `reset_cmd_handler`, up to the state it leads to. -/
def resetCmd : Connection := { c with cmd := none, substate := .noState }

/-- The state after a response has been sent. -/
def afterWrite : Connection :=
  { c with
    -- the ASCII items of a `get` are sent by `conn_mwrite`, which goes on with a new command
    state := if c.state = .mwrite ∧ c.protocol ≠ .binary then .newCmd else c.writeAndGo
    received := [] }

/-! ## Reading commands -/

/-- The protocol that `try_read_command` goes by: it is negotiated by the first byte, over UDP for
every command. -/
def negotiate (first : UInt8) : Connection :=
  if c.protocol = .negotiating ∨ c.transport = .udp then
    -- over UDP every datagram says anew what it is
    { c with protocol := if first = binaryReq then .binary else .ascii }
  else c

/-- The first byte of the buffer, when a command starts at `input`. -/
def firstByte (input : Bytes) : UInt8 :=
  if c.transport = .udp then c.datagramHead else input.headD 0

/-- The binary part of `try_read_command`, on a complete header. -/
def readBinCommand (h : BinHeader) : Connection :=
  -- bytes that are not a request
  if h.magic ≠ binaryReq then { c with state := .closing }
  else { c with header := h, cmd := Opcode.ofByte h.opcode }.dispatchBinCommand st a log

end Connection

/-- The line without the CR in front of the newline. -/
def stripCr (line : Bytes) : Bytes :=
  if 1 < line.length ∧ line.getLast? = some 13 then line.dropLast else line

/-! ## The machine -/

/-- A connection, the bytes that it has not read, and what it has done. -/
structure Machine where
  conn : Connection
  input : Bytes
  log : List ConnEvent := []
  deriving DecidableEq, Repr

namespace Machine

variable (st : ConnSettings) (a : Answers) (m : Machine)

/-- `try_read_command`; `none` while the command is not complete. -/
def tryReadCommand : Option Machine :=
  let c := m.conn.negotiate (m.conn.firstByte m.input)
  if c.protocol = .binary then
    if m.input.length < headerLen then none
    else
      let h := BinHeader.decode m.input
      some ⟨c.readBinCommand st a m.log h, m.input.drop headerLen, m.log ++ [.header h]⟩
  else if 10 ∈ m.input then
    -- the line ends before the newline, and before a CR in front of it
    let line := m.input.takeWhile (· ≠ 10)
    let command := stripCr line
    some ⟨c.processCommand st a m.log command, m.input.drop (line.length + 1),
      m.log ++ [.line command]⟩
  else none

/-- `conn_nread`. -/
def nread : Option Machine :=
  let c := m.conn
  if c.rlbytes = 0 then
    let (c, evs) := c.completeNread st a m.log
    some { m with conn := c, log := m.log ++ evs }
  -- the length of the value was that of a body shorter than its key
  else if c.rlbytes < 0 then some { m with conn := { c with state := .closing } }
  else if m.input.length < c.rlbytes.toNat then none
  else
    some { m with
      conn := { c with rlbytes := 0, received := c.received ++ m.input.take c.rlbytes.toNat }
      input := m.input.drop c.rlbytes.toNat }

/-- `conn_swallow`. -/
def swallow : Option Machine :=
  let c := m.conn
  if c.sbytes = 0 then
    some { m with conn := { c with state := .newCmd }, log := m.log ++ [.skipped c.received] }
  else if m.input.length < c.sbytes then none
  else
    some { m with
      conn := { c with sbytes := 0, received := c.received ++ m.input.take c.sbytes }
      input := m.input.drop c.sbytes }

/-- **One round of `drive_machine`**; `none` when the connection is closed or has to wait. -/
def drive : Option Machine :=
  match m.conn.state with
  | .newCmd =>
      if m.input = [] then none else some { m with conn := { m.conn.resetCmd with state := .parseCmd } }
  | .parseCmd => m.tryReadCommand st a
  | .nread => m.nread st a
  | .swallow => m.swallow
  | .write | .mwrite => some { m with conn := m.conn.afterWrite }
  | .waiting | .read | .closing => none

end Machine

end Memcached
