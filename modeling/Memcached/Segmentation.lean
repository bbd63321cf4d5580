import Memcached.AsciiFraming

/-! # Reads of a connection

The same connection with its read buffer and its socket: `try_read_network`, and `drive_machine`
where it takes bytes from the buffer or reads them straight to where they belong. What the
connection does depends on the bytes of the stream, not on the reads they come in; only an end of
the stream that is found behind a full buffer makes it forget what it has just read.

* **`Buffered.drive`** — one round, with the buffer and the socket.
* **`Forgets`** — the round that loses what was read.
* **`Sim`** — the connection, and the machine that has the whole stream.
* **`segmentation_invariant`** — both log the same. -/

namespace Memcached

open CNumber (Bytes)
open Transition (Within Until)

/-! ## The socket -/

/-- `DATA_BUFFER_SIZE`, the read buffer of a new connection. -/
def dataBufferSize : ℕ := 2048

/-- `READ_BUFFER_HIGHWAT`. -/
def readBufferHighwat : ℕ := 8192

/-- What `read` returns: bytes, `EAGAIN`, or the end of the stream or another error. -/
inductive ReadResult
  | data (b : Bytes)
  | again
  | closed
  deriving DecidableEq, Repr

/-- **What arrives on a socket**: bytes that arrive together, an empty list for a `read` that comes
before the next ones, and whether the stream ends after the last. -/
structure Socket where
  segments : List Bytes
  ended : Bool
  deriving DecidableEq, Repr

namespace Socket

variable (k : Socket)

/-- The bytes to come. -/
def stream : Bytes := k.segments.flatten

/-- `read`, with room for `count` bytes. -/
def read (count : ℕ) : ReadResult × Socket :=
  match k.segments with
  | [] => (if k.ended then .closed else .again, k)
  -- a `read` that comes before the next bytes
  | [] :: segments => (.again, { k with segments := segments })
  | (b :: bs) :: segments =>
      (.data ((b :: bs).take count),
        { k with
          segments :=
            -- what has no room stays in the socket
            if (b :: bs).length ≤ count then segments else (b :: bs).drop count :: segments })

end Socket

/-! ## The read buffer -/

/-- `enum try_read_result`, of a connection that finds memory. -/
inductive TryReadResult
  | dataReceived
  | noDataReceived
  | error
  deriving DecidableEq, Repr

namespace Connection

variable (c : Connection)

/-- `conn_nread` has got `d`. -/
def receive (d : Bytes) : Connection :=
  { c with rlbytes := c.rlbytes - d.length, received := c.received ++ d }

/-- `conn_swallow` has thrown `d` away. -/
def skip (d : Bytes) : Connection :=
  { c with sbytes := c.sbytes - d.length, received := c.received ++ d }

/-- `conn_new`, over TCP. -/
def opened : Connection :=
  { c with state := .newCmd, writeAndGo := .newCmd, transport := .tcp }

/-- `ritem` points into the read buffer: extras and keys are left there, behind their header. -/
def inPlace : Bool :=
  decide (c.protocol = .binary ∧ c.substate ≠ .readSetValue ∧ c.substate ≠ .readingSaslAuthData)

end Connection

/-- The rest of the server, with memory for every buffer that has to grow. -/
def Answers.ample (a : Answers) : Answers := { a with grow := fun _ => true }

/-- A connection, its socket, and its read buffer. -/
structure Buffered where
  conn : Connection
  socket : Socket
  /-- `rcurr - rbuf`. -/
  rcurr : ℕ := 0
  rsize : ℕ := dataBufferSize
  /-- The `rbytes` bytes at `rcurr`. -/
  data : Bytes := []
  /-- What the connection has done. -/
  log : List ConnEvent := []
  deriving DecidableEq, Repr

/-- The line may be a large multiget, for which `try_read_command` waits. -/
def largeMultiget (line : Bytes) : Prop :=
  (line.takeWhile (· = 32)).length ≤ 100 ∧
    (ascii "get " <+: line.dropWhile (· = 32) ∨ ascii "gets " <+: line.dropWhile (· = 32))

instance (line : Bytes) : Decidable (largeMultiget line) := inferInstanceAs (Decidable (_ ∧ _))

/-- The loop of `bin_read_key`: the buffer is doubled until `size` bytes fit. -/
def doubleUntil (size : ℕ) : ℕ → ℕ → ℕ
  | 0, nsize => nsize
  | fuel + 1, nsize => if size > nsize then doubleUntil size fuel (nsize * 2) else nsize

namespace Buffered

variable (st : ConnSettings) (a : Answers) (b : Buffered)

/-- The bytes that the connection has not used. -/
def input : Bytes := b.data ++ b.socket.stream

/-- The loop of `try_read_network`, from a `read` into a buffer with room; `allocs` is how often the
buffer may still grow. -/
def fill : ℕ → Buffered → TryReadResult → Buffered × TryReadResult
  | allocs, b, gotdata =>
      let avail := b.rsize - b.data.length
      match b.socket.read avail with
      | (.closed, k) => ({ b with socket := k }, .error)
      | (.again, k) => ({ b with socket := k }, gotdata)
      | (.data d, k) =>
          let b := { b with socket := k, data := b.data ++ d }
          -- a `read` that does not fill the buffer was the last
          if d.length < avail then (b, .dataReceived)
          else
            match allocs with
            -- after four times the rest waits for the next round
            | 0 => (b, .dataReceived)
            | allocs + 1 => fill allocs { b with rsize := b.rsize * 2 } .dataReceived

/-- `try_read_network`. -/
def tryReadNetwork : Buffered × TryReadResult :=
  -- `memmove` to the start of the buffer
  let b := { b with rcurr := 0 }
  if b.data.length ≥ b.rsize then fill 3 { b with rsize := b.rsize * 2 } .noDataReceived
  else fill 4 b .noDataReceived

/-- `bin_read_key` makes room for extras and key behind the header at `rcurr`. -/
def makeRoom : Buffered :=
  let size := b.conn.rlbytes.toNat + headerLen
  -- the header is in front of the key, and stays there
  if b.rcurr + size > b.rsize then { b with rsize := doubleUntil size size b.rsize, rcurr := 0 }
  else b

/-- `try_read_command`. A header that is not complete is waited for, and so is a line, unless it is
too long already. -/
def tryReadCommand : Buffered :=
  match Machine.tryReadCommand st a.ample ⟨b.conn, b.data, b.log⟩ with
  | some m =>
      let b' := { b with conn := m.conn, log := m.log }
      -- the header has been taken, the key is read behind it
      let b' := if m.conn.state = .nread ∧ m.conn.protocol = .binary then b'.makeRoom else b'
      { b' with data := m.input, rcurr := b'.rcurr + (b.data.length - m.input.length) }
  | none =>
      let c := b.conn.negotiate (b.conn.firstByte b.data)
      -- a line of more than 1024 bytes that is no `get` with many keys
      if c.protocol ≠ .binary ∧ b.data.length > 1024 ∧ ¬ largeMultiget b.data then
        { b with conn := { c with state := .closing } }
      else { b with conn := { c with state := .waiting } }

/-- `conn_shrink`. -/
def connShrink : Buffered :=
  if b.rsize > readBufferHighwat ∧ b.data.length < dataBufferSize then
    { b with rcurr := 0, rsize := dataBufferSize }
  else b

/-- `reset_cmd_handler`. -/
def resetCmdHandler : Buffered :=
  let b := b.connShrink
  { b with conn := { b.conn.resetCmd with state := if b.data = [] then .waiting else .parseCmd } }

/-- The part of `conn_nread` that takes leftovers from the buffer. -/
def copyData : Buffered :=
  let tocopy := min b.data.length b.conn.rlbytes.toNat
  { b with
    conn := b.conn.receive (b.data.take tocopy)
    data := b.data.drop tocopy
    rcurr := b.rcurr + tocopy }

/-- `conn_nread`. -/
def nread : Buffered :=
  if b.conn.rlbytes = 0 then
    let (c, evs) := b.conn.completeNread st a.ample b.log
    { b with conn := c, log := b.log ++ evs }
  else if b.conn.rlbytes < 0 then { b with conn := { b.conn with state := .closing } }
  else
    let b := b.copyData
    if b.conn.rlbytes = 0 then b
    else
      -- the rest is read straight into the item or behind the header
      match b.socket.read b.conn.rlbytes.toNat with
      | (.data d, k) =>
          { b with
            conn := b.conn.receive d
            socket := k
            rcurr := if b.conn.inPlace then b.rcurr + d.length else b.rcurr }
      | (.again, k) => { b with socket := k }
      | (.closed, k) => { b with conn := { b.conn with state := .closing }, socket := k }

/-- `conn_swallow`. -/
def swallow : Buffered :=
  if b.conn.sbytes = 0 then
    { b with conn := { b.conn with state := .newCmd }, log := b.log ++ [.skipped b.conn.received] }
  else if b.data ≠ [] then
    let tocopy := min b.data.length b.conn.sbytes
    { b with
      conn := b.conn.skip (b.data.take tocopy)
      data := b.data.drop tocopy
      rcurr := b.rcurr + tocopy }
  else
    match b.socket.read (min b.rsize b.conn.sbytes) with
    | (.data d, k) => { b with conn := b.conn.skip d, socket := k }
    | (.again, k) => { b with socket := k }
    | (.closed, k) => { b with conn := { b.conn with state := .closing }, socket := k }

/-- **One round of `drive_machine`**; `none` when the connection is closed. -/
def drive : Option Buffered :=
  match b.conn.state with
  | .newCmd => some b.resetCmdHandler
  | .waiting => some { b with conn := { b.conn with state := .read } }
  | .read =>
      match b.tryReadNetwork with
      | (b, .noDataReceived) => some { b with conn := { b.conn with state := .waiting } }
      | (b, .dataReceived) => some { b with conn := { b.conn with state := .parseCmd } }
      | (b, .error) => some { b with conn := { b.conn with state := .closing } }
  | .parseCmd => some (b.tryReadCommand st a)
  | .nread => some (b.nread st a)
  | .swallow => some b.swallow
  | .write | .mwrite => some { b with conn := b.conn.afterWrite }
  | .closing => none

/-- A new connection, whose buffer may have served another one. -/
def opened (c : Connection) (rsize : ℕ) (k : Socket) : Buffered where
  conn := c.opened
  socket := k
  rsize := rsize

/-- The connection is closed, or waits for bytes that do not come; once `drive_machine` has returned,
it waits in state `conn_read`. -/
def Settled : Prop :=
  b.conn.state = .closing ∨ b.socket.segments = [] ∧
    ((b.conn.state = .waiting ∨ b.conn.state = .read) ∨
      b.conn.state = .nread ∧ 0 < b.conn.rlbytes ∧ b.data = [] ∨
      b.conn.state = .swallow ∧ 0 < b.conn.sbytes ∧ b.data = [])

/-- **What `try_read_network` forgets**: it finds the end of the stream behind bytes that it has just
read. -/
def Forgets : Prop :=
  b.conn.state = .read ∧ b.tryReadNetwork.2 = .error ∧ b.socket.stream ≠ []

end Buffered

/-- The line may be waited for. -/
def LineFits (input : Bytes) : Prop :=
  10 ∈ input → (input.takeWhile (· ≠ 10)).length ≤ 1024 ∨ largeMultiget input

namespace Machine

/-- The connection is about to read an ASCII command line. -/
def AtLine (m : Machine) : Prop :=
  m.conn.state = .parseCmd ∧ (m.conn.negotiate (m.conn.firstByte m.input)).protocol ≠ .binary

/-- **Every command line of the stream** has at most 1024 bytes in front of its newline, or is a
`get` or `gets` behind at most 100 spaces. -/
def LinesFit (st : ConnSettings) (a : Answers) (m : Machine) : Prop :=
  ∀ m', Within (drive st a) (fun _ => False) m m' → m'.AtLine → LineFits m'.input

end Machine

variable {st : ConnSettings} {a : Answers} {b b' : Buffered} {c d : Connection} {m m' : Machine}
  {log : List ConnEvent} {k : Socket}

/-! ## What a read brings -/

/-- What `read` does, with room for `count` bytes. -/
inductive Socket.Reads (k : Socket) (count : ℕ) : ReadResult × Socket → Prop
  | data (d : Bytes) (k' : Socket) (hd : d ≠ []) (hle : d.length ≤ count)
      (hs : k.stream = d ++ k'.stream) : Reads k count (.data d, k')
  | again (k' : Socket) (hs : k.stream = k'.stream) : Reads k count (.again, k')
  | closed (hs : k.stream = []) : Reads k count (.closed, k)

/-- A read takes the next bytes, as many as are asked for at most. -/
theorem Socket.reads_read (k : Socket) {count : ℕ} (hc : 0 < count) :
    k.Reads count (k.read count) := by
  obtain ⟨segments, ended⟩ := k
  match segments with
  | [] =>
      cases ended with
      | true => exact .closed rfl
      | false => exact .again _ rfl
  | [] :: segments => exact .again _ rfl
  | (x :: xs) :: segments =>
      refine .data _ _ ?_ (by simp) ?_
      · simp only [ne_eq, List.take_eq_nil_iff, reduceCtorEq, or_false]
        omega
      · simp only [stream, List.flatten_cons]
        split
        · rename_i hle
          rw [List.take_of_length_le hle]
        · rw [List.flatten_cons, ← List.append_assoc, List.take_append_drop]

namespace Buffered

/-- What the loop of `try_read_network` does. -/
structure Filled (b : Buffered) (gotdata : TryReadResult) (r : Buffered × TryReadResult) :
    Prop where
  conn : r.1.conn = b.conn
  log : r.1.log = b.log
  data : b.data <+: r.1.data
  input : r.1.input = b.input
  pos : 0 < r.1.rsize
  le : r.1.data.length ≤ r.1.rsize
  noData : r.2 = .noDataReceived → gotdata = .noDataReceived ∧ r.1.data = b.data
  received : r.2 = .dataReceived → r.1.data ≠ []
  error : r.2 = .error → r.1.socket.stream = []

/-- What the loop of reads leaves in the buffer. -/
theorem filled_fill (allocs : ℕ) (gotdata : TryReadResult) (hb : b.data.length < b.rsize)
    (hgot : gotdata = .dataReceived → b.data ≠ []) (herr : gotdata ≠ .error) :
    b.Filled gotdata (fill allocs b gotdata) := by
  -- by induction on how often the buffer may still grow
  induction allocs using Nat.strong_induction_on generalizing b gotdata with
  | _ allocs ih =>
      have hr := b.socket.reads_read (Nat.sub_pos_of_lt hb)
      unfold fill
      simp only
      generalize b.socket.read (b.rsize - b.data.length) = r at hr
      cases hr with
      | closed hs =>
          exact ⟨rfl, rfl, List.prefix_refl _, rfl, (Nat.zero_le _).trans_lt hb, hb.le,
            fun h => absurd h (by simp), fun h => absurd h (by simp), fun _ => hs⟩
      | again k' hs =>
          refine ⟨rfl, rfl, List.prefix_refl _, ?_, (Nat.zero_le _).trans_lt hb, hb.le, fun h => ⟨h, rfl⟩,
            hgot, fun h => absurd h herr⟩
          simp only [Buffered.input, hs]
      | data d k' hd hle hs =>
          have hlen : (b.data ++ d).length ≤ b.rsize := by
            rw [List.length_append]
            omega
          have hinput : (b.data ++ d) ++ k'.stream = b.input := by
            rw [Buffered.input, hs, List.append_assoc]
          have hdone : b.Filled gotdata
              ({ b with socket := k', data := b.data ++ d }, .dataReceived) :=
            ⟨rfl, rfl, List.prefix_append _ _, hinput, (Nat.zero_le _).trans_lt hb, hlen,
              fun h => absurd h (by simp), fun _ => by simp [hd], fun h => absurd h (by simp)⟩
          simp only
          split
          · exact hdone
          · cases allocs with
            | zero => exact hdone
            | succ n =>
                have hrec := ih n (Nat.lt_succ_self n) .dataReceived
                  (b := { b with socket := k', data := b.data ++ d, rsize := b.rsize * 2 })
                  (by simp only; omega) (fun _ => by simp [hd]) (by simp)
                exact ⟨hrec.conn, hrec.log, (List.prefix_append _ _).trans hrec.data,
                  hrec.input.trans hinput, hrec.pos, hrec.le,
                  fun h => absurd (hrec.noData h).1 (by simp), hrec.received, hrec.error⟩

/-- What `try_read_network` leaves in the buffer. -/
theorem filled_tryReadNetwork (hpos : 0 < b.rsize) (hle : b.data.length ≤ b.rsize) :
    b.Filled .noDataReceived b.tryReadNetwork := by
  rw [tryReadNetwork]
  simp only
  split
  · have h := filled_fill 3 .noDataReceived (b := { b with rcurr := 0, rsize := b.rsize * 2 })
      (by simp only; omega) (fun h => absurd h (by simp)) (by simp)
    exact ⟨h.conn, h.log, h.data, h.input, h.pos, h.le, h.noData, h.received, h.error⟩
  · have h := filled_fill 4 .noDataReceived (b := { b with rcurr := 0 })
      (by simp only; omega) (fun h => absurd h (by simp)) (by simp)
    exact ⟨h.conn, h.log, h.data, h.input, h.pos, h.le, h.noData, h.received, h.error⟩

end Buffered

/-! ## Where the handlers lead -/

/-- The states in which the stream goes on: `drive_machine` waits for nothing, and nothing is to be
parsed. -/
def ConnState.running : ConnState → Bool
  | .waiting | .read | .parseCmd => false
  | _ => true

namespace Connection

/-- A handler has made `d` of `c`. -/
structure Handled (c d : Connection) : Prop where
  transport : d.transport = c.transport
  running : d.state.running = true
  writeAndGo : c.writeAndGo.running = true → d.writeAndGo.running = true

/-- What a handler does to a connection with other data, it does to the connection. -/
theorem Handled.of_eq {e : Connection} (h : e.Handled d) (ht : e.transport = c.transport)
    (hw : e.writeAndGo = c.writeAndGo) : c.Handled d :=
  ⟨h.transport.trans ht, h.running, hw ▸ h.writeAndGo⟩

/-- The handler sets `write_and_go` at last. -/
theorem Handled.andGo (h : c.Handled d) {s : ConnState} (hs : s.running = true) :
    c.Handled { d with writeAndGo := s } :=
  ⟨h.transport, h.running, fun _ => hs⟩

/-- A text is answered and nothing else is touched. -/
theorem handled_outString : c.Handled c.outString := by
  rw [outString]
  split
  · exact ⟨rfl, rfl, id⟩
  · exact ⟨rfl, rfl, fun _ => rfl⟩

/-- An error is answered and nothing else is touched. -/
theorem handled_writeBinError (n : ℤ) : c.Handled (c.writeBinError n) := by
  rw [writeBinError]
  split <;> exact ⟨rfl, rfl, fun _ => rfl⟩

/-- A response is answered and nothing else is touched. -/
theorem handled_writeBinResponse (keeps : Bool) : c.Handled (c.writeBinResponse keeps) := by
  rw [writeBinResponse]
  split
  · exact ⟨rfl, rfl, fun _ => rfl⟩
  · exact ⟨rfl, rfl, id⟩

/-- An answer touches nothing else. -/
theorem handled_answer (keeps : Bool) : c.Handled (c.answer a log keeps) := by
  rw [answer]
  split
  · exact handled_writeBinResponse keeps
  · exact handled_writeBinError 0

/-- A protocol error touches nothing else. -/
theorem handled_protocolError : c.Handled c.handleBinaryProtocolError :=
  (handled_writeBinError 0).andGo rfl

/-- A refused value touches nothing else. -/
theorem handled_refuseValue (n : ℤ) : c.Handled (c.refuseValue n) :=
  (handled_writeBinError n).andGo rfl

/-- Reading a key touches nothing else. -/
theorem handled_binReadKey (substate : Substate) (extra : ℕ) :
    c.Handled (c.binReadKey a log substate extra) := by
  rw [binReadKey]
  split <;> exact ⟨rfl, rfl, id⟩

/-- The list of mechanisms touches nothing else. -/
theorem handled_binListSaslMechs : c.Handled (c.binListSaslMechs st a log) := by
  rw [binListSaslMechs]
  split
  · exact handled_writeBinError _
  · split
    · exact (handled_writeBinResponse false).of_eq rfl rfl
    · exact (handled_writeBinError 0).of_eq rfl rfl

/-- What a request does before its key is read. -/
theorem handled_dispatchSwitch : c.Handled (c.dispatchSwitch st a log) := by
  rw [dispatchSwitch]
  split <;> (try split) <;> first
    | exact handled_writeBinError _
    | exact handled_protocolError
    | exact handled_writeBinResponse _
    | exact handled_binReadKey _ _
    | exact handled_binListSaslMechs
    | skip
  have h := handled_writeBinResponse (c := c) false
  split
  · exact ⟨h.transport, rfl, fun _ => rfl⟩
  · exact ⟨h.transport, h.running, fun _ => rfl⟩

/-- What a header does. -/
theorem handled_readBinCommand (h : BinHeader) : c.Handled (c.readBinCommand st a log h) := by
  rw [readBinCommand]
  split
  · exact ⟨rfl, rfl, id⟩
  · rw [dispatchBinCommand]
    split
    · exact ((handled_writeBinError 0).andGo rfl).of_eq rfl rfl
    · split
      · exact handled_protocolError.of_eq rfl rfl
      · exact handled_dispatchSwitch.of_eq rfl rfl

/-- What an update command does. -/
theorem handled_processUpdateCommand (tokens : List Bytes) (handleCas : Bool) :
    c.Handled (c.processUpdateCommand a log tokens handleCas) := by
  have hset : (c.setNoreplyMaybe tokens).transport = c.transport ∧
      (c.setNoreplyMaybe tokens).writeAndGo = c.writeAndGo := by
    rw [setNoreplyMaybe]
    split <;> exact ⟨rfl, rfl⟩
  have hout := (handled_outString (c := c.setNoreplyMaybe tokens)).of_eq hset.1 hset.2
  rw [processUpdateCommand]
  simp only
  split
  · exact hout
  · split
    · split
      · exact hout
      · split
        · exact hout
        · split
          · exact ⟨hset.1, rfl, fun h => (congrArg ConnState.running hset.2).trans h⟩
          · exact ⟨hout.transport, hout.running, fun _ => rfl⟩
    · exact hout

/-- What a command line does. -/
theorem handled_processCommand (command : Bytes) :
    c.Handled (c.processCommand st a log command) := by
  rw [processCommand]
  split
  · exact ⟨rfl, rfl, id⟩
  · split
    · exact handled_processUpdateCommand _ _
    · split
      · refine handled_outString.of_eq ?_ ?_ <;>
        · rw [setNoreplyMaybe]
          split <;> rfl
      · split
        · exact ⟨rfl, rfl, id⟩
        · exact handled_outString

/-- What a body that has been read does. -/
theorem handled_completeNreadBinary (hc : c.state.running = true) :
    c.Handled (c.completeNreadBinary st a log) := by
  rw [completeNreadBinary]
  cases c.substate <;> simp only
  case readingSetHeader =>
    split <;> rw [processBinUpdate] <;> split
    all_goals first
      | exact ⟨rfl, rfl, id⟩
      | exact handled_refuseValue _
  case readingGetKey | readingTouchKey =>
    split
    · exact ⟨rfl, rfl, fun _ => rfl⟩
    · split
      · exact ⟨rfl, rfl, id⟩
      · exact handled_writeBinError 0
  case readingSaslAuth =>
    simp only [processBinSaslAuth]
    split
    · exact handled_writeBinError _
    · split
      · exact handled_refuseValue _
      · split
        · exact ⟨rfl, rfl, id⟩
        · exact handled_refuseValue _
  case readingSaslAuthData =>
    simp only [processBinCompleteSaslAuth]
    split
    · exact (handled_writeBinResponse false).of_eq rfl rfl
    · exact ⟨rfl, rfl, fun _ => rfl⟩
    · exact (handled_writeBinError 0).of_eq rfl rfl
  case noState => exact ⟨rfl, hc, id⟩
  all_goals exact handled_answer _

/-- What a block that has been read does. -/
theorem handled_completeNread (hc : c.state.running = true) :
    c.Handled (c.completeNread st a log).1 := by
  rw [completeNread]
  split
  · exact handled_completeNreadBinary hc
  · exact handled_outString

/-- The first byte decides the protocol only. -/
theorem negotiate_keeps (first : UInt8) :
    (c.negotiate first).transport = c.transport ∧
      (c.negotiate first).writeAndGo = c.writeAndGo ∧ (c.negotiate first).state = c.state := by
  rw [negotiate]
  split <;> exact ⟨rfl, rfl, rfl⟩

/-- Over TCP the protocol is negotiated once. -/
theorem negotiate_negotiate (ht : c.transport = .tcp) (first : UInt8) :
    (c.negotiate first).negotiate first = c.negotiate first := by
  by_cases hp : c.protocol = .negotiating
  · simp only [negotiate, hp, true_or, if_true, ht]
    split <;> simp
  · simp [negotiate, hp, ht]

end Connection

/-! ## Commands in the buffer -/

/-- A header is decoded from its own bytes. -/
theorem BinHeader.decode_append {data : Bytes} (rest : Bytes) (h : headerLen ≤ data.length) :
    BinHeader.decode (data ++ rest) = BinHeader.decode data := by
  have htake : ∀ l : Bytes, BinHeader.decode l = BinHeader.decode (l.take headerLen) := fun l => by
    simp [BinHeader.decode, headerLen, List.drop_take, List.take_take, List.getD_eq_getElem?_getD]
  rw [htake (data ++ rest), List.take_append_of_le_length h, ← htake]

/-- The first byte is the first byte. -/
theorem Connection.firstByte_append {data : Bytes} (rest : Bytes) (hd : data ≠ []) :
    c.firstByte (data ++ rest) = c.firstByte data := by
  obtain ⟨x, xs, rfl⟩ := List.exists_cons_of_ne_nil hd
  rfl

/-- A line is shorter than a buffer with its newline. -/
theorem length_takeWhile_lt {data : Bytes} (h : 10 ∈ data) :
    (data.takeWhile (· ≠ 10)).length < data.length := by
  refine lt_of_le_of_ne (List.takeWhile_prefix _).length_le fun he => ?_
  have hall := (List.takeWhile_prefix (· ≠ (10 : UInt8))).eq_of_length he
  have hm : (10 : UInt8) ∈ data.takeWhile (· ≠ 10) := by
    rw [hall]
    exact h
  exact absurd (List.mem_takeWhile_imp hm) (by simp)

/-- `try_read_command` goes by the negotiated protocol. -/
theorem tryReadCommand_congr {input : Bytes}
    (h : c.negotiate (c.firstByte input) = d.negotiate (d.firstByte input)) :
    Machine.tryReadCommand st a ⟨c, input, log⟩ = Machine.tryReadCommand st a ⟨d, input, log⟩ := by
  simp only [Machine.tryReadCommand, h]

/-- **A command that is complete stays the same**, whatever comes after it. -/
theorem tryReadCommand_append {data rest : Bytes} (hd : data ≠ [])
    (e : Machine.tryReadCommand st a ⟨c, data, log⟩ = some m) :
    Machine.tryReadCommand st a ⟨c, data ++ rest, log⟩
      = some ⟨m.conn, m.input ++ rest, m.log⟩ := by
  simp only [Machine.tryReadCommand, Connection.firstByte_append rest hd] at e ⊢
  split at e
  · rename_i hp
    rw [if_pos hp]
    split at e
    · exact absurd e (by simp)
    · rename_i hlen
      obtain rfl := Option.some.inj e
      have hle : headerLen ≤ data.length := not_lt.mp hlen
      rw [if_neg (by rw [List.length_append]; omega), BinHeader.decode_append rest hle,
        List.drop_append_of_le_length hle]
  · rename_i hp
    rw [if_neg hp]
    split at e
    · rename_i hm
      obtain rfl := Option.some.inj e
      have hlt := length_takeWhile_lt hm
      have hline : (data ++ rest).takeWhile (· ≠ 10) = data.takeWhile (· ≠ 10) := by
        rw [List.takeWhile_append, if_neg hlt.ne]
      rw [if_pos (List.mem_append_left _ hm), hline, List.drop_append_of_le_length hlt]
    · exact absurd e (by simp)

/-- What looks like no large multiget is none. -/
theorem largeMultiget_of_append {data rest : Bytes} (hlong : 1024 < data.length)
    (h : largeMultiget (data ++ rest)) : largeMultiget data := by
  obtain ⟨hle, hget⟩ := h
  have hspaces : (data.takeWhile (· = 32)).length ≤ 100 := by
    rw [List.takeWhile_append] at hle
    split at hle
    · rename_i he
      rw [List.length_append] at hle
      omega
    · exact hle
  have hlen := congrArg List.length (List.takeWhile_append_dropWhile (p := (· = (32 : UInt8))) (l := data))
  rw [List.length_append] at hlen
  have hdrop : (data ++ rest).dropWhile (· = 32) = data.dropWhile (· = 32) ++ rest := by
    rw [List.dropWhile_append, if_neg]
    intro he
    rw [List.isEmpty_iff] at he
    rw [he, List.length_nil] at hlen
    omega
  rw [hdrop] at hget
  refine ⟨hspaces, hget.imp (fun h => ?_) fun h => ?_⟩
  · exact List.prefix_of_prefix_length_le h (List.prefix_append _ _)
      (by rw [show (ascii "get ").length = 4 from rfl]; omega)
  · exact List.prefix_of_prefix_length_le h (List.prefix_append _ _)
      (by rw [show (ascii "gets ").length = 5 from rfl]; omega)

/-- **A connection that is closed for a line that is too long** has read its last line. -/
theorem tryReadCommand_tooLong {data rest : Bytes} (hd : data ≠ [])
    (hp : (c.negotiate (c.firstByte data)).protocol ≠ .binary)
    (e : Machine.tryReadCommand st a ⟨c, data, log⟩ = none) (hlong : 1024 < data.length)
    (hget : ¬ largeMultiget data) (hfit : LineFits (data ++ rest)) :
    Machine.tryReadCommand st a ⟨c, data ++ rest, log⟩ = none := by
  simp only [Machine.tryReadCommand, Connection.firstByte_append rest hd, if_neg hp] at e ⊢
  have hno : 10 ∉ data := fun hm => by
    rw [if_pos hm] at e
    exact absurd e (by simp)
  refine if_neg fun hm => ?_
  rcases hfit hm with h | h
  · have hall : data.takeWhile (· ≠ 10) = data := List.takeWhile_eq_self_iff.mpr fun x hx =>
      decide_eq_true fun he => hno (he ▸ hx)
    rw [List.takeWhile_append, if_pos (by rw [hall]), List.length_append] at h
    omega
  · exact hget (largeMultiget_of_append hlong h)

/-- What `try_read_command` leaves. -/
theorem tryReadCommand_keeps (e : m.tryReadCommand st a = some m') :
    m.conn.Handled m'.conn ∧ m'.input.length ≤ m.input.length := by
  obtain ⟨ht, hw, -⟩ := m.conn.negotiate_keeps (m.conn.firstByte m.input)
  simp only [Machine.tryReadCommand] at e
  split at e
  · split at e
    · exact absurd e (by simp)
    · obtain rfl := Option.some.inj e
      exact ⟨(Connection.handled_readBinCommand _).of_eq ht hw, by simp⟩
  · split at e
    · obtain rfl := Option.some.inj e
      exact ⟨(Connection.handled_processCommand _).of_eq ht hw, by simp⟩
    · exact absurd e (by simp)

/-! ## The connection stays in order -/

/-- What holds of the connection all the time. -/
structure Buffered.Proper (b : Buffered) : Prop where
  pos : 0 < b.rsize
  le : b.data.length ≤ b.rsize
  tcp : b.conn.transport = .tcp
  writeAndGo : b.conn.writeAndGo.running = true

/-- Doubling makes nothing smaller. -/
theorem le_doubleUntil (size fuel nsize : ℕ) : nsize ≤ doubleUntil size fuel nsize := by
  induction fuel generalizing nsize with
  | zero => exact le_rfl
  | succ fuel ih =>
      rw [doubleUntil]
      split
      · exact (Nat.le_mul_of_pos_right _ (by omega)).trans (ih (nsize * 2))
      · exact le_rfl

namespace Buffered

/-- More room is no less room. -/
theorem rsize_le_makeRoom (b : Buffered) : b.rsize ≤ b.makeRoom.rsize := by
  rw [makeRoom]
  split
  · exact le_doubleUntil _ _ _
  · exact le_rfl

/-- More room changes neither the connection nor the socket. -/
theorem conn_makeRoom (b : Buffered) :
    b.makeRoom.conn = b.conn ∧ b.makeRoom.socket = b.socket ∧ b.makeRoom.log = b.log := by
  rw [makeRoom]
  split <;> exact ⟨rfl, rfl, rfl⟩

/-- `conn_shrink` keeps the data. -/
theorem connShrink_keeps (b : Buffered) :
    b.connShrink.conn = b.conn ∧ b.connShrink.socket = b.socket ∧ b.connShrink.data = b.data ∧
      b.connShrink.log = b.log := by
  rw [connShrink]
  split <;> exact ⟨rfl, rfl, rfl, rfl⟩

/-- What `try_read_command` makes of a complete command. -/
theorem tryReadCommand_some (e : Machine.tryReadCommand st a.ample ⟨b.conn, b.data, b.log⟩ = some m) :
    (b.tryReadCommand st a).conn = m.conn ∧ (b.tryReadCommand st a).data = m.input ∧
      (b.tryReadCommand st a).log = m.log ∧ (b.tryReadCommand st a).socket = b.socket ∧
      b.rsize ≤ (b.tryReadCommand st a).rsize := by
  set t : Buffered := { b with conn := m.conn, log := m.log } with ht
  by_cases hkey : m.conn.state = .nread ∧ m.conn.protocol = .binary
  · have he : b.tryReadCommand st a = { t.makeRoom with
        data := m.input
        rcurr := t.makeRoom.rcurr + (b.data.length - m.input.length) } := by
      simp only [tryReadCommand, e, if_pos hkey, ht]
    obtain ⟨hc, hs, hl⟩ := conn_makeRoom t
    rw [he]
    exact ⟨hc, rfl, hl, hs, rsize_le_makeRoom t⟩
  · have he : b.tryReadCommand st a = { t with
        data := m.input
        rcurr := t.rcurr + (b.data.length - m.input.length) } := by
      simp only [tryReadCommand, e, if_neg hkey, ht]
    rw [he]
    exact ⟨rfl, rfl, rfl, rfl, le_rfl⟩

/-- What `try_read_command` makes of an incomplete one. -/
theorem tryReadCommand_none (e : Machine.tryReadCommand st a.ample ⟨b.conn, b.data, b.log⟩ = none) :
    ∃ s, b.tryReadCommand st a =
        { b with conn := { b.conn.negotiate (b.conn.firstByte b.data) with state := s } } ∧
      (s = .waiting ∨ s = .closing ∧
        (b.conn.negotiate (b.conn.firstByte b.data)).protocol ≠ .binary ∧ 1024 < b.data.length ∧
          ¬ largeMultiget b.data) := by
  rw [tryReadCommand, e]
  simp only
  split
  · rename_i h
    exact ⟨.closing, rfl, Or.inr ⟨rfl, h⟩⟩
  · exact ⟨.waiting, rfl, Or.inl rfl⟩

end Buffered

namespace Buffered.Proper

/-- A command that is handled keeps the buffer proper. -/
theorem of_handled (h : b.Proper) (hc : b.conn.Handled b'.conn) (hr : b.rsize ≤ b'.rsize)
    (hd : b'.data.length ≤ b.data.length) : b'.Proper :=
  ⟨h.pos.trans_le hr, hd.trans (h.le.trans hr), hc.transport.trans h.tcp, hc.writeAndGo h.writeAndGo⟩

/-- What keeps the read buffer from growing fuller, and where the connection goes on. -/
theorem of_conn (h : b.Proper) (ht : b'.conn.transport = b.conn.transport)
    (hw : b'.conn.writeAndGo = b.conn.writeAndGo) (hr : b.rsize ≤ b'.rsize)
    (hd : b'.data.length ≤ b.data.length) : b'.Proper :=
  ⟨h.pos.trans_le hr, hd.trans (h.le.trans hr), ht.trans h.tcp,
    (congrArg ConnState.running hw).trans h.writeAndGo⟩

/-- **One step keeps the buffer proper.** -/
theorem drive (h : b.Proper) (e : b.drive st a = some b') : b'.Proper := by
  rw [Buffered.drive] at e
  split at e
  · obtain rfl := Option.some.inj e
    rw [resetCmdHandler, connShrink]
    simp only
    split
    · rename_i hs
      exact ⟨Nat.succ_pos 2047, hs.2.le, h.tcp, h.writeAndGo⟩
    · exact h.of_conn rfl rfl le_rfl le_rfl
  · obtain rfl := Option.some.inj e
    exact h.of_conn rfl rfl le_rfl le_rfl
  · have hf := filled_tryReadNetwork h.pos h.le
    have hb : ∀ s, Proper { b.tryReadNetwork.1 with conn := { b.tryReadNetwork.1.conn with state := s } } :=
      fun s => ⟨hf.pos, hf.le, (congrArg Connection.transport hf.conn).trans h.tcp,
        (congrArg (fun c => c.writeAndGo.running) hf.conn).trans h.writeAndGo⟩
    revert e hb
    rcases b.tryReadNetwork with ⟨t, r⟩
    intro e hb
    cases r <;> (obtain rfl := Option.some.inj e; exact hb _)
  · obtain rfl := Option.some.inj e
    cases hm : Machine.tryReadCommand st a.ample ⟨b.conn, b.data, b.log⟩ with
    | some m =>
        obtain ⟨hc, hd, -, -, hr⟩ := tryReadCommand_some hm
        obtain ⟨hh, hl⟩ := tryReadCommand_keeps hm
        exact h.of_handled (hc ▸ hh) hr (hd ▸ hl)
    | none =>
        obtain ⟨s, he, -⟩ := tryReadCommand_none hm
        obtain ⟨ht, hw, -⟩ := b.conn.negotiate_keeps (b.conn.firstByte b.data)
        rw [he]
        exact h.of_conn ht hw le_rfl le_rfl
  · rename_i hst
    obtain rfl := Option.some.inj e
    rw [nread]
    split
    · exact h.of_handled (Connection.handled_completeNread (by rw [hst]; rfl)) le_rfl le_rfl
    · split
      · exact h.of_conn rfl rfl le_rfl le_rfl
      · have hcopy : b.copyData.Proper := h.of_conn rfl rfl le_rfl (by simp [copyData])
        simp only
        split
        · exact hcopy
        · split <;> exact hcopy.of_conn rfl rfl le_rfl le_rfl
  · obtain rfl := Option.some.inj e
    rw [swallow]
    split
    · exact h.of_conn rfl rfl le_rfl le_rfl
    · split
      · exact h.of_conn rfl rfl le_rfl (by simp)
      · split <;> exact h.of_conn rfl rfl le_rfl le_rfl
  · obtain rfl := Option.some.inj e
    exact ⟨h.pos, h.le, h.tcp, h.writeAndGo⟩
  · obtain rfl := Option.some.inj e
    exact ⟨h.pos, h.le, h.tcp, h.writeAndGo⟩
  · exact absurd e (by simp)

end Buffered.Proper

/-! ## The two machines -/

/-- **A connection, and the machine that has the whole stream at hand.** -/
inductive Sim (st : ConnSettings) (a : Answers) : Buffered → Machine → Prop
  /-- Both are at the same point. -/
  | same {b : Buffered} (hst : b.conn.state.running = true) : Sim st a b ⟨b.conn, b.input, b.log⟩
  /-- A command is parsed; the connection may have negotiated the protocol already. -/
  | parse {b : Buffered} {c : Connection} (hst : b.conn.state = .parseCmd)
      (hc : c.state = .parseCmd) (hd : b.data ≠ [])
      (hn : b.conn.negotiate (b.conn.firstByte b.data) = c.negotiate (c.firstByte b.data)) :
      Sim st a b ⟨c, b.input, b.log⟩
  /-- The rest of a command is waited for. -/
  | wait {b : Buffered} {c : Connection} {s : ConnState} (hs : s = .waiting ∨ s = .read)
      (hc : c.state = .parseCmd) (hd : b.data ≠ [])
      (hn : b.conn = { c.negotiate (c.firstByte b.data) with state := s })
      (hm : Machine.tryReadCommand st a ⟨c, b.data, b.log⟩ = none) :
      Sim st a b ⟨c, b.input, b.log⟩
  /-- A command is waited for. -/
  | idle {b : Buffered} {c : Connection} {s : ConnState} (hs : s = .waiting ∨ s = .read)
      (hc : c.state = .newCmd) (hd : b.data = []) (hn : b.conn = { c.resetCmd with state := s }) :
      Sim st a b ⟨c, b.input, b.log⟩
  /-- The connection has a part of what the machine reads at once. -/
  | reading {b : Buffered} {c : Connection} {taken : Bytes} (hc : c.state = .nread)
      (hlt : (taken.length : ℤ) < c.rlbytes) (hn : b.conn = c.receive taken) :
      Sim st a b ⟨c, taken ++ b.input, b.log⟩
  /-- The connection has thrown away a part of what the machine throws away at once. -/
  | skipping {b : Buffered} {c : Connection} {taken : Bytes} (hc : c.state = .swallow)
      (hlt : taken.length < c.sbytes) (hn : b.conn = c.skip taken) :
      Sim st a b ⟨c, taken ++ b.input, b.log⟩
  /-- The connection is closed where the machine can not go on. -/
  | closed {b : Buffered} {m : Machine} (hst : b.conn.state = .closing) (hm : m.drive st a = none)
      (hl : m.log = b.log) : Sim st a b m

/-- The machine gets to where the connection is. -/
def Matched (st : ConnSettings) (a : Answers) (b : Buffered) (m : Machine) : Prop :=
  ∃ m', Within (Machine.drive st a) (fun _ => False) m m' ∧ Sim st a b m'

/-- A simulation is a match without steps. -/
theorem Sim.matched (h : Sim st a b m) : Matched st a b m := ⟨m, .here, h⟩

/-- A step of the other machine comes first. -/
theorem matched_of_drive (e : m.drive st a = some m') (h : Matched st a b m') :
    Matched st a b m :=
  h.imp fun _ h => ⟨.step not_false e h.1, h.2⟩

/-- A value is received in parts. -/
theorem Connection.receive_receive (x y : Bytes) :
    (c.receive x).receive y = c.receive (x ++ y) := by
  simp [receive, sub_sub]

/-- What is swallowed is swallowed in parts. -/
theorem Connection.skip_skip (x y : Bytes) : (c.skip x).skip y = c.skip (x ++ y) := by
  simp [skip, Nat.sub_sub]

/-- No bytes are no part of a value. -/
theorem Connection.receive_nil : c.receive [] = c := by simp [receive]

/-- No bytes are no part of what is swallowed. -/
theorem Connection.skip_nil : c.skip [] = c := by simp [skip]

/-- A part of a value has arrived. -/
theorem matched_receive {taken : Bytes} (hc : c.state = .nread) (h0 : 0 < c.rlbytes)
    (hle : (taken.length : ℤ) ≤ c.rlbytes) (hn : b.conn = c.receive taken) :
    Matched st a b ⟨c, taken ++ b.input, b.log⟩ := by
  rcases hle.lt_or_eq with hlt | heq
  · exact (Sim.reading hc hlt hn).matched
  · have hlen : c.rlbytes.toNat = taken.length := by omega
    have hdrive : Machine.drive st a ⟨c, taken ++ b.input, b.log⟩
        = some ⟨b.conn, b.input, b.log⟩ := by
      simp only [Machine.drive, hc, Machine.nread, if_neg h0.ne', if_neg h0.not_gt, hlen]
      rw [if_neg (by rw [List.length_append]; omega), List.take_left, List.drop_left, hn,
        Connection.receive, heq, sub_self, hc]
    exact matched_of_drive hdrive (Sim.same (by rw [hn, Connection.receive, hc]; rfl)).matched

/-- A part of what is thrown away has arrived. -/
theorem matched_skip {taken : Bytes} (hc : c.state = .swallow) (h0 : 0 < c.sbytes)
    (hle : taken.length ≤ c.sbytes) (hn : b.conn = c.skip taken) :
    Matched st a b ⟨c, taken ++ b.input, b.log⟩ := by
  rcases hle.lt_or_eq with hlt | heq
  · exact (Sim.skipping hc hlt hn).matched
  · have hdrive : Machine.drive st a ⟨c, taken ++ b.input, b.log⟩
        = some ⟨b.conn, b.input, b.log⟩ := by
      simp only [Machine.drive, hc, Machine.swallow, if_neg h0.ne']
      rw [if_neg (by rw [List.length_append]; omega), ← heq, List.take_left, List.drop_left, hn,
        Connection.skip, ← heq, Nat.sub_self, hc]
    exact matched_of_drive hdrive (Sim.same (by rw [hn, Connection.skip, hc]; rfl)).matched

/-- The stream ends within a value. -/
theorem drive_nread_none {input : Bytes} (hc : c.state = .nread)
    (hlt : (input.length : ℤ) < c.rlbytes) : Machine.drive st a ⟨c, input, log⟩ = none := by
  simp only [Machine.drive, hc, Machine.nread]
  rw [if_neg (by omega), if_neg (by omega), if_pos (by omega)]

/-- The stream ends within what is thrown away. -/
theorem drive_swallow_none {input : Bytes} (hc : c.state = .swallow)
    (hlt : input.length < c.sbytes) : Machine.drive st a ⟨c, input, log⟩ = none := by
  simp only [Machine.drive, hc, Machine.swallow]
  rw [if_neg (by omega), if_pos hlt]

/-- **A round of `conn_nread` within a value.** -/
theorem matched_nread {taken : Bytes} (hc : c.state = .nread)
    (hlt : (taken.length : ℤ) < c.rlbytes) (hn : b.conn = c.receive taken) :
    Matched st a.ample (b.nread st a) ⟨c, taken ++ b.input, b.log⟩ := by
  have hrl : b.conn.rlbytes = c.rlbytes - taken.length := by rw [hn]; rfl
  rw [Buffered.nread, if_neg (by omega), if_neg (by omega)]
  simp only
  set d := b.data.take (min b.data.length b.conn.rlbytes.toNat) with hd
  have hdlen : d.length = min b.data.length b.conn.rlbytes.toNat := by
    rw [hd, List.length_take, min_comm b.data.length, min_assoc, min_self]
  have hconn : b.copyData.conn = c.receive (taken ++ d) := by
    rw [← Connection.receive_receive, ← hn]
    rfl
  have hinput : b.input = d ++ b.copyData.input := by
    rw [Buffered.input, Buffered.input, ← List.append_assoc]
    exact congrArg (· ++ b.socket.stream) (List.take_append_drop _ b.data).symm
  have hcopy : Matched st a.ample b.copyData ⟨c, taken ++ b.input, b.log⟩ := by
    rw [hinput, ← List.append_assoc]
    exact matched_receive hc (by omega) (by rw [List.length_append]; push_cast; omega) hconn
  split
  · exact hcopy
  rename_i hleft
  have hrl' : b.copyData.conn.rlbytes = b.conn.rlbytes - d.length := rfl
  have hdata : b.copyData.data = [] := List.drop_eq_nil_of_le (by omega)
  have hr := b.copyData.socket.reads_read (show 0 < b.copyData.conn.rlbytes.toNat by omega)
  generalize b.copyData.socket.read b.copyData.conn.rlbytes.toNat = r at hr
  have hreach : ∀ t : Buffered, t.log = b.log → ∀ x, t.conn = c.receive (taken ++ d ++ x) →
      b.copyData.input = x ++ t.input → (x.length : ℤ) ≤ b.copyData.conn.rlbytes →
      Matched st a.ample t ⟨c, taken ++ b.input, b.log⟩ := fun t hl x hx hi hle => by
    rw [hinput, hi, ← hl, ← List.append_assoc, ← List.append_assoc]
    exact matched_receive hc (by omega)
      (by rw [List.length_append, List.length_append]; push_cast; omega) hx
  cases hr with
  | data e k' he hle hs =>
      refine hreach _ rfl e ?_ ?_ (by omega)
      · exact (congrArg (Connection.receive · e) hconn).trans (Connection.receive_receive _ _)
      · rw [Buffered.input, hdata, List.nil_append, hs]
        rfl
  | again k' hs =>
      refine hreach _ rfl [] ?_ ?_ (by simp; omega)
      · rw [List.append_nil]
        exact hconn
      · rw [Buffered.input, hs]
        rfl
  | closed hs =>
      refine (Sim.closed rfl (drive_nread_none hc ?_) rfl).matched
      rw [hinput, Buffered.input, hdata, hs, List.append_nil, List.append_nil, List.length_append]
      push_cast
      omega

/-- **A round of `conn_swallow` within what is thrown away.** -/
theorem matched_swallow {taken : Bytes} (hpos : 0 < b.rsize) (hc : c.state = .swallow)
    (hlt : taken.length < c.sbytes) (hn : b.conn = c.skip taken) :
    Matched st a.ample b.swallow ⟨c, taken ++ b.input, b.log⟩ := by
  have hsb : b.conn.sbytes = c.sbytes - taken.length := by rw [hn]; rfl
  have hreach : ∀ t : Buffered, t.log = b.log → ∀ x, t.conn = b.conn.skip x →
      b.input = x ++ t.input → x.length ≤ b.conn.sbytes →
      Matched st a.ample t ⟨c, taken ++ b.input, b.log⟩ := fun t hl x hx hi hle => by
    rw [hi, ← hl, ← List.append_assoc]
    exact matched_skip hc (by omega) (by rw [List.length_append]; omega)
      (by rw [hx, hn, Connection.skip_skip])
  rw [Buffered.swallow, if_neg (by omega)]
  split
  · refine hreach _ rfl (b.data.take (min b.data.length b.conn.sbytes)) rfl ?_ ?_
    · show b.data ++ b.socket.stream
        = b.data.take _ ++ (b.data.drop (min b.data.length b.conn.sbytes) ++ b.socket.stream)
      rw [← List.append_assoc, List.take_append_drop]
    · rw [List.length_take]
      omega
  · rename_i hd
    have hdata : b.data = [] := not_not.mp hd
    have hr := b.socket.reads_read (show 0 < min b.rsize b.conn.sbytes by omega)
    generalize b.socket.read (min b.rsize b.conn.sbytes) = r at hr
    cases hr with
    | data e k' he hle hs =>
        refine hreach _ rfl e rfl ?_ (by omega)
        rw [Buffered.input, Buffered.input, hdata, List.nil_append, hs]
        rfl
    | again k' hs =>
        refine hreach _ rfl [] (Connection.skip_nil).symm ?_ (Nat.zero_le _)
        rw [Buffered.input, Buffered.input, hs]
        rfl
    | closed hs =>
        refine (Sim.closed rfl (drive_swallow_none hc ?_) rfl).matched
        rw [Buffered.input, hdata, hs, List.append_nil, List.append_nil]
        exact hlt

/-- **`try_read_command`**, on what the buffer has of the stream. -/
theorem matched_parse (hc : c.state = .parseCmd) (hd : b.data ≠ [])
    (hn : b.conn.negotiate (b.conn.firstByte b.data) = c.negotiate (c.firstByte b.data))
    (hline : Machine.AtLine ⟨c, b.input, b.log⟩ → LineFits b.input) :
    Matched st a.ample (b.tryReadCommand st a) ⟨c, b.input, b.log⟩ := by
  have hcongr : Machine.tryReadCommand st a.ample ⟨b.conn, b.data, b.log⟩
      = Machine.tryReadCommand st a.ample ⟨c, b.data, b.log⟩ := tryReadCommand_congr hn
  cases hm : Machine.tryReadCommand st a.ample ⟨b.conn, b.data, b.log⟩ with
  | some m =>
      obtain ⟨hconn, hdata, hlog, hsock, -⟩ := Buffered.tryReadCommand_some hm
      have hdrive : Machine.drive st a.ample ⟨c, b.input, b.log⟩
          = some ⟨(b.tryReadCommand st a).conn, (b.tryReadCommand st a).input,
            (b.tryReadCommand st a).log⟩ := by
        simp only [Machine.drive, hc, Buffered.input, hconn, hdata, hlog, hsock]
        exact tryReadCommand_append hd (hcongr ▸ hm)
      refine matched_of_drive hdrive (Sim.same ?_).matched
      rw [hconn]
      exact (tryReadCommand_keeps hm).1.running
  | none =>
      obtain ⟨s, he, hs⟩ := Buffered.tryReadCommand_none hm
      rw [hn] at he hs
      rw [he]
      rcases hs with rfl | ⟨rfl, hasc, hlong, hget⟩
      · exact (Sim.wait (s := .waiting)
          (b := { b with conn := { c.negotiate (c.firstByte b.data) with state := .waiting } })
          (Or.inl rfl) hc hd rfl (hcongr ▸ hm)).matched
      · refine (Sim.closed rfl ?_ rfl).matched
        simp only [Machine.drive, hc]
        refine tryReadCommand_tooLong hd hasc (hcongr ▸ hm) hlong hget (hline ⟨hc, ?_⟩)
        rwa [show c.firstByte b.input = c.firstByte b.data from Connection.firstByte_append _ hd]

/-- The state after `try_read_network`. -/
def TryReadResult.next : TryReadResult → ConnState
  | .noDataReceived => .waiting
  | .dataReceived => .parseCmd
  | .error => .closing

/-- A step in the state `conn_read`. -/
theorem Buffered.drive_read (hst : b.conn.state = .read) :
    b.drive st a = some { b.tryReadNetwork.1 with
      conn := { b.tryReadNetwork.1.conn with state := b.tryReadNetwork.2.next } } := by
  rw [Buffered.drive, hst]
  simp only
  rcases b.tryReadNetwork with ⟨t, r⟩
  cases r <;> rfl

/-- **`try_read_network`**, when the rest of a command is waited for. -/
theorem matched_read_wait (hp : b.Proper) (hf : b.tryReadNetwork.2 = .error → b.socket.stream = [])
    (hc : c.state = .parseCmd) (hd : b.data ≠ []) (ht : c.transport = .tcp)
    (hn : b.conn = { c.negotiate (c.firstByte b.data) with state := .read })
    (hm : Machine.tryReadCommand st a.ample ⟨c, b.data, b.log⟩ = none) :
    Matched st a.ample { b.tryReadNetwork.1 with
      conn := { b.tryReadNetwork.1.conn with state := b.tryReadNetwork.2.next } }
      ⟨c, b.input, b.log⟩ := by
  obtain ⟨hconn, hlog, hpre, hinput, -, -, hno, hrec, herr⟩ :=
    Buffered.filled_tryReadNetwork hp.pos hp.le
  set t := b.tryReadNetwork.1
  have hstate : (c.negotiate (c.firstByte b.data)).state = .parseCmd :=
    (c.negotiate_keeps _).2.2.trans hc
  rw [← hinput, ← hlog]
  cases hr : b.tryReadNetwork.2 with
  | noDataReceived =>
      have hdata : t.data = b.data := (hno hr).2
      refine (Sim.wait (s := .waiting) (b := { t with conn := { t.conn with state := .waiting } })
        (Or.inl rfl) hc (hdata ▸ hd) ?_ ?_).matched
      · simp only [hconn, hn, hdata]
      · simp only [hdata, hlog, hm]
  | dataReceived =>
      have hfirst : c.firstByte t.data = c.firstByte b.data := by
        obtain ⟨rest, hrest⟩ := hpre
        rw [← hrest, Connection.firstByte_append rest hd]
      refine (Sim.parse (b := { t with conn := { t.conn with state := .parseCmd } }) rfl hc
        (hrec hr) ?_).matched
      have hconn' : ({ t.conn with state := .parseCmd } : Connection)
          = c.negotiate (c.firstByte b.data) := by
        rw [hconn, hn, ← hstate]
      have hbyte : (c.negotiate (c.firstByte b.data)).firstByte t.data = c.firstByte t.data := by
        simp only [Connection.firstByte, (c.negotiate_keeps _).1, ht, reduceCtorEq, if_false]
      show ({ t.conn with state := .parseCmd } : Connection).negotiate
        (({ t.conn with state := .parseCmd } : Connection).firstByte t.data) = _
      rw [hconn', hbyte, hfirst, Connection.negotiate_negotiate ht]
  | error =>
      have hdata : b.input = b.data := by rw [Buffered.input, hf hr, List.append_nil]
      refine (Sim.closed rfl ?_ rfl).matched
      simp only [Machine.drive, hc, hinput, hdata, hlog, hm]

/-- **`try_read_network`**, when a command is waited for. -/
theorem matched_read_idle (hp : b.Proper) (hf : b.tryReadNetwork.2 = .error → b.socket.stream = [])
    (hc : c.state = .newCmd) (hd : b.data = []) (hn : b.conn = { c.resetCmd with state := .read }) :
    Matched st a.ample { b.tryReadNetwork.1 with
      conn := { b.tryReadNetwork.1.conn with state := b.tryReadNetwork.2.next } }
      ⟨c, b.input, b.log⟩ := by
  obtain ⟨hconn, hlog, hpre, hinput, -, -, hno, hrec, herr⟩ :=
    Buffered.filled_tryReadNetwork hp.pos hp.le
  set t := b.tryReadNetwork.1
  rw [← hinput, ← hlog]
  cases hr : b.tryReadNetwork.2 with
  | noDataReceived =>
      refine (Sim.idle (s := .waiting) (b := { t with conn := { t.conn with state := .waiting } })
        (Or.inl rfl) hc ((hno hr).2.trans hd) ?_).matched
      simp only [hconn, hn]
  | dataReceived =>
      have hne : t.input ≠ [] := fun h => hrec hr (List.append_eq_nil_iff.mp h).1
      have hdrive : Machine.drive st a.ample ⟨c, t.input, t.log⟩
          = some ⟨{ t.conn with state := .parseCmd }, t.input, t.log⟩ := by
        simp only [Machine.drive, hc, if_neg hne, hconn, hn]
      exact matched_of_drive hdrive (Sim.parse
        (b := { t with conn := { t.conn with state := .parseCmd } }) rfl rfl (hrec hr) rfl).matched
  | error =>
      have hdata : b.input = [] := by rw [Buffered.input, hf hr, hd, List.append_nil]
      refine (Sim.closed rfl ?_ rfl).matched
      simp only [Machine.drive, hc, hinput, hdata, if_true]

/-- A round of both machines. -/
theorem matched_round (e : Machine.drive st a ⟨b.conn, b.input, b.log⟩
      = some ⟨b'.conn, b'.input, b'.log⟩) (h : b'.conn.state.running = true) :
    Matched st a b' ⟨b.conn, b.input, b.log⟩ :=
  matched_of_drive e (Sim.same h).matched

/-- `reset_cmd_handler`. -/
theorem matched_resetCmdHandler (hs : b.conn.state = .newCmd) :
    Matched st a b.resetCmdHandler ⟨b.conn, b.input, b.log⟩ := by
  obtain ⟨hc, hk, hd, hl⟩ := b.connShrink_keeps
  have hinput : b.resetCmdHandler.input = b.input := by
    show b.connShrink.data ++ b.connShrink.socket.stream = _
    rw [hd, hk, Buffered.input]
  have hlog : b.resetCmdHandler.log = b.log := hl
  have hdata : b.resetCmdHandler.data = b.data := hd
  rw [← hinput, ← hlog]
  by_cases hempty : b.data = []
  · refine (Sim.idle (s := .waiting) (Or.inl rfl) hs (hdata.trans hempty) ?_).matched
    simp only [Buffered.resetCmdHandler, hc, hd, hempty, if_true]
  · have hconn : b.resetCmdHandler.conn = { b.conn.resetCmd with state := .parseCmd } := by
      simp only [Buffered.resetCmdHandler, hc, hd, if_neg hempty]
    have hne : b.resetCmdHandler.input ≠ [] := fun h =>
      hempty (List.append_eq_nil_iff.mp (hinput.symm.trans h)).1
    have hdrive : Machine.drive st a ⟨b.conn, b.resetCmdHandler.input, b.resetCmdHandler.log⟩
        = some ⟨b.resetCmdHandler.conn, b.resetCmdHandler.input, b.resetCmdHandler.log⟩ := by
      simp only [Machine.drive, hs, if_neg hne, hconn]
    exact matched_of_drive hdrive
      (Sim.parse (by rw [hconn]) (by rw [hconn]) (by rw [hdata]; exact hempty) rfl).matched

/-- **A round that needs no command from the buffer.** -/
theorem matched_same (hp : b.Proper) (hst : b.conn.state.running = true)
    (e : b.drive st a = some b') : Matched st a.ample b' ⟨b.conn, b.input, b.log⟩ := by
  have hfalse : ∀ {s}, b.conn.state = s → s.running = false → False :=
    fun hs hr => absurd (hs ▸ hst) (by simp [hr])
  rw [Buffered.drive] at e
  split at e
  case h_1 hs =>
    obtain rfl := Option.some.inj e
    exact matched_resetCmdHandler hs
  case h_2 hs => exact (hfalse hs rfl).elim
  case h_3 hs => exact (hfalse hs rfl).elim
  case h_4 hs => exact (hfalse hs rfl).elim
  case h_5 hs =>
    obtain rfl := Option.some.inj e
    by_cases h0 : b.conn.rlbytes = 0
    · refine matched_round ?_ ?_
      · simp only [Machine.drive, hs, Machine.nread, Buffered.nread, if_pos h0, Buffered.input]
      · simp only [Buffered.nread, if_pos h0]
        exact (Connection.handled_completeNread (by rw [hs]; rfl)).running
    · by_cases hneg : b.conn.rlbytes < 0
      · refine matched_round ?_ ?_
        · simp only [Machine.drive, hs, Machine.nread, Buffered.nread, if_neg h0, if_pos hneg,
            Buffered.input]
        · simp only [Buffered.nread, if_neg h0, if_pos hneg, ConnState.running]
      · exact matched_nread hs (by simp only [List.length_nil]; omega)
          (Connection.receive_nil.symm : b.conn = b.conn.receive [])
  case h_6 hs =>
    obtain rfl := Option.some.inj e
    by_cases h0 : b.conn.sbytes = 0
    · refine matched_round ?_ ?_
      · simp only [Machine.drive, hs, Machine.swallow, Buffered.swallow, if_pos h0, Buffered.input]
      · simp only [Buffered.swallow, if_pos h0, ConnState.running]
    · exact matched_swallow hp.pos hs (by simp only [List.length_nil]; omega)
        (Connection.skip_nil.symm : b.conn = b.conn.skip [])
  case h_9 => exact absurd e (by simp)
  all_goals
    rename_i hs
    obtain rfl := Option.some.inj e
    refine matched_round ?_ ?_
    · simp only [Machine.drive, hs, Buffered.input]
    · simp only [Connection.afterWrite]
      split
      · rfl
      · exact hp.writeAndGo

/-- **A round of the connection** is matched by the machine that has the whole stream at hand. -/
theorem Sim.step (h : Sim st a.ample b m) (hp : b.Proper)
    (hline : m.AtLine → LineFits m.input) (hf : ¬ b.Forgets) (e : b.drive st a = some b') :
    Matched st a.ample b' m := by
  have hforget : b.conn.state = .read → b.tryReadNetwork.2 = .error → b.socket.stream = [] :=
    fun hst he => by
      by_contra hne
      exact hf ⟨hst, he, hne⟩
  have hwaiting : b.conn.state = .waiting → b' = { b with conn := { b.conn with state := .read } } :=
    fun hst => by
      rw [Buffered.drive, hst] at e
      exact (Option.some.inj e).symm
  cases h with
  | parse hst hc hd hn =>
      rw [Buffered.drive, hst] at e
      obtain rfl := Option.some.inj e
      exact matched_parse hc hd hn hline
  | wait hs hc hd hn hm =>
      rename_i c s
      have htcp : c.transport = .tcp := by
        rw [← (c.negotiate_keeps (c.firstByte b.data)).1, ← hp.tcp, hn]
      rcases hs with rfl | rfl
      · rw [hwaiting (by rw [hn])]
        exact (Sim.wait (s := .read) (b := { b with conn := { b.conn with state := .read } })
          (Or.inr rfl) hc hd (by simp only [hn]) hm).matched
      · have hst : b.conn.state = .read := by rw [hn]
        rw [Buffered.drive_read hst] at e
        obtain rfl := Option.some.inj e
        exact matched_read_wait hp (hforget hst) hc hd htcp hn hm
  | idle hs hc hd hn =>
      rcases hs with rfl | rfl
      · rw [hwaiting (by rw [hn])]
        exact (Sim.idle (s := .read) (b := { b with conn := { b.conn with state := .read } })
          (Or.inr rfl) hc hd (by simp only [hn])).matched
      · have hst : b.conn.state = .read := by rw [hn]
        rw [Buffered.drive_read hst] at e
        obtain rfl := Option.some.inj e
        exact matched_read_idle hp (hforget hst) hc hd hn
  | reading hc hlt hn =>
      have hst : b.conn.state = .nread := by rw [hn]; exact hc
      rw [Buffered.drive, hst] at e
      obtain rfl := Option.some.inj e
      exact matched_nread hc hlt hn
  | skipping hc hlt hn =>
      have hst : b.conn.state = .swallow := by rw [hn]; exact hc
      rw [Buffered.drive, hst] at e
      obtain rfl := Option.some.inj e
      exact matched_swallow hp.pos hc hlt hn
  | closed hst hm hl =>
      rw [Buffered.drive, hst] at e
      exact absurd e (by simp)
  | same hst => exact matched_same hp hst e

/-! ## Runs -/

/-- Both machines have logged the same. -/
theorem Sim.log_eq (h : Sim st a b m) : m.log = b.log := by
  cases h with
  | closed _ _ hl => exact hl
  | _ => rfl

/-- What is logged on the way stays logged. -/
theorem log_prefix_within {stop : Machine → Prop} (h : Within (Machine.drive st a) stop m m') :
    m.log <+: m'.log := by
  induction h with
  | here => exact List.prefix_refl _
  | step _ e _ ih => exact (log_prefix_drive e).trans ih

/-- **Where the connection waits in vain**, the machine can not go on. -/
theorem Sim.stuck (h : Sim st a b m) (hs : b.Settled) : m.drive st a = none := by
  have hstream : b.socket.segments = [] → b.input = b.data := fun h => by
    rw [Buffered.input, Socket.stream, h, List.flatten_nil, List.append_nil]
  rcases hs with hs | ⟨hseg, hs | ⟨hs, hpos, hd⟩ | ⟨hs, hpos, hd⟩⟩
  · cases h with
    | same => rw [Machine.drive, hs]
    | parse hst => exact absurd (hs.symm.trans hst) (by simp)
    | wait hw _ _ hn => rcases hw with rfl | rfl <;> exact absurd hs (by simp [hn])
    | idle hw _ _ hn => rcases hw with rfl | rfl <;> exact absurd hs (by simp [hn])
    | reading hc _ hn => exact absurd hs (by simp [hn, Connection.receive, hc])
    | skipping hc _ hn => exact absurd hs (by simp [hn, Connection.skip, hc])
    | closed _ hm => exact hm
  · have hnot : ∀ x, x ≠ .waiting → x ≠ .read → b.conn.state ≠ x := by
      rintro _ hw hr rfl
      exact hs.elim hw hr
    cases h with
    | same hst => rcases hs with hs | hs <;> exact absurd hst (by simp [hs, ConnState.running])
    | parse hst => exact absurd hst (hnot _ (by simp) (by simp))
    | wait _ hc _ _ hm => simp only [Machine.drive, hc, hstream hseg, hm]
    | idle _ hc hd => simp only [Machine.drive, hc, hstream hseg, hd, if_true]
    | reading hc _ hn =>
        exact absurd (by simp [hn, Connection.receive, hc]) (hnot .nread (by simp) (by simp))
    | skipping hc _ hn =>
        exact absurd (by simp [hn, Connection.skip, hc]) (hnot .swallow (by simp) (by simp))
    | closed _ hm => exact hm
  · cases h with
    | same => exact drive_nread_none hs (by simpa [hstream hseg, hd] using hpos)
    | parse hst => exact absurd (hs.symm.trans hst) (by simp)
    | wait hw _ _ hn => rcases hw with rfl | rfl <;> exact absurd hs (by simp [hn])
    | idle hw _ _ hn => rcases hw with rfl | rfl <;> exact absurd hs (by simp [hn])
    | reading hc hlt _ => exact drive_nread_none hc (by simpa [hstream hseg, hd] using hlt)
    | skipping hc _ hn => exact absurd hs (by simp [hn, Connection.skip, hc])
    | closed _ hm => exact hm
  · cases h with
    | same => exact drive_swallow_none hs (by simpa [hstream hseg, hd] using hpos)
    | parse hst => exact absurd (hs.symm.trans hst) (by simp)
    | wait hw _ _ hn => rcases hw with rfl | rfl <;> exact absurd hs (by simp [hn])
    | idle hw _ _ hn => rcases hw with rfl | rfl <;> exact absurd hs (by simp [hn])
    | reading hc _ hn => exact absurd hs (by simp [hn, Connection.receive, hc])
    | skipping hc hlt _ => exact drive_swallow_none hc (by simpa [hstream hseg, hd] using hlt)
    | closed _ hm => exact hm

/-- **A connection does what the machine does** that has the whole stream at hand. -/
theorem matched_of_within {r : ℕ} (hr : 0 < r)
    (hl : Machine.LinesFit st a.ample ⟨c.opened, k.stream, []⟩)
    (h : Within (Buffered.drive st a) Buffered.Forgets (.opened c r k) b) :
    Matched st a.ample b ⟨c.opened, k.stream, []⟩ := by
  have hinv : b.Proper ∧ Matched st a.ample b ⟨c.opened, k.stream, []⟩ := by
    refine h.invariant (P := fun b => b.Proper ∧ Matched st a.ample b ⟨c.opened, k.stream, []⟩)
      ⟨⟨hr, Nat.zero_le _, rfl, rfl⟩, (Sim.same (b := .opened c r k) rfl).matched⟩ ?_
    rintro b b' ⟨hp, m, hm, hsim⟩ hf e
    obtain ⟨m', hm', hsim'⟩ := hsim.step hp (hl m hm) hf e
    exact ⟨hp.drive e, m', hm.trans hm', hsim'⟩
  exact hinv.2

/-- **What a connection does is a matter of the stream, not of the reads it comes in**: as long as no
`try_read_network` finds the end of the stream behind bytes that it has just read, two connections
that get the same bytes do the same things in the same order, and both have done them when they are
closed or wait in vain. -/
theorem segmentation_invariant {k' : Socket} {r r' : ℕ} (hr : 0 < r) (hr' : 0 < r')
    (hk : k.stream = k'.stream) (hl : Machine.LinesFit st a.ample ⟨c.opened, k.stream, []⟩)
    (h : Within (Buffered.drive st a) Buffered.Forgets (.opened c r k) b)
    (h' : Within (Buffered.drive st a) Buffered.Forgets (.opened c r' k') b') :
    (b.log <+: b'.log ∨ b'.log <+: b.log) ∧ (b.Settled → b'.Settled → b.log = b'.log) := by
  obtain ⟨m, hm, hsim⟩ := matched_of_within hr hl h
  obtain ⟨m', hm', hsim'⟩ := matched_of_within hr' (hk ▸ hl) h'
  rw [← hk] at hm'
  rw [← hsim.log_eq, ← hsim'.log_eq]
  refine ⟨(hm.total hm').imp log_prefix_within log_prefix_within, fun hs hs' => ?_⟩
  rcases hm.total hm' with hw | hw
  · rw [hw.eq_of_none (hsim.stuck hs)]
  · rw [hw.eq_of_none (hsim'.stuck hs')]

/-! ## A stream that ends with the buffer -/

instance (m : Machine) : Decidable m.AtLine := inferInstanceAs (Decidable (_ ∧ _))

instance (input : Bytes) : Decidable (LineFits input) := inferInstanceAs (Decidable (_ → _ ∨ _))

instance (b : Buffered) : Decidable b.Forgets := inferInstanceAs (Decidable (_ ∧ _ ∧ _))

instance (b : Buffered) : Decidable b.Settled :=
  inferInstanceAs (Decidable (_ ∨ _ ∧ ((_ ∨ _) ∨ (_ ∧ _ ∧ _) ∨ (_ ∧ _ ∧ _))))

/-- The lines that the machine reads within `n` rounds, which are all. -/
def Machine.linesFit (st : ConnSettings) (a : Answers) : ℕ → Machine → Bool
  | 0, _ => false
  | n + 1, m =>
      decide (m.AtLine → LineFits m.input) &&
        match m.drive st a with
        | some m' => linesFit st a n m'
        | none => true

/-- The check of an example is enough. -/
theorem Machine.linesFit_of_check {n : ℕ} (h : m.linesFit st a n = true) : m.LinesFit st a := by
  induction n generalizing m with
  | zero => exact absurd h (by simp [linesFit])
  | succ n ih =>
      rw [linesFit, Bool.and_eq_true] at h
      intro m' hw
      cases hw with
      | here => exact of_decide_eq_true h.1
      | step _ e ht =>
          rw [e] at h
          exact ih h.2 m' ht

/-- A line of 1024 bytes. -/
def multiget : Bytes := ascii "get" ++ (List.replicate 510 (ascii " k")).flatten ++ [10]

/-- Two lines that fill the read buffer of a new connection. -/
def twoLines (segments : List Bytes) : Buffered :=
  .opened asciiConn dataBufferSize ⟨segments, true⟩

/-- The lines may come in two reads or in four. -/
theorem segmentation_invariant_twoLines :
    (Transition.advance (Buffered.drive .plain (.allocating .ok)) Buffered.Forgets 20
        (twoLines [multiget, multiget])).log
      = (Transition.advance (Buffered.drive .plain (.allocating .ok)) Buffered.Forgets 30
        (twoLines [multiget.take 2, multiget.drop 2, [], multiget.take 1023, [10]])).log :=
  (segmentation_invariant (show 0 < dataBufferSize by decide) (show 0 < dataBufferSize by decide)
    (by decide +kernel) (Machine.linesFit_of_check (n := 20) (by decide +kernel))
    (Transition.within_advance _ _ _ _) (Transition.within_advance _ _ _ _)).2
    (by decide +kernel) (by decide +kernel)

/-- **What has just been read may be forgotten**: when both lines come in one read, they fill the
buffer, and the next `read`, which finds the end of the stream, closes the connection before either
is executed. -/
theorem segmentation_fails : ¬ ∀ (st : ConnSettings) (a : Answers) (c : Connection)
    (k k' : Socket) (b b' : Buffered), k.stream = k'.stream →
      Machine.LinesFit st a.ample ⟨c.opened, k.stream, []⟩ →
      Within (Buffered.drive st a) (fun _ => False) (.opened c dataBufferSize k) b →
      Within (Buffered.drive st a) (fun _ => False) (.opened c dataBufferSize k') b' →
      b.Settled → b'.Settled → b.log = b'.log := by
  intro hall
  have heq := hall .plain (.allocating .ok) asciiConn ⟨[multiget ++ multiget], true⟩
    ⟨[multiget, multiget], true⟩ _ _ (by decide +kernel)
    (Machine.linesFit_of_check (n := 20) (by decide +kernel))
    (Transition.within_advance _ _ 20 _) (Transition.within_advance _ _ 20 _)
    (by decide +kernel) (by decide +kernel)
  exact absurd heq (by decide +kernel)

end Memcached
