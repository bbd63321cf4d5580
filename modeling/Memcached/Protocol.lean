import Memcached.Commands

/-! # Requests on the wire

What the two protocols make of the bytes of a request: the tokens of an ASCII command line and the
fields of a binary request header.

* **`tokenizeCommand`** — the tokens of a command line.
* **`BinHeader.decode`** — the fields of a binary header.
* **`updateCommand`**, **`noreplyCommand`** — the lines of the storage commands, and those on which
  others take `noreply`. -/

namespace Memcached

open CNumber (Bytes)

/-- `KEY_MAX_LENGTH`. -/
def keyMaxLength : ℕ := 250

/-- `MAX_TOKENS`. -/
def maxTokens : ℕ := 8

/-- `MAX_SASL_MECH_LEN`. -/
def maxSaslMechLen : ℕ := 32

/-! ## Command lines -/

/-- The bytes of an ASCII string. -/
def ascii (str : String) : Bytes := str.toList.map fun c => UInt8.ofNat c.toNat

/-- The loop of `tokenize_command`: `tok` is the token at hand, and `left` more may be taken. The
second component is what is left of the line after the last token. -/
def tokenizeFrom : ℕ → Bytes → Bytes → List Bytes × Bytes
  | _, tok, [] => (if tok = [] then [] else [tok], [])
  | left, tok, b :: rest =>
      if b ≠ 32 then tokenizeFrom left (tok ++ [b]) rest
      else if tok = [] then tokenizeFrom left [] rest
      else if left ≤ 1 then ([tok], rest)
      else
        let r := tokenizeFrom (left - 1) [] rest
        (tok :: r.1, r.2)

/-- `tokenize_command`: the command is a string, it ends at the first NUL. The terminal token is
left out, so `ntokens` is one more than the length of the list. -/
def tokenizeCommand (command : Bytes) : List Bytes × Bytes :=
  tokenizeFrom (maxTokens - 1) [] (command.takeWhile (· ≠ 0))

/-- The commands of `process_command` with five arguments that take a data block. -/
def storageWord (word : Bytes) : Option Comm :=
  if word = ascii "add" then some .add
  else if word = ascii "set" then some .set
  else if word = ascii "replace" then some .replace
  else if word = ascii "prepend" then some .prepend
  else if word = ascii "append" then some .append
  else none

/-- The command lines that `process_command` hands to `process_update_command`, and whether they
carry a CAS id. -/
def updateCommand (ntokens : ℕ) (word : Bytes) : Option (Comm × Bool) :=
  match if ntokens = 6 ∨ ntokens = 7 then storageWord word else none with
  | some comm => some (comm, false)
  | none =>
      if (ntokens = 7 ∨ ntokens = 8) ∧ word = ascii "cas" then some (.cas, true) else none

/-- The command lines on which another handler calls `set_noreply_maybe`. -/
def noreplyCommand (ntokens : ℕ) (tokens : List Bytes) : Bool :=
  let word := tokens.headD []
  (decide (ntokens = 4 ∨ ntokens = 5) &&
      (word == ascii "incr" || word == ascii "decr" || word == ascii "touch"))
    -- `delete` looks for it behind its key only
    || (decide (ntokens = 4 ∨ ntokens = 5) && word == ascii "delete")
    || (decide (2 ≤ ntokens ∧ ntokens ≤ 4) && word == ascii "flush_all")
    || (decide (ntokens = 3 ∨ ntokens = 4) && word == ascii "verbosity")
    || (decide (ntokens = 4) && word == ascii "slabs" && tokens.getD 1 [] == ascii "automove")

/-- The line is a `get`, `bget` or `gets` with at least one key. -/
def getCommand (ntokens : ℕ) (word : Bytes) : Bool :=
  decide (3 ≤ ntokens) && (word == ascii "get" || word == ascii "bget" || word == ascii "gets")

/-! ## Binary headers -/

/-- `protocol_binary_command`. -/
inductive Opcode
  | get | set | add | replace | delete | increment | decrement | quit | flush | getQ | noop
  | version | getK | getKQ | append | prepend | stat | setQ | addQ | replaceQ | deleteQ
  | incrementQ | decrementQ | quitQ | flushQ | appendQ | prependQ | touch | gat | gatQ
  | saslListMechs | saslAuth | saslStep | gatK | gatKQ
  deriving DecidableEq, Repr

namespace Opcode

/-- The opcodes from 0 to `PREPENDQ`, without gaps. -/
def low : List Opcode :=
  [get, set, add, replace, delete, increment, decrement, quit, flush, getQ, noop, version, getK,
    getKQ, append, prepend, stat, setQ, addQ, replaceQ, deleteQ, incrementQ, decrementQ, quitQ,
    flushQ, appendQ, prependQ]

/-- The command of an opcode byte, `none` for those that `dispatch_bin_command` does not know. -/
def ofByte (b : UInt8) : Option Opcode :=
  if b.toNat < 27 then low[b.toNat]?
  else if b = 0x1c then some touch
  else if b = 0x1d then some gat
  else if b = 0x1e then some gatQ
  else if b = 0x20 then some saslListMechs
  else if b = 0x21 then some saslAuth
  else if b = 0x22 then some saslStep
  else if b = 0x23 then some gatK
  else if b = 0x24 then some gatKQ
  else none

/-- The first `switch` of `dispatch_bin_command`: a quiet command runs as another one. -/
def loud : Opcode → Opcode
  | setQ => set
  | addQ => add
  | replaceQ => replace
  | deleteQ => delete
  | incrementQ => increment
  | decrementQ => decrement
  | quitQ => quit
  | flushQ => flush
  | appendQ => append
  | prependQ => prepend
  | getQ => get
  | getKQ => getK
  | gatQ => gat
  | gatKQ => gat
  | op => op

/-- The quiet commands, which that `switch` names. -/
def quiet : Opcode → Bool
  | setQ | addQ | replaceQ | deleteQ | incrementQ | decrementQ | quitQ | flushQ | appendQ
  | prependQ | getQ | getKQ | gatQ | gatKQ => true
  | _ => false

end Opcode

/-- `protocol_binary_request_header`, in host byte order. -/
structure BinHeader where
  magic : UInt8
  opcode : UInt8
  keylen : UInt16
  extlen : UInt8
  bodylen : UInt32
  opaqueId : UInt32
  cas : UInt64
  deriving DecidableEq, Repr, Inhabited

/-- `sizeof(protocol_binary_request_header)`. -/
def headerLen : ℕ := 24

/-- `PROTOCOL_BINARY_REQ`. -/
def binaryReq : UInt8 := 0x80

/-- The big-endian number of some bytes: `ntohs`, `ntohl`, `ntohll`. -/
def ntoh (bs : Bytes) : ℕ := bs.foldl (fun n b => n * 256 + b.toNat) 0

/-- The header at the start of some bytes. -/
def BinHeader.decode (bs : Bytes) : BinHeader where
  magic := bs.getD 0 0
  opcode := bs.getD 1 0
  keylen := UInt16.ofNat (ntoh ((bs.drop 2).take 2))
  extlen := bs.getD 4 0
  bodylen := UInt32.ofNat (ntoh ((bs.drop 8).take 4))
  opaqueId := UInt32.ofNat (ntoh ((bs.drop 12).take 4))
  cas := UInt64.ofNat (ntoh ((bs.drop 16).take 8))

end Memcached
