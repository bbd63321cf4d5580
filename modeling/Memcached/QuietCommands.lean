import Memcached.RoundTrip
import Memcached.StatsReply

/-! # Quiet and loud binary commands

`dispatch_bin_command` runs a quiet command as a loud one and sets `c->noreply`, which
`write_bin_response` and the misses of `process_bin_get_or_touch` look at. The handlers are modelled with
the store and the whole response; other threads act while the key and the value are read.

* **`runBin`** — a binary command, from its header to its response.
* **`Agrees`** — what may differ between a quiet command and the loud one.
* **`quietAgrees_iff`**, **`quietAgrees_gatKQ`** — for which commands nothing else does. -/

namespace Memcached

open CNumber (Bytes toInt32)

/-! ## Responses -/

/-- `protocol_binary_response_status`, as far as these commands use it. -/
inductive BinStatus
  | success | keyEnoent | keyEexists | e2big | einval | notStored | deltaBadval | authError | enomem
  deriving DecidableEq, Repr

/-- The text of `write_bin_error` for a status. -/
def BinStatus.text : BinStatus → Bytes
  | .success => []
  | .keyEnoent => ascii "Not found"
  | .keyEexists => ascii "Data exists for key."
  | .e2big => ascii "Too large."
  | .einval => ascii "Invalid arguments"
  | .notStored => ascii "Not stored."
  | .deltaBadval => ascii "Non-numeric server-side value for incr or decr"
  | .authError => ascii "Auth failure."
  | .enomem => ascii "Out of memory"

/-- A response: the fields of the header that `add_bin_header` is given, less the opcode and the opaque
of the request, and what follows the header. -/
structure BinResponse where
  status : BinStatus
  extlen : ℕ
  keylen : ℕ
  bodylen : ℕ
  cas : ℕ
  extras : Bytes
  key : Bytes
  value : Bytes
  deriving DecidableEq, Repr

/-- `c->cmd`: an opcode, or what the handlers of a value make of it. -/
inductive BinCmd
  | op (o : Opcode)
  | nread (comm : Comm)
  deriving DecidableEq, Repr

/-- The fields of a connection that the commands use. -/
structure BinConn where
  cmd : BinCmd
  noreply : Bool
  header : BinHeader
  cas : ℕ
  item : Option Ptr
  deriving DecidableEq, Repr

/-- The state after the response, if there is one: the next command, the end, bytes to throw away, a
key or a value to read. -/
inductive BinNext
  | newCmd
  | closing
  | swallow (sbytes : ℤ)
  | readKey (substate : Substate)
  | readValue (vlen : ℤ)
  deriving DecidableEq, Repr

/-- What a handler leaves. -/
structure BinResult where
  store : Store
  conn : BinConn
  response : Option BinResponse
  next : BinNext

/-- `write_bin_error`, with the text that it is given or that of the status. -/
def writeBinError (s : Store) (c : BinConn) (status : BinStatus) (text : Bytes) (swallow : ℤ) :
    BinResult where
  store := s
  conn := c
  response := some ⟨status, 0, 0, text.length, c.cas, [], [], text⟩
  next := if swallow > 0 then .swallow swallow else .newCmd

/-- `write_bin_response`. -/
def writeBinResponse (s : Store) (c : BinConn) (d : Bytes) : BinResult where
  store := s
  conn := c
  response :=
    if !c.noreply || c.cmd = .op .get || c.cmd = .op .getK then
      some ⟨.success, 0, 0, d.length, c.cas, [], [], d⟩
    else none
  next := .newCmd

/-- `handle_binary_protocol_error`. -/
def binProtocolError (s : Store) (c : BinConn) : BinResult :=
  { writeBinError s c .einval BinStatus.einval.text 0 with next := .closing }

/-! ## Handlers -/

/-- What the commands find around them. -/
structure BinEnv where
  cfg : Settings
  sasl : Bool
  /-- `c->authenticated`. -/
  authenticated : Bool
  flushEnabled : Bool
  /-- The buffer holds the key, or `realloc` succeeds. -/
  growOk : Bool
  /-- The allocation of an item, and the one inside `do_store_item` or `do_add_delta`. -/
  allocEnv : AllocEnv
  storeEnv : AllocEnv
  /-- The memory behind the value of an item. -/
  beyond : Bytes
  /-- `item_alloc` for a negative number of bytes, which a body length beyond `int` or less than the key
  asks for. -/
  negativeAlloc : Store → Bytes → ℤ → Store × Option Ptr
  /-- `item_size_ok`. -/
  itemSizeOk : ℕ → ℤ → ℤ → Bool

section Handlers

variable (E : BinEnv)

/-- `item_alloc`. -/
def binItemAlloc (s : Store) (key : Bytes) (flags : ℤ) (exptime : ℕ) (nbytes : ℤ) : Store × Option Ptr :=
  if nbytes < 0 then E.negativeAlloc s key nbytes
  else s.doItemAlloc E.cfg E.allocEnv key flags exptime nbytes.toNat 0

/-- `process_bin_get_or_touch`. -/
def processBinGetOrTouch (s : Store) (c : BinConn) (extras key : Bytes) : BinResult :=
  let nkey := c.header.keylen.toNat
  let shouldTouch := c.cmd = .op .touch ∨ c.cmd = .op .gat ∨ c.cmd = .op .gatK
  let shouldReturnKey := c.cmd = .op .getK ∨ c.cmd = .op .gatK
  let shouldReturnValue := c.cmd ≠ .op .touch
  let found :=
    if shouldTouch then
      s.doItemTouch E.cfg key (realtime E.cfg s.currentTime (ntoh (extras.take 4))) (E.cfg.hash key)
    else s.doItemGet E.cfg key (E.cfg.hash key)
  match found with
  | (s, some it) =>
      let s := s.doItemUpdate it
      let v := binValue s it
      let bodylen :=
        if c.cmd = .op .touch then 4
        else if shouldReturnKey then (v.bodylen + nkey) % 2 ^ 32
        else v.bodylen
      { store := s
        -- the item is released when the response is sent
        conn := { c with item := some it }
        response := some
          { status := .success
            extlen := 4
            keylen := if shouldReturnKey then nkey else 0
            bodylen := bodylen
            cas := s.itemGetCas it
            extras := hton 4 v.flags
            key := if shouldReturnKey then (s.key it).take nkey else []
            value := if shouldReturnValue then v.value else [] }
        next := .newCmd }
  | (s, none) =>
      -- a miss of a quiet command
      if c.noreply then ⟨s, c, none, .newCmd⟩
      else if shouldReturnKey then
        ⟨s, c, some ⟨.keyEnoent, 0, nkey, nkey, c.cas, [], key.take nkey, []⟩, .newCmd⟩
      else writeBinError s c .keyEnoent BinStatus.keyEnoent.text 0

/-- `process_bin_delete`. -/
def processBinDelete (s : Store) (c : BinConn) (key : Bytes) : BinResult :=
  match s.doItemGet E.cfg key (E.cfg.hash key) with
  | (s, some it) =>
      -- a CAS id of 0 matches every item
      let cas := c.header.cas.toNat
      let r :=
        if cas = 0 ∨ cas = s.itemGetCas it then
          writeBinResponse (s.doItemUnlink E.cfg it (E.cfg.hash (s.key it))) c []
        else writeBinError s c .keyEexists BinStatus.keyEexists.text 0
      { r with store := r.store.doItemRemove E.cfg it }
  | (s, none) => writeBinError s c .keyEnoent BinStatus.keyEnoent.text 0

/-- `process_bin_flush`. -/
def processBinFlush (s : Store) (c : BinConn) (extras : Bytes) : BinResult :=
  if E.flushEnabled = false then writeBinError s c .authError BinStatus.authError.text 0
  else
    let exptime : ℤ := if c.header.extlen = 4 then ntoh (extras.take 4) else 0
    writeBinResponse (s.flushAll E.cfg exptime) c []

/-- The part of `complete_incr_bin` that makes an item of the initial value. -/
def initialItem (s : Store) (c : BinConn) (key : Bytes) (initial expiration : ℕ) : BinResult :=
  let digits := CNumber.decDigits initial
  match binItemAlloc E s key 0 (realtime E.cfg s.currentTime expiration) (digits.length + 2) with
  | (s, none) => writeBinError s c .enomem (ascii "Out of memory allocating new item") 0
  | (s, some it) =>
      let s := s.setData it (memcpyAt (memcpyAt (s.data it) 0 digits) digits.length crlf)
      match s.doStoreItem E.cfg E.storeEnv it .add (E.cfg.hash key) with
      | (s, ret, cas) =>
          let c := { c with cas := cas.getD c.cas }
          let r :=
            if ret = .notStored then writeBinError s c .notStored BinStatus.notStored.text 0
            else writeBinResponse s { c with cas := s.itemGetCas it } (hton 8 initial)
          { r with store := r.store.doItemRemove E.cfg it }

/-- `complete_incr_bin`. -/
def completeIncrBin (s : Store) (c : BinConn) (extras key : Bytes) : BinResult :=
  let delta := ntoh (extras.take 8)
  let initial := ntoh ((extras.drop 8).take 8)
  let expiration := ntoh ((extras.drop 16).take 4)
  let incr := decide (c.cmd = .op .increment)
  match s.doAddDelta E.cfg E.storeEnv E.beyond key incr delta c.header.cas.toNat (E.cfg.hash key) with
  | (s, .ok, result) =>
      let (value, cas) := result.getD (0, 0)
      writeBinResponse s (if cas ≠ 0 then { c with cas := cas } else c) (hton 8 value)
  | (s, .nonNumeric, _) => writeBinError s c .deltaBadval BinStatus.deltaBadval.text 0
  | (s, .eom, _) => writeBinError s c .enomem (ascii "Out of memory incrementing value") 0
  | (s, .itemNotFound, _) =>
      -- all ones mean that no item is made
      if expiration ≠ 0xffffffff then initialItem E s c key initial expiration
      else writeBinError s c .keyEnoent BinStatus.keyEnoent.text 0
  | (s, .itemCasMismatch, _) => writeBinError s c .keyEexists BinStatus.keyEexists.text 0

/-- The NREAD command that a value is stored with. -/
def nreadComm : BinCmd → Comm
  | .op .add => .add
  | .op .replace => .replace
  | .op .append => .append
  | .op .prepend => .prepend
  | .nread comm => comm
  | .op _ => .set

/-- A failed `set` leaves no stale value. -/
def dropStale (s : Store) (cmd : BinCmd) (key : Bytes) : Store :=
  if cmd = .op .set then
    match s.doItemGet E.cfg key (E.cfg.hash key) with
    | (s, some it) => (s.doItemUnlink E.cfg it (E.cfg.hash (s.key it))).doItemRemove E.cfg it
    | (s, none) => s
  else s

/-- The length of the value of a command. -/
def binVlen (c : BinConn) (extlen : ℕ) : ℤ :=
  toInt32 ((c.header.bodylen.toNat : ℤ) - (c.header.keylen.toNat + extlen : ℕ))

/-- The answer of `process_bin_update` and `process_bin_append_prepend` when there is no item. -/
def refuseValue (s : Store) (c : BinConn) (vlen : ℤ) (sizeOk : Bool) : BinResult :=
  let r :=
    if sizeOk = false then writeBinError s c .e2big BinStatus.e2big.text vlen
    else writeBinError s c .enomem (ascii "Out of memory allocating item") 0
  -- `write_and_go` is set once more; without a new `sbytes` there is nothing to throw away
  { r with next := .swallow (if r.next = .newCmd then 0 else vlen) }

/-- `process_bin_update` and `process_bin_append_prepend`, which differ in the extras, in what a failed
`set` does, and in the CAS id making a `cas` of the command. -/
def processBinValue (s : Store) (c : BinConn) (vlen : ℤ) (flags : ℤ) (exptime : ℕ) (key : Bytes) :
    BinResult :=
  let joins := c.cmd = .op .append ∨ c.cmd = .op .prepend
  match binItemAlloc E s key flags exptime (toInt32 (vlen + 2)) with
  | (s, none) =>
      let r := refuseValue s c vlen (E.itemSizeOk c.header.keylen.toNat flags (toInt32 (vlen + 2)))
      { r with store := dropStale E r.store c.cmd key }
  | (s, some it) =>
      let s := s.itemSetCas it c.header.cas.toNat
      -- only `add`, `set` and `replace` compare CAS ids
      let comm := if ¬ joins ∧ s.itemGetCas it ≠ 0 then .cas else nreadComm c.cmd
      ⟨s, { c with cmd := .nread comm, item := some it }, none, .readValue vlen⟩

/-- The answer of `complete_update_bin`. -/
def updateReply (s : Store) (c : BinConn) (comm : Comm) : StoreItemType → BinResult
  | .stored => writeBinResponse s c []
  | .exists => writeBinError s c .keyEexists BinStatus.keyEexists.text 0
  | .notFound => writeBinError s c .keyEnoent BinStatus.keyEnoent.text 0
  | .notStored =>
      let eno : BinStatus :=
        if comm = .add then .keyEexists else if comm = .replace then .keyEnoent else .notStored
      writeBinError s c eno eno.text 0

/-- `complete_update_bin`, the value being in the item. -/
def completeUpdateBin (s : Store) (c : BinConn) (value : Bytes) : BinResult :=
  match c.item with
  | none => ⟨s, c, none, .newCmd⟩
  | some it =>
      -- the CR and the newline are not a part of the request
      let s := s.setData it (value ++ crlf)
      let comm := nreadComm c.cmd
      let stored := s.doStoreItem E.cfg E.storeEnv it comm (E.cfg.hash (s.key it))
      let r := updateReply stored.1 { c with cas := stored.2.2.getD c.cas } comm stored.2.1
      { r with store := r.store.doItemRemove E.cfg it, conn := { r.conn with item := none } }

/-- `complete_nread_binary`, for a key that has been read. -/
def completeBinKey (s : Store) (c : BinConn) (substate : Substate) (extras key : Bytes) : BinResult :=
  match substate with
  | .readingSetHeader =>
      if c.cmd = .op .append ∨ c.cmd = .op .prepend then processBinValue E s c (binVlen c 0) 0 0 key
      else
        processBinValue E s c (binVlen c c.header.extlen.toNat) (toInt32 (ntoh (extras.take 4)))
          (realtime E.cfg s.currentTime (ntoh ((extras.drop 4).take 4))) key
  | .readingGetKey | .readingTouchKey => processBinGetOrTouch E s c extras key
  | .readingDelHeader => processBinDelete E s c key
  | .readingIncrHeader => completeIncrBin E s c extras key
  | .readFlushExptime => processBinFlush E s c extras
  | _ => ⟨s, c, none, .newCmd⟩

/-- `bin_read_key`. -/
def binReadKey (s : Store) (c : BinConn) (substate : Substate) : BinResult :=
  ⟨s, c, none, if E.growOk then .readKey substate else .closing⟩

/-- The second `switch` of `dispatch_bin_command`, for the commands that have a quiet form, and
`touch` and `gatk`. -/
def dispatchBinSwitch (s : Store) (c : BinConn) : Opcode → Option BinResult :=
  let extlen := c.header.extlen.toNat
  let keylen := c.header.keylen.toNat
  let bodylen := c.header.bodylen.toNat
  let check (ok : Bool) (r : BinResult) := some (if ok then r else binProtocolError s c)
  fun
  | .flush =>
      check (keylen = 0 ∧ bodylen = extlen ∧ (extlen = 0 ∨ extlen = 4))
        (binReadKey E s c .readFlushExptime)
  | .set | .add | .replace =>
      check (extlen = 8 ∧ keylen ≠ 0 ∧ bodylen ≥ keylen + 8) (binReadKey E s c .readingSetHeader)
  | .get | .getK =>
      check (extlen = 0 ∧ bodylen = keylen ∧ keylen > 0) (binReadKey E s c .readingGetKey)
  | .delete =>
      check (keylen > 0 ∧ extlen = 0 ∧ bodylen = keylen) (binReadKey E s c .readingDelHeader)
  | .increment | .decrement =>
      check (keylen > 0 ∧ extlen = 20 ∧ bodylen = keylen + extlen) (binReadKey E s c .readingIncrHeader)
  | .append | .prepend => check (keylen > 0 ∧ extlen = 0) (binReadKey E s c .readingSetHeader)
  | .quit =>
      check (keylen = 0 ∧ extlen = 0 ∧ bodylen = 0) { writeBinResponse s c [] with next := .closing }
  | .touch | .gat | .gatK => check (extlen = 4 ∧ keylen ≠ 0) (binReadKey E s c .readingTouchKey)
  | _ => none

/-- `dispatch_bin_command`; `none` for the commands that are not modelled here. -/
def dispatchBin (s : Store) (h : BinHeader) (op : Opcode) : Option BinResult :=
  let c : BinConn := ⟨.op op, false, h, 0, none⟩
  if E.sasl = true ∧ E.authenticated = false then
    some { writeBinError s c .authError BinStatus.authError.text 0 with next := .closing }
  -- `noreply` is set before the opcode is looked at
  else if h.keylen.toNat > keyMaxLength then some (binProtocolError s { c with noreply := true })
  else dispatchBinSwitch E s { c with cmd := .op op.loud, noreply := op.quiet } op.loud

/-- What follows the dispatch: the key, and for some commands the value, are read. `other₁` and
`other₂` are what other threads do to the store meanwhile. -/
def finishBin (other₁ other₂ : Store → Store) (extras key value : Bytes) (r : BinResult) : BinResult :=
  match r.next with
  | .readKey substate =>
      let r := completeBinKey E (other₁ r.store) r.conn substate extras key
      match r.next with
      | .readValue vlen =>
          -- `conn_nread` gives up where there are less than no bytes to read
          if vlen < 0 then { r with next := .closing }
          else completeUpdateBin E (other₂ r.store) r.conn value
      | _ => r
  | _ => r

/-- **A binary command, from its header to its response**. The opcode of the header is given as
`op`. -/
def runBin (other₁ other₂ : Store → Store) (s : Store) (h : BinHeader) (op : Opcode)
    (extras key value : Bytes) : Option BinResult :=
  (dispatchBin E s h op).map (finishBin E other₁ other₂ extras key value)

end Handlers

/-! ## Agreement -/

/-- The loud counterpart of a quiet command. -/
def Opcode.counterpart : Opcode → Opcode
  | .gatKQ => .gatK
  | op => op.loud

/-- The response that a quiet command may keep to itself: a miss of a retrieval, the success of a
mutation. -/
def Suppressible (q : Opcode) (r : BinResponse) : Prop :=
  if q = .getQ ∨ q = .getKQ ∨ q = .gatQ ∨ q = .gatKQ then r.status = .keyEnoent else r.status = .success

/-- **A quiet command agrees with a loud one**: the same store, with the same item held for the
response, the same state of the connection, and the same response, unless it is one that may be
suppressed. -/
structure Agrees (q : Opcode) (rq rl : BinResult) : Prop where
  store : rq.store = rl.store
  item : rq.conn.item = rl.conn.item
  next : rq.next = rl.next
  response : ∀ r, rq.response = some r → rl.response = some r
  suppressed : ∀ r, rq.response = none → rl.response = some r → Suppressible q r

/-- The connection of a quiet command. -/
def BinConn.quiet (c : BinConn) : BinConn := { c with noreply := true }

/-- A handler run with and without `noreply`, where the responses that `P` describes may be missing. -/
structure Quieted (P : BinResponse → Prop) (rq rl : BinResult) : Prop where
  store : rq.store = rl.store
  conn : rq.conn = rl.conn.quiet
  loud : rl.conn.noreply = false
  next : rq.next = rl.next
  response : rq.response = rl.response ∨ rq.response = none ∧ ∀ r, rl.response = some r → P r
  /-- A value is stored by an NREAD command. -/
  value : ∀ v, rl.next = .readValue v →
    (∃ comm, rl.conn.cmd = .nread comm) ∧ ∀ r : BinResponse, r.status = .success → P r

/-- The success of a mutation. -/
def IsSuccess (r : BinResponse) : Prop := r.status = .success

/-- The miss of a retrieval. -/
def IsMiss (r : BinResponse) : Prop := r.status = .keyEnoent

section Quieted

variable {P : BinResponse → Prop} {s : Store} {c : BinConn} {rq rl : BinResult}

/-- An error is sent by both. -/
theorem quieted_writeBinError (hc : c.noreply = false) (status : BinStatus) (text : Bytes) (swallow : ℤ) :
    Quieted P (writeBinError s c.quiet status text swallow) (writeBinError s c status text swallow) where
  store := rfl
  conn := rfl
  loud := hc
  next := rfl
  response := .inl rfl
  value v hv := by
    simp only [writeBinError] at hv
    split_ifs at hv

/-- A response that the quiet command does not send. -/
theorem quieted_writeBinResponse (hc : c.noreply = false) (hget : c.cmd ≠ .op .get)
    (hgetK : c.cmd ≠ .op .getK) (hP : ∀ r : BinResponse, r.status = .success → P r) (d : Bytes) :
    Quieted P (writeBinResponse s c.quiet d) (writeBinResponse s c d) where
  store := rfl
  conn := rfl
  loud := hc
  next := rfl
  response := by
    refine .inr ⟨by simp [writeBinResponse, BinConn.quiet, hget, hgetK], fun r hr => hP r ?_⟩
    simp only [writeBinResponse, hc, Bool.not_false, Bool.true_or, if_true, Option.some.injEq] at hr
    rw [← hr]
  value v hv := by simp [writeBinResponse] at hv

/-- The rest of a handler may go on with the store. -/
theorem Quieted.mapStore (h : Quieted P rq rl) (f : Store → Store) :
    Quieted P { rq with store := f rq.store } { rl with store := f rl.store } where
  store := by rw [h.store]
  conn := h.conn
  loud := h.loud
  next := h.next
  response := h.response
  value := h.value

/-- What is done next is the same. -/
theorem Quieted.withNext (h : Quieted P rq rl) {n : BinNext} (hn : ∀ v, n ≠ .readValue v) :
    Quieted P { rq with next := n } { rl with next := n } where
  store := h.store
  conn := h.conn
  loud := h.loud
  next := rfl
  response := h.response
  value v hv := absurd hv (hn v)

variable (E : BinEnv)

/-- **A retrieval answers a hit in full, and keeps a miss to itself.** -/
theorem quieted_getOrTouch (hc : c.noreply = false) (extras key : Bytes) :
    Quieted IsMiss (processBinGetOrTouch E s c.quiet extras key) (processBinGetOrTouch E s c extras key) := by
  have hcmd : c.quiet.cmd = c.cmd := rfl
  have hheader : c.quiet.header = c.header := rfl
  simp only [processBinGetOrTouch, hcmd, hheader]
  rcases (if c.cmd = .op .touch ∨ c.cmd = .op .gat ∨ c.cmd = .op .gatK then
      s.doItemTouch E.cfg key (realtime E.cfg s.currentTime (ntoh (extras.take 4))) (E.cfg.hash key)
    else s.doItemGet E.cfg key (E.cfg.hash key)) with ⟨s', it | it⟩
  · -- a miss
    simp only
    rw [if_pos (show c.quiet.noreply = true from rfl), if_neg (by rw [hc]; decide)]
    split_ifs
    · exact ⟨rfl, rfl, hc, rfl, .inr ⟨rfl, fun r hr => by rw [← Option.some.inj hr]; rfl⟩,
        fun v hv => by simp at hv⟩
    · refine ⟨rfl, rfl, hc, rfl, .inr ⟨rfl, fun r hr => ?_⟩, fun v hv => by simp [writeBinError] at hv⟩
      simp only [writeBinError, Option.some.injEq] at hr
      rw [← hr]
      rfl
  -- a hit does not look at `noreply`
  · exact ⟨rfl, rfl, hc, rfl, .inl rfl, fun v hv => by simp at hv⟩

/-- `deleteq` and `delete`. -/
theorem quieted_delete (hc : c.noreply = false) (hget : c.cmd ≠ .op .get) (hgetK : c.cmd ≠ .op .getK)
    (key : Bytes) : Quieted IsSuccess (processBinDelete E s c.quiet key) (processBinDelete E s c key) := by
  have hheader : c.quiet.header = c.header := rfl
  simp only [processBinDelete, hheader]
  rcases s.doItemGet E.cfg key (E.cfg.hash key) with ⟨s', it | it⟩
  · exact quieted_writeBinError hc _ _ _
  · refine Quieted.mapStore ?_ fun s => s.doItemRemove E.cfg it
    split_ifs
    · exact quieted_writeBinResponse hc hget hgetK (fun _ h => h) _
    · exact quieted_writeBinError hc _ _ _

/-- `flushq` and `flush`. -/
theorem quieted_flush (hc : c.noreply = false) (hget : c.cmd ≠ .op .get) (hgetK : c.cmd ≠ .op .getK)
    (extras : Bytes) :
    Quieted IsSuccess (processBinFlush E s c.quiet extras) (processBinFlush E s c extras) := by
  have hheader : c.quiet.header = c.header := rfl
  simp only [processBinFlush, hheader]
  by_cases hen : E.flushEnabled = false
  · rw [if_pos hen, if_pos hen]
    exact quieted_writeBinError hc _ _ _
  · rw [if_neg hen, if_neg hen]
    exact quieted_writeBinResponse hc hget hgetK (fun _ h => h) _

/-- The first value of a counter. -/
theorem quieted_initialItem (hc : c.noreply = false) (hget : c.cmd ≠ .op .get)
    (hgetK : c.cmd ≠ .op .getK) (key : Bytes) (initial expiration : ℕ) :
    Quieted IsSuccess (initialItem E s c.quiet key initial expiration)
      (initialItem E s c key initial expiration) := by
  simp only [initialItem]
  rcases binItemAlloc E s key 0 (realtime E.cfg s.currentTime expiration)
    ((CNumber.decDigits initial).length + 2) with ⟨s', it | it⟩
  · exact quieted_writeBinError hc _ _ _
  · simp only
    rcases Store.doStoreItem E.cfg E.storeEnv (s'.setData it (memcpyAt (memcpyAt (s'.data it) 0
      (CNumber.decDigits initial)) (CNumber.decDigits initial).length crlf)) it .add (E.cfg.hash key)
      with ⟨s'', ret, cas⟩
    refine Quieted.mapStore ?_ fun s => s.doItemRemove E.cfg it
    -- only the success looks at `noreply`
    by_cases hret : ret = .notStored
    · rw [if_pos hret, if_pos hret]
      exact quieted_writeBinError (c := { c with cas := cas.getD c.cas }) hc _ _ _
    · rw [if_neg hret, if_neg hret]
      exact quieted_writeBinResponse (c := { c with cas := s''.itemGetCas it }) hc hget hgetK
        (fun _ h => h) _

/-- `incrementq` and `increment`. -/
theorem quieted_incr (hc : c.noreply = false) (hget : c.cmd ≠ .op .get) (hgetK : c.cmd ≠ .op .getK)
    (extras key : Bytes) :
    Quieted IsSuccess (completeIncrBin E s c.quiet extras key) (completeIncrBin E s c extras key) := by
  have hcmd : c.quiet.cmd = c.cmd := rfl
  have hheader : c.quiet.header = c.header := rfl
  simp only [completeIncrBin, hcmd, hheader]
  rcases Store.doAddDelta E.cfg E.storeEnv E.beyond s key (decide (c.cmd = .op .increment))
    (ntoh (extras.take 8)) c.header.cas.toNat (E.cfg.hash key) with ⟨s', ret, result⟩
  cases ret with
  | ok =>
      simp only
      split_ifs
      · exact quieted_writeBinResponse (c := { c with cas := (result.getD (0, 0)).2 }) hc hget hgetK
          (fun _ h => h) _
      · exact quieted_writeBinResponse hc hget hgetK (fun _ h => h) _
  | nonNumeric => exact quieted_writeBinError hc _ _ _
  | eom => exact quieted_writeBinError hc _ _ _
  | itemNotFound =>
      simp only
      split_ifs
      · exact quieted_initialItem E hc hget hgetK _ _ _
      · exact quieted_writeBinError hc _ _ _
  | itemCasMismatch => exact quieted_writeBinError hc _ _ _

/-- A value that is refused is refused by both. -/
theorem quieted_refuseValue (hc : c.noreply = false) (vlen : ℤ) (sizeOk : Bool) :
    Quieted P (refuseValue s c.quiet vlen sizeOk) (refuseValue s c vlen sizeOk) := by
  cases sizeOk with
  | false => exact (quieted_writeBinError hc .e2big BinStatus.e2big.text vlen).withNext (by simp)
  | true =>
      exact (quieted_writeBinError hc .enomem (ascii "Out of memory allocating item") 0).withNext (by simp)

/-- The item of a value, with or without `noreply`. -/
theorem quieted_value (hc : c.noreply = false) (vlen flags : ℤ) (exptime : ℕ) (key : Bytes) :
    Quieted IsSuccess (processBinValue E s c.quiet vlen flags exptime key)
      (processBinValue E s c vlen flags exptime key) := by
  have hcmd : c.quiet.cmd = c.cmd := rfl
  have hheader : c.quiet.header = c.header := rfl
  simp only [processBinValue, hcmd, hheader]
  rcases binItemAlloc E s key flags exptime (toInt32 (vlen + 2)) with ⟨s', it | it⟩
  · exact (quieted_refuseValue hc vlen _).mapStore fun s => dropStale E s c.cmd key
  · exact ⟨rfl, rfl, hc, rfl, .inl rfl, fun _ _ => ⟨⟨_, rfl⟩, fun _ h => h⟩⟩

/-- The item of a value is given up. -/
theorem Quieted.dropItem (h : Quieted P rq rl) :
    Quieted P { rq with conn := { rq.conn with item := none } }
      { rl with conn := { rl.conn with item := none } } where
  store := h.store
  conn := by
    rw [h.conn]
    rfl
  loud := h.loud
  next := h.next
  response := h.response
  value := h.value

/-- The reply to an update. -/
theorem quieted_updateReply (hc : c.noreply = false) (hget : c.cmd ≠ .op .get)
    (hgetK : c.cmd ≠ .op .getK) (comm : Comm) (ret : StoreItemType) :
    Quieted IsSuccess (updateReply s c.quiet comm ret) (updateReply s c comm ret) := by
  cases ret with
  | stored => exact quieted_writeBinResponse hc hget hgetK (fun _ h => h) _
  | «exists» => exact quieted_writeBinError hc _ _ _
  | notFound => exact quieted_writeBinError hc _ _ _
  | notStored => exact quieted_writeBinError hc _ _ _

/-- `setq` and `set`, and the other updates. -/
theorem quieted_completeUpdate (hc : c.noreply = false) (hget : c.cmd ≠ .op .get)
    (hgetK : c.cmd ≠ .op .getK) (value : Bytes) :
    Quieted IsSuccess (completeUpdateBin E s c.quiet value) (completeUpdateBin E s c value) := by
  have hcmd : c.quiet.cmd = c.cmd := rfl
  have hitem : c.quiet.item = c.item := rfl
  simp only [completeUpdateBin, hcmd, hitem]
  cases c.item with
  | none => exact ⟨rfl, rfl, hc, rfl, .inl rfl, fun v hv => by simp at hv⟩
  | some it =>
      simp only
      generalize hset : s.setData it (value ++ crlf) = s'
      generalize Store.doStoreItem E.cfg E.storeEnv s' it (nreadComm c.cmd) (E.cfg.hash (s'.key it)) = stored
      have hreply := quieted_updateReply (s := stored.1)
        (c := { c with cas := stored.2.2.getD c.cas, item := some it }) hc hget hgetK (nreadComm c.cmd)
        stored.2.1
      exact (hreply.mapStore fun s => s.doItemRemove E.cfg it).dropItem

/-- More may be left out. -/
theorem Quieted.mono {P Q : BinResponse → Prop} (h : Quieted P rq rl) (hPQ : ∀ r, P r → Q r) :
    Quieted Q rq rl where
  store := h.store
  conn := h.conn
  loud := h.loud
  next := h.next
  response := h.response.imp_right (And.imp_right fun hr r hrl => hPQ r (hr r hrl))
  value v hv := (h.value v hv).imp_right fun hP r hr => hPQ r (hP r hr)

/-! ### From the key to the response -/

/-- The commands that read the key of a retrieval. -/
theorem quieted_completeKey_retrieval (hc : c.noreply = false) {substate : Substate}
    (hsub : substate = .readingGetKey ∨ substate = .readingTouchKey) (extras key : Bytes) :
    Quieted IsMiss (completeBinKey E s c.quiet substate extras key)
      (completeBinKey E s c substate extras key) := by
  rcases hsub with rfl | rfl
  · exact quieted_getOrTouch E hc extras key
  · exact quieted_getOrTouch E hc extras key

/-- The commands that read the key of a mutation. -/
theorem quieted_completeKey_mutation (hc : c.noreply = false) (hget : c.cmd ≠ .op .get)
    (hgetK : c.cmd ≠ .op .getK) {substate : Substate} (hsub : substate = .readingSetHeader ∨
      substate = .readingDelHeader ∨ substate = .readingIncrHeader ∨ substate = .readFlushExptime)
    (extras key : Bytes) :
    Quieted IsSuccess (completeBinKey E s c.quiet substate extras key)
      (completeBinKey E s c substate extras key) := by
  have hcmd : c.quiet.cmd = c.cmd := rfl
  rcases hsub with rfl | rfl | rfl | rfl
  · simp only [completeBinKey, hcmd]
    split_ifs
    · exact quieted_value E hc _ _ _ _
    · exact quieted_value E hc _ _ _ _
  · exact quieted_delete E hc hget hgetK key
  · exact quieted_incr E hc hget hgetK extras key
  · exact quieted_flush E hc hget hgetK extras

/-- What follows the dispatch goes the same way with and without `noreply`. -/
theorem Quieted.finish (h : Quieted P rq rl) (other₁ other₂ : Store → Store) (extras key value : Bytes)
    (hkey : ∀ substate s, rl.next = .readKey substate →
      Quieted P (completeBinKey E s rl.conn.quiet substate extras key)
        (completeBinKey E s rl.conn substate extras key)) :
    Quieted P (finishBin E other₁ other₂ extras key value rq)
      (finishBin E other₁ other₂ extras key value rl) := by
  simp only [finishBin, h.next]
  rcases hnext : rl.next with _ | _ | _ | substate | _
  case readKey =>
    have hk := hkey substate (other₁ rl.store) hnext
    simp only [h.store, h.conn, hk.next]
    rcases hvalue : (completeBinKey E (other₁ rl.store) rl.conn substate extras key).next
      with _ | _ | _ | _ | vlen
    case readValue =>
      obtain ⟨⟨comm, hcomm⟩, hP⟩ := hk.value vlen hvalue
      by_cases hneg : vlen < 0
      · simp only [if_pos hneg]
        exact hk.withNext (by simp)
      · simp only [if_neg hneg, hk.store, hk.conn]
        exact (quieted_completeUpdate E hk.loud (by rw [hcomm]; simp) (by rw [hcomm]; simp) value).mono hP
    all_goals exact hk
  all_goals exact h

/-! ### From the header to the key -/

/-- A malformed request is answered by both. -/
theorem quieted_binProtocolError (hc : c.noreply = false) :
    Quieted P (binProtocolError s c.quiet) (binProtocolError s c) :=
  (quieted_writeBinError hc .einval BinStatus.einval.text 0).withNext (by simp)

/-- Both read the key first. -/
theorem quieted_readKey (hc : c.noreply = false) (substate : Substate) :
    Quieted P (binReadKey E s c.quiet substate) (binReadKey E s c substate) where
  store := rfl
  conn := rfl
  loud := hc
  next := rfl
  response := .inl rfl
  value v hv := by
    simp only [binReadKey] at hv
    split_ifs at hv

/-- A command whose header is checked before its key is read. -/
theorem quieted_checked (hc : c.noreply = false) (ok : Bool) (other₁ other₂ : Store → Store)
    (extras key value : Bytes) {substate : Substate}
    (hkey : ∀ s, Quieted P (completeBinKey E s c.quiet substate extras key)
      (completeBinKey E s c substate extras key)) :
    Quieted P
      (finishBin E other₁ other₂ extras key value
        (if ok then binReadKey E s c.quiet substate else binProtocolError s c.quiet))
      (finishBin E other₁ other₂ extras key value
        (if ok then binReadKey E s c substate else binProtocolError s c)) := by
  cases ok with
  | false => exact (quieted_binProtocolError hc).finish E _ _ _ _ _ fun _ _ h => by simp [binProtocolError] at h
  | true =>
      refine (quieted_readKey E hc substate).finish E _ _ _ _ _ fun sub s h => ?_
      -- the buffer may not hold the key
      simp only [binReadKey] at h
      split_ifs at h
      rw [← BinNext.readKey.inj h]
      exact hkey s

/-- `quitq` and `quit`. -/
theorem quieted_quit (hc : c.noreply = false) (hget : c.cmd ≠ .op .get) (hgetK : c.cmd ≠ .op .getK)
    (ok : Bool) :
    Quieted IsSuccess
      (if ok then { writeBinResponse s c.quiet [] with next := .closing } else binProtocolError s c.quiet)
      (if ok then { writeBinResponse s c [] with next := .closing } else binProtocolError s c) := by
  cases ok with
  | false => exact quieted_binProtocolError hc
  | true => exact (quieted_writeBinResponse hc hget hgetK (fun _ h => h) _).withNext (by simp)

/-- The retrievals with a quiet form, less `gatk`. -/
def Opcode.retrieval : Opcode → Bool
  | .get | .getK | .gat => true
  | _ => false

/-- The mutations with a quiet form. -/
def Opcode.mutation : Opcode → Bool
  | .set | .add | .replace | .delete | .increment | .decrement | .quit | .flush | .append | .prepend => true
  | _ => false

/-- **A quiet retrieval** and its loud counterpart, up to the switch. -/
theorem quieted_retrieval (hc : c.noreply = false) {op : Opcode} (hop : op.retrieval = true)
    (other₁ other₂ : Store → Store) (extras key value : Bytes) :
    ∃ rq rl, dispatchBinSwitch E s c.quiet op = some rq ∧ dispatchBinSwitch E s c op = some rl ∧
      Quieted IsMiss (finishBin E other₁ other₂ extras key value rq)
        (finishBin E other₁ other₂ extras key value rl) := by
  have hget (s : Store) := quieted_completeKey_retrieval (s := s) E hc (.inl rfl) extras key
  have htouch (s : Store) := quieted_completeKey_retrieval (s := s) E hc (.inr rfl) extras key
  cases op <;> simp only [Opcode.retrieval, Bool.false_eq_true] at hop
  case get => exact ⟨_, _, rfl, rfl, quieted_checked E hc _ _ _ _ _ _ hget⟩
  case getK => exact ⟨_, _, rfl, rfl, quieted_checked E hc _ _ _ _ _ _ hget⟩
  case gat => exact ⟨_, _, rfl, rfl, quieted_checked E hc _ _ _ _ _ _ htouch⟩

/-- **A quiet mutation** and its loud counterpart, up to the switch. -/
theorem quieted_mutation (hc : c.noreply = false) {op : Opcode} (hop : op.mutation = true)
    (hcmd : c.cmd = .op op) (other₁ other₂ : Store → Store) (extras key value : Bytes) :
    ∃ rq rl, dispatchBinSwitch E s c.quiet op = some rq ∧ dispatchBinSwitch E s c op = some rl ∧
      Quieted IsSuccess (finishBin E other₁ other₂ extras key value rq)
        (finishBin E other₁ other₂ extras key value rl) := by
  have hget : c.cmd ≠ .op .get := by
    rw [hcmd]
    rintro ⟨⟩
    exact absurd hop (by decide)
  have hgetK : c.cmd ≠ .op .getK := by
    rw [hcmd]
    rintro ⟨⟩
    exact absurd hop (by decide)
  have hkey {substate : Substate} (hsub : substate = .readingSetHeader ∨ substate = .readingDelHeader ∨
      substate = .readingIncrHeader ∨ substate = .readFlushExptime) (s : Store) :=
    quieted_completeKey_mutation (s := s) E hc hget hgetK hsub extras key
  have hset := hkey (.inl rfl)
  cases op <;> simp only [Opcode.mutation, Bool.false_eq_true] at hop
  case set => exact ⟨_, _, rfl, rfl, quieted_checked E hc _ _ _ _ _ _ hset⟩
  case add => exact ⟨_, _, rfl, rfl, quieted_checked E hc _ _ _ _ _ _ hset⟩
  case replace => exact ⟨_, _, rfl, rfl, quieted_checked E hc _ _ _ _ _ _ hset⟩
  case append => exact ⟨_, _, rfl, rfl, quieted_checked E hc _ _ _ _ _ _ hset⟩
  case prepend => exact ⟨_, _, rfl, rfl, quieted_checked E hc _ _ _ _ _ _ hset⟩
  case delete => exact ⟨_, _, rfl, rfl, quieted_checked E hc _ _ _ _ _ _ (hkey (.inr (.inl rfl)))⟩
  case increment =>
    exact ⟨_, _, rfl, rfl, quieted_checked E hc _ _ _ _ _ _ (hkey (.inr (.inr (.inl rfl))))⟩
  case decrement =>
    exact ⟨_, _, rfl, rfl, quieted_checked E hc _ _ _ _ _ _ (hkey (.inr (.inr (.inl rfl))))⟩
  case flush => exact ⟨_, _, rfl, rfl, quieted_checked E hc _ _ _ _ _ _ (hkey (.inr (.inr (.inr rfl))))⟩
  case quit =>
    -- nothing is read after the header
    refine ⟨_, _, rfl, rfl, Quieted.finish E ?_ _ _ _ _ _ fun substate s h => ?_⟩
    · exact quieted_quit hc hget hgetK _
    · exact absurd h (by split_ifs <;> simp [binProtocolError])

/-- The response to a success or a miss is all that a quiet command keeps to itself. -/
theorem Quieted.agrees (h : Quieted P rq rl) {q : Opcode} (hP : ∀ r, P r → Suppressible q r) :
    Agrees q rq rl where
  store := h.store
  item := by
    rw [h.conn]
    rfl
  next := h.next
  response r hr := by
    rcases h.response with heq | ⟨hnone, -⟩
    · rw [← heq, hr]
    · rw [hnone] at hr
      cases hr
  suppressed r hr hrl := by
    rcases h.response with heq | ⟨-, hsup⟩
    · rw [heq, hrl] at hr
      cases hr
    · exact hP r (hsup r hrl)

end Quieted

/-! ## The commands -/

section Commands

variable (E : BinEnv) (other₁ other₂ : Store → Store) (s : Store) (h : BinHeader)
  (extras key value : Bytes)

/-- A quiet command that runs as its loud counterpart does. -/
theorem Opcode.loud_of_quiet {q : Opcode} (hq : q.quiet = true) (hne : q ≠ .gatKQ) :
    q.counterpart = q.loud ∧ q.loud.loud = q.loud ∧ q.loud.quiet = false ∧
      ((q.loud.retrieval = true ∧ ∀ r, IsMiss r → Suppressible q r) ∨
        (q.loud.mutation = true ∧ ∀ r, IsSuccess r → Suppressible q r)) := by
  cases q <;> simp only [Opcode.quiet, Bool.false_eq_true] at hq
  case gatKQ => exact absurd rfl hne
  case getQ => exact ⟨rfl, rfl, rfl, .inl ⟨rfl, fun r hr => hr⟩⟩
  case getKQ => exact ⟨rfl, rfl, rfl, .inl ⟨rfl, fun r hr => hr⟩⟩
  case gatQ => exact ⟨rfl, rfl, rfl, .inl ⟨rfl, fun r hr => hr⟩⟩
  all_goals exact ⟨rfl, rfl, rfl, .inr ⟨rfl, fun r hr => hr⟩⟩

/-- A command refused before the `switch` is refused the same way under any opcode. -/
theorem runBin_refused
    (hrefused : (E.sasl = true ∧ E.authenticated = false) ∨ h.keylen.toNat > keyMaxLength) (q op : Opcode) :
    ∃ rq rl, runBin E other₁ other₂ s h q extras key value = some rq ∧
      runBin E other₁ other₂ s h op extras key value = some rl ∧ Agrees q rq rl := by
  by_cases hauth : E.sasl = true ∧ E.authenticated = false
  · simp only [runBin, dispatchBin, if_pos hauth]
    exact ⟨_, _, rfl, rfl, rfl, rfl, rfl, fun _ hr => hr, fun _ hr => by cases hr⟩
  · simp only [runBin, dispatchBin, if_neg hauth, if_pos (hrefused.resolve_left hauth)]
    exact ⟨_, _, rfl, rfl, rfl, rfl, rfl, fun _ hr => hr, fun _ hr => by cases hr⟩

/-- **Every quiet command but `gatkq` agrees with its loud counterpart**, on any state. -/
theorem runBin_agrees {q : Opcode} (hq : q.quiet = true) (hne : q ≠ .gatKQ) :
    ∃ rq rl, runBin E other₁ other₂ s h q extras key value = some rq ∧
      runBin E other₁ other₂ s h q.counterpart extras key value = some rl ∧ Agrees q rq rl := by
  by_cases hrefused : (E.sasl = true ∧ E.authenticated = false) ∨ h.keylen.toNat > keyMaxLength
  · exact runBin_refused E other₁ other₂ s h extras key value hrefused q q.counterpart
  obtain ⟨hauth, hkeylen⟩ := not_or.mp hrefused
  obtain ⟨hcounterpart, hloud, hquiet, hkind⟩ := Opcode.loud_of_quiet hq hne
  simp only [runBin, dispatchBin, if_neg hauth, if_neg hkeylen, hcounterpart, hloud, hquiet, hq]
  rcases hkind with ⟨hop, hsup⟩ | ⟨hop, hsup⟩
  · obtain ⟨rq, rl, hrq, hrl, hquieted⟩ := quieted_retrieval (s := s)
      (c := ⟨.op q.loud, false, h, 0, none⟩) E rfl hop other₁ other₂ extras key value
    exact ⟨_, _, congrArg (Option.map _) hrq, congrArg (Option.map _) hrl, hquieted.agrees hsup⟩
  · obtain ⟨rq, rl, hrq, hrl, hquieted⟩ := quieted_mutation (s := s)
      (c := ⟨.op q.loud, false, h, 0, none⟩) E rfl hop rfl other₁ other₂ extras key value
    exact ⟨_, _, congrArg (Option.map _) hrq, congrArg (Option.map _) hrl, hquieted.agrees hsup⟩

/-! ### `gatkq` -/

/-- `do_item_get` and `do_item_touch` find an item that they may return. -/
def Store.Serves (cfg : Settings) (s : Store) (key : Bytes) : Prop :=
  ∃ p, s.assocFind key (cfg.hash key) = some p ∧ s.dead p = false

/-- A touch finds what a get would find. -/
theorem Store.serves_iff_doItemTouch {cfg : Settings} {s : Store} {key : Bytes} (exptime : ℕ) :
    s.Serves cfg key ↔ (s.doItemTouch cfg key exptime (cfg.hash key)).2 ≠ none := by
  rw [Store.Serves, Store.doItemTouch]
  cases hfind : s.assocFind key (cfg.hash key) with
  | none => simp [Store.doItemGet, hfind]
  | some p =>
      rw [Store.doItemGet_eq hfind]
      cases hdead : s.dead p <;> simp [hdead]

/-- The hit of a `gatkq` comes without the key that a `gatk` sends. -/
theorem agrees_gatKQ_iff (c : BinConn) (hkeylen : c.header.keylen.toNat ≠ 0) :
    Agrees .gatKQ (processBinGetOrTouch E s { c with cmd := .op .gat, noreply := true } extras key)
        (processBinGetOrTouch E s { c with cmd := .op .gatK, noreply := false } extras key) ↔
      ¬ s.Serves E.cfg key := by
  rw [Store.serves_iff_doItemTouch (realtime E.cfg s.currentTime (ntoh (extras.take 4)))]
  simp only [processBinGetOrTouch, BinCmd.op.injEq, reduceCtorEq, or_true, or_false, if_true, if_false,
    Bool.false_eq_true]
  rcases s.doItemTouch E.cfg key (realtime E.cfg s.currentTime (ntoh (extras.take 4))) (E.cfg.hash key)
    with ⟨s', it | it⟩
  · refine iff_of_true ⟨rfl, rfl, rfl, fun _ hr => (by cases hr), fun r _ hr => ?_⟩ fun hne => hne rfl
    rw [← Option.some.inj hr]
    rfl
  -- a hit: the loud response announces the key
  · refine iff_of_false (fun hagrees => ?_) fun hne => hne (by simp)
    have hr := congrArg BinResponse.keylen (Option.some.inj (hagrees.response _ rfl))
    exact hkeylen hr

/-- After a retrieval nothing is read. -/
theorem processBinGetOrTouch_next (c : BinConn) : (processBinGetOrTouch E s c extras key).next = .newCmd := by
  simp only [processBinGetOrTouch]
  rcases (if c.cmd = .op .touch ∨ c.cmd = .op .gat ∨ c.cmd = .op .gatK then
      s.doItemTouch E.cfg key (realtime E.cfg s.currentTime (ntoh (extras.take 4))) (E.cfg.hash key)
    else s.doItemGet E.cfg key (E.cfg.hash key)) with ⟨s', it | it⟩
  · simp only
    split_ifs <;> rfl
  · rfl

/-- `touch` and `gat` answer once the key is read. -/
theorem finishBin_touchKey (c : BinConn) (hgrow : E.growOk = true) :
    finishBin E other₁ other₂ extras key value (binReadKey E s c .readingTouchKey) =
      processBinGetOrTouch E (other₁ s) c extras key := by
  simp only [finishBin, binReadKey, hgrow, if_true, completeBinKey, processBinGetOrTouch_next]

/-- A `gatkq` is answered with an item: it gets past the checks, and finds one when its key has been
read. -/
def GatKQHit (s : Store) (h : BinHeader) (key : Bytes) : Prop :=
  (¬ (E.sasl = true ∧ E.authenticated = false) ∧ ¬ h.keylen.toNat > keyMaxLength) ∧
    (h.extlen.toNat = 4 ∧ h.keylen.toNat ≠ 0) ∧ E.growOk = true ∧ s.Serves E.cfg key

/-- **`gatkq` agrees with `gatk`** iff it is no hit. -/
theorem runBin_gatKQ_iff :
    (∃ rq rl, runBin E other₁ other₂ s h .gatKQ extras key value = some rq ∧
      runBin E other₁ other₂ s h .gatK extras key value = some rl ∧ Agrees .gatKQ rq rl) ↔
      ¬ GatKQHit E (other₁ s) h key := by
  by_cases hrefused : (E.sasl = true ∧ E.authenticated = false) ∨ h.keylen.toNat > keyMaxLength
  · refine iff_of_true (runBin_refused E other₁ other₂ s h extras key value hrefused _ _) fun hhit => ?_
    exact hrefused.elim hhit.1.1 hhit.1.2
  obtain ⟨hauth, hkeylen⟩ := not_or.mp hrefused
  -- both commands check their header, and then read the key of a touch
  have hrun (op : Opcode) (hop : op = .gatKQ ∨ op = .gatK) :
      runBin E other₁ other₂ s h op extras key value =
        some (finishBin E other₁ other₂ extras key value
          (if h.extlen.toNat = 4 ∧ h.keylen.toNat ≠ 0 then
            binReadKey E s ⟨.op op.loud, op.quiet, h, 0, none⟩ .readingTouchKey
          else binProtocolError s ⟨.op op.loud, op.quiet, h, 0, none⟩)) := by
    simp only [runBin, dispatchBin, if_neg hauth, if_neg hkeylen]
    rcases hop with rfl | rfl
    · simp [dispatchBinSwitch, Opcode.loud, Opcode.quiet]
    · simp [dispatchBinSwitch, Opcode.loud, Opcode.quiet]
  rw [hrun _ (.inl rfl), hrun _ (.inr rfl)]
  simp only [Option.some.injEq, exists_and_left, exists_eq_left', GatKQHit]
  by_cases hcheck : h.extlen.toNat = 4 ∧ h.keylen.toNat ≠ 0
  swap
  · simp only [if_neg hcheck]
    exact iff_of_true ⟨rfl, rfl, rfl, fun _ hr => hr, fun _ hr => by cases hr⟩ fun hhit => hcheck hhit.2.1
  simp only [if_pos hcheck]
  cases hgrow : E.growOk with
  | false =>
      simp only [binReadKey, hgrow]
      refine iff_of_true ⟨rfl, rfl, rfl, fun _ hr => hr, fun _ _ hr => by cases hr⟩ fun hhit => ?_
      exact absurd hhit.2.2.1 (by simp)
  | true =>
      rw [finishBin_touchKey E _ _ _ _ _ _ _ hgrow, finishBin_touchKey E _ _ _ _ _ _ _ hgrow]
      refine (agrees_gatKQ_iff E (other₁ s) extras key ⟨.op .gat, false, h, 0, none⟩ hcheck.2).trans ?_
      exact not_congr ⟨fun hserves => ⟨⟨hauth, hkeylen⟩, hcheck, rfl, hserves⟩, fun hhit => hhit.2.2.2⟩

/-! ## The property -/

/-- **Quiet and loud commands agree unless a `gatkq` hits**: the same store, and the same response or, for
the success of a mutation and the miss of a retrieval, none. -/
theorem quietAgrees_iff {q : Opcode} (hq : q.quiet = true) :
    (∃ rq rl, runBin E other₁ other₂ s h q extras key value = some rq ∧
      runBin E other₁ other₂ s h q.counterpart extras key value = some rl ∧ Agrees q rq rl) ↔
      ¬ (q = .gatKQ ∧ GatKQHit E (other₁ s) h key) := by
  by_cases hne : q = .gatKQ
  · rw [hne]
    refine (runBin_gatKQ_iff E other₁ other₂ s h extras key value).trans (not_congr ?_)
    exact ⟨fun hhit => ⟨rfl, hhit⟩, And.right⟩
  · exact iff_of_true (runBin_agrees E other₁ other₂ s h extras key value hq hne) fun hhit => hne hhit.1

end Commands

/-- A server without SASL. -/
def BinEnv.plain : BinEnv where
  cfg := .small
  sasl := false
  authenticated := false
  flushEnabled := true
  growOk := true
  allocEnv := .quick none
  storeEnv := .quick none
  beyond := []
  negativeAlloc s _ _ := (s, none)
  itemSizeOk _ _ _ := true

/-- The header of a retrieval of a key of one byte. -/
def BinHeader.retrieval (opcode extlen : UInt8) : BinHeader where
  magic := binaryReq
  opcode := opcode
  keylen := 1
  extlen := extlen
  bodylen := 1 + extlen.toUInt32
  opaqueId := 0
  cas := 0

/-- A `getkq` of the key that is stored. -/
theorem quietAgrees_iff_getKQ :
    (∃ rq rl, runBin .plain id id (World.stored 5).store (.retrieval 0x0d 0) .getKQ [] [107] [] = some rq ∧
      runBin .plain id id (World.stored 5).store (.retrieval 0x0d 0) Opcode.getKQ.counterpart [] [107] [] =
        some rl ∧ Agrees .getKQ rq rl) ↔
      ¬ (Opcode.getKQ = .gatKQ ∧ GatKQHit .plain (id (World.stored 5).store) (.retrieval 0x0d 0) [107]) :=
  quietAgrees_iff .plain id id (World.stored 5).store (.retrieval 0x0d 0) [] [107] [] rfl

/-- **The key is missing**: a `gatkq` for the key that is stored does not agree with the `gatk`. -/
theorem quietAgrees_gatKQ : ¬ ∀ (E : BinEnv) (other₁ other₂ : Store → Store) (s : Store) (h : BinHeader)
    (q : Opcode) (extras key value : Bytes), q.quiet = true →
    ∃ rq rl, runBin E other₁ other₂ s h q extras key value = some rq ∧
      runBin E other₁ other₂ s h q.counterpart extras key value = some rl ∧ Agrees q rq rl := by
  intro hall
  have hserves : (World.stored 5).store.Serves .small [107] :=
    ⟨firstChunk, by decide +kernel, by decide +kernel⟩
  have hhit : GatKQHit .plain (id (World.stored 5).store) (.retrieval 0x24 4) [107] :=
    ⟨by decide, by decide, rfl, hserves⟩
  exact (runBin_gatKQ_iff .plain id id (World.stored 5).store (.retrieval 0x24 4) [0, 0, 0, 0] [107] []).mp
    (hall _ _ _ _ _ .gatKQ _ _ _ rfl) hhit

end Memcached
