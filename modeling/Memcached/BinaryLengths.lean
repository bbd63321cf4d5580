import Memcached.BinaryFraming
import Memcached.System

/-! # Lengths of binary requests

The size of the item a binary request asks for is computed from 32-, 16- and 8-bit fields of its
header in `int` arithmetic. What is written into the item: its key, its suffix, the bytes read from
the socket and the newline.

* **`ItemRequest.Safe`** — a size that is not negative, and writes within the item.
* **`LengthsFit`** — the lengths of the header fit together.
* **`asks_safe_iff`**, **`asks_safe_fails`** — every item that is asked for is safe iff they do. -/

namespace Memcached

open CNumber (Bytes toInt32)
open Transition (Within)

variable {st : ConnSettings} {a : Answers} {m m' : Machine} {c : Connection} {input : Bytes}
  {log : List ConnEvent}

/-! ## The item a request asks for -/

/-- What a handler asks `item_alloc` for when the key has been read. -/
structure ItemRequest where
  /-- `nkey`. -/
  nkey : ℕ
  /-- The flags of the item. -/
  flags : ℤ
  /-- `vlen`, the number of bytes then read into the item. -/
  vlen : ℤ
  /-- The bytes after the value that the handler asks for on top. -/
  trailer : ℕ

namespace ItemRequest

variable (cfg : Settings) (r : ItemRequest)

/-- `nbytes`, as `item_alloc` gets it. -/
def nbytes : ℤ := toInt32 (r.vlen + r.trailer)

/-- The text that `item_make_header` prints. -/
def suffix : Bytes :=
  32 :: CNumber.formatInt r.flags ++ 32 :: CNumber.formatInt (toInt32 (r.nbytes - 2)) ++ crlf

/-- `nsuffix`, a `uint8_t`. -/
def nsuffix : ℕ := r.suffix.length % 2 ^ 8

/-- The size of the CAS id. -/
def casSize : ℕ := if cfg.useCas then 8 else 0

/-- `ntotal`, which `item_make_header` and `do_item_alloc` compute as a `size_t` from a `uint8_t`
and an `int`. -/
def ntotal : ℕ :=
  ((sizeofItem + (r.nkey + 1) % 2 ^ 8 + r.nsuffix + r.nbytes + casSize cfg : ℤ) % 2 ^ 64).toNat

/-- The class of the item's chunk. -/
def clsid : ℕ := slabsClsidOf cfg (r.ntotal cfg)

/-- `ITEM_key`, an offset from the item. -/
def keyAt : ℤ := sizeofItem + casSize cfg

/-- `ITEM_data`, an offset from the item. -/
def dataAt : ℤ := keyAt cfg + r.nkey + 1 + r.nsuffix

/-- What is written into the item, as offset and length: the key, the suffix, the bytes from the
socket, and the newline of `complete_update_bin`. -/
def writes : List (ℤ × ℤ) :=
  [(keyAt cfg, r.nkey), (keyAt cfg + r.nkey + 1, r.nsuffix), (r.dataAt cfg, r.vlen),
    (r.dataAt cfg + r.nbytes - r.trailer, r.trailer)]

/-- **The property of one request**: the length is not negative, nothing overflows, and what is
written lies in an item that its chunk has room for. -/
structure Safe : Prop where
  nonneg : 0 ≤ r.vlen
  fits : r.vlen + r.trailer < 2 ^ 31
  inside : r.clsid cfg ≠ 0 → r.ntotal cfg ≤ cfg.slabSize (r.clsid cfg) ∧
    ∀ w ∈ r.writes cfg, 0 ≤ w.1 ∧ w.1 + w.2 ≤ r.ntotal cfg

variable {cfg r}

/-- A request is safe when its length is neither negative nor too large. -/
theorem Safe.of_fits (hkey : r.nkey ≤ keyMaxLength) (h0 : 0 ≤ r.vlen)
    (hfit : r.vlen + r.trailer < 2 ^ 31) : r.Safe cfg := by
  have hn : r.nbytes = r.vlen + r.trailer := by
    rw [nbytes, toInt32]
    exact Int.bmod_eq_of_le_mul_two (by omega) (by omega)
  have hsuffix : r.nsuffix < 2 ^ 8 := Nat.mod_lt _ (by norm_num)
  have hcas : casSize cfg ≤ 8 := by
    rw [casSize]
    split <;> omega
  have hkey' : r.nkey ≤ 250 := hkey
  have hitem : sizeofItem = 48 := rfl
  have htotal : (r.ntotal cfg : ℤ) =
      sizeofItem + (r.nkey + 1) + r.nsuffix + (r.vlen + r.trailer) + casSize cfg := by
    rw [ntotal, hn]
    omega
  refine ⟨h0, hfit, fun hid => ⟨le_slabsClsidOf hid, fun w hw => ?_⟩⟩
  simp only [writes, List.mem_cons, List.not_mem_nil, or_false] at hw
  rcases hw with rfl | rfl | rfl | rfl <;> simp only [dataAt, keyAt, hn, htotal] <;> omega

end ItemRequest

/-! ## Who asks -/

namespace Connection

variable (st c) in
/-- The item that `complete_nread_binary` is about to ask for. -/
def itemRequest : Option ItemRequest :=
  if c.state = .nread ∧ c.rlbytes = 0 ∧ c.protocol = .binary then
    match c.substate with
    | .readingSetHeader =>
        if c.cmd = some .append ∨ c.cmd = some .prepend then
          some ⟨c.header.keylen.toNat, 0, c.binVlen 0, 2⟩
        else some ⟨c.header.keylen.toNat, toInt32 (ntoh (c.received.take 4)),
          c.binVlen c.header.extlen.toNat, 2⟩
    | .readingSaslAuth =>
        if st.sasl = true ∧ c.header.keylen.toNat ≤ maxSaslMechLen then
          some ⟨c.header.keylen.toNat, 0, c.binVlen 0, 0⟩
        else none
    | _ => none
  else none

end Connection

/-- `complete_nread`, when all has been read. -/
theorem drive_completeNread (hst : c.state = .nread) (hrl : c.rlbytes = 0)
    (hp : c.protocol = .binary) : Machine.drive st a ⟨c, input, log⟩ =
      some ⟨c.completeNreadBinary st a log, input, log ++ (c.completeNread st a log).2⟩ := by
  simp [Machine.drive, hst, Machine.nread, hrl, Connection.completeNread, hp]

/-- What is done with an item that was asked for. -/
theorem completeNreadBinary_of_itemRequest {r : ItemRequest} (h : c.itemRequest st = some r) :
    ∃ sub swallow, c.completeNreadBinary st a log =
      match a.alloc log r.nkey r.flags r.nbytes with
      | .ok => c.readValue sub r.vlen
      | .tooLarge => c.refuseValue r.vlen
      | .noMemory => c.refuseValue swallow := by
  rw [Connection.itemRequest] at h
  split at h
  case isFalse => exact absurd h (by simp)
  rw [Connection.completeNreadBinary]
  split at h
  · rename_i hsub
    refine ⟨.readSetValue, 0, ?_⟩
    split at h <;> rename_i hcmd <;> obtain rfl := Option.some.inj h
    · simp only [hsub, if_pos hcmd]
      rfl
    · simp only [hsub, if_neg hcmd]
      rfl
  · rename_i hsub
    split at h
    · rename_i hsasl
      obtain rfl := Option.some.inj h
      have hn : ItemRequest.nbytes ⟨c.header.keylen.toNat, 0, c.binVlen 0, 0⟩ = c.binVlen 0 := by
        simp [ItemRequest.nbytes, Connection.binVlen, toInt32]
      refine ⟨.readingSaslAuthData, c.binVlen 0, ?_⟩
      simp only [hsub, Connection.processBinSaslAuth, hsasl.1, reduceCtorEq, if_false,
        if_neg (not_lt.mpr hsasl.2), gt_iff_lt, hn]
      cases a.alloc log c.header.keylen.toNat 0 (c.binVlen 0) <;> rfl
    · exact absurd h (by simp)
  · exact absurd h (by simp)

/-- **Who asks**: the answer of `item_alloc` decides a step only where an item is asked for. -/
theorem completeNreadBinary_congr_alloc (hst : c.state = .nread) (hrl : c.rlbytes = 0)
    (hp : c.protocol = .binary) (h : c.itemRequest st = none)
    (f : List ConnEvent → ℕ → ℤ → ℤ → AllocAnswer) :
    c.completeNreadBinary st { a with alloc := f } log = c.completeNreadBinary st a log := by
  rw [Connection.itemRequest, if_pos ⟨hst, hrl, hp⟩] at h
  rw [Connection.completeNreadBinary, Connection.completeNreadBinary]
  cases hsub : c.substate <;> simp only [hsub] at h ⊢
  case readingSetHeader =>
    split at h <;> exact absurd h (by simp)
  case readingSaslAuth =>
    split at h
    · exact absurd h (by simp)
    · rename_i hsasl
      rw [Connection.processBinSaslAuth, Connection.processBinSaslAuth]
      by_cases hoff : st.sasl = false
      · rw [if_pos hoff, if_pos hoff]
      · rw [if_neg hoff, if_neg hoff]
        have hlong : c.header.keylen.toNat > maxSaslMechLen :=
          not_le.mp fun hle => hsasl ⟨Bool.not_eq_false _ ▸ hoff, hle⟩
        rw [if_pos hlong, if_pos hlong]
  all_goals rfl

namespace Connection

/-- A connection that will not ask for an item before the next request. -/
def Silent (c : Connection) : Prop :=
  match c.state with
  | .parseCmd => False
  | .nread => c.substate ≠ .readingSetHeader ∧ c.substate ≠ .readingSaslAuth
  | .write | .mwrite => c.writeAndGo = .newCmd ∨ c.writeAndGo = .swallow ∨ c.writeAndGo = .closing
  | _ => True

/-- In these states the next item is asked for by another request. -/
theorem silent_of_state (h : c.state = .newCmd ∨ c.state = .swallow ∨ c.state = .closing) :
    c.Silent := by
  rcases h with h | h | h <;> simp [Silent, h]

/-- After an error no item is asked for before the next request. -/
@[simp] theorem silent_writeBinError (n : ℤ) : (c.writeBinError n).Silent := by
  rw [writeBinError]
  split <;> simp [Silent]

/-- After a response no item is asked for before the next request. -/
@[simp] theorem silent_writeBinResponse (keeps : Bool) : (c.writeBinResponse keeps).Silent := by
  rw [writeBinResponse]
  split <;> simp [Silent]

/-- After a protocol error no item is asked for. -/
@[simp] theorem silent_protocolError : c.handleBinaryProtocolError.Silent := by
  rw [handleBinaryProtocolError, writeBinError]
  split <;> simp [Silent]

/-- A key that is not the one of a value or an exchange leads to no item. -/
theorem silent_binReadKey {substate : Substate} (extra : ℕ)
    (h : substate ≠ .readingSetHeader ∧ substate ≠ .readingSaslAuth) :
    (c.binReadKey a log substate extra).Silent := by
  rw [binReadKey]
  split
  · exact h
  · trivial

/-- After an answer no item is asked for before the next request. -/
theorem silent_answer (keeps : Bool) : (c.answer a log keeps).Silent := by
  rw [answer]
  split <;> simp

/-- After the list of mechanisms no item is asked for before the next request. -/
theorem silent_binListSaslMechs : (c.binListSaslMechs st a log).Silent := by
  rw [binListSaslMechs]
  split
  · simp
  · split <;> simp

/-- After a refused value no item is asked for before the next request. -/
@[simp] theorem silent_refuseValue (n : ℤ) : (c.refuseValue n).Silent := by
  rw [refuseValue, writeBinError]
  split <;> simp [Silent]

/-- A storage request has asked for its item, and asks for no other. -/
theorem silent_processBinUpdate (extlen : ℕ) (flags : ℤ) :
    (c.processBinUpdate a log extlen flags).Silent := by
  rw [processBinUpdate]
  split
  · simp [readValue, Silent]
  · exact silent_refuseValue _
  · exact silent_refuseValue _

/-- An authentication request has asked for its item, and asks for no other. -/
theorem silent_processBinSaslAuth : (c.processBinSaslAuth st a log).Silent := by
  simp only [processBinSaslAuth]
  split
  · exact silent_writeBinError _
  · split
    · exact silent_refuseValue _
    · split
      · simp [readValue, Silent]
      · exact silent_refuseValue _

/-- What is read after the key is a value. -/
theorem silent_completeNreadBinary (h : c.substate = .noState → c.Silent) :
    (c.completeNreadBinary st a log).Silent := by
  rw [completeNreadBinary]
  cases hs : c.substate <;> simp only
  case readingSetHeader =>
    split <;> exact silent_processBinUpdate _ _
  case readingSaslAuth => exact silent_processBinSaslAuth
  case noState => exact h hs
  case readingGetKey | readingTouchKey =>
    split
    · simp [Silent]
    · split
      · trivial
      · simp
  case readingSaslAuthData =>
    rw [processBinCompleteSaslAuth]
    split
    · exact silent_writeBinResponse (c := { c with authenticated := true }) false
    · simp [Silent]
    · exact silent_writeBinError (c := { c with authenticated := false }) 0
  all_goals exact silent_answer _

end Connection

/-- A silent connection asks for no item. -/
theorem Connection.Silent.itemRequest (h : c.Silent) : c.itemRequest st = none := by
  rw [Connection.itemRequest]
  split
  · rename_i hc
    rw [Connection.Silent, hc.1] at h
    split
    · exact absurd ‹_› h.1
    · exact absurd ‹_› h.2
    · rfl
  · rfl

/-- A connection that is silent remains so until the next request. -/
theorem silent_drive (h : m.conn.Silent) (hrest : ¬ m.AtRest) (e : m.drive st a = some m') :
    m'.conn.Silent := by
  obtain ⟨c, input, log⟩ := m
  rw [Machine.drive] at e
  cases hs : c.state <;> simp only [hs] at e
  case newCmd => exact absurd (Or.inl hs) hrest
  case parseCmd => simp [Connection.Silent, hs] at h
  case nread =>
    rw [Machine.nread] at e
    simp only at e
    split at e
    · obtain rfl := Option.some.inj e
      simp only [Connection.completeNread]
      split
      · exact Connection.silent_completeNreadBinary fun _ => h
      · simp only [Connection.outString]
        split <;> simp [Connection.Silent]
    · split at e
      · obtain rfl := Option.some.inj e
        trivial
      · split at e
        · exact absurd e (by simp)
        · obtain rfl := Option.some.inj e
          exact h
  case swallow =>
    rw [Machine.swallow] at e
    simp only at e
    split at e
    · obtain rfl := Option.some.inj e
      trivial
    · split at e
      · exact absurd e (by simp)
      · obtain rfl := Option.some.inj e
        exact h
  case write | mwrite =>
    obtain rfl := Option.some.inj e
    simp only [Connection.Silent, hs] at h
    refine Connection.silent_of_state ?_
    rw [Connection.afterWrite]
    split
    · exact Or.inl rfl
    · exact h
  all_goals exact absurd e (by simp)

/-! ## Which requests ask -/

/-- The extras of an opcode whose value is stored, and the bytes after the value. -/
def Opcode.valueShape : Opcode → Option (ℕ × ℕ)
  | .set | .add | .replace => some (8, 2)
  | .append | .prepend => some (0, 2)
  | .saslAuth | .saslStep => some (0, 0)
  | _ => none

namespace BinHeader

variable (h : BinHeader)

/-- `dispatch_bin_command` goes on to read the key of a value with `extlen` bytes of extras. -/
def KeyRead (st : ConnSettings) (a : Answers) (log : List ConnEvent) (c : Connection)
    (extlen : ℕ) : Prop :=
  h.magic = binaryReq ∧ ¬ (st.sasl = true ∧ c.isAuthenticated (Opcode.ofByte h.opcode) = false) ∧
    h.keylen.toNat ≤ keyMaxLength ∧ h.keylen.toNat ≠ 0 ∧ h.extlen.toNat = extlen ∧
    (extlen = 8 → h.keylen.toNat + 8 ≤ h.bodylen.toNat) ∧ a.grow log = true

/-- The connection that reads the key of a value; only a SASL payload has nothing after it. -/
def readingKey (c : Connection) (op : Opcode) (extlen trailer : ℕ) : Connection :=
  { c with
    header := h
    cmd := some op
    noreply := (Opcode.ofByte h.opcode).any Opcode.quiet
    substate := if trailer = 0 then .readingSaslAuth else .readingSetHeader
    rlbytes := h.keylen.toNat + extlen
    received := []
    state := .nread }

/-- A handler has led to `d`, which reads the key of a value, or will not ask for an item. -/
def Leads (st : ConnSettings) (a : Answers) (log : List ConnEvent) (c d : Connection) : Prop :=
  (∃ op extlen trailer, (Opcode.ofByte h.opcode).map Opcode.loud = some op ∧
      op.valueShape = some (extlen, trailer) ∧ h.KeyRead st a log c extlen ∧
      d = h.readingKey c op extlen trailer) ∨
    (∀ op extlen trailer, (Opcode.ofByte h.opcode).map Opcode.loud = some op →
      op.valueShape = some (extlen, trailer) → ¬ h.KeyRead st a log c extlen) ∧ d.Silent

variable {h} {d : Connection} {op : Opcode}

/-- A request that is answered at once leads nowhere else. -/
theorem Leads.of_silent (hs : d.Silent) (hno : ∀ extlen, ¬ h.KeyRead st a log c extlen) :
    h.Leads st a log c d := Or.inr ⟨fun _ extlen _ _ _ => hno extlen, hs⟩

/-- A command without a value. -/
theorem Leads.of_none (hop : (Opcode.ofByte h.opcode).map Opcode.loud = some op)
    (hshape : op.valueShape = none) (hs : d.Silent) : h.Leads st a log c d := by
  refine Or.inr ⟨fun op' extlen trailer hop' hshape' => ?_, hs⟩
  obtain rfl := Option.some.inj (hop.symm.trans hop')
  exact absurd (hshape.symm.trans hshape') (by simp)

/-- A command with a value reads its key when the lengths are as `P` says. -/
theorem Leads.of_key {extlen trailer : ℕ} {P : Prop} [Decidable P]
    (hop : (Opcode.ofByte h.opcode).map Opcode.loud = some op)
    (hshape : op.valueShape = some (extlen, trailer)) (hd : d = { c with
        header := h
        cmd := some op
        noreply := (Opcode.ofByte h.opcode).any Opcode.quiet })
    (hmagic : h.magic = binaryReq)
    (hauth : ¬ (st.sasl = true ∧ c.isAuthenticated (Opcode.ofByte h.opcode) = false))
    (hkey : h.keylen.toNat ≤ keyMaxLength)
    (hP : P ↔ h.keylen.toNat ≠ 0 ∧ h.extlen.toNat = extlen ∧
      (extlen = 8 → h.keylen.toNat + 8 ≤ h.bodylen.toNat)) :
    h.Leads st a log c (if P then d.binReadKey a log
        (if trailer = 0 then .readingSaslAuth else .readingSetHeader) extlen
      else d.handleBinaryProtocolError) := by
  have hno : ¬ (P ∧ a.grow log = true) → ∀ op' extlen' trailer',
      (Opcode.ofByte h.opcode).map Opcode.loud = some op' →
      op'.valueShape = some (extlen', trailer') → ¬ h.KeyRead st a log c extlen' := by
    intro hn op' extlen' trailer' hop' hshape' hk
    obtain rfl := Option.some.inj (hop.symm.trans hop')
    obtain ⟨rfl, -⟩ := Prod.mk.inj (Option.some.inj (hshape.symm.trans hshape'))
    obtain ⟨-, -, -, h₁, h₂, h₃, hg⟩ := hk
    exact hn ⟨hP.mpr ⟨h₁, h₂, h₃⟩, hg⟩
  split
  · rename_i hp
    obtain ⟨h₁, h₂, h₃⟩ := hP.mp hp
    rw [Connection.binReadKey]
    split
    · rename_i hg
      exact Or.inl ⟨op, extlen, trailer, hop, hshape, ⟨hmagic, hauth, hkey, h₁, h₂, h₃, hg⟩,
        by rw [hd]; rfl⟩
    · rename_i hg
      exact Or.inr ⟨hno fun hpg => hg hpg.2, trivial⟩
  · rename_i hp
    exact Or.inr ⟨hno fun hpg => hp hpg.1, Connection.silent_protocolError⟩

end BinHeader

namespace Connection

/-- **Where `dispatch_bin_command` leads**, as far as items are concerned: to the key of a value,
or to no item at all. -/
theorem leads_readBinCommand (h : BinHeader) :
    h.Leads st a log c (c.readBinCommand st a log h) := by
  rw [readBinCommand]
  split
  · rename_i hmagic
    exact .of_silent trivial fun _ hk => hmagic hk.1
  rename_i hmagic
  have hmagic : h.magic = binaryReq := not_not.mp hmagic
  rw [dispatchBinCommand]
  split
  · rename_i hauth
    refine .of_silent ?_ fun _ hk => hk.2.1 hauth
    rw [writeBinError, if_neg (by omega)]
    simp [Silent]
  rename_i hauth
  split
  · rename_i hkey
    exact .of_silent silent_protocolError fun _ hk => absurd hk.2.2.1 (not_le.mpr hkey)
  rename_i hkey
  have hkey : h.keylen.toNat ≤ keyMaxLength := not_lt.mp hkey
  rw [dispatchSwitch]
  cases hop : (Opcode.ofByte h.opcode).map Opcode.loud with
  | none => exact Or.inr ⟨by simp [hop], by simp⟩
  | some op =>
      cases op <;> simp only
      case set | add | replace =>
        exact .of_key hop (rfl : _ = some (8, 2)) rfl hmagic hauth hkey (by tauto)
      case append | prepend =>
        exact .of_key hop (rfl : _ = some (0, 2)) rfl hmagic hauth hkey (by
          rw [gt_iff_lt, Nat.pos_iff_ne_zero]; simp)
      case saslAuth | saslStep =>
        exact .of_key hop (rfl : _ = some (0, 0)) rfl hmagic hauth hkey (by simp [and_comm])
      case touch | gat | gatK | stat | get | getK | delete | increment | decrement | flush =>
        refine .of_none hop rfl ?_
        split
        · exact silent_binReadKey _ (by decide)
        · exact silent_protocolError
      case version | noop =>
        refine .of_none hop rfl ?_
        split
        · exact silent_writeBinResponse _
        · exact silent_protocolError
      case saslListMechs =>
        refine .of_none hop rfl ?_
        split
        · exact silent_binListSaslMechs
        · exact silent_protocolError
      case quit =>
        refine .of_none hop rfl ?_
        split
        · split
          · exact silent_of_state (Or.inr (Or.inr rfl))
          · rename_i hq
            rw [writeBinResponse, if_pos (by simpa using hq)]
            simp [Silent]
        · exact silent_protocolError
      all_goals
        refine .of_none hop rfl ?_
        simp

end Connection

/-! ## The property -/

/-- A request at the start of `m` asks for the item `r`. -/
def Machine.Asks (st : ConnSettings) (a : Answers) (m : Machine) (r : ItemRequest) : Prop :=
  ∃ m', Within (Machine.drive st a) Machine.AtRest m m' ∧ m'.conn.itemRequest st = some r

namespace BinHeader

variable (h : BinHeader)

/-- The header leads to a handler that asks for an item. -/
def Allocates (st : ConnSettings) (a : Answers) (log : List ConnEvent) (c : Connection)
    (extlen trailer : ℕ) : Prop :=
  ((Opcode.ofByte h.opcode).map Opcode.loud).bind Opcode.valueShape = some (extlen, trailer) ∧
    h.KeyRead st a log c extlen ∧
    (trailer = 0 → st.sasl = true ∧ h.keylen.toNat ≤ maxSaslMechLen)

/-- **The exact condition**: key and extras are part of the body, and the rest of it, with what
comes after, is shorter than 2 GB. -/
def LengthsFit (extlen trailer : ℕ) : Prop :=
  h.keylen.toNat + extlen ≤ h.bodylen.toNat ∧
    h.bodylen.toNat - (h.keylen.toNat + extlen) + trailer < 2 ^ 31

/-- `vlen`, of a value with `extlen` bytes of extras. -/
def vlen (extlen : ℕ) : ℤ :=
  toInt32 ((h.bodylen.toNat : ℤ) - (h.keylen.toNat + extlen : ℕ))

end BinHeader

variable (st) in
/-- The item that is asked for once the key has been read. -/
theorem itemRequest_readingKey {h : BinHeader} {op : Opcode} {extlen trailer : ℕ}
    (hshape : op.valueShape = some (extlen, trailer)) (hext : h.extlen.toNat = extlen)
    (key : Bytes) (hp : c.protocol = .binary) :
    ∃ flags, ({ h.readingKey c op extlen trailer with
        rlbytes := 0, received := key } : Connection).itemRequest st =
      if trailer = 0 → st.sasl = true ∧ h.keylen.toNat ≤ maxSaslMechLen then
        some ⟨h.keylen.toNat, flags, h.vlen extlen, trailer⟩
      else none := by
  cases op <;> simp only [Opcode.valueShape, Option.some.injEq, Prod.mk.injEq, reduceCtorEq]
    at hshape
  case set | add | replace =>
    obtain ⟨rfl, rfl⟩ := hshape
    exact ⟨toInt32 (ntoh (key.take 4)), by
      simp [Connection.itemRequest, BinHeader.readingKey, hp, Connection.binVlen,
        BinHeader.vlen, hext]⟩
  case append | prepend =>
    obtain ⟨rfl, rfl⟩ := hshape
    exact ⟨0, by
      simp [Connection.itemRequest, BinHeader.readingKey, hp, Connection.binVlen, BinHeader.vlen]⟩
  case saslAuth | saslStep =>
    obtain ⟨rfl, rfl⟩ := hshape
    exact ⟨0, by
      simp [Connection.itemRequest, BinHeader.readingKey, hp, Connection.binVlen, BinHeader.vlen]⟩

/-- The lengths fit together when the value's length, as an `int`, is as it should be. -/
theorem lengthsFit_iff {h : BinHeader} {extlen trailer : ℕ}
    (ha : h.Allocates st a log c extlen trailer) :
    h.LengthsFit extlen trailer ↔ 0 ≤ h.vlen extlen ∧ h.vlen extlen + trailer < 2 ^ 31 := by
  have hbody := h.bodylen.toNat_lt
  have hkey : h.keylen.toNat ≤ 250 := ha.2.1.2.2.1
  have hext : extlen ≤ 8 := by
    obtain ⟨op, -, hshape⟩ := Option.bind_eq_some_iff.mp ha.1
    cases op <;> simp [Opcode.valueShape] at hshape <;> omega
  rw [BinHeader.LengthsFit, BinHeader.vlen, toInt32, Int.bmod_def]
  omega

/-- A key is read when it has arrived. -/
theorem drive_readingKey {h : BinHeader} {op : Opcode} {extlen trailer : ℕ}
    (hkey : h.keylen.toNat + extlen ≠ 0) (hin : ¬ input.length < h.keylen.toNat + extlen) :
    Machine.drive st a ⟨h.readingKey c op extlen trailer, input, log⟩ =
      some ⟨{ h.readingKey c op extlen trailer with
        rlbytes := 0
        received := input.take (h.keylen.toNat + extlen) },
        input.drop (h.keylen.toNat + extlen), log⟩ := by
  have h0 : ¬ (h.keylen.toNat + extlen : ℤ) = 0 := by omega
  have hneg : ¬ (h.keylen.toNat + extlen : ℤ) < 0 := by omega
  have htoNat : (h.keylen.toNat + extlen : ℤ).toNat = h.keylen.toNat + extlen := by omega
  simp only [Machine.drive, BinHeader.readingKey, Machine.nread, if_neg h0, if_neg hneg, htoNat,
    if_neg hin, List.nil_append]

variable (st a log) in
/-- Where a header leads, as a step of the machine. -/
theorem drive_header {h : BinHeader} (hst : c.state = .parseCmd)
    (hp : (c.negotiate (c.firstByte input)).protocol = .binary)
    (hh : BinHeader.decode input = h) (hlen : headerLen ≤ input.length) :
    ∃ d, Machine.drive st a ⟨c, input, log⟩ =
        some ⟨d, input.drop headerLen, log ++ [.header h]⟩ ∧
      h.Leads st a log { c with protocol := .binary } d := by
  have hneg : c.negotiate (c.firstByte input) = { c with protocol := .binary } := by
    rw [Connection.negotiate] at hp ⊢
    split at hp <;> rename_i hcond
    · rw [if_pos hcond]
      simp only at hp
      rw [hp]
    · rw [if_neg hcond, ← hp]
  refine ⟨_, ?_, Connection.leads_readBinCommand h⟩
  simp only [Machine.drive, hst, Machine.tryReadCommand, hneg, if_true]
  rw [if_neg (by omega), hh]

/-- **The item a binary request asks for** is one of the length that its header announces, when
the header leads to a handler that stores a value. -/
theorem allocates_of_asks {h : BinHeader} {r : ItemRequest} (hst : c.state = .parseCmd)
    (hp : (c.negotiate (c.firstByte input)).protocol = .binary)
    (hh : BinHeader.decode input = h)
    (hlen : headerLen + h.keylen.toNat + h.extlen.toNat ≤ input.length)
    (hr : Machine.Asks st a ⟨c, input, log⟩ r) :
    ∃ extlen, h.Allocates st a log c extlen r.trailer ∧ r.nkey = h.keylen.toNat ∧
      r.vlen = h.vlen extlen := by
  obtain ⟨m', hw, hreq⟩ := hr
  have hsilent : ∀ {m : Machine}, m.conn.Silent →
      Within (Machine.drive st a) Machine.AtRest m m' → False := fun hs hw =>
    have hs' := hw.invariant (P := fun m => m.conn.Silent) hs silent_drive
    absurd hreq (by rw [hs'.itemRequest]; simp)
  obtain ⟨d, e, hd⟩ := drive_header st a log hst hp hh (by omega)
  cases hw with
  | here => simp [Connection.itemRequest, hst] at hreq
  | step _ e₁ hw =>
      obtain rfl := Option.some.inj (e.symm.trans e₁)
      rcases hd with ⟨op, extlen, trailer, hop, hshape, hk, rfl⟩ | ⟨-, hs⟩
      · have hkey : (h.keylen.toNat + extlen : ℤ) ≠ 0 := by
          have := hk.2.2.2.1
          omega
        have hin : ¬ (input.drop headerLen).length < h.keylen.toNat + extlen := by
          rw [List.length_drop]
          have := hk.2.2.2.2.1
          omega
        cases hw with
        | here => simp [Connection.itemRequest, BinHeader.readingKey, hkey] at hreq
        | step _ e₂ hw =>
            obtain rfl := Option.some.inj ((drive_readingKey (by omega) hin).symm.trans e₂)
            cases hw with
            | here =>
                obtain ⟨flags, hflags⟩ := itemRequest_readingKey st (h := h)
                  (c := { c with protocol := .binary }) hshape hk.2.2.2.2.1
                  ((input.drop headerLen).take (h.keylen.toNat + extlen)) rfl
                rw [hflags] at hreq
                split at hreq
                · rename_i hsasl
                  obtain rfl := Option.some.inj hreq
                  exact ⟨extlen, ⟨by rw [hop]; exact hshape, hk, hsasl⟩, rfl, rfl⟩
                · exact absurd hreq (by simp)
            | step _ e₃ hw =>
                rw [drive_completeNread rfl rfl rfl] at e₃
                obtain rfl := Option.some.inj e₃
                refine (hsilent (Connection.silent_completeNreadBinary fun hno => ?_) hw).elim
                simp only [BinHeader.readingKey] at hno
                split at hno <;> exact absurd hno (by simp)
      · exact (hsilent hs hw).elim

/-- A header that leads to a handler that stores a value makes it ask for an item. -/
theorem asks_of_allocates {h : BinHeader} {extlen trailer : ℕ} (hst : c.state = .parseCmd)
    (hp : (c.negotiate (c.firstByte input)).protocol = .binary)
    (hh : BinHeader.decode input = h)
    (hlen : headerLen + h.keylen.toNat + h.extlen.toNat ≤ input.length)
    (ha : h.Allocates st a log c extlen trailer) : ∃ flags,
      Machine.Asks st a ⟨c, input, log⟩ ⟨h.keylen.toNat, flags, h.vlen extlen, trailer⟩ := by
  obtain ⟨hbind, hk, hsasl⟩ := ha
  obtain ⟨op, hop, hshape⟩ := Option.bind_eq_some_iff.mp hbind
  obtain ⟨d, e, hd⟩ := drive_header st a log hst hp hh (by omega)
  rcases hd with ⟨op', extlen', trailer', hop', hshape', -, rfl⟩ | ⟨hno, -⟩
  · obtain rfl := Option.some.inj (hop.symm.trans hop')
    obtain ⟨rfl, rfl⟩ := Prod.mk.inj (Option.some.inj (hshape.symm.trans hshape'))
    have hin : ¬ (input.drop headerLen).length < h.keylen.toNat + extlen := by
      rw [List.length_drop]
      have := hk.2.2.2.2.1
      omega
    have hkey := hk.2.2.2.1
    obtain ⟨flags, hflags⟩ := itemRequest_readingKey st (h := h)
      (c := { c with protocol := .binary }) hshape hk.2.2.2.2.1
      ((input.drop headerLen).take (h.keylen.toNat + extlen)) rfl
    rw [if_pos hsasl] at hflags
    exact ⟨flags, _, .step (by simp [Machine.AtRest, hst]) e
      (.step (by simp [Machine.AtRest, BinHeader.readingKey]) (drive_readingKey (by omega) hin)
        .here), hflags⟩
  · exact absurd hk (hno op extlen trailer hop hshape)

/-- **Binary length safety**: the item a binary request asks for is safe if and only if the lengths
in the header fit together. -/
theorem asks_safe_iff (cfg : Settings) {h : BinHeader} (hst : c.state = .parseCmd)
    (hp : (c.negotiate (c.firstByte input)).protocol = .binary)
    (hh : BinHeader.decode input = h)
    (hlen : headerLen + h.keylen.toNat + h.extlen.toNat ≤ input.length) :
    (∀ r, Machine.Asks st a ⟨c, input, log⟩ r → r.Safe cfg) ↔
      ∀ extlen trailer, h.Allocates st a log c extlen trailer → h.LengthsFit extlen trailer := by
  constructor
  · intro hall extlen trailer ha
    obtain ⟨flags, hr⟩ := asks_of_allocates hst hp hh hlen ha
    exact (lengthsFit_iff ha).mpr ⟨(hall _ hr).nonneg, (hall _ hr).fits⟩
  · intro hall r hr
    obtain ⟨extlen, ha, hkey, hv⟩ := allocates_of_asks hst hp hh hlen hr
    have hfit := (lengthsFit_iff ha).mp (hall extlen r.trailer ha)
    exact .of_fits (hkey ▸ ha.2.1.2.2.1) (hv ▸ hfit.1) (hv ▸ hfit.2)

/-- The `set` of the example asks for a safe item, whatever its answer. -/
theorem asks_safe_iff_set :
    (∀ r, Machine.Asks .plain (.allocating .ok) ⟨binaryConn, setThenNoop, []⟩ r →
        r.Safe .small) ↔
      ∀ extlen trailer, (BinHeader.decode setThenNoop).Allocates .plain (.allocating .ok) []
        binaryConn extlen trailer → (BinHeader.decode setThenNoop).LengthsFit extlen trailer :=
  asks_safe_iff .small rfl rfl rfl (by decide)

/-- An `append` to a key of 250 bytes, with a body of none. -/
def appendNothing : Bytes :=
  [0x80, 14, 0, 250] ++ List.replicate 20 0 ++ List.replicate 250 107

/-- The item that it asks for. -/
def appendRequest : ItemRequest := ⟨250, 0, -250, 2⟩

/-- **The key does not fit the item**: 250 bytes are copied into an item of 68, and past the end of
a chunk of 128. -/
theorem appendRequest_outside : appendRequest.ntotal .small = 68 ∧
    Settings.small.slabSize (appendRequest.clsid .small) = 128 ∧
    (56, 250) ∈ appendRequest.writes .small := by
  decide

/-- **A body shorter than its key** is accepted by `append`. -/
theorem asks_safe_fails : ¬ ∀ (cfg : Settings) (st : ConnSettings) (a : Answers) (c : Connection)
    (input : Bytes) (h : BinHeader), c.state = .parseCmd → c.protocol = .binary →
      BinHeader.decode input = h → headerLen + h.keylen.toNat + h.extlen.toNat ≤ input.length →
      ∀ r, Machine.Asks st a ⟨c, input, []⟩ r → r.Safe cfg := by
  intro hall
  have hh : BinHeader.decode appendNothing =
      ⟨0x80, 14, 250, 0, 0, 0, 0⟩ := by decide
  have hlen : 24 + 250 + 0 ≤ appendNothing.length := by
    simp only [appendNothing, List.length_append, List.length_replicate, List.length_cons,
      List.length_nil]
    decide
  have halloc : BinHeader.Allocates ⟨0x80, 14, 250, 0, 0, 0, 0⟩ .plain (.allocating .ok) []
      binaryConn 0 2 :=
    ⟨by decide, ⟨by decide, by decide, by decide, by decide, by decide, by decide, rfl⟩, by decide⟩
  obtain ⟨flags, hr⟩ := asks_of_allocates rfl rfl hh hlen halloc
  have hsafe := hall .small _ _ _ _ _ rfl rfl hh hlen _ hr
  have hneg : BinHeader.vlen ⟨0x80, 14, 250, 0, 0, 0, 0⟩ 0 < 0 := by decide
  exact absurd hsafe.nonneg (not_le.mpr hneg)

end Memcached
