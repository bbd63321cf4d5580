import Memcached.Connection
import Memcached.Lib.Buffer
import Mathlib.Data.UInt

/-! # The reply to a stats command

`append_stats` puts one record after the other into a buffer that `grow_stats_buf` makes large enough
before. The buffer and its size are those of the connection.

* **`appendStats`**, **`growStatsBuf`** — the buffer and how it is filled.
* **`FaithfulReply`** — the reply has every record, and reads back as them.
* **`faithfulReply`** — so it does. -/

namespace Memcached

open CNumber (Bytes toInt32)
open Buffer (write snprintf)

/-! ## The buffer -/

/-- `c->stats`; the buffer is `none` for a null pointer. -/
structure StatsBuffer where
  buffer : Option Bytes
  size : ℕ
  offset : ℕ
  deriving DecidableEq, Repr

/-- A statistic. The terminator is the record without key and value. -/
structure StatsRecord where
  key : Bytes
  val : Bytes
  deriving DecidableEq, Repr

/-- The end of the statistics. -/
def StatsRecord.terminal : StatsRecord := ⟨[], []⟩

/-- `n` in network byte order: `htons`, `htonl`. -/
def hton : ℕ → ℕ → Bytes
  | 0, _ => []
  | k + 1, n => hton k (n / 256) ++ [UInt8.ofNat n]

/-- The loop of `grow_stats_buf`, which doubles `nsize`; `none` where the assertion fails. -/
def growLoop (offset needed : ℕ) : ℕ → ℕ → ℕ → Option ℕ
  | 0, _, _ => none
  | fuel + 1, nsize, available =>
      if available < needed then
        if nsize = 0 then none
        else
          -- a `size_t` that wraps to 0 meets the assertion in the next round
          let nsize := nsize * 2 % 2 ^ 64
          growLoop offset needed fuel nsize ((nsize + 2 ^ 64 - offset) % 2 ^ 64)
      else some nsize

/-- The size doubles to 0 before this many rounds. -/
def growFuel : ℕ := 66

/-- `realloc`: the bytes beyond the old ones are `junk`. -/
def reallocBytes (junk : ℕ → UInt8) (buf : Bytes) (size : ℕ) : Bytes :=
  buf.take size ++ ((List.range size).drop buf.length).map junk

/-- **`grow_stats_buf`** with `realloc` succeeding. -/
def growStatsBuf (junk : ℕ → UInt8) (st : StatsBuffer) (needed : ℕ) : Option StatsBuffer :=
  let size := if st.buffer = none then 0 else st.size
  let offset := if st.buffer = none then 0 else st.offset
  let nsize := if st.buffer = none then 1024 else st.size
  -- a new buffer has no room, so its first size is 2048
  let available := if st.buffer = none then 0 else (st.size + 2 ^ 64 - st.offset) % 2 ^ 64
  match growLoop offset needed growFuel nsize available with
  | none => none
  | some nsize =>
      -- `realloc` keeps the text, with new bytes behind it
      if nsize ≠ size then
        some ⟨some (reallocBytes junk (st.buffer.getD []) nsize), nsize, offset⟩
      else some ⟨st.buffer, size, offset⟩

/-! ## The records -/

/-- The header of a statistic: `PROTOCOL_BINARY_RES` and `PROTOCOL_BINARY_CMD_STAT`, the lengths, the
opaque of the request. -/
def binStatsHeader (opaqueId klen bodylen : ℕ) : Bytes :=
  [0x81, 0x10] ++ hton 2 klen ++ [0, 0, 0, 0] ++ hton 4 bodylen ++ hton 4 opaqueId ++
    [0, 0, 0, 0, 0, 0, 0, 0]

/-- **`append_bin_stats`**; `none` for a write past the end. -/
def appendBinStats (opaqueId : ℕ) (key : Bytes) (klen : ℕ) (val : Bytes) (vlen : ℕ)
    (st : StatsBuffer) : Option StatsBuffer :=
  let bodylen := (klen + vlen) % 2 ^ 32
  match st.buffer with
  | none => none
  | some buf => do
      let buf ← write buf st.offset (binStatsHeader opaqueId klen bodylen)
      -- the key and the value are copied as they are
      let buf ← if 0 < klen then write buf (st.offset + 24) (key.take klen) else some buf
      let buf ← if 0 < klen ∧ 0 < vlen then write buf (st.offset + 24 + klen) (val.take vlen)
        else some buf
      some ⟨some buf, st.size, (st.offset + (24 + bodylen)) % 2 ^ 64⟩

/-- A string up to its NUL, for `%s`. -/
def cstr (str : Bytes) : Bytes := str.takeWhile (· ≠ 0)

/-- What `append_ascii_stats` prints. -/
def asciiStat (key : Bytes) (klen : ℕ) (val : Bytes) (vlen : ℕ) : Bytes :=
  if klen = 0 ∧ vlen = 0 then ascii "END\r\n"
  -- a line without the value, and without the blank
  else if vlen = 0 then ascii "STAT " ++ cstr key ++ crlf
  else ascii "STAT " ++ cstr key ++ [32] ++ cstr val ++ crlf

/-- **`append_ascii_stats`**; `none` for a write past the end. -/
def appendAsciiStats (key : Bytes) (klen : ℕ) (val : Bytes) (vlen : ℕ) (st : StatsBuffer) :
    Option StatsBuffer :=
  let remaining := toInt32 ((st.size : ℤ) - st.offset)
  let room := toInt32 (remaining - 1)
  match st.buffer with
  | none => none
  | some buf => do
      let text := asciiStat key klen val vlen
      let buf ← snprintf buf st.offset (room % 2 ^ 64).toNat text
      -- `snprintf` returns what it would have written
      let nbytes := text.length % 2 ^ 32
      some ⟨some buf, st.size, (st.offset + nbytes) % 2 ^ 64⟩

/-- `needed`: the sum of the lengths is a `uint32_t`. -/
def statsNeeded (protocol : Protocol) (klen vlen : ℕ) : ℕ :=
  if protocol = .binary then (vlen + klen) % 2 ^ 32 + 24 else (vlen + klen + 10) % 2 ^ 32

/-- **`append_stats`**, called with the lengths of the key and of the value; `none` where an assertion
fails or a write leaves the buffer. -/
def appendStats (protocol : Protocol) (opaqueId : ℕ) (junk : ℕ → UInt8) (st : StatsBuffer)
    (r : StatsRecord) : Option StatsBuffer :=
  let klen := r.key.length
  let vlen := r.val.length
  -- value without a key is invalid
  if klen = 0 ∧ 0 < vlen then some st
  else do
    let st ← growStatsBuf junk st (statsNeeded protocol klen vlen)
    let st ← if protocol = .binary then appendBinStats opaqueId r.key klen r.val vlen st
      else appendAsciiStats r.key klen r.val vlen st
    if st.offset ≤ st.size then some st else none

/-- Some calls of `append_stats`, of a connection without a buffer. -/
def appendAll (protocol : Protocol) (opaqueId : ℕ) (junk : ℕ → UInt8) (size offset : ℕ)
    (records : List StatsRecord) : Option StatsBuffer :=
  records.foldlM (appendStats protocol opaqueId junk) ⟨none, size, offset⟩

/-! ## What a client reads -/

/-- A record on the wire, in full. -/
def encodeStat (protocol : Protocol) (opaqueId : ℕ) (r : StatsRecord) : Bytes :=
  if protocol = .binary then
    binStatsHeader opaqueId r.key.length (r.key.length + r.val.length) ++ r.key ++ r.val
  else if r = .terminal then ascii "END\r\n"
  else ascii "STAT " ++ r.key ++ (if r.val = [] then [] else [32] ++ r.val) ++ crlf

/-- A reply: the records in order, and the terminator. -/
def encodeStats (protocol : Protocol) (opaqueId : ℕ) (records : List StatsRecord) : Bytes :=
  (records ++ [StatsRecord.terminal]).flatMap (encodeStat protocol opaqueId)

/-- The statistics that a client reads from a reply, at most `fuel` records. -/
def decodeStats (protocol : Protocol) : ℕ → Bytes → Option (List StatsRecord)
  | 0, _ => none
  | fuel + 1, bs =>
      if protocol = .binary then
        let klen := ntoh ((bs.drop 2).take 2)
        let bodylen := ntoh ((bs.drop 8).take 4)
        if klen = 0 ∧ bodylen = 0 then some []
        else
          (decodeStats protocol fuel (bs.drop (24 + bodylen))).map
            (⟨(bs.drop 24).take klen, (bs.drop (24 + klen)).take (bodylen - klen)⟩ :: ·)
      else
        -- the line ends before `\r\n`
        let line := bs.takeWhile (· ≠ 13)
        if line = ascii "END" then some []
        else if line.take 5 = ascii "STAT " then
          (decodeStats protocol fuel (bs.drop (line.length + 2))).map
            (⟨(line.drop 5).takeWhile (· ≠ 32), ((line.drop 5).dropWhile (· ≠ 32)).drop 1⟩ :: ·)
        else none

/-- **A reply as it should be**: room before each record, the offset within the buffer, and in the end
the complete records in the buffer, as a client reads them. -/
structure FaithfulReply (protocol : Protocol) (opaqueId : ℕ) (junk : ℕ → UInt8) (size offset : ℕ)
    (records : List StatsRecord) : Prop where
  room : ∀ pre r post, records ++ [.terminal] = pre ++ r :: post → ∃ st grown st',
    appendAll protocol opaqueId junk size offset pre = some st ∧
      growStatsBuf junk st (statsNeeded protocol r.key.length r.val.length) = some grown ∧
      grown.offset + statsNeeded protocol r.key.length r.val.length ≤ grown.size ∧
      grown.offset + (encodeStat protocol opaqueId r).length ≤ grown.size ∧
      appendAll protocol opaqueId junk size offset (pre ++ [r]) = some st' ∧ st'.offset ≤ st'.size
  reply : ∃ st buf, appendAll protocol opaqueId junk size offset (records ++ [.terminal]) = some st ∧
    st.buffer = some buf ∧ buf.length = st.size ∧ st.offset ≤ st.size ∧
    buf.take st.offset = encodeStats protocol opaqueId records ∧
    decodeStats protocol (buf.take st.offset).length (buf.take st.offset) = some records

/-- The statistics that the protocol can carry. -/
structure StatsRecord.Sound (protocol : Protocol) (r : StatsRecord) : Prop where
  key_ne_nil : r.key ≠ []
  klen : r.key.length < 2 ^ 16
  bodylen : protocol = .binary → r.key.length + r.val.length < 2 ^ 32
  key_line : protocol ≠ .binary → 0 ∉ r.key ∧ 32 ∉ r.key ∧ 13 ∉ r.key
  val_line : protocol ≠ .binary → 0 ∉ r.val ∧ 13 ∉ r.val

/-! ## Growing the buffer -/

/-- What a buffer holds: the text at its front, up to the offset. -/
structure StatsBuffer.Holds (limit : ℕ) (out : Bytes) (st : StatsBuffer) : Prop where
  buffer : ∃ buf, st.buffer = some buf ∧ buf.length = st.size ∧ out <+: buf
  offset : st.offset = out.length
  pos : 0 < st.size
  size : st.size ≤ limit

/-- What is held fits the buffer. -/
theorem StatsBuffer.Holds.offset_le {limit : ℕ} {out : Bytes} {st : StatsBuffer}
    (h : st.Holds limit out) : st.offset ≤ st.size := by
  obtain ⟨buf, -, hlen, hpre⟩ := h.buffer
  rw [h.offset, ← hlen]
  exact hpre.length_le

/-- The buffer between two records: none yet, or one that holds the text so far. -/
def StatsBuffer.Between (limit : ℕ) (out : Bytes) (st : StatsBuffer) : Prop :=
  (st.buffer = none ∧ out = []) ∨ st.Holds limit out

/-- Doubling stops at a size that leaves the room, less than twice of what is needed in all. -/
theorem growLoop_eq_some {limit offset needed : ℕ} (hlimit : limit ≤ 2 ^ 63)
    (hneeded : 2 * (offset + needed) ≤ limit + 1) (fuel : ℕ) {nsize : ℕ} (hpos : 0 < nsize)
    (hoff : offset ≤ nsize) (hsize : nsize ≤ limit) (hfuel : offset + needed ≤ nsize * 2 ^ fuel) :
    ∃ r, growLoop offset needed (fuel + 1) nsize (nsize - offset) = some r ∧
      offset + needed ≤ r ∧ nsize ≤ r ∧ r ≤ limit := by
  -- by induction on the rounds that are left, in which `nsize` can double up to the room
  induction fuel generalizing nsize with
  | zero =>
      rw [growLoop, if_neg (by omega)]
      exact ⟨nsize, rfl, by omega, le_refl _, hsize⟩
  | succ fuel ih =>
      rw [growLoop]
      split_ifs with h h0
      · omega
      · have hmod : nsize * 2 % 2 ^ 64 = nsize * 2 := Nat.mod_eq_of_lt (by omega)
        have havail : (nsize * 2 + 2 ^ 64 - offset) % 2 ^ 64 = nsize * 2 - offset := by omega
        simp only [hmod, havail]
        obtain ⟨r, hr, hroom, hge, hle⟩ := ih (show 0 < nsize * 2 by omega) (by omega) (by omega)
          (by rw [Nat.mul_assoc, ← Nat.pow_succ']; exact hfuel)
        exact ⟨r, hr, hroom, by omega, hle⟩
      · exact ⟨nsize, rfl, by omega, le_refl _, hsize⟩

/-- A longer buffer has its length. -/
@[simp] theorem length_reallocBytes (junk : ℕ → UInt8) {buf : Bytes} {size : ℕ} (h : buf.length ≤ size) :
    (reallocBytes junk buf size).length = size := by
  simp only [reallocBytes, List.length_append, List.length_take, List.length_map, List.length_drop,
    List.length_range]
  omega

/-- A longer buffer begins with the old one. -/
theorem prefix_reallocBytes (junk : ℕ → UInt8) {buf : Bytes} {size : ℕ} (h : buf.length ≤ size) :
    buf <+: reallocBytes junk buf size := by
  rw [reallocBytes, List.take_of_length_le h]
  exact List.prefix_append _ _

/-- **`grow_stats_buf` leaves the room that it is asked for**, and the text. -/
theorem growStatsBuf_spec {limit : ℕ} {out : Bytes} {st : StatsBuffer} {needed : ℕ}
    (junk : ℕ → UInt8) (h : st.Between limit out) (hlow : 2048 ≤ limit) (hlimit : limit ≤ 2 ^ 63)
    (hpos : 0 < needed) (hneeded : 2 * (out.length + needed) ≤ limit + 1) :
    ∃ grown, growStatsBuf junk st needed = some grown ∧ grown.Holds limit out ∧
      grown.offset + needed ≤ grown.size := by
  -- without a buffer the loop starts from 1024 bytes, and doubles them at least once
  rcases h with ⟨hnull, rfl⟩ | h
  · rw [List.length_nil, Nat.zero_add] at hneeded
    obtain ⟨r, hr, hroom, hge, hle⟩ := growLoop_eq_some hlimit
      (show 2 * (0 + needed) ≤ limit + 1 by omega) 64 (show 0 < 2048 by norm_num) (by omega) hlow
      (by omega)
    have hloop : growLoop 0 needed growFuel 1024 0 = some r := by
      rw [growFuel, growLoop, if_pos hpos, if_neg (by norm_num)]
      exact hr
    have hr0 : 0 < r := by omega
    refine ⟨⟨some (reallocBytes junk [] r), r, 0⟩, ?_, ⟨⟨_, rfl, ?_, ?_⟩, rfl, hr0, hle⟩,
      by simpa using hroom⟩
    · simp [growStatsBuf, hnull, hloop, hr0.ne']
    · exact length_reallocBytes junk (by simp)
    · exact List.nil_prefix
  -- the buffer is there, so the loop starts from its size
  · obtain ⟨buf, hbuf, hlen, hpre⟩ := h.buffer
    have hne : st.buffer ≠ none := by simp [hbuf]
    have hoff := h.offset_le
    have hsize := h.size
    have havail : (st.size + 2 ^ 64 - st.offset) % 2 ^ 64 = st.size - st.offset := by omega
    rw [← h.offset] at hneeded
    have hpow : st.offset + needed ≤ st.size * 2 ^ 65 :=
      le_trans (show st.offset + needed ≤ 2 ^ 65 by omega) (Nat.le_mul_of_pos_left _ h.pos)
    obtain ⟨r, hr, hroom, hge, hle⟩ := growLoop_eq_some hlimit hneeded 65 h.pos hoff hsize hpow
    have hloop : growLoop st.offset needed growFuel st.size ((st.size + 2 ^ 64 - st.offset) % 2 ^ 64) =
        some r := by
      rw [havail]
      exact hr
    simp only [growStatsBuf, if_neg hne, hloop]
    by_cases hgrown : r = st.size
    · subst hgrown
      exact ⟨⟨st.buffer, st.size, st.offset⟩, if_neg (by simp), h, hroom⟩
    · refine ⟨⟨some (reallocBytes junk buf r), r, st.offset⟩, ?_, ⟨⟨_, rfl, ?_, ?_⟩, h.offset, ?_, hle⟩,
        hroom⟩
      · rw [if_pos hgrown, hbuf]
        rfl
      · exact length_reallocBytes junk (by omega)
      · exact hpre.trans (prefix_reallocBytes junk (by omega))
      · exact lt_of_lt_of_le h.pos hge

/-! ## Appending a record -/

/-- A number in network order has its length. -/
@[simp] theorem length_hton (k n : ℕ) : (hton k n).length = k := by
  induction k generalizing n with
  | zero => rfl
  | succ k ih => rw [hton, List.length_append, ih, List.length_singleton]

/-- A header has 24 bytes. -/
@[simp] theorem length_binStatsHeader (opaqueId klen bodylen : ℕ) :
    (binStatsHeader opaqueId klen bodylen).length = 24 := by
  simp [binStatsHeader]

/-- A record is in the buffer behind the others. -/
theorem StatsBuffer.Holds.append {limit : ℕ} {out bytes buf' : Bytes} {st : StatsBuffer}
    (h : st.Holds limit out) (hlimit : limit ≤ 2 ^ 63) (hlen : buf'.length = st.size)
    (hpre : out ++ bytes <+: buf') :
    StatsBuffer.Holds limit (out ++ bytes)
      ⟨some buf', st.size, (st.offset + bytes.length) % 2 ^ 64⟩ := by
  have hle := hpre.length_le
  have hsize := h.size
  rw [List.length_append, hlen] at hle
  refine ⟨⟨buf', rfl, hlen, hpre⟩, ?_, h.pos, h.size⟩
  rw [h.offset, List.length_append, Nat.mod_eq_of_lt (by omega)]

/-- **`append_bin_stats`** puts one packet behind the others. -/
theorem appendBinStats_spec {limit : ℕ} {out : Bytes} {st : StatsBuffer} (opaqueId : ℕ)
    {key val : Bytes} (h : st.Holds limit out) (hlimit : limit ≤ 2 ^ 63)
    (hkey : key = [] → val = []) (hbody : key.length + val.length < 2 ^ 32)
    (hroom : st.offset + (24 + (key.length + val.length)) ≤ st.size) :
    ∃ st', appendBinStats opaqueId key key.length val val.length st = some st' ∧
      st'.Holds limit
        (out ++ (binStatsHeader opaqueId key.length (key.length + val.length) ++ key ++ val)) := by
  obtain ⟨buf, hbuf, hlen, hpre⟩ := h.buffer
  have hoff := h.offset
  have hmod : (key.length + val.length) % 2 ^ 32 = key.length + val.length := Nat.mod_eq_of_lt hbody
  set header := binStatsHeader opaqueId key.length (key.length + val.length) with hheader
  have hheaderLen : header.length = 24 := length_binStatsHeader _ _ _
  obtain ⟨buf₁, hbuf₁, hlen₁, hpre₁⟩ := Buffer.write_append hpre
    (show out.length + header.length ≤ buf.length by omega)
  have hbytes : (24 + (key.length + val.length)) = (header ++ key ++ val).length := by
    simp only [List.length_append, hheaderLen]
    omega
  have hout₁ : (out ++ header).length = st.offset + 24 := by
    rw [List.length_append, hheaderLen, hoff]
  obtain ⟨buf₂, hbuf₂, hlen₂, hpre₂⟩ := Buffer.write_append hpre₁
    (show (out ++ header).length + key.length ≤ buf₁.length by omega)
  have hout₂ : (out ++ header ++ key).length = st.offset + 24 + key.length := by
    rw [List.length_append, hout₁]
  obtain ⟨buf₃, hbuf₃, hlen₃, hpre₃⟩ := Buffer.write_append hpre₂
    (show (out ++ header ++ key).length + val.length ≤ buf₂.length by omega)
  rw [← hoff] at hbuf₁
  rw [hout₁] at hbuf₂
  rw [hout₂] at hbuf₃
  rw [appendBinStats, hbuf, hmod]
  simp only [← hheader, hbuf₁, List.take_length, hbytes, Option.bind_eq_bind, Option.bind_some]
  by_cases hk : key = []
  · obtain rfl := hkey hk
    subst hk
    refine ⟨⟨some buf₁, st.size, (st.offset + (header ++ [] ++ []).length) % 2 ^ 64⟩, by simp, ?_⟩
    exact h.append hlimit (hlen₁.trans hlen) (by simpa using hpre₁)
  · have hklen : 0 < key.length := List.length_pos_of_ne_nil hk
    simp only [hklen, true_and, if_true, hbuf₂, Option.bind_some]
    by_cases hv : val = []
    · subst hv
      refine ⟨⟨some buf₂, st.size, (st.offset + (header ++ key ++ []).length) % 2 ^ 64⟩, by simp, ?_⟩
      exact h.append hlimit ((hlen₂.trans hlen₁).trans hlen) (by simpa [List.append_assoc] using hpre₂)
    · have hvlen : 0 < val.length := List.length_pos_of_ne_nil hv
      simp only [hvlen, if_true, hbuf₃, Option.bind_some]
      exact ⟨_, rfl, h.append hlimit (((hlen₃.trans hlen₂).trans hlen₁).trans hlen)
        (by simpa [List.append_assoc] using hpre₃)⟩

/-- A text without NUL is its own C string. -/
theorem cstr_eq_self {str : Bytes} (h : 0 ∉ str) : cstr str = str :=
  List.takeWhile_eq_self_iff.mpr fun c hc => by
    rw [decide_eq_true_iff]
    rintro rfl
    exact h hc

/-- What is printed for a record, at most nine bytes more than its key and value. -/
theorem asciiStat_eq {protocol : Protocol} (hp : protocol ≠ .binary) (opaqueId : ℕ) {r : StatsRecord}
    (hr : r = .terminal ∨ r.Sound protocol) :
    asciiStat r.key r.key.length r.val r.val.length = encodeStat protocol opaqueId r ∧
      (encodeStat protocol opaqueId r).length + 2 ≤ r.val.length + r.key.length + 10 := by
  rcases hr with rfl | hr
  · have henc : encodeStat protocol opaqueId .terminal = ascii "END\r\n" := by
      rw [encodeStat, if_neg hp, if_pos rfl]
    rw [henc]
    exact ⟨by simp [asciiStat, StatsRecord.terminal], by decide⟩
  · have hkey := hr.key_ne_nil
    have hklen : r.key.length ≠ 0 := by simpa using hkey
    have hterm : r ≠ .terminal := by
      rintro rfl
      exact hkey rfl
    have hstat : (ascii "STAT ").length = 5 := by decide
    have hcrlf : crlf.length = 2 := rfl
    rw [asciiStat, encodeStat, if_neg hp, if_neg hterm, if_neg fun h => hklen h.1,
      cstr_eq_self (hr.key_line hp).1, cstr_eq_self (hr.val_line hp).1]
    by_cases hv : r.val = []
    · rw [hv, if_pos List.length_nil, if_pos rfl, List.append_nil]
      simp only [List.length_append, hstat, hcrlf, List.length_nil]
      exact ⟨trivial, by omega⟩
    · rw [if_neg (by simpa using hv), if_neg hv]
      simp only [List.length_append, List.length_singleton, hstat, hcrlf, List.append_assoc, true_and]
      omega

/-- **`append_ascii_stats`** puts one line behind the others. -/
theorem appendAsciiStats_spec {limit : ℕ} {out : Bytes} {st : StatsBuffer} {key val : Bytes}
    (h : st.Holds limit out) (hlimit : limit < 2 ^ 31)
    (hroom : st.offset + ((asciiStat key key.length val val.length).length + 2) ≤ st.size) :
    ∃ st', appendAsciiStats key key.length val val.length st = some st' ∧
      st'.Holds limit (out ++ asciiStat key key.length val val.length) := by
  obtain ⟨buf, hbuf, hlen, hpre⟩ := h.buffer
  have hoff := h.offset
  have hsize := h.size
  have hremaining : toInt32 ((st.size : ℤ) - st.offset) = (st.size : ℤ) - st.offset :=
    CNumber.toInt32_of_bounds (by omega) (by omega)
  have hint : toInt32 ((st.size : ℤ) - st.offset - 1) = (st.size : ℤ) - st.offset - 1 :=
    CNumber.toInt32_of_bounds (by omega) (by omega)
  have hnat : (((st.size : ℤ) - st.offset - 1) % 2 ^ 64).toNat = st.size - st.offset - 1 := by omega
  set text := asciiStat key key.length val val.length with htext
  obtain ⟨buf', hbuf', hlen', hpre'⟩ := Buffer.snprintf_append hpre
    (show text.length < st.size - st.offset - 1 by omega) (by omega)
  rw [← hoff] at hbuf'
  have hnbytes : text.length % 2 ^ 32 = text.length := Nat.mod_eq_of_lt (by omega)
  refine ⟨⟨some buf', st.size, (st.offset + text.length) % 2 ^ 64⟩, ?_, ?_⟩
  · simp only [appendAsciiStats, hbuf, hremaining, hint, hnat, ← htext, hbuf', hnbytes,
      Option.bind_eq_bind, Option.bind_some]
  · refine h.append (by omega) (hlen'.trans hlen) ?_
    rw [← List.append_assoc] at hpre'
    exact (List.prefix_append _ _).trans hpre'

/-! ## The run -/

/-- The longest reply whose buffer the integer types can describe: the room that `append_ascii_stats`
passes on is an `int`. -/
def statsReplyMax (protocol : Protocol) : ℕ := if protocol = .binary then 2 ^ 62 else 2 ^ 30

/-- What `append_stats` asks for is what the record takes, or a little more. -/
theorem statsNeeded_spec {protocol : Protocol} (opaqueId : ℕ) {r : StatsRecord}
    (hr : r = .terminal ∨ r.Sound protocol) (hlen : (encodeStat protocol opaqueId r).length ≤ 2 ^ 31 ∨
      protocol = .binary) :
    (encodeStat protocol opaqueId r).length ≤ statsNeeded protocol r.key.length r.val.length ∧
      statsNeeded protocol r.key.length r.val.length ≤ (encodeStat protocol opaqueId r).length + 5 ∧
      (protocol ≠ .binary → statsNeeded protocol r.key.length r.val.length =
        r.val.length + r.key.length + 10) := by
  by_cases hp : protocol = .binary
  · have hbody : r.key.length + r.val.length < 2 ^ 32 := by
      rcases hr with rfl | hr
      · decide
      · exact hr.bodylen hp
    rw [statsNeeded, encodeStat, if_pos hp, if_pos hp, Nat.mod_eq_of_lt (by omega)]
    simp only [List.length_append, length_binStatsHeader]
    exact ⟨by omega, by omega, fun h => absurd hp h⟩
  · have hlen' := hlen.resolve_right hp
    have hwritten := (asciiStat_eq hp opaqueId hr).2
    have hback : r.val.length + r.key.length + 10 ≤ (encodeStat protocol opaqueId r).length + 5 := by
      rcases hr with rfl | hr
      · rw [encodeStat, if_neg hp, if_pos rfl]
        decide
      · have hterm : r ≠ .terminal := by
          rintro rfl
          exact hr.key_ne_nil rfl
        have hstat : (ascii "STAT ").length = 5 := by decide
        rw [encodeStat, if_neg hp, if_neg hterm]
        by_cases hv : r.val = []
        · rw [hv, if_pos rfl]
          simp only [List.length_append, List.length_nil, hstat]
          have hcrlf : crlf.length = 2 := rfl
          omega
        · rw [if_neg hv]
          simp only [List.length_append, List.length_singleton, hstat]
          omega
    rw [statsNeeded, if_neg hp, Nat.mod_eq_of_lt (by omega)]
    exact ⟨by omega, hback, fun _ => rfl⟩

/-- No record is written as nothing. -/
theorem length_encodeStat_pos (protocol : Protocol) (opaqueId : ℕ) (r : StatsRecord) :
    0 < (encodeStat protocol opaqueId r).length := by
  rw [encodeStat]
  by_cases hp : protocol = .binary
  · rw [if_pos hp]
    simp only [List.length_append, length_binStatsHeader]
    omega
  · rw [if_neg hp]
    by_cases hr : r = .terminal
    · rw [if_pos hr]
      decide
    · have hcrlf : crlf.length = 2 := rfl
      rw [if_neg hr]
      simp only [List.length_append, hcrlf]
      omega

/-- **One record**: there is room for it, and it is appended in full. -/
theorem appendStats_spec {protocol : Protocol} (opaqueId : ℕ) (junk : ℕ → UInt8) {out : Bytes}
    {st : StatsBuffer} {r : StatsRecord} (h : st.Between (2 * statsReplyMax protocol - 1) out)
    (hr : r = .terminal ∨ r.Sound protocol)
    (hmax : out.length + (encodeStat protocol opaqueId r).length + 5 ≤ statsReplyMax protocol) :
    ∃ grown st', growStatsBuf junk st (statsNeeded protocol r.key.length r.val.length) = some grown ∧
      grown.offset + statsNeeded protocol r.key.length r.val.length ≤ grown.size ∧
      grown.offset + (encodeStat protocol opaqueId r).length ≤ grown.size ∧
      appendStats protocol opaqueId junk st r = some st' ∧
      st'.Holds (2 * statsReplyMax protocol - 1) (out ++ encodeStat protocol opaqueId r) := by
  have hmaxle : statsReplyMax protocol ≤ 2 ^ 62 ∧ 2 ^ 30 ≤ statsReplyMax protocol := by
    unfold statsReplyMax
    split_ifs <;> norm_num
  have hsmall : (encodeStat protocol opaqueId r).length ≤ 2 ^ 31 ∨ protocol = .binary := by
    by_cases hp : protocol = .binary
    · exact .inr hp
    · rw [statsReplyMax, if_neg hp] at hmax
      exact .inl (by omega)
  obtain ⟨hge, hle, hascii⟩ := statsNeeded_spec opaqueId hr hsmall
  have hpos : 0 < statsNeeded protocol r.key.length r.val.length :=
    lt_of_lt_of_le (length_encodeStat_pos protocol opaqueId r) hge
  obtain ⟨grown, hgrown, hholds, hroom⟩ := growStatsBuf_spec junk h (by omega) (by omega) hpos (by omega)
  have hvalid : ¬ (r.key.length = 0 ∧ 0 < r.val.length) := by
    rcases hr with rfl | hr
    · decide
    · exact fun hk => hr.key_ne_nil (List.length_eq_zero_iff.mp hk.1)
  have happend : ∃ st', (if protocol = .binary then
        appendBinStats opaqueId r.key r.key.length r.val r.val.length grown
      else appendAsciiStats r.key r.key.length r.val r.val.length grown) = some st' ∧
      st'.Holds (2 * statsReplyMax protocol - 1) (out ++ encodeStat protocol opaqueId r) := by
    by_cases hp : protocol = .binary
    · have hbody : r.key.length + r.val.length < 2 ^ 32 := by
        rcases hr with rfl | hr
        · decide
        · exact hr.bodylen hp
      have hkey : r.key = [] → r.val = [] := by
        rcases hr with rfl | hr
        · exact fun _ => rfl
        · exact fun hk => absurd hk hr.key_ne_nil
      have hroom' : grown.offset + (24 + (r.key.length + r.val.length)) ≤ grown.size := by
        rw [statsNeeded, if_pos hp, Nat.mod_eq_of_lt (by omega)] at hroom
        omega
      rw [if_pos hp, encodeStat, if_pos hp]
      exact appendBinStats_spec opaqueId hholds (by omega) hkey hbody hroom'
    · obtain ⟨heq, hwritten⟩ := asciiStat_eq hp opaqueId hr
      have hmax31 : 2 * statsReplyMax protocol - 1 < 2 ^ 31 := by
        rw [statsReplyMax, if_neg hp]
        norm_num
      rw [if_neg hp, ← heq]
      refine appendAsciiStats_spec hholds hmax31 ?_
      rw [heq]
      have := hascii hp
      omega
  obtain ⟨st', hst', hholds'⟩ := happend
  refine ⟨grown, st', hgrown, hroom, by omega, ?_, hholds'⟩
  by_cases hp : protocol = .binary
  · rw [if_pos hp] at hst'
    simp only [appendStats, if_neg hvalid, hgrown, if_pos hp, hst', Option.bind_eq_bind, Option.bind_some]
    rw [if_pos hholds'.offset_le]
  · rw [if_neg hp] at hst'
    simp only [appendStats, if_neg hvalid, hgrown, if_neg hp, hst', Option.bind_eq_bind, Option.bind_some]
    rw [if_pos hholds'.offset_le]

/-- The last record is appended last. -/
theorem appendAll_snoc (protocol : Protocol) (opaqueId : ℕ) (junk : ℕ → UInt8) (size offset : ℕ)
    (pre : List StatsRecord) (r : StatsRecord) :
    appendAll protocol opaqueId junk size offset (pre ++ [r]) =
      (appendAll protocol opaqueId junk size offset pre).bind
        fun st => appendStats protocol opaqueId junk st r := by
  simp [appendAll, List.foldlM_append]

/-- **Some records**: what has been appended is in the buffer. -/
theorem appendAll_spec {protocol : Protocol} (opaqueId : ℕ) (junk : ℕ → UInt8) (size offset : ℕ)
    (pre : List StatsRecord) (hr : ∀ r ∈ pre, r = .terminal ∨ r.Sound protocol)
    (hmax : (pre.flatMap (encodeStat protocol opaqueId)).length + 5 ≤ statsReplyMax protocol) :
    ∃ st, appendAll protocol opaqueId junk size offset pre = some st ∧
      st.Between (2 * statsReplyMax protocol - 1) (pre.flatMap (encodeStat protocol opaqueId)) ∧
      (pre ≠ [] → st.buffer ≠ none) := by
  -- by induction on the calls from the last one; `Between` is the invariant
  induction pre using List.reverseRecOn with
  | nil => exact ⟨⟨none, size, offset⟩, rfl, .inl ⟨rfl, rfl⟩, fun h => absurd rfl h⟩
  | append_singleton pre r ih =>
      rw [List.flatMap_append, List.flatMap_singleton] at hmax ⊢
      rw [List.length_append] at hmax
      obtain ⟨st, hst, hbetween, -⟩ := ih (fun r' hr' => hr r' (List.mem_append_left _ hr')) (by omega)
      obtain ⟨_, st', -, -, -, hst', hholds⟩ :=
        appendStats_spec opaqueId junk hbetween (hr r (by simp)) (by omega)
      refine ⟨st', ?_, .inr hholds, fun _ hnull => ?_⟩
      · rw [appendAll_snoc, hst]
        exact hst'
      · obtain ⟨buf, hbuf, -⟩ := hholds.buffer
        simp [hbuf] at hnull

/-! ## What a client reads -/

/-- A number in network order, with one more byte. -/
theorem ntoh_append (bs : Bytes) (b : UInt8) : ntoh (bs ++ [b]) = ntoh bs * 256 + b.toNat := by
  simp [ntoh]

/-- A number is read back, modulo its length. -/
theorem ntoh_hton (k n : ℕ) : ntoh (hton k n) = n % 256 ^ k := by
  induction k generalizing n with
  | zero => simp [hton, ntoh, Nat.mod_one]
  | succ k ih =>
      rw [hton, ntoh_append, ih, pow_succ', Nat.mod_mul, UInt8.toNat_ofNat']
      ring

/-- A packet is read back. -/
theorem decodeStats_binary (opaqueId : ℕ) (fuel : ℕ) {r : StatsRecord} (rest : Bytes)
    (hr : r.Sound .binary) :
    decodeStats .binary (fuel + 1) (encodeStat .binary opaqueId r ++ rest) =
      (decodeStats .binary fuel rest).map (r :: ·) := by
  obtain ⟨key, val⟩ := r
  have hbody := hr.bodylen rfl
  have hklen := hr.klen
  have hkey := hr.key_ne_nil
  simp only at hbody hklen hkey
  have hcut : encodeStat .binary opaqueId ⟨key, val⟩ ++ rest =
      [0x81, 0x10] ++ (hton 2 key.length ++ ([0, 0, 0, 0] ++ (hton 4 (key.length + val.length) ++
        (hton 4 opaqueId ++ [0, 0, 0, 0, 0, 0, 0, 0] ++ (key ++ (val ++ rest)))))) := by
    simp [encodeStat, binStatsHeader]
  have hklen' : ntoh (((encodeStat .binary opaqueId ⟨key, val⟩ ++ rest).drop 2).take 2) = key.length := by
    rw [hcut, List.drop_left' (by rfl), List.take_left' (by simp), ntoh_hton,
      Nat.mod_eq_of_lt (by simpa using hklen)]
  have hbody' : ntoh (((encodeStat .binary opaqueId ⟨key, val⟩ ++ rest).drop 8).take 4) =
      key.length + val.length := by
    rw [hcut, ← List.append_assoc, ← List.append_assoc, List.drop_left' (by simp),
      List.take_left' (by simp), ntoh_hton, Nat.mod_eq_of_lt (by simpa using hbody)]
  have hheader : (binStatsHeader opaqueId key.length (key.length + val.length)).length = 24 :=
    length_binStatsHeader _ _ _
  have hsplit : encodeStat .binary opaqueId ⟨key, val⟩ ++ rest =
      binStatsHeader opaqueId key.length (key.length + val.length) ++ (key ++ (val ++ rest)) := by
    simp [encodeStat]
  have hkeyAt : ((encodeStat .binary opaqueId ⟨key, val⟩ ++ rest).drop 24).take key.length = key := by
    rw [hsplit, List.drop_left' hheader, List.take_left]
  have hvalAt : ((encodeStat .binary opaqueId ⟨key, val⟩ ++ rest).drop (24 + key.length)).take
      val.length = val := by
    rw [hsplit, ← List.append_assoc, List.drop_left' (by rw [List.length_append, hheader]),
      List.take_left]
  have hrest : (encodeStat .binary opaqueId ⟨key, val⟩ ++ rest).drop
      (24 + (key.length + val.length)) = rest := by
    rw [hsplit, ← List.append_assoc, ← List.append_assoc,
      List.drop_left' (by simp only [List.length_append, hheader]; omega)]
  rw [decodeStats, if_pos rfl]
  simp only [hklen', hbody']
  rw [if_neg fun h => hkey (List.length_eq_zero_iff.mp h.1), Nat.add_sub_cancel_left, hkeyAt, hvalAt,
    hrest]

/-- A line is read back. -/
theorem decodeStats_ascii {protocol : Protocol} (hp : protocol ≠ .binary) (opaqueId : ℕ) (fuel : ℕ)
    {r : StatsRecord} (rest : Bytes) (hr : r.Sound protocol) :
    decodeStats protocol (fuel + 1) (encodeStat protocol opaqueId r ++ rest) =
      (decodeStats protocol fuel rest).map (r :: ·) := by
  obtain ⟨key, val⟩ := r
  obtain ⟨hk0, hk32, hk13⟩ := hr.key_line hp
  obtain ⟨hv0, hv13⟩ := hr.val_line hp
  have hkey := hr.key_ne_nil
  simp only at hk0 hk32 hk13 hv0 hv13 hkey
  have hterm : (⟨key, val⟩ : StatsRecord) ≠ .terminal := by
    rintro ⟨⟩
    exact hkey rfl
  -- the blank and the value, if there is one
  obtain ⟨tail, htail⟩ : ∃ tail, tail = if val = [] then [] else [32] ++ val := ⟨_, rfl⟩
  have htail13 : 13 ∉ tail := by
    rw [htail]
    split_ifs <;> simp [hv13]
  have hline : (encodeStat protocol opaqueId ⟨key, val⟩ ++ rest).takeWhile (· ≠ 13) =
      ascii "STAT " ++ (key ++ tail) := by
    have hstat13 : 13 ∉ ascii "STAT " := by decide
    have hno : ∀ c ∈ ascii "STAT " ++ (key ++ tail), decide (c ≠ 13) = true := by
      intro c hc
      rw [decide_eq_true_iff]
      rintro rfl
      simp only [List.mem_append] at hc
      rcases hc with hc | hc | hc
      · exact hstat13 hc
      · exact hk13 hc
      · exact htail13 hc
    have hcut : encodeStat protocol opaqueId ⟨key, val⟩ ++ rest =
        (ascii "STAT " ++ (key ++ tail)) ++ (13 :: 10 :: rest) := by
      simp [encodeStat, hp, hterm, htail, crlf]
    rw [hcut, List.takeWhile_append_of_pos hno]
    simp
  have hrest : (encodeStat protocol opaqueId ⟨key, val⟩ ++ rest).drop
      ((ascii "STAT " ++ (key ++ tail)).length + 2) = rest := by
    have hcut : encodeStat protocol opaqueId ⟨key, val⟩ ++ rest =
        (ascii "STAT " ++ (key ++ tail) ++ crlf) ++ rest := by
      simp [encodeStat, hp, hterm, htail]
    have hlen : (ascii "STAT " ++ (key ++ tail) ++ crlf).length =
        (ascii "STAT " ++ (key ++ tail)).length + 2 := by
      rw [List.length_append]
      rfl
    rw [hcut, List.drop_left' hlen]
  have hstat : (ascii "STAT ").length = 5 := by decide
  have hend : ascii "STAT " ++ (key ++ tail) ≠ ascii "END" := by
    intro h
    have := congrArg List.length h
    rw [List.length_append, hstat] at this
    have h3 : (ascii "END").length = 3 := by decide
    omega
  have hkeyWhile : ∀ c ∈ key, decide (c ≠ 32) = true := by
    intro c hc
    rw [decide_eq_true_iff]
    rintro rfl
    exact hk32 hc
  have htakeTail : tail.takeWhile (fun c => decide (c ≠ 32)) = [] := by
    rw [htail]
    split_ifs <;> simp
  have hdropTail : (tail.dropWhile (fun c => decide (c ≠ 32))).drop 1 = val := by
    rw [htail]
    split_ifs with hv
    · simp [hv]
    · simp
  rw [decodeStats, if_neg hp]
  simp only [hline]
  rw [if_neg hend, if_pos (List.take_left' hstat), hrest, List.drop_left' hstat,
    List.takeWhile_append_of_pos hkeyWhile, List.dropWhile_append_of_pos hkeyWhile, htakeTail,
    hdropTail, List.append_nil]

/-- The last record ends the reading. -/
theorem decodeStats_terminal (protocol : Protocol) (opaqueId : ℕ) (fuel : ℕ) :
    decodeStats protocol (fuel + 1) (encodeStat protocol opaqueId .terminal) = some [] := by
  by_cases hp : protocol = .binary
  · subst hp
    have hk : ntoh (((encodeStat .binary opaqueId .terminal).drop 2).take 2) = 0 := by
      simp [encodeStat, binStatsHeader, StatsRecord.terminal, hton, ntoh]
    have hb : ntoh (((encodeStat .binary opaqueId .terminal).drop 8).take 4) = 0 := by
      simp [encodeStat, binStatsHeader, StatsRecord.terminal, hton, ntoh]
    rw [decodeStats, if_pos rfl]
    simp only [hk, hb]
    rfl
  · have henc : encodeStat protocol opaqueId .terminal = ascii "END\r\n" := by
      rw [encodeStat, if_neg hp, if_pos rfl]
    have hline : (ascii "END\r\n").takeWhile (· ≠ 13) = ascii "END" := by decide
    rw [decodeStats, if_neg hp, henc]
    simp only [hline, if_true]

/-- **A client reads the records back.** -/
theorem decodeStats_encodeStats {protocol : Protocol} (opaqueId : ℕ) (records : List StatsRecord)
    (hr : ∀ r ∈ records, r.Sound protocol) {fuel : ℕ} (hfuel : records.length < fuel) :
    decodeStats protocol fuel (encodeStats protocol opaqueId records) = some records := by
  -- by induction on the records: a reader takes one off the front
  induction records generalizing fuel with
  | nil =>
      obtain ⟨fuel, rfl⟩ := Nat.exists_eq_add_of_lt hfuel
      simpa [encodeStats] using decodeStats_terminal protocol opaqueId fuel
  | cons r records ih =>
      obtain ⟨fuel, rfl⟩ := Nat.exists_eq_succ_of_ne_zero (show fuel ≠ 0 by omega)
      have hcons : encodeStats protocol opaqueId (r :: records) =
          encodeStat protocol opaqueId r ++ encodeStats protocol opaqueId records := by
        simp [encodeStats]
      have hstep : decodeStats protocol (fuel + 1)
          (encodeStat protocol opaqueId r ++ encodeStats protocol opaqueId records) =
            (decodeStats protocol fuel (encodeStats protocol opaqueId records)).map (r :: ·) := by
        by_cases hp : protocol = .binary
        · subst hp
          exact decodeStats_binary opaqueId fuel _ (hr r List.mem_cons_self)
        · exact decodeStats_ascii hp opaqueId fuel _ (hr r List.mem_cons_self)
      rw [hcons, hstep, ih (fun r' hr' => hr r' (List.mem_cons_of_mem _ hr'))
        (by rw [List.length_cons] at hfuel; omega)]
      rfl

/-- A record takes a byte at least. -/
theorem length_le_encodeStats (protocol : Protocol) (opaqueId : ℕ) (records : List StatsRecord) :
    records.length < (encodeStats protocol opaqueId records).length := by
  induction records with
  | nil =>
      have := length_encodeStat_pos protocol opaqueId .terminal
      simpa [encodeStats] using this
  | cons r records ih =>
      have hcons : encodeStats protocol opaqueId (r :: records) =
          encodeStat protocol opaqueId r ++ encodeStats protocol opaqueId records := by
        simp [encodeStats]
      have hpos := length_encodeStat_pos protocol opaqueId r
      rw [hcons, List.length_append, List.length_cons]
      omega

/-- **The reply to a stats command**: there is room before each record, the offset stays within the
buffer, and the complete records and the terminator are what a client reads. -/
theorem faithfulReply (protocol : Protocol) (opaqueId : ℕ) (junk : ℕ → UInt8) (size offset : ℕ)
    (records : List StatsRecord) (hsound : ∀ r ∈ records, r.Sound protocol)
    (hmax : (encodeStats protocol opaqueId records).length + 5 ≤ statsReplyMax protocol) :
    FaithfulReply protocol opaqueId junk size offset records := by
  have hor : ∀ r ∈ records ++ [.terminal], r = .terminal ∨ r.Sound protocol := by
    intro r hr
    rcases List.mem_append.mp hr with hr | hr
    · exact .inr (hsound r hr)
    · exact .inl (List.mem_singleton.mp hr)
  constructor
  · intro pre r post hsplit
    have hlen : (encodeStats protocol opaqueId records).length =
        (pre.flatMap (encodeStat protocol opaqueId)).length +
          ((encodeStat protocol opaqueId r).length +
            (post.flatMap (encodeStat protocol opaqueId)).length) := by
      rw [encodeStats, hsplit, List.flatMap_append, List.flatMap_cons, List.length_append,
        List.length_append]
    have hmem : ∀ r' ∈ pre, r' = .terminal ∨ r'.Sound protocol := by
      intro r' hr'
      exact hor r' (by rw [hsplit]; exact List.mem_append_left _ hr')
    obtain ⟨st, hst, hbetween, -⟩ := appendAll_spec opaqueId junk size offset pre hmem (by omega)
    obtain ⟨grown, st', hgrown, hroom, hfits, hst', hholds⟩ := appendStats_spec opaqueId junk hbetween
      (hor r (by rw [hsplit]; simp)) (by omega)
    refine ⟨st, grown, st', hst, hgrown, hroom, hfits, ?_, hholds.offset_le⟩
    rw [appendAll_snoc, hst]
    exact hst'
  · obtain ⟨st, hst, hbetween, hbuffer⟩ :=
      appendAll_spec opaqueId junk size offset (records ++ [StatsRecord.terminal]) hor hmax
    have hholds := hbetween.resolve_left fun h => hbuffer (by simp) h.1
    obtain ⟨buf, hbuf, hlen, hpre⟩ := hholds.buffer
    have htake : buf.take st.offset = encodeStats protocol opaqueId records := by
      rw [hholds.offset]
      exact Buffer.take_of_prefix hpre
    refine ⟨st, buf, hst, hbuf, hlen, hholds.offset_le, htake, ?_⟩
    rw [htake]
    exact decodeStats_encodeStats opaqueId records hsound (length_le_encodeStats _ _ _)

/-- Two records, in ASCII. -/
theorem faithfulReply_ascii :
    FaithfulReply .ascii 0 (fun _ => 0) 0 0 [⟨[112], [49]⟩, ⟨[113], []⟩] :=
  faithfulReply .ascii 0 (fun _ => 0) 0 0 [⟨[112], [49]⟩, ⟨[113], []⟩]
    (by
      intro r hr
      rcases List.mem_cons.mp hr with rfl | hr
      · exact ⟨by decide, by decide, by decide, by decide, by decide⟩
      · rw [List.mem_singleton.mp hr]
        exact ⟨by decide, by decide, by decide, by decide, by decide⟩)
    (by decide)

/-- A value without a key is left out. -/
theorem appendAll_invalid (protocol : Protocol) (opaqueId : ℕ) (junk : ℕ → UInt8) (size offset : ℕ)
    {r : StatsRecord} (hkey : r.key = []) (hval : r.val ≠ []) (records : List StatsRecord) :
    appendAll protocol opaqueId junk size offset (r :: records) =
      appendAll protocol opaqueId junk size offset records := by
  have hskip : r.key.length = 0 ∧ 0 < r.val.length :=
    ⟨by rw [hkey]; rfl, List.length_pos_of_ne_nil hval⟩
  rw [appendAll, List.foldlM_cons, appendStats, if_pos hskip]
  rfl

/-- The lengths of a key and a value that add up to 2 ^ 32 are taken for 0: the value does not fit. -/
theorem appendAll_overflow (junk : ℕ → UInt8) {r : StatsRecord} (hkey : r.key.length = 1)
    (hval : r.val.length = 2 ^ 32 - 1) (records : List StatsRecord) :
    appendAll .binary 0 junk 0 0 (r :: records) = none := by
  have hgrow : growStatsBuf junk ⟨none, 0, 0⟩ 24 = some ⟨some (reallocBytes junk [] 2048), 2048, 0⟩ := by
    rfl
  have hlen : (reallocBytes junk [] 2048).length = 2048 := length_reallocBytes junk (by simp)
  have happend : appendBinStats 0 r.key r.key.length r.val r.val.length
      ⟨some (reallocBytes junk [] 2048), 2048, 0⟩ = none := by
    rw [appendBinStats, hkey, hval]
    simp only [Option.bind_eq_bind, Option.bind_eq_none_iff]
    intro buf₁ h₁
    rw [if_pos (by norm_num), Option.bind_eq_none_iff]
    intro buf₂ h₂
    rw [if_pos (by norm_num), Option.bind_eq_none_iff]
    intro buf₃ h₃
    have hfit := (Buffer.length_of_write h₃).1
    have hlen₂ := (Buffer.length_of_write h₂).2
    have hlen₁ := (Buffer.length_of_write h₁).2
    rw [List.length_take, hval] at hfit
    omega
  have hneeded : statsNeeded .binary r.key.length r.val.length = 24 := by
    rw [statsNeeded, hkey, hval]
    rfl
  have hstep : appendStats .binary 0 junk ⟨none, 0, 0⟩ r = none := by
    rw [appendStats, if_neg (by rw [hkey]; norm_num), hneeded, hgrow]
    simp only [Option.bind_eq_bind, Option.bind_some, if_true, happend, Option.bind_none]
  rw [appendAll, List.foldlM_cons, hstep]
  rfl

/-- The replies that are not faithful: a value without a key is left out, a key may end its line, and
the sum of the lengths may wrap around. -/
theorem faithfulReply_limits :
    ¬ FaithfulReply .ascii 0 (fun _ => 0) 0 0 [⟨[], [49]⟩] ∧
      ¬ FaithfulReply .binary 0 (fun _ => 0) 0 0 [⟨[], [49]⟩] ∧
      ¬ FaithfulReply .ascii 0 (fun _ => 0) 0 0 [⟨[97, 13, 10, 69, 78, 68], [49]⟩] ∧
      ¬ FaithfulReply .binary 0 (fun _ => 0) 0 0 [⟨[107], List.replicate (2 ^ 32 - 1) 48⟩] := by
  have hdropped : ∀ protocol, ¬ FaithfulReply protocol 0 (fun _ => 0) 0 0 [⟨[], [49]⟩] := by
    intro protocol h
    obtain ⟨st, buf, hst, -, hlen, hle, htake, -⟩ := h.reply
    have hmax : ((([.terminal] : List StatsRecord).flatMap (encodeStat protocol 0)).length + 5) ≤
        statsReplyMax protocol := by
      cases protocol <;> decide
    obtain ⟨st', hst', hbetween, hbuffer⟩ := appendAll_spec 0 (fun _ => 0) 0 0 [.terminal]
      (fun r hr => .inl (List.mem_singleton.mp hr)) hmax
    have hskip : appendAll protocol 0 (fun _ => 0) 0 0 [⟨[], [49]⟩, .terminal] = some st' := by
      rw [appendAll_invalid _ _ _ _ _ rfl (by simp), hst']
    obtain rfl : st' = st := Option.some.inj (hskip.symm.trans hst)
    have hoff := (hbetween.resolve_left fun h => hbuffer (by simp) h.1).offset
    have hlong := congrArg List.length htake
    rw [List.length_take, min_eq_left (hlen ▸ hle), hoff] at hlong
    cases protocol <;> exact absurd hlong (by decide)
  refine ⟨hdropped .ascii, hdropped .binary, fun h => ?_, fun h => ?_⟩
  · obtain ⟨_, _, -, -, -, -, htake, hdecode⟩ := h.reply
    rw [htake] at hdecode
    exact absurd hdecode (by decide)
  · obtain ⟨st, _, hst, -⟩ := h.reply
    have hnone := appendAll_overflow (fun _ => 0)
      (r := ⟨[107], List.replicate (2 ^ 32 - 1) 48⟩) rfl List.length_replicate [.terminal]
    rw [List.singleton_append, hnone] at hst
    cases hst

end Memcached
