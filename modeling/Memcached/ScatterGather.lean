import Mathlib.Algebra.BigOperators.Group.List.Basic
import Mathlib.Data.List.Basic
import Mathlib.Tactic.Set
import Memcached.Lib.CNumber

/-! # Scatter-gather output

A response is a sequence of buffers that `add_iov` enters into the array `iov`, in messages of which
`msglist` holds the headers; `transmit` hands one message to `sendmsg` at a time. The messages point
into `iov`, which moves when it grows, and are UDP datagrams or pieces of a TCP stream.

* **`OutConn.addIov`**, **`OutConn.addMsghdr`** — the arrays as the handlers fill them.
* **`Holds`** — the messages point where they should.
* **`Packed`** — how the buffers are cut into messages.
* **`packed_respond`** — so they are after a whole response. -/

namespace Memcached

open CNumber (Bytes)

/-- `UDP_MAX_PAYLOAD_SIZE`. -/
def udpMaxPayloadSize : ℕ := 1400

/-- `UDP_HEADER_SIZE`. -/
def udpHeaderSize : ℕ := 8

/-- The part of a `struct msghdr` that is used: `msg_iov`, which points to entry `iovIndex` of
allocation `iovBlock`, and `msg_iovlen`. -/
structure Msghdr where
  iovBlock : ℕ
  iovIndex : ℕ
  msgIovlen : ℕ
  deriving DecidableEq, Repr

/-- The output of a connection. -/
structure OutConn where
  /-- `IS_UDP(c->transport)`. -/
  udp : Bool
  /-- `request_id`. -/
  requestId : ℕ
  /-- The bytes an entry of an allocation refers to. -/
  iovec : ℕ → ℕ → Bytes
  /-- The allocation `iov` points to. -/
  iov : ℕ
  iovsize : ℕ
  iovused : ℕ
  /-- `msglist[0 .. msgused)`. -/
  msglist : List Msghdr
  msgsize : ℕ
  msgcurr : ℕ
  msgbytes : ℕ

namespace OutConn

/-! ## Adding buffers -/

/-- Write an entry of an allocation. -/
def setIovec (f : ℕ → ℕ → Bytes) (block k : ℕ) (x : Bytes) : ℕ → ℕ → Bytes :=
  fun b i => if b = block ∧ i = k then x else f b i

/-- The loop of `ensure_iov_space` over the messages. -/
def pointMsghdrs (block : ℕ) : ℕ → List Msghdr → List Msghdr
  | _, [] => []
  | iovnum, m :: ms =>
      { m with iovBlock := block, iovIndex := iovnum }
        :: pointMsghdrs block (iovnum + m.msgIovlen) ms

/-- `ensure_iov_space`: the array moves to a new allocation, and the old one is gone. -/
def ensureIovSpace (c : OutConn) : OutConn :=
  if c.iovused ≥ c.iovsize then
    { c with
      iovec := fun b k =>
        if b = c.iov + 1 then if k < c.iovsize then c.iovec c.iov k else []
        else if b = c.iov then [] else c.iovec b k
      iov := c.iov + 1
      iovsize := c.iovsize * 2
      msglist := pointMsghdrs (c.iov + 1) 0 c.msglist }
  else c

/-- The end of a round of `add_iov`: the last message gets an entry for `buf`. -/
def storeIov (c : OutConn) (buf : Bytes) : OutConn :=
  match c.msglist.getLast? with
  | none => c
  | some m =>
      { c with
        iovec := setIovec c.iovec m.iovBlock (m.iovIndex + m.msgIovlen) buf
        msgbytes := c.msgbytes + buf.length
        iovused := c.iovused + 1
        msglist := c.msglist.dropLast ++ [{ m with msgIovlen := m.msgIovlen + 1 }] }

/-- What `add_iov(c, NULL, UDP_HEADER_SIZE)` leaves room for. -/
def headerRoom : Bytes := List.replicate udpHeaderSize 0

/-- `add_msghdr`. -/
def addMsghdr (c : OutConn) : OutConn :=
  let c : OutConn := if c.msgsize = c.msglist.length then { c with msgsize := c.msgsize * 2 } else c
  let c : OutConn := { c with msglist := c.msglist ++ [⟨c.iov, c.iovused, 0⟩], msgbytes := 0 }
  -- a round of `add_iov` that finds an empty message
  if c.udp then c.ensureIovSpace.storeIov headerRoom else c

/-- `limit_to_mtu`. -/
def limitToMtu (c : OutConn) : Bool := c.udp || c.msglist.length == 1

/-- The message is full, so that `add_iov` starts a new one. -/
def messageFull (iovMax : ℕ) (c : OutConn) : Bool :=
  (c.msglist.getLast?.any fun m => m.msgIovlen == iovMax) ||
    (c.limitToMtu && decide (c.msgbytes ≥ udpMaxPayloadSize))

/-- `leftover`, what does not fit of the buffer. -/
def leftover (limit : Bool) (c : OutConn) (buf : Bytes) : ℕ :=
  if limit && decide (buf.length + c.msgbytes > udpMaxPayloadSize) then
    buf.length + c.msgbytes - udpMaxPayloadSize
  else 0

/-- One round of the loop of `add_iov`, and what is left of the buffer. -/
def addIovRound (iovMax : ℕ) (c : OutConn) (buf : Bytes) : OutConn × Bytes :=
  let limit := c.limitToMtu
  let c := if c.messageFull iovMax then c.addMsghdr else c
  let c := c.ensureIovSpace
  let len := buf.length - c.leftover limit buf
  (c.storeIov (buf.take len), buf.drop len)

/-- The loop of `add_iov`. -/
def addIovLoop (iovMax : ℕ) : ℕ → OutConn → Bytes → OutConn
  | 0, c, _ => c
  | fuel + 1, c, buf =>
      let (c, rest) := c.addIovRound iovMax buf
      if rest.length > 0 then addIovLoop iovMax fuel c rest else c

/-- `add_iov`. -/
def addIov (iovMax : ℕ) (c : OutConn) (buf : Bytes) : OutConn :=
  addIovLoop iovMax (buf.length + 1) c buf

/-- A response: `msgcurr`, `msgused` and `iovused` are set to 0, a message is started and the buffers
are added. -/
def respond (iovMax : ℕ) (c : OutConn) (bufs : List Bytes) : OutConn :=
  bufs.foldl (addIov iovMax)
    ({ c with msgcurr := 0, msglist := [], iovused := 0 } : OutConn).addMsghdr

/-! ## Sending -/

/-- The header of datagram `i` of `total`. -/
def udpHeader (requestId i total : ℕ) : Bytes :=
  [requestId / 256, requestId % 256, i / 256, i % 256, total / 256, total % 256, 0, 0].map
    UInt8.ofNat

/-- The loop of `build_udp_headers`. -/
def writeHeaders (requestId total : ℕ) : ℕ → List Msghdr → (ℕ → ℕ → Bytes) → ℕ → ℕ → Bytes
  | _, [], f => f
  | i, m :: ms, f =>
      writeHeaders requestId total (i + 1) ms
        (setIovec f m.iovBlock m.iovIndex (udpHeader requestId i total))

/-- `build_udp_headers`. -/
def buildUdpHeaders (c : OutConn) : OutConn :=
  { c with iovec := writeHeaders c.requestId c.msglist.length 0 c.msglist c.iovec }

/-- What `l` entries refer to, from entry `n` on. -/
def entries (f : ℕ → Bytes) : ℕ → ℕ → List Bytes
  | _, 0 => []
  | n, l + 1 => f n :: entries f (n + 1) l

/-- The buffers of a message. -/
def message (c : OutConn) (m : Msghdr) : List Bytes :=
  entries (c.iovec m.iovBlock) m.iovIndex m.msgIovlen

/-- `enum transmit_result`. -/
inductive TransmitResult
  | complete
  | incomplete
  | softError
  | hardError
  deriving DecidableEq, Repr

/-- The loop of `transmit` over the entries that `res` bytes cover: `msg_iovlen`, the index of
`msg_iov` and `res` after it. -/
def skipIovs (f : ℕ → Bytes) : ℕ → ℕ → ℕ → ℕ × ℕ × ℕ
  | 0, k, res => (0, k, res)
  | n + 1, k, res =>
      if res ≥ (f k).length then skipIovs f n (k + 1) (res - (f k).length) else (n + 1, k, res)

/-- The start of `transmit`: a message that has been sent is left behind. -/
def advance (c : OutConn) : OutConn :=
  match c.msglist[c.msgcurr]? with
  | some m => if m.msgIovlen = 0 then { c with msgcurr := c.msgcurr + 1 } else c
  | none => c

/-- The part of `transmit` after `sendmsg` has taken `res` bytes of a message. -/
def consume (c : OutConn) (m : Msghdr) (res : ℕ) : OutConn :=
  let (iovlen, index, left) := skipIovs (c.iovec m.iovBlock) m.msgIovlen m.iovIndex res
  { c with
    msglist := c.msglist.set c.msgcurr ⟨m.iovBlock, index, iovlen⟩
    iovec :=
      if left > 0 then setIovec c.iovec m.iovBlock index ((c.iovec m.iovBlock index).drop left)
      else c.iovec }

/-- `transmit`, with the bytes sent. `res` is what `sendmsg` returns, `none` standing for
`EAGAIN` and `0` for any other error as well. -/
def transmit (c : OutConn) (res : Option ℕ) : OutConn × Bytes × TransmitResult :=
  let c := c.advance
  match c.msglist[c.msgcurr]? with
  | none => (c, [], .complete)
  | some m =>
      match res with
      | none => (c, [], .softError)
      | some 0 => (c, [], .hardError)
      | some (n + 1) =>
          (c.consume m (n + 1), (c.message m).flatten.take (n + 1), .incomplete)

/-- `conn_mwrite` before `transmit`. -/
def prepare (c : OutConn) : OutConn :=
  if c.udp && c.msgcurr == 0 then c.buildUdpHeaders else c

/-- What `sendmsg` may answer for a message: it may not take anything now, it takes at most
`iovMax` buffers and some of their bytes, and a datagram as a whole. -/
def SendmsgAnswer (iovMax : ℕ) (udp : Bool) (msg : List Bytes) : Option ℕ → Prop
  | none => True
  | some n =>
      if msg.length ≤ iovMax ∧ msg.flatten ≠ [] then
        0 < n ∧ n ≤ msg.flatten.length ∧ (udp = true → n = msg.flatten.length)
      else n = 0

/-- The answer to the call of `sendmsg` in `transmit`. -/
def Answer (iovMax : ℕ) (c : OutConn) (res : Option ℕ) : Prop :=
  ∀ m, c.advance.msglist[c.advance.msgcurr]? = some m →
    SendmsgAnswer iovMax c.udp (c.advance.message m) res

/-- A run of `conn_mwrite`: the answers of `sendmsg` with the bytes sent, and how it ended, `none` if
it has not. -/
inductive Transmits (iovMax : ℕ) :
    OutConn → List (Option ℕ × Bytes) → Option TransmitResult → OutConn → Prop
  | pending {c : OutConn} : Transmits iovMax c [] none c
  | step {c c' c'' : OutConn} {res : Option ℕ} {sent : Bytes} {r : TransmitResult}
      {es : List (Option ℕ × Bytes)} {o : Option TransmitResult}
      (h : c.prepare.Answer iovMax res) (e : c.prepare.transmit res = (c', sent, r))
      (hr : r = .incomplete ∨ r = .softError) (ht : Transmits iovMax c' es o c'') :
      Transmits iovMax c ((res, sent) :: es) o c''
  | last {c c' : OutConn} {res : Option ℕ} {sent : Bytes} {r : TransmitResult}
      (h : c.prepare.Answer iovMax res) (e : c.prepare.transmit res = (c', sent, r))
      (hr : r = .complete ∨ r = .hardError) : Transmits iovMax c [(res, sent)] (some r) c'

/-- The bytes sent in a run. -/
def sentBytes (es : List (Option ℕ × Bytes)) : Bytes := (es.map Prod.snd).flatten

/-- The datagrams sent in a run. -/
def datagrams (es : List (Option ℕ × Bytes)) : List Bytes := (es.map Prod.snd).filter (· ≠ [])

/-! ## What the messages are -/

/-- The headers of messages whose entries lie one after the other from entry `n` on. -/
def headers (block : ℕ) : ℕ → List (List Bytes) → List Msghdr
  | _, [] => []
  | n, w :: W => ⟨block, n, w.length⟩ :: headers block (n + w.length) W

/-- The connection's messages are `W`. -/
structure Holds (c : OutConn) (W : List (List Bytes)) : Prop where
  msglist : c.msglist = headers c.iov 0 W
  iovused : c.iovused = W.flatten.length
  le : c.iovused ≤ c.iovsize
  pos : 0 < c.iovsize
  entries : entries (c.iovec c.iov) 0 c.iovused = W.flatten

variable {c c' : OutConn} {W V : List (List Bytes)} {w : List Bytes} {x : Bytes} {b n iovMax : ℕ}

/-- Entries in two parts. -/
theorem entries_append (f : ℕ → Bytes) (n l l' : ℕ) :
    entries f n (l + l') = entries f n l ++ entries f (n + l) l' := by
  induction l generalizing n with
  | zero => rw [Nat.zero_add, entries, List.nil_append, Nat.add_zero]
  | succ l ih =>
      rw [Nat.succ_add, entries, ih, entries, List.cons_append, Nat.add_right_comm, Nat.add_assoc]

/-- Entries depend on their own places only. -/
theorem entries_congr {f g : ℕ → Bytes} {n l : ℕ} (h : ∀ k, n ≤ k → k < n + l → f k = g k) :
    entries f n l = entries g n l := by
  induction l generalizing n with
  | zero => rfl
  | succ l ih =>
      rw [entries, entries, h n le_rfl (by omega), ih fun k h₁ h₂ => h k (by omega) (by omega)]

/-- Every message has a header. -/
@[simp] theorem length_headers (b n : ℕ) (W : List (List Bytes)) :
    (headers b n W).length = W.length := by
  induction W generalizing n with
  | nil => rfl
  | cons w W ih => rw [headers, List.length_cons, ih, List.length_cons]

/-- Headers in two parts. -/
theorem headers_append (b n : ℕ) (W V : List (List Bytes)) :
    headers b n (W ++ V) = headers b n W ++ headers b (n + W.flatten.length) V := by
  induction W generalizing n with
  | nil => rfl
  | cons w W ih =>
      rw [List.cons_append, headers, ih, headers, List.cons_append, List.flatten_cons,
        List.length_append, Nat.add_assoc]

/-- The messages are pointed to wherever they are. -/
theorem pointMsghdrs_headers (b b' n n' : ℕ) (W : List (List Bytes)) :
    pointMsghdrs b n (headers b' n' W) = headers b n W := by
  induction W generalizing n n' with
  | nil => rfl
  | cons w W ih => rw [headers, pointMsghdrs, ih, headers]

/-- **Growing the array keeps the messages**, and makes room. -/
theorem Holds.ensureIovSpace (h : c.Holds W) :
    c.ensureIovSpace.Holds W ∧ c.ensureIovSpace.iovused < c.ensureIovSpace.iovsize := by
  have hpos := h.pos
  rw [OutConn.ensureIovSpace]
  split
  · rename_i hfull
    refine ⟨⟨?_, h.iovused, ?_, ?_, ?_⟩, ?_⟩
    · rw [h.msglist]
      exact pointMsghdrs_headers ..
    · exact h.le.trans (Nat.le_mul_of_pos_right _ (by decide))
    · show 0 < c.iovsize * 2
      omega
    · rw [← h.entries]
      apply entries_congr
      intro k _ hk
      have hlt : k < c.iovsize := lt_of_lt_of_le (by simpa using hk) h.le
      simp only [if_true, if_pos hlt]
    · show c.iovused < c.iovsize * 2
      have := h.le
      omega
  · exact ⟨h, by omega⟩

/-- **Storing an entry** adds it to the last message. -/
theorem Holds.storeIov (h : c.Holds (W ++ [w])) (hroom : c.iovused < c.iovsize) (x : Bytes) :
    (c.storeIov x).Holds (W ++ [w ++ [x]]) ∧
      (c.storeIov x).msgbytes = c.msgbytes + x.length := by
  have hlast : c.msglist = headers c.iov 0 W ++ [⟨c.iov, W.flatten.length, w.length⟩] := by
    rw [h.msglist, headers_append, headers, headers, Nat.zero_add]
  have hused : c.iovused = W.flatten.length + w.length := by
    rw [h.iovused, List.flatten_append, List.length_append, List.flatten_singleton]
  have hstore : c.storeIov x =
      { c with
        iovec := setIovec c.iovec c.iov c.iovused x
        msgbytes := c.msgbytes + x.length
        iovused := c.iovused + 1
        msglist := headers c.iov 0 W ++ [⟨c.iov, W.flatten.length, w.length + 1⟩] } := by
    rw [OutConn.storeIov, hlast, hused]
    simp
  rw [hstore]
  refine ⟨⟨?_, ?_, hroom, h.pos, ?_⟩, rfl⟩
  · rw [headers_append, headers, headers, Nat.zero_add, List.length_append]
    rfl
  · show c.iovused + 1 = _
    rw [hused]
    simp
    omega
  · have hold : OutConn.entries (setIovec c.iovec c.iov c.iovused x c.iov) 0 c.iovused
        = (W ++ [w]).flatten := by
      rw [← h.entries]
      apply entries_congr
      intro k _ hk
      have hne : k ≠ c.iovused := ne_of_lt (by simpa using hk)
      simp only [setIovec, hne, and_false, if_false]
    show OutConn.entries (setIovec c.iovec c.iov c.iovused x c.iov) 0 (c.iovused + 1) = _
    rw [entries_append, hold, OutConn.entries, OutConn.entries]
    simp [setIovec]

/-- What building a response leaves alone. -/
structure Alike (c c' : OutConn) : Prop where
  udp : c'.udp = c.udp
  requestId : c'.requestId = c.requestId
  msgcurr : c'.msgcurr = c.msgcurr

/-- A connection is like itself. -/
theorem Alike.refl (c : OutConn) : Alike c c := ⟨rfl, rfl, rfl⟩

/-- Like one that is like it. -/
theorem Alike.trans {c'' : OutConn} (h : Alike c c') (h' : Alike c' c'') : Alike c c'' :=
  ⟨h'.udp.trans h.udp, h'.requestId.trans h.requestId, h'.msgcurr.trans h.msgcurr⟩

/-- More room changes nothing else. -/
theorem alike_ensureIovSpace (c : OutConn) :
    Alike c c.ensureIovSpace ∧ c.ensureIovSpace.msgbytes = c.msgbytes := by
  rw [OutConn.ensureIovSpace]
  split <;> exact ⟨⟨rfl, rfl, rfl⟩, rfl⟩

/-- An entry that is stored changes nothing else. -/
theorem alike_storeIov (c : OutConn) (x : Bytes) : Alike c (c.storeIov x) := by
  rw [OutConn.storeIov]
  split <;> exact ⟨rfl, rfl, rfl⟩

/-- **The round of `add_iov` in `add_msghdr`** is what `add_iov` does to an empty message. -/
theorem addIov_headerRoom (hmax : 0 < iovMax) {m : Msghdr} (hm : c.msglist.getLast? = some m)
    (hlen : m.msgIovlen = 0) (hbytes : c.msgbytes = 0) :
    c.addIov iovMax headerRoom = c.ensureIovSpace.storeIov headerRoom := by
  have hroom : headerRoom.length = udpHeaderSize := List.length_replicate
  have hfull : c.messageFull iovMax = false := by
    have hne : (0 == iovMax) = false := beq_false_of_ne hmax.ne
    rw [messageFull, hm, hbytes, Option.any_some, hlen, hne]
    cases c.limitToMtu <;> rfl
  have hleft : c.ensureIovSpace.leftover c.limitToMtu headerRoom = 0 := by
    rw [leftover, (alike_ensureIovSpace c).2, hbytes, hroom]
    cases c.limitToMtu <;> rfl
  have hround : c.addIovRound iovMax headerRoom = (c.ensureIovSpace.storeIov headerRoom, []) := by
    simp only [addIovRound, hfull, Bool.false_eq_true, if_false, hleft, Nat.sub_zero,
      List.take_length, List.drop_length]
  rw [addIov, addIovLoop, hround]
  rfl

/-- What a new message begins with. -/
def messageStart (udp : Bool) : List Bytes := if udp then [headerRoom] else []

/-- **Starting a message.** -/
theorem Holds.addMsghdr (h : c.Holds W) :
    c.addMsghdr.Holds (W ++ [messageStart c.udp]) ∧ Alike c c.addMsghdr ∧
      c.addMsghdr.msgbytes = (messageStart c.udp).flatten.length := by
  set d : OutConn := { (if c.msgsize = c.msglist.length then
      { c with msgsize := c.msgsize * 2 } else c) with
    msglist := c.msglist ++ [⟨c.iov, c.iovused, 0⟩], msgbytes := 0 } with hd
  have hd' : c.addMsghdr = if d.udp then d.ensureIovSpace.storeIov headerRoom else d := by
    rw [OutConn.addMsghdr, hd]
    split <;> rfl
  have halike : Alike c d := by
    rw [hd]
    split <;> exact ⟨rfl, rfl, rfl⟩
  have hholds : d.Holds (W ++ [[]]) := by
    have hlist : d.msglist = headers d.iov 0 (W ++ [[]]) := by
      rw [headers_append, headers, headers, Nat.zero_add]
      rw [hd]
      split <;> exact congrArg₂ (· ++ [⟨c.iov, ·, 0⟩]) h.msglist h.iovused
    have hflat : (W ++ [[]]).flatten = W.flatten := by simp
    refine ⟨hlist, ?_, ?_, ?_, ?_⟩
    · rw [hflat, hd]
      split <;> exact h.iovused
    · rw [hd]
      split <;> exact h.le
    · rw [hd]
      split <;> exact h.pos
    · rw [hflat, hd]
      split <;> exact h.entries
  have hbytes : d.msgbytes = 0 := rfl
  rw [hd', halike.udp]
  cases hudp : c.udp with
  | false => exact ⟨hholds, halike, hbytes⟩
  | true =>
      obtain ⟨hens, hroom⟩ := hholds.ensureIovSpace
      obtain ⟨hal, hb⟩ := alike_ensureIovSpace d
      obtain ⟨hst, hsb⟩ := hens.storeIov hroom headerRoom
      refine ⟨hst, halike.trans (hal.trans (alike_storeIov _ _)), ?_⟩
      simp only [if_true]
      rw [hsb, hb, hbytes]
      rfl

/-! ## What a response consists of -/

/-- The part of a message that the buffers make up. -/
def payload (udp : Bool) (m : List Bytes) : Bytes := (if udp then m.drop 1 else m).flatten

/-- The messages `U` are complete and `w` is being filled; together they hold `data`. -/
structure Packed (iovMax : ℕ) (c : OutConn) (U : List (List Bytes)) (w : List Bytes)
    (data : Bytes) : Prop where
  holds : c.Holds (U ++ [w])
  msgbytes : c.msgbytes = w.flatten.length
  lens : ∀ m ∈ U ++ [w], m.length ≤ iovMax
  room : c.udp = true → ∀ m ∈ U ++ [w],
    (∃ p, m = headerRoom :: p) ∧ m.flatten.length ≤ udpMaxPayloadSize
  tail : ∀ m ∈ U.tail, m ≠ []
  data : ((U ++ [w]).map (payload c.udp)).flatten = data

variable {U : List (List Bytes)} {data buf : Bytes}

/-- What a message holds after another buffer. -/
theorem payload_append {udp : Bool} (h : udp = true → w ≠ []) (x : Bytes) :
    payload udp (w ++ [x]) = payload udp w ++ x := by
  rw [payload, payload]
  cases udp with
  | false => simp
  | true =>
      obtain ⟨y, t, rfl⟩ := List.exists_cons_of_ne_nil (h rfl)
      simp

/-- **A buffer is stored** in a message that has room for an entry and, if it is limited, for a
byte: as much of the buffer as fits. -/
theorem Packed.store (h : Packed iovMax c U w data) (hlen : w.length < iovMax) (limit : Bool)
    (hlimit : limit = true → w.flatten.length < udpMaxPayloadSize)
    (hudp : c.udp = true → limit = true) (buf : Bytes) :
    let x := buf.take (buf.length - c.ensureIovSpace.leftover limit buf)
    (buf ≠ [] → x ≠ []) ∧
      Packed iovMax (c.ensureIovSpace.storeIov x) U (w ++ [x]) (data ++ x) ∧
      Alike c (c.ensureIovSpace.storeIov x) := by
  obtain ⟨hal, hb⟩ := alike_ensureIovSpace c
  obtain ⟨hens, hroom⟩ := h.holds.ensureIovSpace
  intro x
  have hx : x.length = buf.length - c.ensureIovSpace.leftover limit buf := by
    simp [x]
  obtain ⟨hst, hsb⟩ := hens.storeIov hroom x
  have halike := hal.trans (alike_storeIov c.ensureIovSpace x)
  have hfit : (buf ≠ [] → 0 < x.length) ∧
      (limit = true → w.flatten.length + x.length ≤ udpMaxPayloadSize) := by
    rw [hx, leftover, hb, h.msgbytes]
    have hpos : buf ≠ [] → 0 < buf.length := List.length_pos_iff.mpr
    cases limit with
    | false => exact ⟨by simpa using hpos, nofun⟩
    | true =>
        have hlt := hlimit rfl
        simp only [Bool.true_and, decide_eq_true_eq]
        refine ⟨fun hne => ?_, fun _ => ?_⟩
        · have := hpos hne
          split <;> omega
        · split <;> omega
  refine ⟨fun hne hnil => ?_, ⟨hst, ?_, ?_, ?_, h.tail, ?_⟩, halike⟩
  · have := hfit.1 hne
    rw [hnil] at this
    exact absurd this (by decide)
  · rw [hsb, hb, h.msgbytes]
    simp
  · intro m hm
    rcases List.mem_append.mp hm with hm | hm
    · exact h.lens m (List.mem_append_left _ hm)
    · obtain rfl := List.mem_singleton.mp hm
      rw [List.length_append]
      exact hlen
  · intro hu m hm
    rw [halike.udp] at hu
    rcases List.mem_append.mp hm with hm | hm
    · exact h.room hu m (List.mem_append_left _ hm)
    · obtain rfl := List.mem_singleton.mp hm
      obtain ⟨⟨p, rfl⟩, -⟩ := h.room hu w (List.mem_append_right _ (List.mem_singleton_self _))
      refine ⟨⟨p ++ [x], rfl⟩, ?_⟩
      rw [List.flatten_append, List.length_append, List.flatten_singleton]
      exact hfit.2 (hudp hu)
  · have hne : c.udp = true → w ≠ [] := fun hu => by
      obtain ⟨⟨p, rfl⟩, -⟩ := h.room hu w (List.mem_append_right _ (List.mem_singleton_self _))
      exact List.cons_ne_nil _ _
    rw [halike.udp, ← h.data]
    simp only [List.map_append, List.map_singleton, List.flatten_append, List.flatten_singleton,
      payload_append hne, List.append_assoc]

/-- How a round of `add_iov` that stores `x` changes the messages. -/
inductive Grows (iovMax : ℕ) (udp : Bool) (U : List (List Bytes)) (w : List Bytes) (x : Bytes) :
    List (List Bytes) → List Bytes → Prop
  /-- The buffer goes into the message that is being filled. -/
  | same (h : w.length ≠ iovMax) : Grows iovMax udp U w x U (w ++ [x])
  /-- That message has all its entries, or bytes enough. -/
  | next (h : w.length = iovMax ∨ w.flatten ≠ []) :
      Grows iovMax udp U w x (U ++ [w]) (messageStart udp ++ [x])

/-- **A round of `add_iov`** stores a piece of the buffer. -/
theorem Packed.round (hmax : 2 ≤ iovMax) (h : Packed iovMax c U w data) (hlast : U ≠ [] → w ≠ [])
    (buf : Bytes) : ∃ x U' w', x ++ (c.addIovRound iovMax buf).2 = buf ∧ (buf ≠ [] → x ≠ []) ∧
      Packed iovMax (c.addIovRound iovMax buf).1 U' w' (data ++ x) ∧
      Alike c (c.addIovRound iovMax buf).1 ∧ Grows iovMax c.udp U w x U' w' := by
  have hlist : c.msglist = headers c.iov 0 U ++ [⟨c.iov, U.flatten.length, w.length⟩] := by
    rw [h.holds.msglist, headers_append, headers, headers, Nat.zero_add]
  have hfull : c.messageFull iovMax =
      (w.length == iovMax || (c.limitToMtu && decide (w.flatten.length ≥ udpMaxPayloadSize))) := by
    rw [messageFull, hlist, h.msgbytes]
    simp
  have hlimit : c.udp = true → c.limitToMtu = true := fun hu => by
    rw [limitToMtu, hu, Bool.true_or]
  rw [addIovRound]
  by_cases hf : c.messageFull iovMax = true
  · -- a new message
    obtain ⟨hholds, halike, hbytes⟩ := h.holds.addMsghdr
    have hstart : (messageStart c.udp).length ≤ 1 ∧
        (messageStart c.udp).flatten.length < udpMaxPayloadSize := by
      rw [messageStart]
      split <;> decide
    have hpacked : Packed iovMax c.addMsghdr (U ++ [w]) (messageStart c.udp) data := by
      refine ⟨hholds, hbytes, ?_, ?_, ?_, ?_⟩
      · intro m hm
        rcases List.mem_append.mp hm with hm | hm
        · exact h.lens m hm
        · obtain rfl := List.mem_singleton.mp hm
          omega
      · intro hu m hm
        rw [halike.udp] at hu
        rcases List.mem_append.mp hm with hm | hm
        · exact h.room hu m hm
        · obtain rfl := List.mem_singleton.mp hm
          rw [messageStart, if_pos hu]
          exact ⟨⟨[], rfl⟩, by decide⟩
      · intro m hm
        cases U with
        | nil => exact absurd hm (by simp)
        | cons u U =>
            rw [List.cons_append, List.tail_cons] at hm
            rcases List.mem_append.mp hm with hm | hm
            · exact h.tail m hm
            · obtain rfl := List.mem_singleton.mp hm
              exact hlast (List.cons_ne_nil _ _)
      · rw [halike.udp, List.map_append, List.flatten_append, h.data]
        simp only [List.map_singleton, List.flatten_singleton, payload, messageStart]
        cases c.udp <;> simp
    obtain ⟨hne, hp, hal⟩ := hpacked.store (by omega) c.limitToMtu (fun _ => hstart.2)
      (fun hu => hlimit (halike.udp ▸ hu)) buf
    have hcond : w.length = iovMax ∨ w.flatten ≠ [] := by
      rw [hfull] at hf
      simp only [Bool.or_eq_true, beq_iff_eq, Bool.and_eq_true, decide_eq_true_eq] at hf
      refine hf.imp_right fun hb hnil => ?_
      rw [hnil] at hb
      exact absurd hb.2 (by decide)
    simp only [if_pos hf]
    exact ⟨_, _, _, List.take_append_drop .., hne, hp, halike.trans hal, .next hcond⟩
  · have hnot : w.length ≠ iovMax ∧ (c.limitToMtu = true → w.flatten.length < udpMaxPayloadSize) := by
      rw [hfull] at hf
      simp only [Bool.or_eq_true, beq_iff_eq, Bool.and_eq_true, decide_eq_true_eq, not_or,
        not_and, not_le] at hf
      exact hf
    have hlen := h.lens w (List.mem_append_right _ (List.mem_singleton_self _))
    obtain ⟨hne, hp, hal⟩ := h.store (by omega) c.limitToMtu hnot.2 hlimit buf
    simp only [if_neg hf]
    exact ⟨_, _, _, List.take_append_drop .., hne, hp, hal, .same hnot.1⟩

/-- What has grown is not empty. -/
theorem Grows.ne_nil {udp : Bool} {U' : List (List Bytes)} {w' : List Bytes}
    (h : Grows iovMax udp U w x U' w') : w' ≠ [] := by
  cases h <;> simp

/-- No complete message is without bytes, and the one being filled has none only if it has room. -/
def Solid (iovMax : ℕ) (U : List (List Bytes)) (w : List Bytes) : Prop :=
  (∀ u ∈ U, u.flatten ≠ []) ∧ (w.flatten = [] → w.length ≠ iovMax)

/-- A piece with bytes in it keeps the messages solid. -/
theorem Grows.solid {udp : Bool} {U' : List (List Bytes)} {w' : List Bytes}
    (h : Grows iovMax udp U w x U' w') (hx : x ≠ []) (hs : Solid iovMax U w) :
    Solid iovMax U' w' ∧ w'.flatten ≠ [] := by
  have hne : ∀ v : List Bytes, (v ++ [x]).flatten ≠ [] := fun v => by
    rw [List.flatten_append, List.flatten_singleton]
    exact List.append_ne_nil_of_right_ne_nil _ hx
  cases h with
  | same hlen => exact ⟨⟨hs.1, fun hnil => absurd hnil (hne w)⟩, hne w⟩
  | next hcond =>
      refine ⟨⟨fun u hu => ?_, fun hnil => absurd hnil (hne _)⟩, hne _⟩
      rcases List.mem_append.mp hu with hu | hu
      · exact hs.1 u hu
      · obtain rfl := List.mem_singleton.mp hu
        exact hcond.elim (fun hlen hnil => hs.2 hnil hlen) id

/-- **The loop of `add_iov`** stores the whole buffer: an empty one in one round, another one in
pieces with bytes in them. -/
theorem Packed.loop (hmax : 2 ≤ iovMax) {fuel : ℕ} (hfuel : buf.length < fuel)
    (h : Packed iovMax c U w data) (hlast : U ≠ [] → w ≠ []) : ∃ U' w',
      Packed iovMax (addIovLoop iovMax fuel c buf) U' w' (data ++ buf) ∧ w' ≠ [] ∧
      Alike c (addIovLoop iovMax fuel c buf) ∧
      (buf = [] → Grows iovMax c.udp U w [] U' w') ∧
      (buf ≠ [] → Solid iovMax U w → Solid iovMax U' w' ∧ w'.flatten ≠ []) := by
  -- by induction on the rounds: each stores a piece of the buffer
  induction fuel generalizing c U w data buf with
  | zero => exact absurd hfuel (Nat.not_lt_zero _)
  | succ fuel ih =>
      obtain ⟨x, U₁, w₁, hsplit, hx, hp, hal, hg⟩ := h.round hmax hlast buf
      rw [addIovLoop]
      rcases hr : c.addIovRound iovMax buf with ⟨d, rest⟩
      rw [hr] at hsplit hp hal
      replace hp : Packed iovMax d U₁ w₁ (data ++ x) := hp
      replace hal : Alike c d := hal
      replace hsplit : x ++ rest = buf := hsplit
      simp only
      split
      · rename_i hpos
        -- some bytes were stored, so that fewer are left
        have hbuf : buf ≠ [] := by
          rintro rfl
          rw [(List.append_eq_nil_iff.mp hsplit).2] at hpos
          exact absurd hpos (by decide)
        have hxpos := List.length_pos_iff.mpr (hx hbuf)
        have hlen := congrArg List.length hsplit
        rw [List.length_append] at hlen
        obtain ⟨U', w', hp', hw', hal', -, hsolid⟩ :=
          ih (show rest.length < fuel by omega) hp fun _ => hg.ne_nil
        refine ⟨U', w', ?_, hw', hal.trans hal', fun hnil => absurd hnil hbuf, fun _ hs => ?_⟩
        · rw [List.append_assoc, hsplit] at hp'
          exact hp'
        · exact hsolid (List.length_pos_iff.mp hpos) (hg.solid (hx hbuf) hs).1
      · rename_i hnone
        obtain rfl : rest = [] := List.eq_nil_of_length_eq_zero (by omega)
        rw [List.append_nil] at hsplit
        subst hsplit
        exact ⟨U₁, w₁, hp, hg.ne_nil, hal, fun hnil => hnil ▸ hg, fun hne hs => hg.solid hne hs⟩

/-! ## Empty buffers -/

/-- The messages of `bufs` over TCP: one without bytes is `iovMax` empty buffers in a row, unless it
is being filled, and no bytes come after it. -/
structure Gaps (iovMax : ℕ) (bufs : List Bytes) (U : List (List Bytes)) (w : List Bytes) : Prop where
  last : (U ++ [w]).Pairwise fun m m' => m.flatten = [] → m'.flatten = []
  filling : w.flatten = [] → ∃ pre, bufs = pre ++ List.replicate w.length []
  full : ∀ u ∈ U, u.flatten = [] → ∃ pre post, bufs = pre ++ List.replicate iovMax [] ++ post

/-- Solid messages have no gaps, once the one being filled has a byte. -/
theorem Solid.gaps (h : Solid iovMax U w) (hw : w.flatten ≠ []) (bufs : List Bytes) :
    Gaps iovMax bufs U w where
  last := by
    apply List.pairwise_append.mpr
    refine ⟨?_, List.pairwise_singleton .., fun u hu _ _ hnil => absurd hnil (h.1 u hu)⟩
    exact List.Pairwise.imp_of_mem (fun hu _ _ hnil => absurd hnil (h.1 _ hu))
      (List.pairwise_of_forall (R := fun _ _ => True) fun _ _ => trivial)
  filling := fun hnil => absurd hnil hw
  full := fun u hu hnil => absurd hnil (h.1 u hu)

/-- **Another buffer**, if `iovMax` empty ones in a row are not followed by one with bytes. -/
theorem Gaps.add {bufs : List Bytes} {U' : List (List Bytes)} {w' : List Bytes}
    (h : Gaps iovMax bufs U w)
    (hgap : buf ≠ [] → ∀ pre post, bufs ≠ pre ++ List.replicate iovMax [] ++ post)
    (hempty : buf = [] → Grows iovMax false U w [] U' w')
    (hfull : buf ≠ [] → Solid iovMax U w → Solid iovMax U' w' ∧ w'.flatten ≠ []) :
    Gaps iovMax (bufs ++ [buf]) U' w' := by
  by_cases hbuf : buf = []
  · subst hbuf
    cases hempty rfl with
    | same hlen =>
        have hflat : (w ++ [[]]).flatten = w.flatten := by simp
        refine ⟨?_, fun hnil => ?_, fun u hu hnil => ?_⟩
        · have hold := List.pairwise_append.mp h.last
          refine List.pairwise_append.mpr ⟨hold.1, List.pairwise_singleton .., fun u hu m hm hnil => ?_⟩
          obtain rfl := List.mem_singleton.mp hm
          rw [hflat]
          exact hold.2.2 u hu w (List.mem_singleton_self w) hnil
        · obtain ⟨pre, hpre⟩ := h.filling (hflat ▸ hnil)
          refine ⟨pre, ?_⟩
          rw [hpre, List.append_assoc, List.length_append, List.length_singleton,
            List.replicate_succ']
        · obtain ⟨pre, post, hpre⟩ := h.full u hu hnil
          exact ⟨pre, post ++ [[]], by rw [hpre, List.append_assoc]⟩
    | next hcond =>
        refine ⟨?_, fun _ => ⟨bufs, rfl⟩, fun u hu hnil => ?_⟩
        · refine List.pairwise_append.mpr ⟨h.last, List.pairwise_singleton .., fun u _ m hm _ => ?_⟩
          obtain rfl := List.mem_singleton.mp hm
          rfl
        · rcases List.mem_append.mp hu with hu | hu
          · obtain ⟨pre, post, hpre⟩ := h.full u hu hnil
            exact ⟨pre, post ++ [[]], by rw [hpre, List.append_assoc]⟩
          · -- the message that has just been completed
            obtain rfl := List.mem_singleton.mp hu
            obtain ⟨pre, hpre⟩ := h.filling hnil
            rw [hcond.resolve_right (not_not.mpr hnil)] at hpre
            exact ⟨pre, [[]], by rw [hpre]⟩
  · have hno := hgap hbuf
    have hsolid : Solid iovMax U w := by
      refine ⟨fun u hu hnil => ?_, fun hnil hlen => ?_⟩
      · obtain ⟨pre, post, hpre⟩ := h.full u hu hnil
        exact hno pre post hpre
      · obtain ⟨pre, hpre⟩ := h.filling hnil
        exact hno pre [] (by rw [hpre, hlen, List.append_nil])
    obtain ⟨hs, hw'⟩ := hfull hbuf hsolid
    exact hs.gaps hw' _

/-- `iovMax` empty buffers in a row are followed by empty ones only. -/
def NoGap (iovMax : ℕ) (bufs : List Bytes) : Prop :=
  ∀ pre post, bufs = pre ++ List.replicate iovMax [] ++ post → post.flatten = []

/-- **The buffers are in the messages**, one after the other. -/
theorem Packed.foldl (hmax : 2 ≤ iovMax) {bufs : List Bytes} (more : List Bytes)
    (h : Packed iovMax c U w bufs.flatten) (hlast : U ≠ [] → w ≠ [])
    (hgaps : c.udp = false → NoGap iovMax (bufs ++ more) → Gaps iovMax bufs U w) : ∃ U' w',
      Packed iovMax (more.foldl (addIov iovMax) c) U' w' (bufs ++ more).flatten ∧
      (U' ≠ [] → w' ≠ []) ∧ Alike c (more.foldl (addIov iovMax) c) ∧
      (c.udp = false → NoGap iovMax (bufs ++ more) → Gaps iovMax (bufs ++ more) U' w') := by
  -- by induction on the buffers to come, with those stored as the invariant
  induction more generalizing c U w bufs with
  | nil =>
      rw [List.append_nil] at hgaps ⊢
      exact ⟨U, w, h, hlast, .refl c, hgaps⟩
  | cons buf more ih =>
      obtain ⟨U₁, w₁, hp, hw, hal, hempty, hfull⟩ :=
        h.loop hmax (Nat.lt_succ_self buf.length) hlast
      have hbufs : bufs ++ buf :: more = bufs ++ [buf] ++ more := by simp
      have hflat : (bufs ++ [buf]).flatten = bufs.flatten ++ buf := by simp
      rw [hbufs] at hgaps ⊢
      have hgaps₁ : (c.addIov iovMax buf).udp = false → NoGap iovMax (bufs ++ [buf] ++ more) →
          Gaps iovMax (bufs ++ [buf]) U₁ w₁ := by
        intro hudp hno
        have hudp' : c.udp = false := hal.udp ▸ hudp
        refine (hgaps hudp' hno).add (fun hbuf pre post hpre => ?_) (hudp' ▸ hempty) hfull
        have hnil := hno pre (post ++ [buf] ++ more) (by rw [hpre]; simp)
        simp only [List.flatten_append, List.flatten_singleton, List.append_eq_nil_iff] at hnil
        exact hbuf hnil.1.2
      obtain ⟨U', w', hp', hw', hal', hg'⟩ := ih (hflat ▸ hp) (fun _ => hw) hgaps₁
      exact ⟨U', w', hp', hw', hal.trans hal', fun hudp => hg' (hal.udp.trans hudp)⟩

/-- The connection before the buffers are added. -/
def started (c : OutConn) : OutConn :=
  ({ c with msgcurr := 0, msglist := [], iovused := 0 } : OutConn).addMsghdr

/-- **At first** there is a message without buffers. -/
theorem packed_started (hmax : 2 ≤ iovMax) (hsize : 0 < c.iovsize) :
    Packed iovMax c.started [] (messageStart c.udp) [] ∧ c.started.udp = c.udp ∧
      c.started.requestId = c.requestId ∧ c.started.msgcurr = 0 := by
  set d : OutConn := { c with msgcurr := 0, msglist := [], iovused := 0 } with hd
  have hempty : d.Holds [] := ⟨rfl, rfl, Nat.zero_le _, hsize, rfl⟩
  obtain ⟨hholds, hal, hbytes⟩ := hempty.addMsghdr
  rw [List.nil_append] at hholds
  have hstart : (messageStart c.udp).length ≤ 1 := by
    rw [messageStart]
    split <;> decide
  refine ⟨⟨hholds, hbytes, ?_, ?_, nofun, ?_⟩, hal.udp, hal.requestId, hal.msgcurr⟩
  · intro m hm
    obtain rfl := List.mem_singleton.mp hm
    omega
  · intro hu m hm
    obtain rfl := List.mem_singleton.mp hm
    have hu' : c.udp = true := hal.udp ▸ hu
    rw [messageStart, if_pos hu']
    exact ⟨⟨[], rfl⟩, by decide⟩
  · have hu : c.started.udp = c.udp := hal.udp
    rw [hu]
    simp only [List.nil_append, List.map_singleton, List.flatten_singleton, payload, messageStart]
    cases c.udp <;> simp

/-- **What a response is**: messages that hold the buffers. -/
theorem packed_respond (hmax : 2 ≤ iovMax) (hsize : 0 < c.iovsize) (bufs : List Bytes) : ∃ U w,
    Packed iovMax (c.respond iovMax bufs) U w bufs.flatten ∧ (U ≠ [] → w ≠ []) ∧
      ((c.respond iovMax bufs).udp = c.udp ∧ (c.respond iovMax bufs).requestId = c.requestId ∧
        (c.respond iovMax bufs).msgcurr = 0) ∧
      (c.udp = false → NoGap iovMax bufs → Gaps iovMax bufs U w) := by
  obtain ⟨hpacked, hudp, hid, hcurr⟩ := packed_started hmax hsize
  have hgaps : c.started.udp = false → NoGap iovMax ([] ++ bufs) →
      Gaps iovMax [] [] (messageStart c.udp) := by
    intro hu _
    rw [messageStart, ← hudp, hu]
    exact ⟨List.pairwise_singleton .., fun _ => ⟨[], rfl⟩, nofun⟩
  have hnone : Packed iovMax c.started [] (messageStart c.udp) ([] : List Bytes).flatten := hpacked
  obtain ⟨U, w, hp, hlast, hal, hg⟩ := hnone.foldl hmax bufs nofun hgaps
  exact ⟨U, w, hp, hlast, ⟨hal.udp.trans hudp, hal.requestId.trans hid, hal.msgcurr.trans hcurr⟩,
    fun hu => hg (hudp.trans hu)⟩

/-- Empty buffers stay in the first message over TCP. -/
theorem packed_empties (hmax : 2 ≤ iovMax) (hsize : 0 < c.iovsize) (hudp : c.udp = false) {k : ℕ}
    (hk : k ≤ iovMax) :
    Packed iovMax (c.respond iovMax (List.replicate k [])) [] (List.replicate k []) [] ∧
      (c.respond iovMax (List.replicate k [])).udp = false ∧
      (c.respond iovMax (List.replicate k [])).msgcurr = 0 := by
  induction k with
  | zero =>
      obtain ⟨hp, hu, -, hcurr⟩ := packed_started hmax hsize
      rw [hudp] at hp hu
      exact ⟨hp, hu, hcurr⟩
  | succ k ih =>
      obtain ⟨hp, hu, hcurr⟩ := ih (by omega)
      have hnext : c.respond iovMax (List.replicate (k + 1) [])
          = (c.respond iovMax (List.replicate k [])).addIov iovMax [] := by
        rw [respond, respond, List.replicate_succ', List.foldl_append]
        rfl
      obtain ⟨U', w', hp', -, hal, hempty, -⟩ := hp.loop hmax (show ([] : Bytes).length < 1 by decide) nofun
      rw [hnext]
      refine ⟨?_, hal.udp.trans hu, hal.msgcurr.trans hcurr⟩
      cases hempty rfl with
      | same _ =>
          rw [List.replicate_succ']
          exact hp'
      | next hcond =>
          rw [List.length_replicate, List.flatten_replicate_nil] at hcond
          exact absurd rfl (hcond.resolve_left (by omega))

/-- **A message of empty buffers** in front of one with bytes: `iovMax` of them fill it. -/
theorem holds_gap (hmax : 2 ≤ iovMax) (hsize : 0 < c.iovsize) (hudp : c.udp = false) (x : UInt8) :
    let d := c.respond iovMax (List.replicate iovMax [] ++ [[x]])
    d.Holds [List.replicate iovMax [], [[x]]] ∧ d.udp = false ∧ d.msgcurr = 0 := by
  obtain ⟨hp, hu, hcurr⟩ := packed_empties hmax hsize hudp le_rfl
  set e := c.respond iovMax (List.replicate iovMax []) with he
  have hnext : c.respond iovMax (List.replicate iovMax [] ++ [[x]]) = e.addIov iovMax [x] := by
    rw [he, respond, respond, List.foldl_append]
    rfl
  obtain ⟨y, U', w', hsplit, hy, hp', hal, hg⟩ := hp.round hmax nofun [x]
  obtain ⟨rfl, hrest⟩ : y = [x] ∧ (e.addIovRound iovMax [x]).2 = [] := by
    obtain ⟨z, t, rfl⟩ := List.exists_cons_of_ne_nil (hy (List.cons_ne_nil _ _))
    obtain ⟨rfl, ht⟩ := List.cons.inj hsplit
    obtain ⟨rfl, hrest⟩ := List.append_eq_nil_iff.mp ht
    exact ⟨rfl, hrest⟩
  have hadd : e.addIov iovMax [x] = (e.addIovRound iovMax [x]).1 := by
    rw [addIov, addIovLoop]
    simp only [hrest, List.length_nil, gt_iff_lt, lt_irrefl, if_false]
  rw [hnext, hadd]
  refine ⟨?_, hal.udp.trans hu, hal.msgcurr.trans hcurr⟩
  cases hg with
  | same hlen => exact absurd List.length_replicate hlen
  | next _ =>
      have hholds := hp'.holds
      rw [hu] at hholds
      exact hholds

end OutConn

end Memcached
