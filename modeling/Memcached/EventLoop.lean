import Memcached.ScatterGather
import Memcached.Segmentation

/-! # The event loop

libevent calls `drive_machine` when an event is there that the connection has asked for. The call ends where
the connection has to wait for the client, and after `reqs_per_event` commands, so that others get their
turn; what is in the read buffer then, no event would tell of.

* **`Polled.next`** — the calls of `drive_machine`, round by round.
* **`Awake`**, **`Fair`** — where a call ends, and how long it lasts.
* **`polled_wakes`**, **`polled_fair`**, **`polled_stalls`** — no command is forgotten in the
  buffer, and none takes all turns.
* **`polling_invariant`** — what is logged does not depend on the calls. -/

namespace Memcached

open CNumber (Bytes)
open Transition (Run Within)

/-- What a connection asks for: `ev_flags` without `EV_PERSIST`. -/
inductive EventFlags
  | read
  | write
  deriving DecidableEq, Repr

/-- **A connection and its event.** -/
structure Polled where
  buf : Buffered
  evFlags : EventFlags
  /-- `nreqs` of the call of `drive_machine` that goes on, if one does. -/
  nreqs : Option ℤ
  /-- How often this call, or the last one, has called `try_read_command`. -/
  tried : ℕ
  deriving DecidableEq, Repr

/-- What happens next. -/
inductive PollStep
  /-- An event is there, and `event_handler` is called. -/
  | event
  /-- A round of `drive_machine`, with what `transmit` and `update_event` return if they are called. -/
  | round (sent : OutConn.TransmitResult) (updated : Bool)
  deriving DecidableEq, Repr

/-- Of `data` at the front of a stream, `try_read_command` makes nothing yet. -/
def Connection.NeedsMore (c : Connection) (data : Bytes) : Prop :=
  if (c.negotiate (c.firstByte data)).protocol = .binary then data.length < headerLen else 10 ∉ data

namespace Buffered

variable (b : Buffered)

/-- `conn_set_state(c, conn_closing)`. -/
def shut : Buffered := { b with conn := { b.conn with state := .closing } }

/-- `conn_nread` or `conn_swallow` calls `read`, and gets `EAGAIN`. -/
def readsAgain : Bool :=
  match b.conn.state with
  | .nread =>
      decide (0 < b.conn.rlbytes ∧ b.copyData.conn.rlbytes ≠ 0 ∧
        (b.copyData.socket.read b.copyData.conn.rlbytes.toNat).1 = .again)
  | .swallow =>
      decide (b.conn.sbytes ≠ 0 ∧ b.data = [] ∧
        (b.socket.read (min b.rsize b.conn.sbytes)).1 = .again)
  | _ => false

/-- **There is nothing to do** until something arrives. -/
def Starved : Prop :=
  b.conn.state = .read ∧ b.conn.NeedsMore b.data ∨ b.conn.state = .newCmd ∧ b.data = [] ∨
    b.conn.state = .nread ∧ 0 < b.conn.rlbytes ∧ b.data = [] ∨
    b.conn.state = .swallow ∧ 0 < b.conn.sbytes ∧ b.data = []

end Buffered

namespace Polled

/-- `conn_new`, over TCP. -/
def init (c : Connection) (rsize : ℕ) (k : Socket) : Polled := ⟨.opened c rsize k, .read, none, 0⟩

/-- The call ends when `update_event` has succeeded. -/
def stop (p : Polled) (flags : EventFlags) (updated : Bool) : Polled :=
  if updated then { p with evFlags := flags, nreqs := none } else { p with buf := p.buf.shut }

/-- A round of `drive_machine`. -/
def round (st : ConnSettings) (a : Answers) (p : Polled) (nreqs : ℤ) (sent : OutConn.TransmitResult)
    (updated : Bool) : Polled :=
  let b := (p.buf.drive st a).getD p.buf
  match p.buf.conn.state with
  | .newCmd =>
      let nreqs := nreqs - 1
      if nreqs ≥ 0 then { p with buf := b, nreqs := some nreqs }
      -- a socket that can be written to is an event as well
      else if p.buf.data ≠ [] then { p with nreqs := some nreqs }.stop .write updated
      else { p with nreqs := none }
  | .waiting => { p with buf := b }.stop .read updated
  | .read => { p with buf := b }
  | .parseCmd => { p with buf := b, tried := p.tried + 1 }
  | .nread | .swallow =>
      if p.buf.readsAgain then { p with buf := b }.stop .read updated else { p with buf := b }
  | .write | .mwrite =>
      match sent with
      | .complete => { p with buf := b }
      | .incomplete => p
      -- `transmit` has called `update_event`
      | .softError => p.stop .write updated
      | .hardError => { p with buf := p.buf.shut }
  -- `conn_close`
  | .closing => { p with nreqs := none }

/-- **One step**, where a call may handle `reqsPerEvent` commands. -/
def next (st : ConnSettings) (a : Answers) (reqsPerEvent : ℤ) (p : Polled) : PollStep → Option Polled
  | .event =>
      if p.nreqs = none ∧ p.buf.conn.state ≠ .closing then
        some { p with nreqs := some reqsPerEvent, tried := 0 }
      else none
  | .round sent updated => p.nreqs.map fun nreqs => p.round st a nreqs sent updated

/-- The connection takes a step. -/
def Step (st : ConnSettings) (a : Answers) (reqsPerEvent : ℤ) (p : Polled) (l : PollStep)
    (p' : Polled) : Prop :=
  p.next st a reqsPerEvent l = some p'

end Polled

variable {st : ConnSettings} {a : Answers} {b b' : Buffered} {p p' : Polled} {l : PollStep}
  {reqsPerEvent : ℤ}

/-! ## What a round of the connection does -/

namespace Connection

variable {c : Connection} {data : Bytes}

/-- The state does not matter. -/
theorem needsMore_state (s : ConnState) : { c with state := s }.NeedsMore data ↔ c.NeedsMore data := by
  have hneg : ∀ x, (({ c with state := s } : Connection).negotiate x).protocol
      = (c.negotiate x).protocol := fun x => by
    simp only [negotiate]
    split <;> rfl
  rw [NeedsMore, NeedsMore, hneg]
  rfl

/-- Nothing is no command. -/
theorem needsMore_nil (c : Connection) : c.NeedsMore [] := by
  rw [NeedsMore]
  split_ifs
  · decide
  · exact List.not_mem_nil

/-- Over TCP the protocol is negotiated once. -/
theorem NeedsMore.negotiate (h : c.NeedsMore data) (ht : c.transport = .tcp) :
    (c.negotiate (c.firstByte data)).NeedsMore data := by
  have hbyte : (c.negotiate (c.firstByte data)).firstByte data = c.firstByte data := by
    simp only [firstByte, (c.negotiate_keeps _).1, ht, reduceCtorEq, if_false]
  rw [NeedsMore, hbyte, negotiate_negotiate ht]
  exact h

/-- Where no command is found, more is needed. -/
theorem needsMore_of_none {log : List ConnEvent}
    (e : Machine.tryReadCommand st a ⟨c, data, log⟩ = none) : c.NeedsMore data := by
  rw [NeedsMore]
  simp only [Machine.tryReadCommand] at e
  split_ifs at e ⊢
  · assumption
  · assumption

end Connection

namespace Buffered

/-- A value that is being read goes on to a state that runs. -/
theorem running_nread (hs : b.conn.state = .nread) : (b.nread st a).conn.state.running = true := by
  rw [nread]
  split_ifs
  · exact (Connection.handled_completeNread (by rw [hs]; rfl)).running
  · rfl
  · have hcopy : b.copyData.conn.state.running = true := congrArg ConnState.running hs
    simp only
    split
    · exact hcopy
    · split
      · exact hcopy
      · exact hcopy
      · rfl

/-- What is being swallowed goes on to a state that runs. -/
theorem running_swallow (hs : b.conn.state = .swallow) : b.swallow.conn.state.running = true := by
  rw [swallow]
  split_ifs
  · rfl
  · exact congrArg ConnState.running hs
  · split
    · exact congrArg ConnState.running hs
    · exact congrArg ConnState.running hs
    · rfl

/-- **Where a round leads**: to a command only from a new one or from a read, and to a wait only if more is
needed. -/
theorem drive_cases (h : b.Proper)
    (hn : b.conn.state = .waiting ∨ b.conn.state = .read → b.conn.NeedsMore b.data)
    (e : b.drive st a = some b') :
    b'.conn.state.running = true ∨
      b'.conn.state = .parseCmd ∧ (b.conn.state = .newCmd ∨ b.conn.state = .read) ∨
      b'.conn.state = .waiting ∧ b'.conn.NeedsMore b'.data ∨
      b'.conn.state = .read ∧ b.conn.state = .waiting ∧ b'.conn.NeedsMore b'.data := by
  cases hs : b.conn.state with
  | newCmd =>
      rw [drive, hs] at e
      obtain rfl := Option.some.inj e
      by_cases hd : b.data = []
      · have hdata : b.resetCmdHandler.data = [] := b.connShrink_keeps.2.2.1.trans hd
        refine .inr (.inr (.inl ⟨?_, hdata ▸ Connection.needsMore_nil _⟩))
        simp [resetCmdHandler, b.connShrink_keeps.2.2.1, hd]
      · refine .inr (.inl ⟨?_, .inl rfl⟩)
        simp [resetCmdHandler, b.connShrink_keeps.2.2.1, hd]
  | waiting =>
      rw [drive, hs] at e
      obtain rfl := Option.some.inj e
      exact .inr (.inr (.inr ⟨rfl, rfl, (Connection.needsMore_state .read).mpr (hn (.inl hs))⟩))
  | read =>
      have hf := filled_tryReadNetwork h.pos h.le
      rw [drive_read hs] at e
      obtain rfl := Option.some.inj e
      cases hr : b.tryReadNetwork.2 with
      | noDataReceived =>
          refine .inr (.inr (.inl ⟨rfl, (Connection.needsMore_state .waiting).mpr ?_⟩))
          show b.tryReadNetwork.1.conn.NeedsMore b.tryReadNetwork.1.data
          rw [hf.conn, (hf.noData hr).2]
          exact hn (.inr hs)
      | dataReceived => exact .inr (.inl ⟨rfl, .inr rfl⟩)
      | error => exact .inl rfl
  | parseCmd =>
      rw [drive, hs] at e
      obtain rfl := Option.some.inj e
      cases hm : Machine.tryReadCommand st a.ample ⟨b.conn, b.data, b.log⟩ with
      | some m =>
          rw [(tryReadCommand_some hm).1]
          exact .inl (tryReadCommand_keeps hm).1.running
      | none =>
          obtain ⟨s, he, rfl | ⟨rfl, -⟩⟩ := tryReadCommand_none hm
          · -- the protocol has been negotiated now, and goes by the same first byte
            rw [he]
            exact .inr (.inr (.inl ⟨rfl, (Connection.needsMore_state .waiting).mpr
              ((Connection.needsMore_of_none hm).negotiate h.tcp)⟩))
          · rw [he]
            exact .inl rfl
  | nread =>
      rw [drive, hs] at e
      exact .inl (Option.some.inj e ▸ running_nread hs)
  | swallow =>
      rw [drive, hs] at e
      exact .inl (Option.some.inj e ▸ running_swallow hs)
  | write | mwrite =>
      rw [drive, hs] at e
      obtain rfl := Option.some.inj e
      refine .inl ?_
      simp only [Connection.afterWrite]
      split_ifs
      · rfl
      · exact h.writeAndGo
  | closing =>
      rw [drive, hs] at e
      cases e

/-- Only a closed connection takes no step. -/
theorem drive_of_ne_closing (st : ConnSettings) (a : Answers) (h : b.conn.state ≠ .closing) : ∃ b', b.drive st a = some b' := by
  cases hs : b.conn.state with
  | read => exact ⟨_, drive_read hs⟩
  | closing => exact absurd hs h
  | _ => exact ⟨_, by rw [drive, hs]⟩

/-- **A read that finds nothing** leaves nothing to do. -/
theorem drive_readsAgain (st : ConnSettings) (a : Answers) (h : b.readsAgain = true) : ∃ b', b.drive st a = some b' ∧ b'.Starved := by
  cases hs : b.conn.state with
  | nread =>
      simp only [readsAgain, hs, decide_eq_true_eq] at h
      obtain ⟨hpos, hrest, hread⟩ := h
      have hnread : b.nread st a = { b.copyData with
          socket := (b.copyData.socket.read b.copyData.conn.rlbytes.toNat).2 } := by
        rw [nread, if_neg (by omega), if_neg (by omega)]
        simp only
        rw [if_neg hrest]
        generalize b.copyData.socket.read b.copyData.conn.rlbytes.toNat = r at hread
        obtain ⟨r, k⟩ := r
        obtain rfl : r = .again := hread
        rfl
      refine ⟨_, by rw [drive, hs], ?_⟩
      rw [hnread]
      -- leftovers that do not fill the rest were all that was there
      simp only [copyData, Connection.receive, List.length_take] at hrest
      refine .inr (.inr (.inl ⟨hs, ?_, ?_⟩))
      · simp only [copyData, Connection.receive, List.length_take]
        omega
      · simp only [copyData, List.drop_eq_nil_iff]
        omega
  | swallow =>
      simp only [readsAgain, hs, decide_eq_true_eq] at h
      obtain ⟨hpos, hd, hread⟩ := h
      have hswallow : b.swallow = { b with socket := (b.socket.read (min b.rsize b.conn.sbytes)).2 } := by
        rw [swallow, if_neg hpos, if_neg (by simp [hd])]
        generalize b.socket.read (min b.rsize b.conn.sbytes) = r at hread
        obtain ⟨r, k⟩ := r
        obtain rfl : r = .again := hread
        rfl
      refine ⟨_, by rw [drive, hs], ?_⟩
      rw [hswallow]
      exact .inr (.inr (.inr ⟨hs, Nat.pos_of_ne_zero hpos, hd⟩))
  | _ => simp [readsAgain, hs] at h

end Buffered

namespace Polled

/-- What a round of the call does. -/
inductive Rounds (st : ConnSettings) (a : Answers) (p : Polled) (k : ℤ) (sent : OutConn.TransmitResult)
    (updated : Bool) : Polled → Prop
  /-- The connection goes on. -/
  | drive {b : Buffered} (e : p.buf.drive st a = some b) (hw : p.buf.conn.state ≠ .waiting)
      (hk : p.buf.conn.state = .newCmd → 1 ≤ k) :
      Rounds st a p k sent updated ⟨b, p.evFlags, some (if p.buf.conn.state = .newCmd then k - 1 else k),
        if p.buf.conn.state = .parseCmd then p.tried + 1 else p.tried⟩
  /-- The response is not sent yet. -/
  | again : Rounds st a p k sent updated p
  /-- The call ends. -/
  | stop {b : Buffered} {flags : EventFlags} (hb : b = p.buf ∨ p.buf.drive st a = some b)
      (hs : b.conn.state = .closing ∨ flags = .write ∨ b.Starved) :
      Rounds st a p k sent updated ⟨b, flags, none, p.tried⟩
  /-- Something fails. -/
  | fail {b : Buffered} {k' : ℤ} (hb : b = p.buf ∨ p.buf.drive st a = some b)
      (hf : updated = false ∨ sent = .hardError) (hk : k' ≤ k) :
      Rounds st a p k sent updated ⟨b.shut, p.evFlags, some k', p.tried⟩

/-- One round of the code is one of the abstract rounds. -/
theorem rounds_round (st : ConnSettings) (a : Answers) (k : ℤ) (sent : OutConn.TransmitResult) (updated : Bool) (hk : p.nreqs = some k)
    (hn : p.buf.conn.state = .waiting → p.buf.conn.NeedsMore p.buf.data) :
    Rounds st a p k sent updated (p.round st a k sent updated) := by
  obtain ⟨b, flags, nreqs, tried⟩ := p
  obtain rfl : nreqs = some k := hk
  have hdrive : ∀ {b' k' tried'}, b.drive st a = some b' → b.conn.state ≠ .waiting →
      (b.conn.state = .newCmd → 1 ≤ k) → k' = (if b.conn.state = .newCmd then k - 1 else k) →
      tried' = (if b.conn.state = .parseCmd then tried + 1 else tried) →
      Rounds st a ⟨b, flags, some k, tried⟩ k sent updated ⟨b', flags, some k', tried'⟩ := by
    rintro b' _ _ e hw hk rfl rfl
    exact .drive e hw hk
  have hstop : ∀ {b' k' flags'}, k' ≤ k → (b' = b ∨ b.drive st a = some b') →
      (flags' = .write ∨ b'.Starved) → Rounds st a ⟨b, flags, some k, tried⟩ k sent updated
        (Polled.stop ⟨b', flags, some k', tried⟩ flags' updated) := by
    intro b' k' flags' hle hb hs
    cases updated with
    | true => exact .stop hb (.inr hs)
    | false => exact .fail hb (.inl rfl) hle
  cases hs : b.conn.state with
  | newCmd =>
      simp only [round, hs]
      split_ifs with hgo hd
      · have e : b.drive st a = some b.resetCmdHandler := by rw [Buffered.drive, hs]
        rw [e]
        exact hdrive e (by simp [hs]) (fun _ => by omega) (by simp [hs]) (by simp [hs])
      · -- it yields, and asks for the event that will come in any case
        exact hstop (by omega) (.inl rfl) (.inl rfl)
      · exact .stop (.inl rfl) (.inr (.inr (.inr (.inl ⟨hs, not_not.mp hd⟩))))
  | waiting =>
      have e : b.drive st a = some { b with conn := { b.conn with state := .read } } := by
        rw [Buffered.drive, hs]
      simp only [round, hs, e]
      exact hstop le_rfl (.inr e) (.inr (.inl ⟨rfl, (Connection.needsMore_state .read).mpr (hn hs)⟩))
  | read | parseCmd =>
      obtain ⟨b', e⟩ := Buffered.drive_of_ne_closing st a (b := b) (by simp [hs])
      simp only [round, hs, e]
      exact hdrive e (by simp [hs]) (by simp [hs]) (by simp [hs]) (by simp [hs])
  | nread | swallow =>
      simp only [round, hs]
      split_ifs with hagain
      · obtain ⟨b', e, hstarved⟩ := Buffered.drive_readsAgain st a hagain
        rw [e]
        exact hstop le_rfl (.inr e) (.inr hstarved)
      · obtain ⟨b', e⟩ := Buffered.drive_of_ne_closing st a (b := b) (by simp [hs])
        rw [e]
        exact hdrive e (by simp [hs]) (by simp [hs]) (by simp [hs]) (by simp [hs])
  | write | mwrite =>
      simp only [round, hs]
      cases sent with
      | complete =>
          obtain ⟨b', e⟩ := Buffered.drive_of_ne_closing st a (b := b) (by simp [hs])
          rw [e]
          exact hdrive e (by simp [hs]) (by simp [hs]) (by simp [hs]) (by simp [hs])
      | incomplete => exact .again
      | softError => exact hstop le_rfl (.inl rfl) (.inl rfl)
      | hardError => exact .fail (.inl rfl) (.inr rfl) le_rfl
  | closing =>
      simp only [round, hs]
      exact .stop (.inl rfl) (.inl hs)

/-! ## What a call leaves -/

/-- **A call ends where the connection will be called again**, or where there is nothing to do. -/
structure Awake (p : Polled) : Prop where
  proper : p.buf.Proper
  needs : p.buf.conn.state = .waiting ∨ p.buf.conn.state = .read → p.buf.conn.NeedsMore p.buf.data
  sleeps : p.nreqs = none → p.buf.conn.state = .closing ∨ p.evFlags = .write ∨ p.buf.Starved

/-- A new connection is awake. -/
theorem Awake.init (c : Connection) {rsize : ℕ} (k : Socket) (hr : 0 < rsize) : (init c rsize k).Awake where
  proper := ⟨hr, Nat.zero_le _, rfl, rfl⟩
  needs h := by rcases h with h | h <;> cases h
  sleeps _ := .inr (.inr (.inr (.inl ⟨rfl, rfl⟩)))

/-- What a round makes of the buffer. -/
theorem Awake.drive (h : p.Awake) (e : p.buf.drive st a = some b) :
    b.Proper ∧ (b.conn.state = .waiting ∨ b.conn.state = .read → b.conn.NeedsMore b.data) := by
  refine ⟨h.proper.drive e, fun hs => ?_⟩
  rcases Buffered.drive_cases h.proper h.needs e with hrun | ⟨hparse, -⟩ | ⟨-, hn⟩ | ⟨-, -, hn⟩
  · rcases hs with hs | hs
    · rw [hs] at hrun
      cases hrun
    · rw [hs] at hrun
      cases hrun
  · rcases hs with hs | hs
    · exact absurd (hs.symm.trans hparse) (by decide)
    · exact absurd (hs.symm.trans hparse) (by decide)
  · exact hn
  · exact hn

/-- **One call keeps a connection awake.** -/
theorem Awake.step (h : p.Awake) (hs : Step st a reqsPerEvent p l p') : p'.Awake := by
  have hbuf : ∀ {b}, b = p.buf ∨ p.buf.drive st a = some b →
      b.Proper ∧ (b.conn.state = .waiting ∨ b.conn.state = .read → b.conn.NeedsMore b.data) := by
    rintro b (rfl | e)
    · exact ⟨h.proper, h.needs⟩
    · exact h.drive e
  cases l with
  | event =>
      simp only [Step, next] at hs
      split_ifs at hs
      obtain rfl := Option.some.inj hs
      exact ⟨h.proper, h.needs, nofun⟩
  | round sent updated =>
      obtain ⟨k, hk, rfl⟩ := Option.map_eq_some_iff.mp hs
      have hround := rounds_round st a k sent updated hk fun hw => h.needs (.inl hw)
      generalize p.round st a k sent updated = p' at hround
      cases hround with
      | drive e => exact ⟨(h.drive e).1, (h.drive e).2, nofun⟩
      | again => exact h
      | stop hb hs => exact ⟨(hbuf hb).1, (hbuf hb).2, fun _ => hs⟩
      | fail hb =>
          refine ⟨(hbuf hb).1.of_conn rfl rfl le_rfl le_rfl, fun hc => ?_, nofun⟩
          rcases hc with hc | hc <;> cases hc

/-! ## How long a call lasts -/

/-- **A call has tried no more commands than it may**, but for the one it may have begun with. -/
structure Fair (reqsPerEvent : ℤ) (p : Polled) : Prop where
  tried : p.tried ≤ reqsPerEvent.toNat + 1
  le : ∀ k, p.nreqs = some k → k ≤ reqsPerEvent ∧ p.tried + k.toNat ≤ reqsPerEvent.toNat + 1
  read : ∀ k, p.nreqs = some k → p.buf.conn.state = .read → p.tried = 0 ∧ k = reqsPerEvent
  parseCmd : ∀ k, p.nreqs = some k → p.buf.conn.state = .parseCmd →
    p.tried + k.toNat ≤ reqsPerEvent.toNat

/-- A new connection has tried no command. -/
theorem Fair.init (reqsPerEvent : ℤ) (c : Connection) (rsize : ℕ) (k : Socket) :
    (init c rsize k).Fair reqsPerEvent :=
  ⟨Nat.zero_le _, nofun, nofun, nofun⟩

/-- A round that goes on. -/
theorem Fair.drive {k : ℤ} (h : p.Fair reqsPerEvent) (ha : p.Awake) (hk : p.nreqs = some k)
    (e : p.buf.drive st a = some b) (hw : p.buf.conn.state ≠ .waiting)
    (hnew : p.buf.conn.state = .newCmd → 1 ≤ k) :
    Fair reqsPerEvent ⟨b, p.evFlags, some (if p.buf.conn.state = .newCmd then k - 1 else k),
      if p.buf.conn.state = .parseCmd then p.tried + 1 else p.tried⟩ := by
  obtain ⟨hle, hleft⟩ := h.le k hk
  have hparse := h.parseCmd k hk
  have hread := h.read k hk
  have hcases := Buffered.drive_cases ha.proper ha.needs e
  refine ⟨?_, ?_, ?_, ?_⟩
  · simp only
    split_ifs with hp
    · have := hparse hp
      omega
    · exact h.tried
  · rintro _ ⟨⟩
    simp only
    split_ifs with hc hp hp
    · rw [hc] at hp
      cases hp
    · exact ⟨by omega, by omega⟩
    · have := hparse hp
      exact ⟨hle, by omega⟩
    · exact ⟨hle, hleft⟩
  · -- a read follows a wait, and a wait ends the call
    rintro _ ⟨⟩ hb
    rcases hcases with hrun | ⟨hp, -⟩ | ⟨hwait, -⟩ | ⟨-, hwait, -⟩
    · rw [hb] at hrun
      cases hrun
    · exact absurd (hb.symm.trans hp) (by decide)
    · exact absurd (hb.symm.trans hwait) (by decide)
    · exact absurd hwait hw
  · rintro _ ⟨⟩ hb
    simp only
    rcases hcases with hrun | ⟨-, hc | hr⟩ | ⟨hwait, -⟩ | ⟨hr, -⟩
    · rw [hb] at hrun
      cases hrun
    · have := hnew hc
      rw [if_pos hc, if_neg (by simp [hc])]
      omega
    · obtain ⟨h0, rfl⟩ := hread hr
      rw [if_neg (by simp [hr]), if_neg (by simp [hr])]
      omega
    · exact absurd (hb.symm.trans hwait) (by decide)
    · exact absurd (hb.symm.trans hr) (by decide)

/-- **One call keeps to its share of commands.** -/
theorem Fair.step (h : p.Fair reqsPerEvent) (ha : p.Awake) (hs : Step st a reqsPerEvent p l p') :
    p'.Fair reqsPerEvent := by
  cases l with
  | event =>
      simp only [Step, next] at hs
      split_ifs at hs
      obtain rfl := Option.some.inj hs
      refine ⟨Nat.zero_le _, ?_, ?_, ?_⟩
      · rintro _ ⟨⟩
        exact ⟨le_rfl, by simp only; omega⟩
      · rintro _ ⟨⟩ -
        exact ⟨rfl, rfl⟩
      · rintro _ ⟨⟩ -
        exact (Nat.zero_add _).le
  | round sent updated =>
      obtain ⟨k, hk, rfl⟩ := Option.map_eq_some_iff.mp hs
      have hround := rounds_round st a k sent updated hk fun hw => ha.needs (.inl hw)
      generalize p.round st a k sent updated = p' at hround
      obtain ⟨hle, hleft⟩ := h.le k hk
      cases hround with
      | drive e hw hnew => exact h.drive ha hk e hw hnew
      | again => exact h
      | stop => exact ⟨h.tried, nofun, nofun, nofun⟩
      | fail hb hf hle' =>
          refine ⟨h.tried, ?_, ?_, ?_⟩
          · rintro _ ⟨⟩
            exact ⟨hle'.trans hle, by simp only; omega⟩
          · rintro _ ⟨⟩ ⟨⟩
          · rintro _ ⟨⟩ ⟨⟩

end Polled

/-! ## Runs -/

section

variable {c : Connection} {r r' : ℕ} {k k' : Socket} {ls ls' : List PollStep} {reqsPerEvent' : ℤ}

/-- Nothing fails in the step, and no `try_read_network` finds the end of the stream behind bytes that it
has just read. -/
def Polled.Smooth (p : Polled) : PollStep → Prop
  | .event => True
  | .round sent updated => updated = true ∧ sent ≠ .hardError ∧ ¬ p.buf.Forgets

/-- Take a step if it can be taken. -/
def Polled.exec (st : ConnSettings) (a : Answers) (reqsPerEvent : ℤ) (p : Polled) (l : PollStep) :
    Polled :=
  (p.next st a reqsPerEvent l).getD p

instance (p : Polled) (l : PollStep) : Decidable (p.Smooth l) :=
  match l with
  | .event => .isTrue trivial
  | .round _ _ => inferInstanceAs (Decidable (_ ∧ _ ∧ ¬ _))

/-- A script whose calls all go through is a run. -/
theorem Polled.run_script (h : Transition.checkAll (Polled.exec st a reqsPerEvent)
      (fun p l => (p.next st a reqsPerEvent l).isSome && decide (p.Smooth l)) p ls = true) :
    Run (fun p l p' => p.Step st a reqsPerEvent l p' ∧ p.Smooth l) p ls
      (Transition.execs (Polled.exec st a reqsPerEvent) p ls) := by
  refine Transition.run_execs (fun p l hl => ?_) h
  obtain ⟨hsome, hsmooth⟩ := (Bool.and_eq_true _ _).mp hl
  obtain ⟨p', hp'⟩ := Option.isSome_iff_exists.mp hsome
  exact ⟨by rw [Step, exec, hp', Option.getD_some], of_decide_eq_true hsmooth⟩

/-- Three lines in one read, and a command for each call: the second call yields, with the third line in
the buffer. -/
def threeCalls : List PollStep :=
  [.event, .round .complete true, .round .complete true, .event] ++
    List.replicate 7 (.round .complete true)

/-- Where it has yielded. -/
def yielded : Polled :=
  Transition.execs (Polled.exec .plain (.allocating .ok) 1)
    (.init asciiConn dataBufferSize ⟨[ascii "x\nx\nx\n"], false⟩) threeCalls

/-- The steps up to the yield are a run. -/
theorem run_yielded : Run (Polled.Step .plain (.allocating .ok) 1)
    (.init asciiConn dataBufferSize ⟨[ascii "x\nx\nx\n"], false⟩) threeCalls yielded :=
  (Polled.run_script (by decide +kernel)).mono (P := fun _ => True) trivial fun _ h => ⟨h.1, trivial⟩

/-- Every run keeps the connection awake and fair. -/
theorem Polled.inv_of_run (hr : 0 < r)
    (h : Run (Polled.Step st a reqsPerEvent) (.init c r k) ls p) : p.Awake ∧ p.Fair reqsPerEvent :=
  h.invariant (P := fun p => p.Awake ∧ p.Fair reqsPerEvent) ⟨.init c k hr, .init reqsPerEvent c r k⟩
    fun h hs => ⟨h.1.step hs, h.2.step h.1 hs⟩

/-- **No connection sleeps on what it has**: when `drive_machine` has returned, the connection is closed, or
it will be called as soon as the socket can be written to, or it waits for input and can do nothing
with what is in its buffer. -/
theorem polled_wakes (hr : 0 < r) (h : Run (Polled.Step st a reqsPerEvent) (.init c r k) ls p)
    (hret : p.nreqs = none) :
    p.buf.conn.state = .closing ∨ p.evFlags = .write ∨ p.evFlags = .read ∧ p.buf.Starved := by
  rcases (Polled.inv_of_run hr h).1.sleeps hret with hc | hw | hs
  · exact .inl hc
  · exact .inr (.inl hw)
  · cases hf : p.evFlags with
    | read => exact .inr (.inr ⟨rfl, hs⟩)
    | write => exact .inr (.inl rfl)

/-- The last line is in the buffer, and the connection waits to be writable. -/
theorem polled_wakes_line : yielded.buf.data = ascii "x\n" ∧ yielded.evFlags = .write := by
  have hd : yielded.buf.data = ascii "x\n" := by decide +kernel
  have hnew : yielded.buf.conn.state = .newCmd := by decide +kernel
  refine ⟨hd, ?_⟩
  rcases polled_wakes (by decide) run_yielded (by decide +kernel) with hc | hw | ⟨-, hs⟩
  · exact absurd (hnew.symm.trans hc) (by decide)
  · exact hw
  · simp [Buffered.Starved, hnew, hd, show ascii "x\n" = [120, 10] by decide] at hs

/-- **Others get their turn**: a call of `drive_machine` calls `try_read_command` at most once more than
`reqs_per_event` says, and at most once where that is not positive. -/
theorem polled_fair (hr : 0 < r) (h : Run (Polled.Step st a reqsPerEvent) (.init c r k) ls p) :
    p.tried ≤ reqsPerEvent.toNat + 1 :=
  (Polled.inv_of_run hr h).2.tried

/-- A call that begins with a line handles two. -/
theorem polled_fair_two : yielded.tried = 2 ∧ yielded.tried ≤ 1 + 1 :=
  ⟨by decide +kernel, polled_fair (by decide) run_yielded⟩

/-- What is done in the calls is what the connection does. -/
theorem Polled.within_of_run (hr : 0 < r)
    (h : Run (fun p l p' => p.Step st a reqsPerEvent l p' ∧ p.Smooth l) (.init c r k) ls p) :
    Within (Buffered.drive st a) Buffered.Forgets (.opened c r k) p.buf := by
  have hinv : p.Awake ∧ Within (Buffered.drive st a) Buffered.Forgets (.opened c r k) p.buf := by
    refine h.invariant (P := fun p => p.Awake ∧
      Within (Buffered.drive st a) Buffered.Forgets (.opened c r k) p.buf) ⟨.init c k hr, .here⟩ ?_
    rintro p l p' ⟨ha, hw⟩ ⟨hs, hsmooth⟩
    refine ⟨ha.step hs, ?_⟩
    cases l with
    | event =>
        simp only [Step, next] at hs
        split_ifs at hs
        exact Option.some.inj hs ▸ hw
    | round sent updated =>
        obtain ⟨hu, hsent, hf⟩ := hsmooth
        obtain ⟨k, hk, rfl⟩ := Option.map_eq_some_iff.mp hs
        have hround := rounds_round st a k sent updated hk fun hc => ha.needs (.inl hc)
        generalize p.round st a k sent updated = p' at hround
        cases hround with
        | drive e => exact hw.trans (.step hf e .here)
        | again => exact hw
        | stop hb =>
            rcases hb with rfl | e
            · exact hw
            · exact hw.trans (.step hf e .here)
        | fail _ hfail => exact (hfail.elim (by simp [hu]) hsent).elim
  exact hinv.2

/-- **Nothing is ever read** where `reqs_per_event` is not positive: a call yields before it has looked at
the socket. -/
theorem polled_stalls (hreqs : reqsPerEvent ≤ 0)
    (h : Run (Polled.Step st a reqsPerEvent) (.init c r k) ls p) : p.buf = .opened c r k := by
  have hinv : p.buf = .opened c r k ∧ ∀ nreqs, p.nreqs = some nreqs → nreqs ≤ 0 := by
    refine h.invariant (P := fun p => p.buf = .opened c r k ∧ ∀ nreqs, p.nreqs = some nreqs → nreqs ≤ 0)
      ⟨rfl, nofun⟩ ?_
    rintro p l p' ⟨hbuf, hle⟩ hs
    cases l with
    | event =>
        simp only [Polled.Step, Polled.next] at hs
        split_ifs at hs
        obtain rfl := Option.some.inj hs
        refine ⟨hbuf, ?_⟩
        rintro _ ⟨⟩
        exact hreqs
    | round sent updated =>
        obtain ⟨nreqs, hk, rfl⟩ := Option.map_eq_some_iff.mp hs
        have hneg := hle nreqs hk
        have hnew : p.buf.conn.state = .newCmd := by rw [hbuf]; rfl
        have hdata : ¬ p.buf.data ≠ [] := by rw [hbuf]; simp [Buffered.opened]
        simp only [Polled.round, hnew]
        rw [if_neg (by omega), if_neg hdata]
        exact ⟨hbuf, nofun⟩
  exact hinv.1

/-- A line that is waited for in vain. -/
theorem polled_stalls_line :
    (Transition.execs (Polled.exec .plain (.allocating .ok) (-1))
        (.init asciiConn dataBufferSize ⟨[ascii "x\n"], false⟩)
        [.event, .round .complete true, .event, .round .complete true]).buf
      = .opened asciiConn dataBufferSize ⟨[ascii "x\n"], false⟩ := by
  have hrun : Run (Polled.Step .plain (.allocating .ok) (-1))
      (.init asciiConn dataBufferSize ⟨[ascii "x\n"], false⟩)
      [.event, .round .complete true, .event, .round .complete true] _ :=
    (Polled.run_script (by decide +kernel)).mono (P := fun _ => True) trivial fun _ h => ⟨h.1, trivial⟩
  exact polled_stalls (by decide) hrun

/-- **When a connection is called, and for how long, does not matter**: with any two values of
`reqs_per_event`, whenever events come, however many calls it takes to send a response, and in whatever
reads the stream arrives, the connection does the same things in the same order, and has done them all
when it is closed or waits in vain. -/
theorem polling_invariant (hr : 0 < r) (hr' : 0 < r') (hk : k.stream = k'.stream)
    (hl : Machine.LinesFit st a.ample ⟨c.opened, k.stream, []⟩)
    (h : Run (fun p l p' => p.Step st a reqsPerEvent l p' ∧ p.Smooth l) (.init c r k) ls p)
    (h' : Run (fun p l p' => p.Step st a reqsPerEvent' l p' ∧ p.Smooth l) (.init c r' k') ls' p') :
    (p.buf.log <+: p'.buf.log ∨ p'.buf.log <+: p.buf.log) ∧
      (p.buf.Settled → p'.buf.Settled → p.buf.log = p'.buf.log) := by
  obtain ⟨m, hm, hsim⟩ := matched_of_within hr hl (Polled.within_of_run hr h)
  obtain ⟨m', hm', hsim'⟩ := matched_of_within hr' (hk ▸ hl) (Polled.within_of_run hr' h')
  rw [← hk] at hm'
  rw [← hsim.log_eq, ← hsim'.log_eq]
  refine ⟨(hm.total hm').imp log_prefix_within log_prefix_within, fun hs hs' => ?_⟩
  -- both are on the way of one machine, and the one that is stuck is the last
  rcases hm.total hm' with hw | hw
  · rw [hw.eq_of_none (hsim.stuck hs)]
  · rw [hw.eq_of_none (hsim'.stuck hs')]

/-- The lines come in two reads, and one response takes two calls. -/
def atOnce : Polled :=
  Transition.execs (Polled.exec .plain (.allocating .ok) 20)
    (.init asciiConn dataBufferSize ⟨[ascii "x\nx", ascii "\nx\n"], false⟩)
    ([.event, .round .complete true, .round .complete true, .event, .round .complete true,
      .round .complete true, .round .softError true, .event] ++
      List.replicate 4 (.round .complete true) ++ .event ::
      List.replicate 7 (.round .complete true))

/-- The calls after those of `threeCalls`. -/
def oneEach : Polled :=
  Transition.execs (Polled.exec .plain (.allocating .ok) 1)
    (.init asciiConn dataBufferSize ⟨[ascii "x\nx\nx\n"], false⟩)
    (threeCalls ++ .event :: List.replicate 4 (.round .complete true) ++
      [.event, .round .complete true])

/-- The same lines, one at each call and all at once, log the same. -/
theorem polling_invariant_lines : oneEach.buf.log = atOnce.buf.log := by
  have hone : Run (fun p l p' => p.Step .plain (.allocating .ok) 1 l p' ∧ p.Smooth l) _ _ oneEach :=
    Polled.run_script (by decide +kernel)
  have honce : Run (fun p l p' => p.Step .plain (.allocating .ok) 20 l p' ∧ p.Smooth l) _ _ atOnce :=
    Polled.run_script (by decide +kernel)
  exact (polling_invariant (by decide) (by decide) (by decide +kernel)
    (Machine.linesFit_of_check (n := 20) (by decide +kernel)) hone honce).2
    (by decide +kernel) (by decide +kernel)

end

end Memcached
