import Memcached.ScatterGather

/-! # Sending a response

`transmit` over the answers of `sendmsg`: what has been sent and what the messages still hold make
up the buffers, over TCP as a stream and over UDP in datagrams with their headers.

* **`OutConn.transmit`** — one call, with the answer of `sendmsg`.
* **`Transmits`** — the calls until nothing is left.
* **`respond_lossless`** — the client gets the buffers. -/

namespace Memcached

open CNumber (Bytes)

namespace OutConn

variable {c c' : OutConn} {V W : List (List Bytes)} {w : List Bytes} {iovMax : ℕ} {res : Option ℕ}
  {sent : Bytes} {r : TransmitResult}

/-! ## A call of `transmit` -/

/-- The messages `V` have not been sent. -/
def Pending (c : OutConn) (V : List (List Bytes)) : Prop :=
  ∃ pre n, c.msglist = pre ++ headers c.iov n V ∧ pre.length = c.msgcurr ∧
    entries (c.iovec c.iov) n V.flatten.length = V.flatten

/-- All messages are pending at first. -/
theorem Holds.pending (h : c.Holds W) (h0 : c.msgcurr = 0) : c.Pending W :=
  ⟨[], 0, h.msglist, h0.symm, h.iovused ▸ h.entries⟩

/-- There are as many entries as places. -/
@[simp] theorem length_entries (f : ℕ → Bytes) (n l : ℕ) : (entries f n l).length = l := by
  induction l generalizing n with
  | zero => rfl
  | succ l ih => rw [entries, List.length_cons, ih]

/-- The entries of the first message, and of the others. -/
theorem entries_cons {f : ℕ → Bytes} {n : ℕ}
    (h : entries f n (w :: V).flatten.length = (w :: V).flatten) :
    entries f n w.length = w ∧ entries f (n + w.length) V.flatten.length = V.flatten := by
  rw [List.flatten_cons, List.length_append, entries_append] at h
  exact List.append_inj h (length_entries ..)

/-- The messages after `advance`. -/
def afterSent : List (List Bytes) → List (List Bytes)
  | [] :: V => V
  | V => V

/-- The start of `transmit` leaves the first message behind if nothing is left of it. -/
theorem Pending.advance (h : c.Pending V) :
    c.advance.Pending (afterSent V) ∧ c.advance.udp = c.udp ∧
      c.advance.requestId = c.requestId ∧ c.advance.msglist = c.msglist ∧
      c.advance.iov = c.iov ∧ c.advance.iovec = c.iovec ∧
      c.advance.msgcurr = c.msgcurr + if V.head? = some [] then 1 else 0 := by
  obtain ⟨pre, n, hlist, hpre, hent⟩ := h
  have hget : c.msglist[c.msgcurr]? = (headers c.iov n V).head? := by
    rw [hlist, ← hpre, List.getElem?_append_right le_rfl, Nat.sub_self, List.head?_eq_getElem?]
  rw [OutConn.advance, hget]
  cases V with
  | nil => exact ⟨⟨pre, n, hlist, hpre, hent⟩, rfl, rfl, rfl, rfl, rfl, rfl⟩
  | cons w V =>
      rw [headers, List.head?_cons]
      cases w with
      | nil =>
          refine ⟨⟨pre ++ [⟨c.iov, n, 0⟩], n, ?_, ?_, hent⟩, rfl, rfl, rfl, rfl, rfl, rfl⟩
          · rw [hlist, headers, List.append_assoc]
            rfl
          · rw [List.length_append, hpre]
            rfl
      | cons x t =>
          exact ⟨⟨pre, n, hlist, hpre, hent⟩, rfl, rfl, rfl, rfl, rfl, by simp⟩

/-- **The loop over the entries that have been sent** stops in the middle of an entry, or at the
end. -/
theorem skipIovs_spec {f : ℕ → Bytes} {n k : ℕ} (h : entries f n w.length = w) :
    ∃ gone left, w = gone ++ left ∧
      skipIovs f w.length n k = (left.length, n + gone.length, k - gone.flatten.length) ∧
      gone.flatten.length ≤ k ∧
      ∀ x t, left = x :: t → k - gone.flatten.length < x.length := by
  -- by induction on the entries, from the first one
  induction w generalizing n k with
  | nil => exact ⟨[], [], rfl, rfl, Nat.zero_le _, nofun⟩
  | cons x t ih =>
      rw [List.length_cons, entries] at h
      obtain ⟨hx, ht⟩ := List.cons.inj h
      rw [List.length_cons, skipIovs, hx]
      split
      · rename_i hle
        obtain ⟨gone, left, rfl, hskip, hgone, hleft⟩ := ih (k := k - x.length) ht
        have hlen : (x :: gone).flatten.length = x.length + gone.flatten.length := by simp
        refine ⟨x :: gone, left, rfl, ?_, ?_, ?_⟩
        · rw [hskip, hlen, List.length_cons, Nat.sub_sub, Nat.add_assoc, Nat.add_comm 1]
        · rw [hlen]
          omega
        · intro y s hys
          have := hleft y s hys
          rw [hlen]
          omega
      · rename_i hlt
        refine ⟨[], x :: t, rfl, rfl, Nat.zero_le _, ?_⟩
        intro y s hys
        obtain ⟨rfl, rfl⟩ := List.cons.inj hys
        simpa using hlt

/-- **`sendmsg` has taken some bytes**: the message holds the rest. -/
theorem Pending.consume (h : c.Pending (w :: V)) {m : Msghdr} (hm : c.msglist[c.msgcurr]? = some m)
    {k : ℕ} (hk : 0 < k) (hle : k ≤ w.flatten.length) : c.message m = w ∧ ∃ rest,
      w.flatten.take k ++ rest.flatten = w.flatten ∧ w.flatten.take k ≠ [] ∧
      rest.length ≤ w.length ∧ (rest.flatten = [] → rest = []) ∧
      (c.consume m k).Pending (rest :: V) := by
  obtain ⟨pre, n, hlist, hpre, hent⟩ := h
  obtain ⟨hw, hV⟩ := entries_cons hent
  obtain rfl : m = ⟨c.iov, n, w.length⟩ := by
    rw [hlist, ← hpre, List.getElem?_append_right le_rfl, Nat.sub_self, headers] at hm
    exact (Option.some.inj hm).symm
  refine ⟨hw, ?_⟩
  have htake : w.flatten.take k ≠ [] := by
    intro hnil
    have hlen := congrArg List.length hnil
    rw [List.length_take, List.length_nil] at hlen
    omega
  obtain ⟨gone, left, rfl, hskip, hgone, hleft⟩ := skipIovs_spec (k := k) hw
  have hset : ∀ m', c.msglist.set c.msgcurr m'
      = pre ++ m' :: headers c.iov (n + (gone ++ left).length) V := fun m' => by
    rw [hlist, ← hpre, headers, List.set_append_right _ _ le_rfl, Nat.sub_self, List.set_cons_zero]
  rw [OutConn.consume]
  simp only [hskip]
  rw [List.flatten_append] at htake hle ⊢
  rw [List.length_append] at hV hle
  cases left with
  | nil =>
      -- all of it
      have hall : k = gone.flatten.length := by
        rw [List.flatten_nil, List.length_nil] at hle
        omega
      refine ⟨[], ?_, htake, Nat.zero_le _, fun _ => rfl, pre, n + gone.length, ?_, hpre, ?_⟩
      · rw [List.flatten_nil, List.append_nil, List.append_nil, hall, List.take_length]
      · rw [hset, headers, List.append_nil]
        rfl
      · rw [if_neg (by omega)]
        exact hV
  | cons x t =>
      have hlt := hleft x t rfl
      set d := k - gone.flatten.length with hd
      have hentries : entries (c.iovec c.iov) (n + gone.length) (t.length + 1) = x :: t := by
        rw [List.length_append, entries_append] at hw
        exact (List.append_inj_right' hw (by rw [length_entries])).trans rfl
      rw [entries] at hentries
      obtain ⟨hx, ht⟩ := List.cons.inj hentries
      -- the entry in the middle of which it stops
      set f := if d > 0 then setIovec c.iovec c.iov (n + gone.length)
        ((c.iovec c.iov (n + gone.length)).drop d) else c.iovec with hf
      have hfirst : f c.iov (n + gone.length) = x.drop d := by
        rw [hf, hx]
        split
        · simp [setIovec]
        · have hzero : d = 0 := by omega
          rw [hzero, hx, List.drop_zero]
      have hothers : ∀ i, i ≠ n + gone.length → f c.iov i = c.iovec c.iov i := fun i hi => by
        rw [hf]
        split
        · simp [setIovec, hi]
        · rfl
      have hflat : (gone.flatten ++ (x :: t).flatten) =
          (gone.flatten ++ x.take d) ++ (x.drop d ++ t.flatten) := by
        rw [List.flatten_cons, List.append_assoc, ← List.append_assoc (x.take d),
          List.take_append_drop]
      have hprefix : (gone.flatten ++ x.take d).length = k := by
        rw [List.length_append, List.length_take]
        omega
      refine ⟨x.drop d :: t, ?_, htake, ?_, fun hnil => ?_, pre, n + gone.length, ?_, hpre, ?_⟩
      · rw [hflat, ← hprefix, List.take_left' rfl, List.flatten_cons]
      · simp
      · rw [List.flatten_cons, List.append_eq_nil_iff, List.drop_eq_nil_iff] at hnil
        omega
      · rw [hset, headers, List.length_append, List.length_cons, List.length_cons, Nat.add_assoc]
      · rw [List.flatten_cons, List.length_append, List.length_cons, entries_append]
        show f c.iov (n + gone.length) :: entries (f c.iov) (n + gone.length + 1) t.length
          ++ entries (f c.iov) (n + gone.length + (t.length + 1)) V.flatten.length
          = x.drop d :: t ++ V.flatten
        rw [hfirst]
        congr 2
        · rw [← ht, length_entries]
          apply entries_congr
          intro i h₁ _
          exact hothers i (by omega)
        · rw [← hV, length_entries, List.length_cons, ← Nat.add_assoc n]
          apply entries_congr
          intro i h₁ _
          exact hothers i (by omega)

/-- The outcomes of a call of `transmit` that finds the messages `V`: the answer of `sendmsg`, the
bytes sent and the result. -/
inductive Call (c' : OutConn) : List (List Bytes) → Option ℕ → Bytes → TransmitResult → Prop
  /-- Everything has been sent. -/
  | complete {res : Option ℕ} : Call c' [] res [] .complete
  /-- Nothing can be sent now. -/
  | wait {w : List Bytes} {V : List (List Bytes)} (h : c'.Pending (w :: V)) :
      Call c' (w :: V) none [] .softError
  /-- The message has no bytes. -/
  | fail {w : List Bytes} {V : List (List Bytes)} (h : w.flatten = []) :
      Call c' (w :: V) (some 0) [] .hardError
  /-- Part of the message has been sent, over UDP all of it. -/
  | sent {w rest : List Bytes} {V : List (List Bytes)} {k : ℕ} {sent : Bytes}
      (hsplit : sent ++ rest.flatten = w.flatten) (hsent : sent ≠ [])
      (hle : rest.length ≤ w.length) (hrest : rest.flatten = [] → rest = [])
      (hudp : c'.udp = true → rest = []) (h : c'.Pending (rest :: V)) :
      Call c' (w :: V) (some k) sent .incomplete

/-- **What a call of `transmit` does.** -/
theorem Pending.transmit (h : c.Pending V) (hlens : ∀ m ∈ V, m.length ≤ iovMax)
    (hans : c.Answer iovMax res) (e : c.transmit res = (c', sent, r)) :
    Call c' (afterSent V) res sent r ∧ c'.udp = c.udp ∧ c'.requestId = c.requestId ∧
      c'.msglist.length = c.msglist.length ∧
      c'.msgcurr = c.msgcurr + if V.head? = some [] then 1 else 0 := by
  obtain ⟨hp, hudp, hid, hlist, -, -, hcurr⟩ := h.advance
  rw [Answer] at hans
  rw [OutConn.transmit] at e
  set d := c.advance
  have hmem : ∀ m ∈ afterSent V, m ∈ V := fun m hm => by
    rcases V with _ | ⟨_ | ⟨x, t⟩, V⟩
    · exact hm
    · exact List.mem_cons_of_mem _ hm
    · exact hm
  obtain ⟨pre, n, hheaders, hpre, hent⟩ := hp
  have hget : d.msglist[d.msgcurr]? = (headers d.iov n (afterSent V)).head? := by
    rw [hheaders, ← hpre, List.getElem?_append_right le_rfl, Nat.sub_self, List.head?_eq_getElem?]
  cases hV : afterSent V with
  | nil =>
      rw [hV, headers, List.head?_nil] at hget
      simp only [hget, Prod.mk.injEq] at e
      obtain ⟨rfl, rfl, rfl⟩ := e
      exact ⟨.complete, hudp, hid, congrArg List.length hlist, hcurr⟩
  | cons w V' =>
      have hpend : d.Pending (w :: V') := ⟨pre, n, hV ▸ hheaders, hpre, hV ▸ hent⟩
      rw [hV, headers, List.head?_cons] at hget
      have hans := hans _ hget
      simp only [hget] at e
      have hmsg : d.message ⟨d.iov, n, w.length⟩ = w := (entries_cons (hV ▸ hent)).1
      rw [hmsg] at hans
      have hw : w.length ≤ iovMax := hlens w (hmem w (by rw [hV]; exact List.mem_cons_self))
      rcases res with _ | _ | k
      · obtain ⟨rfl, rfl, rfl⟩ := by simpa using e
        exact ⟨.wait hpend, hudp, hid, congrArg List.length hlist, hcurr⟩
      · obtain ⟨rfl, rfl, rfl⟩ := by simpa using e
        refine ⟨.fail ?_, hudp, hid, congrArg List.length hlist, hcurr⟩
        by_contra hne
        rw [SendmsgAnswer, if_pos ⟨hw, hne⟩] at hans
        exact absurd hans.1 (Nat.lt_irrefl 0)
      · simp only [Prod.mk.injEq] at e
        obtain ⟨rfl, rfl, rfl⟩ := e
        have hne : w.flatten ≠ [] := by
          intro hnil
          rw [SendmsgAnswer, if_neg fun hc => hc.2 hnil] at hans
          exact absurd hans (Nat.succ_ne_zero k)
        rw [SendmsgAnswer, if_pos ⟨hw, hne⟩] at hans
        obtain ⟨-, rest, hsplit, hsent, hle, hrest, hp'⟩ :=
          hpend.consume hget (show 0 < k + 1 by omega) hans.2.1
        rw [hmsg]
        refine ⟨.sent hsplit hsent hle hrest (fun hu => ?_) hp', hudp, hid, ?_, hcurr⟩
        · -- a datagram is taken as a whole
          have hall := hans.2.2 (hudp.symm.trans hu)
          rw [hall, List.take_length] at hsplit
          exact hrest (List.append_right_eq_self.mp hsplit)
        · show (List.set ..).length = _
          rw [List.length_set, hlist]

/-! ## TCP -/

/-- A message without bytes in it comes after the last byte. -/
def LastEmpty (V : List (List Bytes)) : Prop :=
  V.Pairwise fun m m' => m ≠ [] → m.flatten = [] → m'.flatten = []

/-- An empty message that is left behind takes no bytes along. -/
theorem flatten_afterSent (V : List (List Bytes)) :
    (afterSent V).flatten = V.flatten ∧ (∀ m ∈ afterSent V, m ∈ V) ∧
      ((∀ m ∈ V.tail, m ≠ []) → ∀ m ∈ afterSent V, m ≠ []) ∧
      (LastEmpty V → LastEmpty (afterSent V)) := by
  rcases V with _ | ⟨_ | ⟨x, t⟩, V⟩
  · exact ⟨rfl, fun _ h => h, fun _ => nofun, id⟩
  · exact ⟨rfl, fun _ h => List.mem_cons_of_mem _ h, id, fun h => (List.pairwise_cons.mp h).2⟩
  · refine ⟨rfl, fun _ h => h, fun h m hm => ?_, id⟩
    rcases List.mem_cons.mp hm with rfl | hm
    · exact List.cons_ne_nil _ _
    · exact h m hm

/-- **Sending a stream**: what has been sent is the beginning of what the messages held. The run ends
when nothing is left, and an answer other than `EAGAIN` brings it nearer to that. -/
theorem Transmits.stream {es : List (Option ℕ × Bytes)} {o : Option TransmitResult}
    (ht : Transmits iovMax c es o c') (hudp : c.udp = false) (hp : c.Pending V)
    (htail : ∀ m ∈ V.tail, m ≠ []) (hlens : ∀ m ∈ V, m.length ≤ iovMax) (hlast : LastEmpty V) :
    ∃ rest, sentBytes es ++ rest = V.flatten.flatten ∧ (o ≠ none → rest = []) ∧
      (o = none → (es.filter (·.1.isSome)).length ≤ (sentBytes es).length) := by
  have hprepare : ∀ c : OutConn, c.udp = false → c.prepare = c := fun c hu => by
    rw [prepare, hu]
    rfl
  have hcons : ∀ (e : Option ℕ × Bytes) (es), sentBytes (e :: es) = e.2 ++ sentBytes es :=
    fun _ _ => rfl
  -- by induction on the calls of `transmit`, with `V` left to send
  induction ht generalizing V with
  | @pending c => exact ⟨V.flatten.flatten, rfl, fun h => absurd rfl h, fun _ => le_rfl⟩
  | @step c c' c'' res sent r es o hans e hr ht ih =>
      rw [hprepare c hudp] at hans e
      obtain ⟨hcall, hudp', -, -, -⟩ := hp.transmit hlens hans e
      obtain ⟨hflat, hmem, hne, hlast'⟩ := flatten_afterSent V
      rw [← hflat]
      replace hlens := fun m hm => hlens m (hmem m hm)
      replace hne := hne htail
      replace hlast := hlast' hlast
      generalize afterSent V = W at hcall hlens hne hlast
      cases hcall with
      | complete => exact absurd hr (by simp)
      | fail hempty => exact absurd hr (by simp)
      | @wait w V' hp' =>
          have htail' : ∀ m ∈ (w :: V').tail, m ≠ [] := fun m hm =>
            hne m (List.mem_cons_of_mem _ hm)
          exact ih (hudp'.trans hudp) hp' htail' hlens hlast
      | @sent w left V' k sent hsplit hsent hle hrest hu hp' =>
          have htail' : ∀ m ∈ (left :: V').tail, m ≠ [] := fun m hm =>
            hne m (List.mem_cons_of_mem _ hm)
          have hlens' : ∀ m ∈ left :: V', m.length ≤ iovMax := by
            intro m hm
            rcases List.mem_cons.mp hm with rfl | hm
            · exact hle.trans (hlens w List.mem_cons_self)
            · exact hlens m (List.mem_cons_of_mem _ hm)
          have hlast' : LastEmpty (left :: V') :=
            List.pairwise_cons.mpr ⟨fun _ _ hleft hnil => absurd (hrest hnil) hleft,
              (List.pairwise_cons.mp hlast).2⟩
          obtain ⟨rest, hsum, hend, hcount⟩ := ih (hudp'.trans hudp) hp' htail' hlens' hlast'
          refine ⟨rest, ?_, hend, fun ho => ?_⟩
          · calc sentBytes ((some k, sent) :: es) ++ rest
                = sent ++ (sentBytes es ++ rest) := by rw [hcons, List.append_assoc]
              _ = sent ++ (left.flatten ++ V'.flatten.flatten) := by
                  rw [hsum, List.flatten_cons, List.flatten_append]
              _ = (w :: V').flatten.flatten := by
                  rw [← List.append_assoc, hsplit, List.flatten_cons, List.flatten_append]
          · have hpos := List.length_pos_iff.mpr hsent
            have hrest := hcount ho
            rw [hcons, List.length_append, List.filter_cons_of_pos (by rfl), List.length_cons]
            simp only
            omega
  | @last c c' res sent r hans e hr =>
      rw [hprepare c hudp] at hans e
      obtain ⟨hcall, -, -, -, -⟩ := hp.transmit hlens hans e
      obtain ⟨hflat, -, hne, hlast'⟩ := flatten_afterSent V
      rw [← hflat]
      replace hne := hne htail
      replace hlast := hlast' hlast
      generalize afterSent V = W at hcall hne hlast
      refine ⟨[], ?_, fun _ => rfl, nofun⟩
      cases hcall with
      | complete => rfl
      | wait hp' => exact absurd hr (by simp)
      | sent hsplit hsent hle hrest hu hp' => exact absurd hr (by simp)
      | @fail w V' hempty =>
          -- and so have the messages after it
          have hothers : V'.flatten.flatten = [] := by
            rw [List.flatten_flatten, List.flatten_eq_nil_iff]
            intro x hx
            obtain ⟨m, hm, rfl⟩ := List.mem_map.mp hx
            exact (List.pairwise_cons.mp hlast).1 m hm (hne w List.mem_cons_self) hempty
          rw [List.flatten_cons, List.flatten_append, hempty, hothers]
          rfl

/-! ## UDP -/

/-- Messages that hold the payloads `P`, with the headers of datagrams from number `i` on. -/
def withHeaders (requestId total : ℕ) : ℕ → List (List Bytes) → List (List Bytes)
  | _, [] => []
  | i, p :: P => (udpHeader requestId i total :: p) :: withHeaders requestId total (i + 1) P

/-- The messages hold payloads, after an entry for the header each. -/
def HasPayloads (V P : List (List Bytes)) : Prop := List.Forall₂ (fun m p => ∃ x, m = x :: p) V P

variable {P : List (List Bytes)} {f : ℕ → ℕ → Bytes} {b n i k requestId total : ℕ}

/-- Datagrams with their headers have the payloads. -/
theorem hasPayloads_withHeaders (requestId total i : ℕ) (P : List (List Bytes)) :
    HasPayloads (withHeaders requestId total i P) P := by
  induction P generalizing i with
  | nil => exact .nil
  | cons p P ih => exact .cons ⟨_, rfl⟩ (ih (i + 1))

/-- What only the numbers of entries matter for. -/
theorem HasPayloads.congr {V' : List (List Bytes)} (h : HasPayloads V P) (h' : HasPayloads V' P) :
    headers b n V = headers b n V' ∧ V.flatten.length = V'.flatten.length := by
  induction h generalizing V' n with
  | nil =>
      cases h'
      exact ⟨rfl, rfl⟩
  | @cons m p V P hm _ ih =>
      cases h' with
      | @cons m' _ V' _ hm' h' =>
          obtain ⟨x, rfl⟩ := hm
          obtain ⟨y, rfl⟩ := hm'
          obtain ⟨hheaders, hlen⟩ := ih h' (n := n + (p.length + 1))
          refine ⟨?_, ?_⟩
          · simp only [headers, List.length_cons, hheaders]
          · simp only [List.flatten_cons, List.length_append, List.length_cons, hlen]

/-- Headers are written where the messages begin, or later. -/
theorem writeHeaders_before (hk : k < n) (V : List (List Bytes)) :
    writeHeaders requestId total i (headers b n V) f b k = f b k := by
  induction V generalizing i n f with
  | nil => rfl
  | cons w V ih =>
      rw [headers, writeHeaders, ih (Nat.lt_add_right _ hk)]
      simp [setIovec, hk.ne]

/-- **Every message gets its header.** -/
theorem writeHeaders_spec (requestId total i : ℕ) (hV : HasPayloads V P)
    (h : entries (f b) n V.flatten.length = V.flatten) :
    entries (writeHeaders requestId total i (headers b n V) f b) n V.flatten.length
      = (withHeaders requestId total i P).flatten := by
  -- by induction on the messages; the headers of the earlier ones stay
  induction hV generalizing i n f with
  | nil => rfl
  | @cons m p V P hm _ ih =>
      obtain ⟨x, rfl⟩ := hm
      obtain ⟨hfirst, hrest⟩ := entries_cons h
      rw [List.length_cons, entries] at hfirst
      have hp := (List.cons.inj hfirst).2
      rw [headers, writeHeaders, withHeaders, List.flatten_cons, List.flatten_cons,
        List.length_append, entries_append]
      set f₁ := setIovec f b n (udpHeader requestId i total) with hf₁
      have hne : ∀ k, k ≠ n → f₁ b k = f b k := fun k hk => by
        simp [hf₁, setIovec, hk]
      have hself : f₁ b n = udpHeader requestId i total := by
        simp [hf₁, setIovec]
      have hothers : entries (f₁ b) (n + (x :: p).length) V.flatten.length = V.flatten := by
        rw [← hrest, length_entries]
        apply entries_congr
        intro k hk _
        rw [List.length_cons] at hk
        exact hne k (by omega)
      rw [ih (i + 1) hothers]
      congr 1
      rw [List.length_cons, entries, writeHeaders_before (by omega), hself]
      congr 1
      rw [← hp, length_entries]
      apply entries_congr
      intro k h₁ h₂
      rw [writeHeaders_before (by omega)]
      exact hne k (by omega)

/-- The connection has the payloads `P` to send, in datagrams from number `k` on; the headers are
written as long as `msgcurr` is 0. -/
def UdpPending (c : OutConn) (k : ℕ) (P : List (List Bytes)) : Prop :=
  ∃ V, c.Pending V ∧ (c.msgcurr = 0 ∧ k = 0 ∧ HasPayloads V P ∨
    V = [] :: withHeaders c.requestId c.msglist.length k P ∧ (c.msgcurr = 0 → k = 1) ∨
    V = withHeaders c.requestId c.msglist.length k P ∧ c.msgcurr ≠ 0)

/-- The messages with headers are not without entries. -/
theorem afterSent_withHeaders (i : ℕ) (P : List (List Bytes)) :
    afterSent (withHeaders requestId total i P) = withHeaders requestId total i P ∧
      (withHeaders requestId total i P).head? ≠ some [] := by
  cases P <;> exact ⟨rfl, by simp [withHeaders]⟩

/-- **Before a datagram is sent** its header is there, and the headers of those after it. -/
theorem UdpPending.prepare (h : c.UdpPending k P) (hudp : c.udp = true) : ∃ V,
    c.prepare.Pending V ∧ afterSent V = withHeaders c.requestId c.msglist.length k P ∧
      (V.head? ≠ some [] → c.msgcurr = 0 → k = 0) ∧
      c.prepare.udp = c.udp ∧ c.prepare.requestId = c.requestId ∧
      c.prepare.msglist = c.msglist ∧ c.prepare.msgcurr = c.msgcurr := by
  obtain ⟨V, ⟨pre, n, hlist, hpre, hent⟩, hV⟩ := h
  have hbuild : c.buildUdpHeaders.iovec
      = writeHeaders c.requestId c.msglist.length 0 c.msglist c.iovec := rfl
  generalize c.msglist.length = N at hV hbuild ⊢
  by_cases h0 : c.msgcurr = 0
  · have hprep : c.prepare = c.buildUdpHeaders := by
      rw [OutConn.prepare, hudp, h0]
      rfl
    obtain rfl : pre = [] := List.eq_nil_of_length_eq_zero (hpre.trans h0)
    rw [List.nil_append] at hlist
    rw [hprep]
    rcases hV with ⟨-, rfl, hV⟩ | ⟨rfl, hk⟩ | ⟨-, hne⟩
    · -- no datagram has been sent
      obtain ⟨hheaders, hlen⟩ := hV.congr (b := c.iov) (n := n)
        (hasPayloads_withHeaders c.requestId N 0 P)
      refine ⟨_, ⟨[], n, hlist.trans hheaders, hpre, ?_⟩, (afterSent_withHeaders 0 P).1,
        fun _ _ => rfl, rfl, rfl, rfl, rfl⟩
      rw [hbuild, hlist]
      exact hlen ▸ writeHeaders_spec c.requestId N 0 hV hent
    · -- the first one has been sent: its header is written where the second message begins, and
      -- then the header of that one
      obtain rfl := hk h0
      refine ⟨[] :: withHeaders c.requestId N 1 P, ⟨[], n, hlist, hpre, ?_⟩, rfl,
        fun hc => absurd rfl hc, rfl, rfl, rfl, rfl⟩
      rw [hbuild, hlist, headers, writeHeaders]
      cases P with
      | nil => rfl
      | cons p P =>
          have hW : HasPayloads ((udpHeader c.requestId 0 N :: p) :: withHeaders c.requestId N 2 P)
              (p :: P) := .cons ⟨_, rfl⟩ (hasPayloads_withHeaders c.requestId N 2 P)
          obtain ⟨hfirst, hrest⟩ := entries_cons
            (show entries (c.iovec c.iov) n ((udpHeader c.requestId 1 N :: p)
              :: withHeaders c.requestId N 2 P).flatten.length = _ from hent)
          rw [List.length_cons, entries] at hfirst
          have hstart : entries (setIovec c.iovec c.iov n (udpHeader c.requestId 0 N) c.iov) n
              ((udpHeader c.requestId 0 N :: p) :: withHeaders c.requestId N 2 P).flatten.length
              = ((udpHeader c.requestId 0 N :: p) :: withHeaders c.requestId N 2 P).flatten := by
            rw [List.flatten_cons, List.length_append, List.length_cons, entries_append, entries]
            congr 1
            · congr 1
              · simp [setIovec]
              · rw [← (List.cons.inj hfirst).2, length_entries]
                apply entries_congr
                intro k h₁ _
                have hne : k ≠ n := by omega
                simp [setIovec, hne]
            · rw [← hrest, length_entries]
              apply entries_congr
              intro k h₁ _
              have hne : k ≠ n := by omega
              simp [setIovec, hne]
          obtain ⟨hheaders, hlen⟩ := hW.congr (b := c.iov) (n := n)
            (hasPayloads_withHeaders c.requestId N 1 (p :: P))
          have hspec := writeHeaders_spec c.requestId N 1 hW hstart
          rw [hheaders, hlen] at hspec
          exact hspec
    · exact absurd h0 hne
  · have hprep : c.prepare = c := by
      rw [OutConn.prepare, hudp, Bool.true_and, if_neg]
      simpa using h0
    rw [hprep]
    rcases hV with ⟨hzero, -⟩ | ⟨rfl, hk⟩ | ⟨rfl, -⟩
    · exact absurd hzero h0
    · exact ⟨_, ⟨pre, n, hlist, hpre, hent⟩, rfl, fun hc => absurd rfl hc, rfl, rfl, rfl, rfl⟩
    · exact ⟨_, ⟨pre, n, hlist, hpre, hent⟩, (afterSent_withHeaders k P).1,
        fun _ hc => absurd hc h0, rfl, rfl, rfl, rfl⟩

/-- A message with a header has bytes. -/
theorem flatten_withHeader (p : List Bytes) : (udpHeader requestId i total :: p).flatten ≠ [] := by
  simp [udpHeader]

/-- `sendmsg` takes the messages. -/
theorem length_le_of_afterSent (hV : afterSent V = withHeaders requestId total i P)
    (hlens : ∀ p ∈ P, p.length + 1 ≤ iovMax) : ∀ m ∈ V, m.length ≤ iovMax := by
  have hwith : ∀ (i : ℕ) (P : List (List Bytes)), (∀ p ∈ P, p.length + 1 ≤ iovMax) →
      ∀ m ∈ withHeaders requestId total i P, m.length ≤ iovMax := fun i P => by
    induction P generalizing i with
    | nil => exact fun _ => nofun
    | cons p P ih =>
        intro h m hm
        rcases List.mem_cons.mp hm with rfl | hm
        · exact h p List.mem_cons_self
        · exact ih (i + 1) (fun q hq => h q (List.mem_cons_of_mem _ hq)) m hm
  intro m hm
  have hmem : m = [] ∨ m ∈ afterSent V := by
    rcases V with _ | ⟨_ | ⟨x, t⟩, V⟩
    · exact absurd hm (by simp)
    · exact List.mem_cons.mp hm
    · exact Or.inr hm
  rcases hmem with rfl | hmem
  · exact Nat.zero_le _
  · rw [hV] at hmem
    exact hwith i P hlens m hmem

/-- **Sending datagrams**: those sent are the first ones, each with its header. The run ends when
all have been sent, and an answer other than `EAGAIN` is a datagram more. -/
theorem Transmits.packets {es : List (Option ℕ × Bytes)} {o : Option TransmitResult}
    (ht : Transmits iovMax c es o c') (hudp : c.udp = true) (hp : c.UdpPending k P)
    (hlens : ∀ p ∈ P, p.length + 1 ≤ iovMax) :
    ∃ gone left, P = gone ++ left ∧
      datagrams es = (withHeaders c.requestId c.msglist.length k gone).map List.flatten ∧
      (o ≠ none → left = [] ∧ o = some .complete) ∧
      (o = none → (es.filter (·.1.isSome)).length ≤ (datagrams es).length) := by
  -- by induction on the calls of `transmit`, with the datagrams `P` left to send
  induction ht generalizing k P with
  | @pending c => exact ⟨[], P, rfl, rfl, fun h => absurd rfl h, fun _ => le_rfl⟩
  | @step c c' c'' res sent r es o hans e hr ht ih =>
      obtain ⟨V, hpend, hV, hfirst, hudp', hid, hlist, hcurr⟩ := hp.prepare hudp
      have hlensV := length_le_of_afterSent hV hlens
      obtain ⟨hcall, hu, hi, hl, hc⟩ := hpend.transmit hlensV hans e
      have hu : c'.udp = true := hu.trans (hudp'.trans hudp)
      rw [hid] at hi
      rw [hlist] at hl
      rw [hcurr] at hc
      rw [hV] at hcall
      rw [← hi, ← hl] at hcall ⊢
      cases P with
      | nil =>
          cases hcall
          exact absurd hr (by simp)
      | cons p P =>
          rw [withHeaders] at hcall
          cases hcall with
          | fail hempty => exact absurd hempty (flatten_withHeader p)
          | wait hp' =>
              have hnext : c'.UdpPending k (p :: P) := by
                refine ⟨_, hp', ?_⟩
                by_cases h0 : c'.msgcurr = 0
                · left
                  have hhead : V.head? ≠ some [] := by
                    intro hhead
                    rw [if_pos hhead] at hc
                    omega
                  rw [if_neg hhead] at hc
                  exact ⟨h0, hfirst hhead (by omega), .cons ⟨_, rfl⟩ (hasPayloads_withHeaders ..)⟩
                · exact Or.inr (Or.inr ⟨rfl, h0⟩)
              obtain ⟨gone, left, hsplit, hds, hend, hcount⟩ := ih hu hnext hlens
              exact ⟨gone, left, hsplit, hds, hend, hcount⟩
          | @sent _ rest _ j sent hsplit hsent hle hrest hall hp' =>
              obtain rfl := hall hu
              rw [List.flatten_nil, List.append_nil] at hsplit
              have hnext : c'.UdpPending (k + 1) P := by
                refine ⟨_, hp', Or.inr (Or.inl ⟨rfl, fun h0 => ?_⟩)⟩
                have hhead : V.head? ≠ some [] := by
                  intro hhead
                  rw [if_pos hhead] at hc
                  omega
                rw [if_neg hhead] at hc
                rw [hfirst hhead (by omega)]
              obtain ⟨gone, left, rfl, hds, hend, hcount⟩ :=
                ih hu hnext fun q hq => hlens q (List.mem_cons_of_mem _ hq)
              have hcons : datagrams ((some j, sent) :: es) = sent :: datagrams es := by
                rw [datagrams, List.map_cons, List.filter_cons_of_pos (by simpa using hsent)]
                rfl
              refine ⟨p :: gone, left, rfl, ?_, hend, fun ho => ?_⟩
              · rw [hcons, hds, withHeaders, List.map_cons, hsplit]
              · rw [hcons, List.length_cons, List.filter_cons_of_pos (by rfl), List.length_cons]
                exact Nat.succ_le_succ (hcount ho)
  | @last c c' res sent r hans e hr =>
      obtain ⟨V, hpend, hV, hfirst, hudp', hid, hlist, hcurr⟩ := hp.prepare hudp
      have hlensV := length_le_of_afterSent hV hlens
      obtain ⟨hcall, -, -, -, -⟩ := hpend.transmit hlensV hans e
      rw [hV] at hcall
      cases P with
      | nil =>
          cases hcall
          exact ⟨[], [], rfl, rfl, fun _ => ⟨rfl, rfl⟩, nofun⟩
      | cons p P =>
          rw [withHeaders] at hcall
          cases hcall with
          | fail hempty => exact absurd hempty (flatten_withHeader p)
          | wait hp' => exact absurd hr (by simp)
          | sent hsplit hsent hle hrest hall hp' => exact absurd hr (by simp)

/-! ## Responses -/

/-- The number in two bytes of a header. -/
def header16 (d : Bytes) (j : ℕ) : ℕ := (d.getD j 0).toNat * 256 + (d.getD (j + 1) 0).toNat

/-- What the header of a datagram says. -/
theorem header16_udpHeader (hid : requestId < 65536) (hi : i < 65536) (ht : total < 65536)
    (x : Bytes) : header16 (udpHeader requestId i total ++ x) 0 = requestId ∧
      header16 (udpHeader requestId i total ++ x) 2 = i ∧
      header16 (udpHeader requestId i total ++ x) 4 = total := by
  have hbyte : ∀ n, n < 65536 →
      (UInt8.ofNat (n / 256)).toNat * 256 + (UInt8.ofNat (n % 256)).toNat = n := fun n hn => by
    rw [UInt8.toNat_ofNat', UInt8.toNat_ofNat']
    omega
  exact ⟨hbyte requestId hid, hbyte i hi, hbyte total ht⟩

/-- The datagrams with the payloads `P`. -/
theorem withHeaders_spec (requestId total i : ℕ) (P : List (List Bytes)) :
    (withHeaders requestId total i P).length = P.length ∧
      ((withHeaders requestId total i P).map fun m => (m.flatten.drop udpHeaderSize)).flatten
        = (P.map List.flatten).flatten ∧
      ∀ j (h : j < P.length), ((withHeaders requestId total i P).map List.flatten)[j]?
        = some (udpHeader requestId (i + j) total ++ P[j].flatten) := by
  induction P generalizing i with
  | nil => exact ⟨rfl, rfl, nofun⟩
  | cons p P ih =>
      obtain ⟨hlen, hflat, hget⟩ := ih (i + 1)
      refine ⟨?_, ?_, fun j hj => ?_⟩
      · rw [withHeaders, List.length_cons, List.length_cons, hlen]
      · rw [withHeaders, List.map_cons, List.flatten_cons, hflat, List.map_cons, List.flatten_cons]
        rfl
      · cases j with
        | zero => rfl
        | succ j =>
            rw [withHeaders, List.map_cons, List.getElem?_cons_succ, hget j (by simpa using hj),
              Nat.add_right_comm, Nat.add_assoc, List.getElem_cons_succ]

/-- The response over TCP: what has been sent is a beginning of it. -/
theorem respond_stream {bufs : List Bytes} {es : List (Option ℕ × Bytes)}
    {o : Option TransmitResult} (hmax : 2 ≤ iovMax) (hsize : 0 < c.iovsize)
    (ht : Transmits iovMax (c.respond iovMax bufs) es o c') (hu : c.udp = false)
    (hno : NoGap iovMax bufs) :
    sentBytes es <+: bufs.flatten ∧ (o ≠ none → sentBytes es = bufs.flatten) ∧
      (o = none → (es.filter (·.1.isSome)).length ≤ (sentBytes es).length) := by
  obtain ⟨U, w, hp, hlast, ⟨hudp, -, hcurr⟩, hgaps⟩ := packed_respond hmax hsize bufs
  have hpend := hp.holds.pending hcurr
  have hu' := hudp.trans hu
  have htail : ∀ m ∈ (U ++ [w]).tail, m ≠ [] := by
    intro m hm
    cases U with
    | nil => exact absurd hm (by simp)
    | cons u U =>
        rcases List.mem_append.mp hm with hm | hm
        · exact hp.tail m hm
        · obtain rfl := List.mem_singleton.mp hm
          exact hlast (List.cons_ne_nil _ _)
  have hempty : LastEmpty (U ++ [w]) :=
    (hgaps hu hno).last.imp (S := fun m m' => m ≠ [] → m.flatten = [] → m'.flatten = [])
      fun h _ => h
  have hdata : (U ++ [w]).flatten.flatten = bufs.flatten := by
    rw [← hp.data, hu', List.flatten_flatten]
    rfl
  obtain ⟨rest, hsum, hend, hlen⟩ := ht.stream hu' hpend htail hp.lens hempty
  rw [hdata] at hsum
  refine ⟨⟨rest, hsum⟩, fun ho => ?_, hlen⟩
  rw [hend ho, List.append_nil] at hsum
  exact hsum

/-- The response over UDP: the datagrams are numbered, and carry it in pieces. -/
theorem respond_datagrams {bufs : List Bytes} {es : List (Option ℕ × Bytes)}
    {o : Option TransmitResult} (hmax : 2 ≤ iovMax) (hsize : 0 < c.iovsize)
    (ht : Transmits iovMax (c.respond iovMax bufs) es o c') (hu : c.udp = true)
    (hidlt : c.requestId < 65536) (hcount : (c.respond iovMax bufs).msglist.length ≤ 65535) :
    (∀ i d, (datagrams es)[i]? = some d →
      d.length ≤ udpMaxPayloadSize ∧ udpHeaderSize ≤ d.length ∧ header16 d 0 = c.requestId ∧
      header16 d 2 = i ∧ header16 d 4 = (c.respond iovMax bufs).msglist.length) ∧
    ((datagrams es).map (List.drop udpHeaderSize)).flatten <+: bufs.flatten ∧
    (o ≠ none → o = some .complete ∧
      (datagrams es).length = (c.respond iovMax bufs).msglist.length ∧
      ((datagrams es).map (List.drop udpHeaderSize)).flatten = bufs.flatten) ∧
    (o = none → (es.filter (·.1.isSome)).length ≤ (datagrams es).length) := by
  obtain ⟨U, w, hp, -, ⟨hudp, hid, hcurr⟩, -⟩ := packed_respond hmax hsize bufs
  have hpend := hp.holds.pending hcurr
  have hu' := hudp.trans hu
  set P := (U ++ [w]).map (List.drop 1) with hP
  have hroom := hp.room hu'
  have hpay : HasPayloads (U ++ [w]) P := by
    apply List.forall₂_map_right_iff.mpr
    apply List.forall₂_same.mpr
    intro m hm
    obtain ⟨⟨p, rfl⟩, -⟩ := hroom m hm
    exact ⟨headerRoom, rfl⟩
  have hdata : (P.map List.flatten).flatten = bufs.flatten := by
    rw [← hp.data, hu', hP, List.map_map]
    rfl
  have hnum : (c.respond iovMax bufs).msglist.length = P.length := by
    rw [hp.holds.msglist, length_headers, hP, List.length_map]
  have hlens : ∀ p ∈ P, p.length + 1 ≤ iovMax ∧
      udpHeaderSize + p.flatten.length ≤ udpMaxPayloadSize := by
    intro p hmem
    obtain ⟨m, hm, rfl⟩ := List.mem_map.mp hmem
    have hlen := hp.lens m hm
    obtain ⟨⟨q, rfl⟩, hbytes⟩ := hroom m hm
    rw [List.flatten_cons, List.length_append] at hbytes
    exact ⟨hlen, hbytes⟩
  obtain ⟨gone, left, hsplit, hds, hend, hlen⟩ :=
    ht.packets hu' ⟨_, hpend, Or.inl ⟨hcurr, rfl, hpay⟩⟩ fun p hp => (hlens p hp).1
  rw [hid] at hds
  set N := (c.respond iovMax bufs).msglist.length with hN
  obtain ⟨hwlen, hwflat, hwget⟩ := withHeaders_spec c.requestId N 0 gone
  have hpayload : ((datagrams es).map (List.drop udpHeaderSize)).flatten
      = (gone.map List.flatten).flatten := by
    rw [hds, List.map_map]
    exact hwflat
  have hsum : (gone.map List.flatten).flatten ++ (left.map List.flatten).flatten = bufs.flatten := by
    rw [← hdata, hsplit, List.map_append, List.flatten_append]
  have hnumber : (datagrams es).length = gone.length := by
    rw [hds, List.length_map, hwlen]
  have htotal : gone.length + left.length = N := by
    rw [hnum, hsplit, List.length_append]
  refine ⟨fun i d hd => ?_, ?_, fun ho => ?_, hlen⟩
  · have hi : i < gone.length := by
      rw [← hnumber]
      exact (List.getElem?_eq_some_iff.mp hd).1
    rw [hds, hwget i hi, Nat.zero_add] at hd
    obtain rfl := Option.some.inj hd
    have hmem : gone[i] ∈ P := by
      rw [hsplit]
      exact List.mem_append_left _ (List.getElem_mem hi)
    have hfits := (hlens _ hmem).2
    have hheader : (udpHeader c.requestId i N).length = udpHeaderSize := rfl
    refine ⟨?_, ?_, header16_udpHeader hidlt (by omega) (by omega) _⟩
    · rw [List.length_append, hheader]
      exact hfits
    · rw [List.length_append, hheader]
      exact Nat.le_add_right _ _
  · rw [hpayload]
    exact ⟨_, hsum⟩
  · obtain ⟨rfl, hcomplete⟩ := hend ho
    refine ⟨hcomplete, ?_, ?_⟩
    · rw [hnumber, ← htotal]
      rfl
    · rw [hpayload, ← hsum]
      exact (List.append_nil _).symm

/-- **Scatter-gather output is lossless.** However a response is taken by `sendmsg`: over TCP, if
`IOV_MAX` empty buffers in a row are not followed by one with bytes, what is sent is the beginning
of the buffers, and all of them when the run ends; over UDP, if there are no more than 65535
datagrams, each one sent has a header with the id, its number and their total, and no more than 1400
bytes, and the payloads are the beginning of the buffers, and all of them when the run ends. Every
answer of `sendmsg` but `EAGAIN` brings a run nearer to its end. -/
theorem respond_lossless {bufs : List Bytes} {es : List (Option ℕ × Bytes)}
    {o : Option TransmitResult} (hmax : 2 ≤ iovMax) (hsize : 0 < c.iovsize)
    (ht : Transmits iovMax (c.respond iovMax bufs) es o c') :
    (c.udp = false → NoGap iovMax bufs →
      sentBytes es <+: bufs.flatten ∧ (o ≠ none → sentBytes es = bufs.flatten) ∧
      (o = none → (es.filter (·.1.isSome)).length ≤ (sentBytes es).length)) ∧
    (c.udp = true → c.requestId < 65536 → (c.respond iovMax bufs).msglist.length ≤ 65535 →
      (∀ i d, (datagrams es)[i]? = some d →
        d.length ≤ udpMaxPayloadSize ∧ udpHeaderSize ≤ d.length ∧ header16 d 0 = c.requestId ∧
        header16 d 2 = i ∧ header16 d 4 = (c.respond iovMax bufs).msglist.length) ∧
      ((datagrams es).map (List.drop udpHeaderSize)).flatten <+: bufs.flatten ∧
      (o ≠ none → o = some .complete ∧
        (datagrams es).length = (c.respond iovMax bufs).msglist.length ∧
        ((datagrams es).map (List.drop udpHeaderSize)).flatten = bufs.flatten) ∧
      (o = none → (es.filter (·.1.isSome)).length ≤ (datagrams es).length)) := by
  refine ⟨fun hu hno => ?_, fun hu hid hcount => ?_⟩
  · exact respond_stream hmax hsize ht hu hno
  · exact respond_datagrams hmax hsize ht hu hid hcount

/-- Few buffers have no gap. -/
theorem noGap_of_length {bufs : List Bytes} (h : bufs.length < iovMax) : NoGap iovMax bufs := by
  intro pre post hbufs
  have hlen := congrArg List.length hbufs
  rw [List.length_append, List.length_append, List.length_replicate] at hlen
  omega

instance (iovMax : ℕ) (udp : Bool) (msg : List Bytes) :
    (res : Option ℕ) → Decidable (SendmsgAnswer iovMax udp msg res)
  | none => isTrue trivial
  | some n => inferInstanceAs (Decidable (if msg.length ≤ iovMax ∧ msg.flatten ≠ [] then
      0 < n ∧ n ≤ msg.flatten.length ∧ (udp = true → n = msg.flatten.length) else n = 0))

/-- A call that does not end a run, with the answer `res`. -/
theorem Transmits.call {es : List (Option ℕ × Bytes)} {o : Option TransmitResult} (res : Option ℕ)
    (h : ∀ m ∈ c.prepare.advance.msglist[c.prepare.advance.msgcurr]?,
      SendmsgAnswer iovMax c.prepare.udp (c.prepare.advance.message m) res)
    (hr : (c.prepare.transmit res).2.2 = .incomplete ∨ (c.prepare.transmit res).2.2 = .softError)
    (ht : Transmits iovMax (c.prepare.transmit res).1 es o c') :
    Transmits iovMax c ((res, (c.prepare.transmit res).2.1) :: es) o c' :=
  .step (fun m hm => h m hm) rfl hr ht

/-- A call that ends a run. -/
theorem Transmits.stop (res : Option ℕ)
    (h : ∀ m ∈ c.prepare.advance.msglist[c.prepare.advance.msgcurr]?,
      SendmsgAnswer iovMax c.prepare.udp (c.prepare.advance.message m) res)
    (e : (c.prepare.transmit res).2.2 = r) (hr : r = .complete ∨ r = .hardError) :
    Transmits iovMax c [(res, (c.prepare.transmit res).2.1)] (some r) (c.prepare.transmit res).1 :=
  .last (fun m hm => h m hm) (e ▸ rfl) hr

/-- A new connection. -/
def fresh (udp : Bool) (requestId : ℕ) : OutConn :=
  ⟨udp, requestId, fun _ _ => [], 0, 400, 0, [], 10, 0, 0⟩

/-- Buffers go out in calls that take some of their bytes, and as two datagrams when they do not fit one. -/
theorem respond_lossless_calls :
    (∃ es c', Transmits 1024 ((fresh false 0).respond 1024 [[65, 66], [], [67]]) es
      (some .complete) c' ∧ sentBytes es = [65, 66, 67]) ∧
    ∃ es c', Transmits 1024 ((fresh true 258).respond 1024 [[65], List.replicate 1400 66]) es
      (some .complete) c' ∧ (datagrams es).length = 2 ∧
        ((datagrams es).map (List.drop 8)).flatten = [[65], List.replicate 1400 66].flatten := by
  have hstream : ∃ es c', Transmits 1024 ((fresh false 0).respond 1024 [[65, 66], [], [67]]) es
      (some .complete) c' :=
    ⟨_, _, .call (some 1) (by decide) (by decide) (.call none (by decide) (by decide)
      (.call (some 2) (by decide) (by decide) (.stop none nofun rfl (.inl rfl))))⟩
  have hcount : ((fresh true 258).respond 1024 [[65], List.replicate 1400 66]).msglist.length = 2 := by
    decide +kernel
  have hpackets : ∃ es c', Transmits 1024
      ((fresh true 258).respond 1024 [[65], List.replicate 1400 66]) es (some .complete) c' :=
    ⟨_, _, .call (some 1400) (by decide +kernel) (by decide +kernel)
      (.call (some 17) (by decide +kernel) (by decide +kernel)
        (.stop none (fun _ _ => trivial) (by decide +kernel) (.inl rfl)))⟩
  obtain ⟨es, c', ht⟩ := hstream
  obtain ⟨fs, d, hu⟩ := hpackets
  refine ⟨⟨es, c', ht, ?_⟩, ⟨fs, d, hu, ?_⟩⟩
  · obtain ⟨-, hsent, -⟩ := (respond_lossless (by decide) (by decide) ht).1 rfl
      (noGap_of_length (by decide))
    exact hsent nofun
  · obtain ⟨-, -, hsent, -⟩ := (respond_lossless (by decide) (by decide) hu).2 (by decide +kernel)
      (by decide +kernel) (by rw [hcount]; omega)
    obtain ⟨-, hlen, hbytes⟩ := hsent nofun
    exact ⟨hlen.trans hcount, hbytes⟩

/-- **A message without bytes** ends a run over TCP: `transmit` takes the 0 of `sendmsg` for an
error. -/
theorem Pending.hardError (h : c.Pending (w :: V)) (hudp : c.udp = false) (hw : w ≠ [])
    (hnil : w.flatten = []) : ∃ c', Transmits iovMax c [(some 0, [])] (some .hardError) c' := by
  have hprepare : c.prepare = c := by
    rw [prepare, hudp]
    rfl
  obtain ⟨x, t, rfl⟩ := List.exists_cons_of_ne_nil hw
  obtain ⟨⟨pre, n, hlist, hpre, hent⟩, -⟩ := h.advance
  have hget : c.advance.msglist[c.advance.msgcurr]?
      = some ⟨c.advance.iov, n, (x :: t).length⟩ := by
    rw [hlist, ← hpre, List.getElem?_append_right le_rfl, Nat.sub_self]
    rfl
  have hmsg : c.advance.message ⟨c.advance.iov, n, (x :: t).length⟩ = x :: t :=
    (entries_cons hent).1
  refine ⟨c.advance, .last (fun m hm => ?_) ?_ (.inr rfl)⟩
  · rw [hprepare] at hm ⊢
    obtain rfl := Option.some.inj (hget.symm.trans hm)
    rw [hmsg, SendmsgAnswer, if_neg fun hc => hc.2 hnil]
  · rw [hprepare, OutConn.transmit]
    simp only [hget]

/-- `IOV_MAX` empty buffers in a row, and the byte after them is lost. -/
theorem respond_gap : ¬ ∀ bufs es o c', Transmits 1024 ((fresh false 0).respond 1024 bufs) es
    (some o) c' → sentBytes es = bufs.flatten := by
  intro hall
  obtain ⟨hholds, hudp, hcurr⟩ := holds_gap (c := fresh false 0) (show 2 ≤ 1024 by decide)
    (by decide) rfl 65
  have hne : List.replicate 1024 ([] : Bytes) ≠ [] := List.cons_ne_nil _ _
  obtain ⟨c', ht⟩ := (hholds.pending hcurr).hardError hudp hne List.flatten_replicate_nil
  have hsent := hall _ _ _ _ ht
  rw [List.flatten_append, List.flatten_replicate_nil] at hsent
  exact List.cons_ne_nil _ _ hsent.symm

end OutConn

end Memcached
