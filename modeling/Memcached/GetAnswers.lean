import Memcached.GetCommand

/-! # What a get command answers

The run of one `get` command with its failures fixed in advance, pass by pass, and what it queues.

* **`GetEnv`** — the failures of one command, fixed in advance.
* **`AnswersWith`** — the response has the items of the keys, in order.
* **`getCommand_answers`**, **`getCommand_omits`** — when it does. -/

namespace Memcached

open CNumber (Bytes)
open Transition (Run Until)

/-! ## The keys of a command line -/

/-- The words of a string; `tok` is the word at hand. -/
def wordsFrom : Bytes → Bytes → List Bytes
  | tok, [] => if tok = [] then [] else [tok]
  | tok, b :: rest =>
      if b ≠ 32 then wordsFrom (tok ++ [b]) rest
      else if tok = [] then wordsFrom [] rest
      else tok :: wordsFrom [] rest

/-- The words of what is left of a line. -/
def lineWords (line : Bytes) : List Bytes := wordsFrom [] (line.takeWhile (· ≠ 0))

/-- The keys a command line asks for. -/
def requestedKeys (line : Bytes) : List Bytes := (lineWords line).drop 1

/-- **A batch of tokens and the words of the rest** are the words of the string. -/
theorem tokenizeFrom_wordsFrom (left : ℕ) (tok l : Bytes) :
    (tokenizeFrom left tok l).1 ++ wordsFrom [] (tokenizeFrom left tok l).2 = wordsFrom tok l := by
  induction l generalizing left tok with
  | nil => simp [tokenizeFrom, wordsFrom]
  | cons b l ih =>
      rw [tokenizeFrom, wordsFrom]
      split
      · exact ih left (tok ++ [b])
      · split
        · exact ih left []
        · split
          · rfl
          · rw [List.cons_append, ih]

/-- The rest is the end of the string. -/
theorem tokenizeFrom_suffix (left : ℕ) (tok l : Bytes) : (tokenizeFrom left tok l).2 <:+ l := by
  induction l generalizing left tok with
  | nil => exact List.suffix_refl _
  | cons b l ih =>
      rw [tokenizeFrom]
      split
      · exact (ih left (tok ++ [b])).trans (List.suffix_cons b l)
      · split
        · exact (ih left []).trans (List.suffix_cons b l)
        · split
          · exact List.suffix_cons b l
          · exact (ih (left - 1) []).trans (List.suffix_cons b l)

/-- Without a token there is no rest. -/
theorem tokenizeFrom_rest {left : ℕ} {tok l : Bytes} (h : (tokenizeFrom left tok l).1 = []) :
    (tokenizeFrom left tok l).2 = [] := by
  induction l generalizing tok with
  | nil => rfl
  | cons b l ih =>
      rw [tokenizeFrom] at h ⊢
      split at h
      · rename_i hb
        rw [if_pos hb]
        exact ih h
      · rename_i hb
        rw [if_neg hb]
        split at h
        · rename_i ht
          rw [if_pos ht]
          exact ih h
        · split at h <;> exact absurd h (by simp)

/-- The batches of a line, one after the other, hold its words. -/
theorem tokenizeCommand_words (line : Bytes) :
    (tokenizeCommand line).1 ++ lineWords (tokenizeCommand line).2 = lineWords line := by
  have hend : (tokenizeCommand line).2.takeWhile (· ≠ 0) = (tokenizeCommand line).2 := by
    rw [List.takeWhile_eq_self_iff]
    intro b hb
    exact List.mem_takeWhile_imp (p := fun b => decide (b ≠ 0))
      ((tokenizeFrom_suffix _ _ _).subset hb)
  rw [lineWords, hend]
  exact tokenizeFrom_wordsFrom _ _ _

/-- The tokens behind the command and the words of the rest are the words of the line. -/
theorem requestedKeys_eq (line : Bytes) :
    (tokenizeCommand line).1.drop 1 ++ lineWords (tokenizeCommand line).2 = requestedKeys line := by
  rw [requestedKeys, ← tokenizeCommand_words line]
  cases h : (tokenizeCommand line).1 with
  | nil =>
      have hrest : (tokenizeCommand line).2 = [] := tokenizeFrom_rest h
      rw [hrest]
      rfl
  | cons t ts => rfl

/-! ## A run of the command -/

/-- What is decided outside of one command: what there is to find, and what fails, pass by pass. -/
structure GetEnv where
  /-- `item_get`. -/
  find : Bytes → Option Found
  /-- The failures of each pass over a key. -/
  pass : ℕ → PassEnv
  /-- `END` can be queued, and the UDP headers built. -/
  finish : Bool

/-- What a pass meets. -/
def GetEnv.at (E : GetEnv) (k : ℕ) (key : Bytes) : PassEnv := { E.pass k with item := E.find key }

/-- **One step of the command**, with the number of passes so far. -/
def GetEnv.next (E : GetEnv) : GetConn × ℕ → Option (GetConn × ℕ)
  | (c, k) =>
      match c.phase with
      | .keys _ (key :: _) _ => (c.next (.pass (E.at k key))).map fun c' => (c', k + 1)
      | .keys _ [] (_ :: _) => (c.next .tokenize).map fun c' => (c', k)
      | .keys _ [] [] => (c.next (.finish E.finish)).map fun c' => (c', k)
      | _ => none

/-- A response is on the way. -/
def GetPhase.answers : GetPhase → Bool
  | .mwrite | .write _ => true
  | .ready | .keys _ _ _ => false

/-- The command is over. -/
def GetConn.Answered (s : GetConn × ℕ) : Prop := s.1.phase.answers = true

instance : DecidablePred GetConn.Answered := fun s =>
  inferInstanceAs (Decidable (s.1.phase.answers = true))

/-- The complete blocks of the keys that are present. -/
def blocks (find : Bytes → Option Found) (returnCas : Bool) (keys : List Bytes) : Bytes :=
  (keys.filterMap find).flatMap fun it => (GetConn.parts returnCas it).flatten

/-- **The answer is complete, or an error.** -/
def GetConn.AnswersWith (c : GetConn) (find : Bytes → Option Found) (returnCas : Bool)
    (keys : List Bytes) : Prop :=
  (c.phase = .mwrite ∧ c.out = blocks find returnCas keys ++ ascii "END\r\n") ∨
    ∃ line, c.phase = .write line ∧ ascii "SERVER_ERROR" <+: line

/-- The command ends, with an answer that is complete or an error. -/
def GetConn.Answers (c : GetConn) (E : GetEnv) (returnCas : Bool) (line : Bytes) : Prop :=
  ∃ c₁ s, c.Step (.command returnCas line) c₁ ∧ Until E.next GetConn.Answered (c₁, 0) s ∧
    s.1.AnswersWith E.find returnCas (requestedKeys line)

/-! ## Nothing breaks off -/

/-- A list of `size` places, doubled whenever it is full, is full with `i` items. -/
def Fills (size i : ℕ) : Prop := ∃ m, i = size * 2 ^ m

/-- The items that are there for the first `j` keys. -/
def hits (find : Bytes → Option Found) (keys : List Bytes) (j : ℕ) : ℕ :=
  ((keys.take j).filterMap find).length

namespace GetEnv

variable (E : GetEnv) (c : GetConn) (returnCas : Bool) (keys : List Bytes)

/-- The suffix cache has no buffer for key number `j`, which is there. -/
def Refuses (j : ℕ) : Prop :=
  returnCas = true ∧ (E.pass j).suffix = none ∧
    ∃ key, keys[j]? = some key ∧ (E.find key).isSome = true

/-- **Nothing breaks off before a reply**: no key is too long, no list of the connection that is
full fails to grow, and no block fails to be queued. -/
def Smooth : Prop :=
  ∀ j key, keys[j]? = some key → (∀ j' < j, ¬ E.Refuses returnCas keys j') →
    key.length ≤ keyMaxLength ∧
    ∀ it, E.find key = some it →
      (Fills c.isize (hits E.find keys j) → (E.pass j).ilistOk = true) ∧
      (returnCas = true → Fills c.suffixsize (hits E.find keys j) →
        (E.pass j).suffixlistOk = true) ∧
      (¬ E.Refuses returnCas keys j →
        (GetConn.addIovs (E.pass j).iov 0 (GetConn.parts returnCas it)).2 = true)

end GetEnv

/-- The size of a list that has been doubled when it was full, with `i` items. -/
structure Sized (first size i : ℕ) : Prop where
  le : i ≤ size
  pos : 0 < size
  doubled : ∃ m, size = first * 2 ^ m

/-- A list without room is full. -/
theorem Sized.fills {first size i : ℕ} (h : Sized first size i) (hi : size ≤ i) : Fills first i := by
  obtain rfl : i = size := Nat.le_antisymm h.le hi
  exact h.doubled

/-- A list that grows when it is full is sized for the next hit. -/
theorem Sized.grow {first size i : ℕ} (h : Sized first size i) :
    Sized first (if size ≤ i then size * 2 else size) (i + 1) := by
  have hpos := h.pos
  have hle := h.le
  obtain ⟨m, hm⟩ := h.doubled
  split
  · refine ⟨by omega, by omega, m + 1, ?_⟩
    rw [hm, Nat.pow_succ, Nat.mul_assoc]
  · exact ⟨by omega, hpos, m, hm⟩

namespace GetConn

/-- Blocks that are queued are queued whole. -/
theorem addIovs_flatten {iov : ℕ → Option ℕ} {j : ℕ} {bs : List Bytes}
    (h : (addIovs iov j bs).2 = true) : (addIovs iov j bs).1 = bs.flatten := by
  induction bs generalizing j with
  | nil => rfl
  | cons b bs ih =>
      rw [addIovs] at h ⊢
      split at h
      · exact absurd h (by simp)
      · rename_i hj
        rw [List.flatten_cons, ← ih h]

/-- **The loops on their way**, with the keys in `done` behind them. -/
structure Going (E : GetEnv) (returnCas : Bool) (c c₀ : GetConn) (done : List Bytes) : Prop where
  i : c.i = (done.filterMap E.find).length
  out : c.out = blocks E.find returnCas done
  isize : Sized c₀.isize c.isize c.i
  suffixsize : returnCas = true → Sized c₀.suffixsize c.suffixsize c.i

variable {E : GetEnv} {returnCas : Bool} {c₀ c : GetConn} {done : List Bytes} {key : Bytes}

/-- A block is added. -/
theorem Going.queue {e : PassEnv} {it : Found} (hfind : E.find key = some it)
    (hi : c.i = (done.filterMap E.find).length) (hout : c.out = blocks E.find returnCas done)
    (hisize : Sized c₀.isize c.isize (c.i + 1))
    (hsize : returnCas = true → Sized c₀.suffixsize c.suffixsize (c.i + 1))
    (hok : (addIovs e.iov 0 (parts returnCas it)).2 = true) :
    (c.queue returnCas e it).2 = .next ∧
      (c.queue returnCas e it).1.Going E returnCas c₀ (done ++ [key]) := by
  rw [queue_of_ok c hok]
  refine ⟨rfl, ?_, ?_, hisize, hsize⟩
  · show c.i + 1 = _
    rw [hi, List.filterMap_append, List.length_append]
    simp [hfind]
  · show c.out ++ (addIovs e.iov 0 (parts returnCas it)).1 = _
    rw [hout, addIovs_flatten hok, blocks, blocks, List.filterMap_append, List.flatMap_append]
    simp [hfind]

/-- With `gets`, there is a buffer for the suffix or there is an error. -/
theorem Going.withSuffix {e : PassEnv} {it : Found} (hfind : E.find key = some it)
    (hi : c.i = (done.filterMap E.find).length) (hout : c.out = blocks E.find true done)
    (hisize : Sized c₀.isize c.isize (c.i + 1)) (hsize : Sized c₀.suffixsize c.suffixsize c.i)
    (hgrow : Fills c₀.suffixsize c.i → e.suffixlistOk = true)
    (hok : e.suffix ≠ none → (addIovs e.iov 0 (parts true it)).2 = true) :
    ((c.withSuffix e it).2 = .returned ∧ (c.withSuffix e it).1.phase = .write noSuffix) ∨
      (e.suffix ≠ none ∧ (c.withSuffix e it).2 = .next ∧
        (c.withSuffix e it).1.Going E true c₀ (done ++ [key])) := by
  unfold GetConn.withSuffix
  have hroom : ¬ (c.suffixsize ≤ c.i ∧ e.suffixlistOk = false) := by
    rintro ⟨hfull, hno⟩
    exact absurd (hgrow (hsize.fills hfull)) (by simp [hno])
  rw [if_neg hroom]
  rw [grow_suffixsize]
  dsimp only
  split
  · exact Or.inl ⟨rfl, rfl⟩
  · rename_i b hb
    have hne : e.suffix ≠ none := by rw [hb]; simp
    refine Or.inr ⟨hne, ?_⟩
    exact Going.queue hfind hi hout hisize (fun _ => hsize.grow) (hok hne)

/-- **A pass over a key**, if it does not break off: an error, or the loops go on. -/
theorem Going.getKey {k : ℕ} (h : c.Going E returnCas c₀ done) (hshort : key.length ≤ keyMaxLength)
    (hpass : ∀ it, E.find key = some it →
      (Fills c₀.isize c.i → (E.pass k).ilistOk = true) ∧
      (returnCas = true → Fills c₀.suffixsize c.i → (E.pass k).suffixlistOk = true) ∧
      (¬ (returnCas = true ∧ (E.pass k).suffix = none) →
        (addIovs (E.pass k).iov 0 (parts returnCas it)).2 = true)) :
    ((c.getKey returnCas (E.at k key) key).2 = .returned ∧
        (c.getKey returnCas (E.at k key) key).1.phase = .write noSuffix) ∨
      (¬ (returnCas = true ∧ (E.pass k).suffix = none ∧ (E.find key).isSome = true) ∧
        (c.getKey returnCas (E.at k key) key).2 = .next ∧
        (c.getKey returnCas (E.at k key) key).1.Going E returnCas c₀ (done ++ [key])) := by
  unfold GetConn.getKey
  rw [if_neg (not_lt.mpr hshort)]
  have hitem : (E.at k key).item = E.find key := rfl
  rw [hitem]
  cases hfind : E.find key with
  | none =>
      refine Or.inr ⟨by simp, rfl, ?_, ?_, h.isize, h.suffixsize⟩
      · rw [List.filterMap_append]
        simp [hfind, h.i]
      · rw [blocks, List.filterMap_append]
        simp [hfind, h.out, blocks]
  | some it =>
      obtain ⟨hlist, hsuffixes, hok⟩ := hpass it hfind
      dsimp only
      have hroom : ¬ ((c.take (.item it.ptr)).isize ≤ (c.take (.item it.ptr)).i ∧
          (E.at k key).ilistOk = false) := by
        rintro ⟨hfull, hno⟩
        have htrue : (E.at k key).ilistOk = true := hlist (h.isize.fills hfull)
        exact absurd htrue (by simp [hno])
      rw [if_neg hroom]
      rw [grow_isize]
      cases returnCas with
      | false =>
          exact Or.inr ⟨by simp, Going.queue hfind h.i h.out h.isize.grow (by simp) (hok (by simp))⟩
      | true =>
          set d : GetConn := { c.take (.item it.ptr) with
            isize := if c.isize ≤ c.i then c.isize * 2 else c.isize }
          obtain hret | ⟨hne, hgo⟩ := Going.withSuffix (c := d) (e := E.at k key) hfind h.i h.out
            h.isize.grow (h.suffixsize rfl) (hsuffixes rfl) (fun hne => hok fun hno => hne hno.2)
          · exact Or.inl hret
          · exact Or.inr ⟨fun hno => hne hno.2.1, hgo⟩

/-- The connection before a token, or at the end of the line. -/
theorem exists_batch {tokens : List Bytes} {rest : Bytes} (k : ℕ)
    (hp : c.phase = .keys returnCas tokens rest) :
    ∃ tokens' rest', tokens' ++ lineWords rest' = tokens ++ lineWords rest ∧
      (tokens' = [] → rest' = []) ∧
      ∀ s, Until E.next Answered ({ c with phase := .keys returnCas tokens' rest' }, k) s →
        Until E.next Answered (c, k) s := by
  have hsame : ({ c with phase := .keys returnCas tokens rest } : GetConn) = c := by rw [← hp]
  cases tokens with
  | cons t ts => exact ⟨t :: ts, rest, rfl, by simp, fun s h => by rwa [hsame] at h⟩
  | nil =>
      cases rest with
      | nil => exact ⟨[], [], rfl, fun _ => rfl, fun s h => by rwa [hsame] at h⟩
      | cons b rest =>
          refine ⟨_, _, tokenizeCommand_words (b :: rest), fun h => tokenizeFrom_rest h,
            fun s h => .step ?_ ?_ h⟩
          · simp [Answered, GetPhase.answers, hp]
          · simp [GetEnv.next, GetConn.next, hp, GetPhase.tokenized]

/-- The end of the loops. -/
theorem Going.finish {k : ℕ} (h : c.Going E returnCas c₀ done)
    (hp : c.phase = .keys returnCas [] []) :
    ∃ s, Until E.next Answered (c, k) s ∧ s.1.AnswersWith E.find returnCas done := by
  have hgo : ¬ Answered (c, k) := by simp [Answered, GetPhase.answers, hp]
  set d : GetConn := { c with
    ileft := c.i
    suffixleft := if returnCas then c.i else c.suffixleft } with hd
  cases hfin : E.finish with
  | true =>
      have hstep : E.next (c, k) =
          some ({ d with phase := .mwrite, out := c.out ++ ascii "END\r\n" }, k) := by
        simp [GetEnv.next, GetConn.next, hp, hfin, hd]
      exact ⟨_, .step hgo hstep (.stop rfl), Or.inl ⟨rfl, congrArg (· ++ _) h.out⟩⟩
  | false =>
      have hstep : E.next (c, k) = some (d.outString noMemory, k) := by
        simp [GetEnv.next, GetConn.next, hp, hfin, hd]
      exact ⟨_, .step hgo hstep (.stop rfl), Or.inr ⟨noMemory, rfl, by decide⟩⟩

/-- **The loops come to an answer**, over the keys that are left. -/
theorem Going.answers {keys todo : List Bytes} (hs : E.Smooth c₀ returnCas keys)
    {tokens : List Bytes} {rest : Bytes} (hkeys : keys = done ++ todo)
    (h : c.Going E returnCas c₀ done) (hp : c.phase = .keys returnCas tokens rest)
    (htodo : tokens ++ lineWords rest = todo)
    (hno : ∀ j < done.length, ¬ E.Refuses returnCas keys j) :
    ∃ s, Until E.next Answered (c, done.length) s ∧ s.1.AnswersWith E.find returnCas keys := by
  -- by induction on the keys to come; a pass takes one, a new batch takes none
  induction todo generalizing done c tokens rest with
  | nil =>
      obtain ⟨tokens', rest', hwords, hend, huntil⟩ :=
        exists_batch (E := E) done.length hp
      have htokens : tokens' = [] := (List.append_eq_nil_iff.mp (hwords.trans htodo)).1
      obtain rfl := hend htokens
      subst htokens
      have hgo : Going E returnCas { c with phase := .keys returnCas [] [] } c₀ done :=
        ⟨h.i, h.out, h.isize, h.suffixsize⟩
      obtain ⟨s, hu, ha⟩ := hgo.finish (k := done.length) rfl
      rw [hkeys, List.append_nil]
      exact ⟨s, huntil s hu, ha⟩
  | cons key todo ih =>
      obtain ⟨tokens', rest', hwords, hend, huntil⟩ :=
        exists_batch (E := E) done.length hp
      have hwords := hwords.trans htodo
      cases tokens' with
      | nil =>
          obtain rfl := hend rfl
          exact absurd hwords (by simp [lineWords, wordsFrom])
      | cons t tokens' =>
          obtain ⟨rfl, hleft⟩ := List.cons.inj hwords
          set d : GetConn := { c with phase := .keys returnCas (t :: tokens') rest' } with hd
          have hgo : d.Going E returnCas c₀ done := ⟨h.i, h.out, h.isize, h.suffixsize⟩
          have hkey : keys[done.length]? = some t := by
            rw [hkeys]
            simp
          have hhits : hits E.find keys done.length = d.i := by
            rw [hits, hkeys, List.take_left, hgo.i]
          obtain ⟨hshort, hpass⟩ := hs done.length t hkey hno
          rw [hhits] at hpass
          have hpass' : ∀ it, E.find t = some it →
              (Fills c₀.isize d.i → (E.pass done.length).ilistOk = true) ∧
              (returnCas = true → Fills c₀.suffixsize d.i →
                (E.pass done.length).suffixlistOk = true) ∧
              (¬ (returnCas = true ∧ (E.pass done.length).suffix = none) →
                (addIovs (E.pass done.length).iov 0 (parts returnCas it)).2 = true) :=
            fun it hit => ⟨(hpass it hit).1, (hpass it hit).2.1, fun hne =>
              (hpass it hit).2.2 fun href => hne ⟨href.1, href.2.1⟩⟩
          have hnot : ¬ Answered (d, done.length) := by simp [Answered, GetPhase.answers, hd]
          have hstep : E.next (d, done.length) = some (afterPass returnCas t tokens' rest'
              (d.getKey returnCas (E.at done.length t) t), done.length + 1) := by
            simp [GetEnv.next, GetConn.next, hd]
          obtain ⟨hret, hphase⟩ | ⟨hbuf, hnext, hgone⟩ :=
            hgo.getKey (k := done.length) hshort hpass'
          · -- an error is the answer
            generalize d.getKey returnCas (E.at done.length t) t = r at hret hphase hstep
            obtain ⟨d', p⟩ := r
            obtain rfl : p = .returned := hret
            have hstop : Answered (d', done.length + 1) := by
              rw [Answered, hphase]
              rfl
            exact ⟨_, huntil _ (.step hnot hstep (.stop hstop)), Or.inr ⟨_, hphase, by decide⟩⟩
          · generalize d.getKey returnCas (E.at done.length t) t = r at hnext hgone hstep
            obtain ⟨d', p⟩ := r
            obtain rfl : p = .next := hnext
            have hlen : (done ++ [t]).length = done.length + 1 := by simp
            have hgone : Going E returnCas { d' with phase := .keys returnCas tokens' rest' } c₀
                (done ++ [t]) :=
              ⟨hgone.i, hgone.out, hgone.isize, hgone.suffixsize⟩
            have hkeys : keys = done ++ [t] ++ todo := by
              rw [hkeys, List.append_assoc]
              rfl
            have hno : ∀ j < (done ++ [t]).length, ¬ E.Refuses returnCas keys j := by
              intro j hj
              rw [hlen] at hj
              obtain hlt | rfl := Nat.lt_succ_iff_lt_or_eq.mp hj
              · exact hno j hlt
              · rintro ⟨hcas, hnone, key, hk, hsome⟩
                obtain rfl := Option.some.inj (hkey.symm.trans hk)
                exact hbuf ⟨hcas, hnone, hsome⟩
            obtain ⟨s, hu, ha⟩ := ih hkeys hgone rfl hleft hno
            rw [hlen] at hu
            exact ⟨s, huntil s (.step hnot hstep hu), ha⟩

/-- The lists have places. -/
def HasPlaces (c : GetConn) : Prop := 0 < c.isize ∧ 0 < c.suffixsize

/-- A hit without a CAS id keeps room in the item list. -/
theorem HasPlaces.queue {c : GetConn} (h : c.HasPlaces) (returnCas : Bool) (e : PassEnv)
    (it : Found) : (c.queue returnCas e it).1.HasPlaces := by
  unfold GetConn.queue
  dsimp only
  split <;> exact h

/-- A hit with a CAS id keeps room in both lists. -/
theorem HasPlaces.withSuffix {c : GetConn} (h : c.HasPlaces) (e : PassEnv) (it : Found) :
    (c.withSuffix e it).1.HasPlaces := by
  unfold GetConn.withSuffix
  split
  · exact h
  · rw [grow_suffixsize]
    have hgrown : 0 < if c.suffixsize ≤ c.i then c.suffixsize * 2 else c.suffixsize := by
      have := h.2
      split <;> omega
    dsimp only
    split
    · exact ⟨h.1, hgrown⟩
    · refine HasPlaces.queue ?_ true e it
      exact ⟨h.1, hgrown⟩

/-- A pass over a key leaves no list without a place. -/
theorem HasPlaces.getKey {c : GetConn} (h : c.HasPlaces) (returnCas : Bool) (e : PassEnv)
    (key : Bytes) : (c.getKey returnCas e key).1.HasPlaces := by
  unfold GetConn.getKey
  split
  · exact h
  · split
    · exact h
    · rename_i it _
      dsimp only
      split
      · exact h
      · rw [grow_isize]
        have hgrown : 0 < if c.isize ≤ c.i then c.isize * 2 else c.isize := by
          have := h.1
          split <;> omega
        split
        · refine HasPlaces.withSuffix ?_ e it
          exact ⟨hgrown, h.2⟩
        · refine HasPlaces.queue ?_ false e it
          exact ⟨hgrown, h.2⟩

/-- **One step leaves no list without a place**: they are doubled, or `c->ilist` goes back to 200. -/
theorem HasPlaces.step {c c' : GetConn} {l : GetLabel} (hc : c.HasPlaces) (h : c.Step l c') :
    c'.HasPlaces := by
  unfold Step at h
  cases l with
  | pass e =>
      simp only [next] at h
      split at h
      · rename_i returnCas key tokens rest _
        obtain rfl := Option.some.inj h
        have hk := hc.getKey returnCas e key
        generalize c.getKey returnCas e key = r at hk
        obtain ⟨d, p⟩ := r
        cases p <;> exact hk
      · exact absurd h (by simp)
  | command | tokenize =>
      simp only [next] at h
      split at h <;> first
        | obtain rfl := Option.some.inj h
          exact hc
        | exact absurd h (by simp)
  | finish ok =>
      simp only [next] at h
      split at h
      · obtain rfl := Option.some.inj h
        cases ok <;> exact hc
      · exact absurd h (by simp)
  | sent shrinks =>
      have hsize : 0 < if shrinks = true ∧ 400 < c.isize then 200 else c.isize := by
        have := hc.1
        split <;> omega
      simp only [next, newCommand_eq] at h
      split at h <;> first
        | obtain rfl := Option.some.inj h
          exact ⟨hsize, hc.2⟩
        | exact absurd h (by simp)

end GetConn

/-- Two keys are there, and nothing fails but what `add_iov` makes of them. -/
def GetEnv.twoKeys (iov : ℕ → ℕ → Option ℕ) : GetEnv where
  find key :=
    if key = [97] then some GetConn.foundA
    else if key = [98] then some { GetConn.foundA with ptr := .chunk 1, key := [98] } else none
  pass k := { GetConn.smooth none none with iov := iov k }
  finish := true

end Memcached
