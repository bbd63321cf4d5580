import Memcached.SystemInvariant

/-! # Responses in flight

A response points into the memory of its items and is sent while the commands of other connections
go on. What it points to is left alone as long as the references that hold it are counted; tail
repair is what gives a counted reference away.

* **`Sent`** — what a response points to in an item.
* **`sent_of_run`**, **`sent_repaired`** — in which runs it is left alone. -/

namespace Memcached

open CNumber (Bytes)
open Transition (Run)

variable {n : ℕ} {cfg : Settings} {w w' : World n} {s s' : Store} {g g' : Ghost} {e : Event}
  {p q : Ptr}

/-! ## What a response points to -/

/-- The key, the suffix and the value of an item. -/
structure Sent where
  key : Bytes
  suffix : Bytes
  data : Bytes
  nbytes : ℕ
  deriving DecidableEq

/-- What a response for the item at `p` points to. -/
def Store.sent (s : Store) (p : Ptr) : Sent := ⟨s.key p, s.suffix p, s.data p, s.nbytes p⟩

/-- The step writes to the key, the suffix or the value of `q`. -/
def Event.Overwrites (q : Ptr) : Event → Prop
  | write p _ | inPlace p _ | create p _ _ _ _ => q = p
  | _ => False

/-- A step that does not write there leaves an item in use as a response sees it. -/
theorem Prim.sent (hm : Prim cfg s g e s' g') (h : Inv cfg s g) (he : ¬ e.Overwrites q)
    (hu : s'.InUse g' q) : s'.sent q = s.sent q := by
  have hsent : ∀ {t : Store} {i : Item}, t.item q = i →
      t.sent q = ⟨i.key, i.suffix, i.data, i.nbytes⟩ := by
    rintro t i rfl
    rfl
  rw [hsent (hm.item h hu)]
  cases e with
  | write p _ | inPlace p _ | create p _ _ _ _ =>
      have hne : ¬ q = p := he
      rw [Event.item, if_neg hne]
      rfl
  | unlink p | link p _ | refresh p | touch p _ | setCas p _ =>
      rw [Event.item]
      split <;> rfl
  | _ => rfl

/-- **A section that does not write there** leaves an item as a response sees it. -/
theorem Trace.sent {es : List Event} (h : Trace cfg s g es s' g') (hI : Inv cfg s g)
    (he : ∀ e ∈ es, ¬ e.Overwrites q) (hu : s'.InUse g' q) :
    s.InUse g q ∧ s'.sent q = s.sent q := by
  -- by induction on the section, from the state after it
  induction h with
  | nil => exact ⟨hu, rfl⟩
  | cons hm ht ih =>
      rename_i s s₁ s₂ g g₁ g₂ e es
      obtain ⟨hu₁, hs⟩ := ih (hm.inv hI) (fun e' he' => he e' (List.mem_cons_of_mem _ he')) hu
      have hne := he e (by simp)
      refine ⟨(hm.inUse hI hu₁).resolve_right fun hc => hne ?_, hs.trans (hm.sent hI hne hu₁)⟩
      cases e with
      | create => exact hc
      | _ => exact hc.elim

/-! ## Held items -/

namespace World

/-- Connection `i` holds the item at `p` for a response, formatted or not, or for another use. -/
def Keeps (w : World n) (i : Fin n) (p : Ptr) : Prop := p ∈ (w.conns i).fetched ++ (w.conns i).held

instance (w : World n) (i : Fin n) (p : Ptr) : Decidable (w.Keeps i p) :=
  inferInstanceAs (Decidable (_ ∈ _))

/-- An item that a connection keeps is referred to. -/
theorem Keeps.handles_pos {i : Fin n} (h : w.Keeps i p) : 0 < w.ghost.handles p := by
  refine World.handles_pos (i := i) ?_
  rw [Conn.refs, List.append_assoc]
  exact List.mem_append_right _ h

/-- No section writes to an item that a connection keeps. -/
theorem Ok.not_overwrites (h : w.Ok cfg) {i : Fin n} (hp : w.Keeps i p) {op : Op n}
    {busy : List Ptr} (he : e.Within cfg w.store w.ghost (w.About op) (w.Links op) (w.mine op) busy) :
    ¬ e.Overwrites p := by
  have hpos := hp.handles_pos
  have hmine : w.mine op ≠ some p := by
    intro hm
    cases op with
    | nread j d cas => exact h.pending_ne hm hp rfl
    | storeItem j comm env => exact h.pending_ne hm hp rfl
    | _ => exact absurd hm (by simp [mine])
  cases e with
  | write q d =>
      rintro rfl
      exact he.elim hmine (by omega)
  | inPlace q d =>
      rintro rfl
      have := he.2.2.2
      omega
  | create q key flags exptime nbytes =>
      rintro rfl
      have := he.2
      omega
  | _ => exact id

/-- **A step that goes well leaves alone what a response points to**, as long as its connection
keeps the item. -/
theorem Ok.sent_step (h : w.Ok cfg) {l : Op n × Reply} (hst : w.SafeStep cfg l w') {i : Fin n}
    (hp : w.Keeps i p) (hp' : w'.Keeps i p) : w'.store.sent p = w.store.sent p := by
  obtain ⟨⟨hen, he⟩, hs⟩ := hst
  obtain rfl := (congrArg Prod.fst he).symm
  by_cases hop : l.1.Global
  · cases hl : l.1 with
    | flushAll exptime =>
        rw [hl] at hp'
        obtain ⟨evs, ht, hf⟩ := Trace.flushAll h.inv exptime
        refine (ht.sent (h.inv.congr rfl) (fun e hm => ?_) (Or.inr hp.handles_pos)).2
        have := hf e hm
        cases e <;> first | exact id | exact this.elim
    | clock now => rfl
    | rebalance signal slabStart slabEnd => rfl
    | _ =>
        rw [hl] at hop
        exact hop.elim
  · obtain ⟨evs, ht, hev⟩ := h.effect hen hs hop
    exact (ht.sent h.inv (fun e hm => h.not_overwrites hp (hev e hm))
      (Or.inr hp'.handles_pos)).2

/-- A reference is taken only while the counter has room for it. -/
def Counted (cfg : Settings) (w : World n) : Op n → Prop
  | .storeItem i _ _ => ∀ key, w.uploadKey i key → w.store.Room cfg key
  | .itemGet _ key _ | .itemTouch _ key _ _ | .addDelta _ key _ _ _ _ _ => w.store.Room cfg key
  | _ => True

/-- A step while connection `i` keeps the item at `p`. -/
def StepKeeping (cfg : Settings) (i : Fin n) (p : Ptr) (w : World n) (l : Op n × Reply)
    (w' : World n) : Prop :=
  w.Step cfg l w' ∧ w'.Keeps i p

end World

/-- **Responses in flight are snapshots**: while a connection keeps an item, steps that go well
leave its value, length and suffix as they were when it got it. -/
theorem sent_of_run {ls ls' : List (Op n × Reply)} {i : Fin n}
    (hr : Run (World.SafeStep cfg) (World.init n) ls w) (hp : w.Keeps i p)
    (hk : Run (fun w l w' => w.StepKeeping cfg i p l w' ∧ w.Safe cfg l.1) w ls' w') :
    w'.store.sent p = w.store.sent p := by
  have hinv : w'.Ok cfg ∧ w'.Keeps i p ∧ w'.store.sent p = w.store.sent p := by
    refine hk.invariant (P := fun v => v.Ok cfg ∧ v.Keeps i p ∧ v.store.sent p = w.store.sent p)
      ⟨World.ok_of_run hr, hp, rfl⟩ ?_
    rintro u l v ⟨hok, hu, hs⟩ ⟨⟨hst, hv⟩, hsafe⟩
    exact ⟨hok.step ⟨hst, hsafe⟩, hv, (hok.sent_step ⟨hst, hsafe⟩ hu hv).trans hs⟩
  exact hinv.2.2

/-! ## Tail repair -/

/-- `Settings.small`, with tail repair after ten seconds, the least that `main` accepts. -/
def Settings.repairing : Settings := { Settings.small with tailRepairTime := 10 }

/-- The server after `set k` and a lookup of `k` by connection 0. -/
def World.looking (cfg : Settings) : World 2 :=
  (((World.init 2).exec cfg (.itemAlloc 0 [107] 0 0 3 (.quick (some 0)))).1.execs cfg
    (uploadOps 0 firstChunk .set [53, 13, 10] 0 ++ [.itemGet 0 [107] true])).1

/-- Another connection uploads an item 18 seconds later. -/
def uploadLater : List (Op 2) :=
  [.clock 80, .itemAlloc 1 [108] 0 0 3 (.quick none), .nread 1 [54, 13, 10] 0]

/-- The check of a script whose references find room. -/
theorem World.counted_of_safe {cfg : Settings} {op : Op n} (h : w.safe cfg op = true) :
    w.Counted cfg op := by
  cases op with
  | storeItem i comm env =>
      rintro key ⟨it, hi, rfl⟩
      simp only [safe, hi] at h
      exact room_of_roomy h
  | itemGet i key response | itemTouch i key exptime response => exact room_of_roomy h
  | addDelta i key incr delta reqCas env beyond => exact room_of_roomy h
  | _ => trivial

/-- A script during which the connection keeps the item. -/
theorem World.run_keeping {i : Fin n} {P : World n → Op n → Bool} {S : World n → Op n → Prop}
    (hP : ∀ w op, P w op = true → S w op) {ops : List (Op n)}
    (h : w.checkAll cfg
      (fun w op => w.ready op && P w op && decide ((w.exec cfg op).1.Keeps i p)) ops = true) :
    Run (fun w l w' => w.StepKeeping cfg i p l w' ∧ S w l.1) w (w.execs cfg ops).2
      (w.execs cfg ops).1 := by
  have hrun := World.run_execs (S := fun w op => S w op ∧ (w.exec cfg op).1.Keeps i p)
    (fun w op h => by
      simp only [Bool.and_eq_true, decide_eq_true_eq] at h
      exact ⟨h.1.1, hP w op h.1.2, h.2⟩) h
  refine hrun.mono (P := fun _ => True) trivial ?_
  rintro u l v - ⟨hst, hS, hk⟩
  rw [hst.2] at hk
  exact ⟨⟨⟨hst, hk⟩, hS⟩, trivial⟩

/-- What the first connection looked up stays while the second uploads. -/
theorem sent_of_run_looking :
    ((World.looking .small).execs .small uploadLater).1.store.sent firstChunk
      = (World.looking .small).store.sent firstChunk := by
  have hlook : Run (World.SafeStep .small) (World.init 2) _ (World.looking .small) :=
    .cons ⟨World.step_first .small [107] 0 0 (by decide), Or.inl rfl⟩
      (World.run_execs_safe _ rfl (by decide +kernel))
  exact sent_of_run (i := 0) hlook (by decide +kernel)
    (World.run_keeping (P := fun w op => w.safe .small op) (fun _ _ h => World.safe_of_check rfl h)
      (by decide +kernel))

/-- **Tail repair takes a reference that is in use for a leaked one**: the item is freed, its chunk
is given to the next upload, and what the first connection is about to send changes. -/
theorem sent_repaired : ¬ ∀ (cfg : Settings) (n : ℕ) (ls ls' : List (Op n × Reply)) (w w' : World n)
    (i : Fin n) (p : Ptr),
    Run (fun w l w' => World.Step cfg w l w' ∧ w.Counted cfg l.1) (World.init n) ls w →
    w.Keeps i p → Run (fun w l w' => w.StepKeeping cfg i p l w' ∧ w.Counted cfg l.1) w ls' w' →
    w'.store.sent p = w.store.sent p := by
  intro hall
  have hlook : Run (fun w l w' => World.Step .repairing w l w' ∧ w.Counted .repairing l.1)
      (World.init 2) _ (World.looking .repairing) :=
    .cons ⟨World.step_first .repairing [107] 0 0 (by decide), trivial⟩
      (World.run_execs (S := fun w op => w.Counted .repairing op)
        (P := fun w op => w.ready op && w.safe .repairing op)
        (fun w op h => by
          rw [Bool.and_eq_true] at h
          exact ⟨h.1, World.counted_of_safe h.2⟩) (by decide +kernel))
  have hkeeping : (World.looking .repairing).checkAll .repairing (fun w op => w.ready op &&
      w.safe .repairing op && decide ((w.exec .repairing op).1.Keeps 0 firstChunk)) uploadLater
        = true := by
    decide +kernel
  have hsent := hall .repairing 2 _ _ _ _ 0 firstChunk hlook (by decide +kernel)
    (World.run_keeping (P := fun w op => w.safe .repairing op)
      (fun _ _ h => World.counted_of_safe h) hkeeping)
  exact absurd hsent (by decide +kernel)

end Memcached
