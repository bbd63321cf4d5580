import Memcached.Connection
import Memcached.Lib.Queue
import Memcached.Lib.Transition
import Mathlib.Data.List.Chain
import Mathlib.Data.List.Range
import Mathlib.Data.Int.CardIntervalMod

/-! # Handing connections to the workers

The main thread accepts connections and gives each to a worker: `dispatch_conn_new` writes it into a
`CQ_ITEM`, puts that on the worker's `new_conn_queue` and a `c` into the worker's pipe.
`thread_libevent_process` reads the byte, takes the item, opens the connection and gives the item back
to `cqi_freelist`, from where the main thread takes the next one.

* **`Dispatch.step`** — the threads, one access to a shared field at a time.
* **`Custody`**, **`Delivery`** — who has which `CQ_ITEM`, and what has been delivered.
* **`Move`** — the same steps without the lists' pointers.
* **`ok_of_run`**, **`turns_of_run`** — what holds in every run. -/

namespace Memcached

open DoublyLinked (setAt setAt_of_ne)
open SinglyLinked (Chains Owned)
open Transition (Run)

/-! ## The threads -/

/-- What `dispatch_conn_new` is called with, and a `CQ_ITEM` holds beside its link. -/
structure ConnRequest where
  sfd : ℕ
  initState : ConnState
  eventFlags : ℕ
  readBufferSize : ℕ
  transport : Transport
  deriving DecidableEq, Repr

/-- `ITEMS_PER_ALLOC`. -/
def itemsPerAlloc : ℕ := 64

/-- The bytes in a worker's pipe: `c` announces a connection, `l` and `g` switch the lock type. -/
inductive NotifyByte
  | c
  | l
  | g
  deriving DecidableEq, Repr

/-- Where the main thread is. -/
inductive DispatcherState
  /-- Outside `dispatch_conn_new`. -/
  | idle
  /-- In `cqi_new`, before the free list is looked at. -/
  | calling (r : ConnRequest)
  /-- In `cqi_new`, when the free list was empty. -/
  | allocating (r : ConnRequest)
  /-- With the new items from `item` on, before they are put on the free list. -/
  | linking (r : ConnRequest) (item : ℕ)
  /-- With a new item. -/
  | filling (r : ConnRequest) (item : ℕ)
  /-- Before `cq_push` on the queue of worker `tid`. -/
  | pushing (r : ConnRequest) (item tid : ℕ)
  /-- Before `write`. -/
  | notifying (tid : ℕ)
  deriving DecidableEq, Repr

/-- Where a worker is. -/
inductive ReceiverState
  | idle
  /-- It has read a `c`, and `cq_pop` comes next. -/
  | popping
  /-- Before `conn_new`. -/
  | opening (item : ℕ)
  /-- Before `cqi_free`. -/
  | freeing (item : ℕ)
  deriving DecidableEq, Repr

/-- The items the main thread has. -/
def DispatcherState.items : DispatcherState → List ℕ
  | .linking _ item => List.range' item itemsPerAlloc
  | .filling _ item => [item]
  | .pushing _ item _ => [item]
  | _ => []

/-- The connection that `dispatch_conn_new` has in hand. -/
def DispatcherState.inHand : DispatcherState → List ConnRequest
  | .calling r => [r]
  | .allocating r => [r]
  | .linking r _ => [r]
  | .filling r _ => [r]
  | .pushing r _ _ => [r]
  | _ => []

/-- The turn that is taken and not seen on a queue yet. -/
def DispatcherState.turn : DispatcherState → ℕ
  | .pushing _ _ _ => 1
  | _ => 0

/-- The item a worker has. -/
def ReceiverState.items : ReceiverState → List ℕ
  | .opening item => [item]
  | .freeing item => [item]
  | _ => []

/-- A worker: `new_conn_queue`, the pipe, and what it is doing. -/
structure Receiver where
  head : Option ℕ
  tail : Option ℕ
  pipe : List NotifyByte
  state : ReceiverState
  deriving DecidableEq, Repr

/-- **The dispatcher and its workers.** -/
structure Dispatch where
  /-- The link of each `CQ_ITEM`. -/
  next : ℕ → Option ℕ
  /-- What is written in it. -/
  request : ℕ → ConnRequest
  cqiFreelist : Option ℕ
  workers : ℕ → Receiver
  lastThread : ℤ
  main : DispatcherState
  /-- The arrays that `malloc` has given. -/
  arrays : List ℕ
  /-- The calls of `dispatch_conn_new`. -/
  calls : List ConnRequest
  /-- Those that ended in `close`, for want of memory. -/
  refused : List ConnRequest
  /-- What was put on the queues, and on which. -/
  pushed : List (ℕ × ConnRequest)
  /-- What the workers have taken from them, with the result of `conn_new`. -/
  opened : ℕ → List (ConnRequest × Bool)
  /-- How many times `write` to a worker failed. -/
  unwritten : ℕ → ℕ

/-- What happens next. -/
inductive DispatchStep
  /-- `dispatch_conn_new` is called. -/
  | call (r : ConnRequest)
  /-- The first section of `cqi_new`. -/
  | take
  /-- `malloc` in `cqi_new`, and the links between the new items. -/
  | malloc (answer : Option ℕ)
  /-- The second section of `cqi_new`. -/
  | link
  /-- The fields of the item are set, and `last_thread`. -/
  | fill
  /-- `cq_push`. -/
  | push
  /-- `write`, which may fail. -/
  | write (ok : Bool)
  /-- `switch_item_lock_type` writes to a pipe. -/
  | switchLock (i : ℕ) (b : NotifyByte)
  /-- `thread_libevent_process` reads a byte. -/
  | read (i : ℕ)
  /-- `cq_pop`. -/
  | pop (i : ℕ)
  /-- `conn_new`, which may fail. -/
  | connNew (i : ℕ) (ok : Bool)
  /-- `cqi_free`. -/
  | free (i : ℕ)
  deriving DecidableEq, Repr

namespace Dispatch

/-- The server when `thread_init` has run. -/
def init : Dispatch where
  next _ := none
  request _ := ⟨0, .closing, 0, 0, .tcp⟩
  cqiFreelist := none
  workers _ := ⟨none, none, [], .idle⟩
  lastThread := -1
  main := .idle
  arrays := []
  calls := []
  refused := []
  pushed := []
  opened _ := []
  unwritten _ := 0

/-- Change worker `i`. -/
def setWorker (s : Dispatch) (i : ℕ) (w : Receiver) : Dispatch :=
  { s with workers := Function.update s.workers i w }

/-- The addresses `malloc` has given out. -/
def Allocated (s : Dispatch) (p : ℕ) : Prop := ∃ b ∈ s.arrays, b ≤ p ∧ p < b + itemsPerAlloc

/-- `malloc` gives an array that meets no other. -/
def Fresh (s : Dispatch) (b : ℕ) : Prop :=
  ∀ b' ∈ s.arrays, b + itemsPerAlloc ≤ b' ∨ b' + itemsPerAlloc ≤ b

instance (s : Dispatch) (b : ℕ) : Decidable (s.Fresh b) :=
  inferInstanceAs (Decidable (∀ b' ∈ s.arrays, b + itemsPerAlloc ≤ b' ∨ b' + itemsPerAlloc ≤ b))

/-- The loop of `cqi_new` over the new items from `item` on: `item[i - 1].next = &item[i]`, from
`item[1]` to the last but one. -/
def linkItems (next : ℕ → Option ℕ) (item : ℕ) (p : ℕ) : Option ℕ :=
  if item + 1 ≤ p ∧ p + 1 < item + itemsPerAlloc then some (p + 1) else next p

/-- `cq_push`, the field `tail` last. -/
def cqPush (s : Dispatch) (i item : ℕ) : Dispatch :=
  let w := s.workers i
  let next := Function.update s.next item none
  match w.tail with
  | none => { s.setWorker i { w with head := some item, tail := some item } with next := next }
  | some t =>
      { s.setWorker i { w with tail := some item } with next := Function.update next t (some item) }

/-- `cq_pop`: the item, and the queue without it. -/
def cqPop (s : Dispatch) (i : ℕ) : Option ℕ × Receiver :=
  let w := s.workers i
  match w.head with
  | none => (none, w)
  | some item =>
      let head := s.next item
      (some item, { w with head := head, tail := if head = none then none else w.tail })

/-- **One step** of the server with `n` workers. -/
def step (n : ℕ) (s : Dispatch) : DispatchStep → Option Dispatch
  | .call r =>
      if s.main = .idle then some { s with main := .calling r, calls := s.calls ++ [r] } else none
  | .take =>
      match s.main with
      | .calling r =>
          match s.cqiFreelist with
          | some item => some { s with cqiFreelist := s.next item, main := .filling r item }
          | none => some { s with main := .allocating r }
      | _ => none
  | .malloc answer =>
      match s.main with
      | .allocating r =>
          match answer with
          | none => some { s with main := .idle, refused := s.refused ++ [r] }
          | some item =>
              if s.Fresh item then
                some { s with
                  next := linkItems s.next item
                  main := .linking r item
                  arrays := item :: s.arrays }
              else none
      | _ => none
  | .link =>
      match s.main with
      | .linking r item =>
          some { s with
            next := Function.update s.next (item + (itemsPerAlloc - 1)) s.cqiFreelist
            cqiFreelist := some (item + 1)
            main := .filling r item }
      | _ => none
  | .fill =>
      match s.main with
      | .filling r item =>
          let tid := (s.lastThread + 1) % n
          some { s with
            lastThread := tid
            request := Function.update s.request item r
            main := .pushing r item tid.toNat }
      | _ => none
  | .push =>
      match s.main with
      | .pushing r item tid =>
          some { s.cqPush tid item with main := .notifying tid, pushed := s.pushed ++ [(tid, r)] }
      | _ => none
  | .write ok =>
      match s.main with
      | .notifying tid =>
          if ok then
            let w := s.workers tid
            some { s.setWorker tid { w with pipe := w.pipe ++ [.c] } with main := .idle }
          else
            some { s with
              main := .idle
              unwritten := Function.update s.unwritten tid (s.unwritten tid + 1) }
      | _ => none
  | .switchLock i b =>
      let w := s.workers i
      if b = .c then none else some (s.setWorker i { w with pipe := w.pipe ++ [b] })
  | .read i =>
      let w := s.workers i
      match w.state, w.pipe with
      | .idle, .c :: pipe => some (s.setWorker i { w with pipe := pipe, state := .popping })
      | .idle, _ :: pipe => some (s.setWorker i { w with pipe := pipe })
      | _, _ => none
  | .pop i =>
      match (s.workers i).state with
      | .popping =>
          match s.cqPop i with
          | (none, w) => some (s.setWorker i { w with state := .idle })
          | (some item, w) => some (s.setWorker i { w with state := .opening item })
      | _ => none
  | .connNew i ok =>
      match (s.workers i).state with
      | .opening item =>
          -- without its UDP socket the process exits
          if ok = false ∧ (s.request item).transport = .udp then none
          else
            some { s.setWorker i { s.workers i with state := .freeing item } with
              opened := Function.update s.opened i (s.opened i ++ [(s.request item, ok)]) }
      | _ => none
  | .free i =>
      match (s.workers i).state with
      | .freeing item =>
          some { s.setWorker i { s.workers i with state := .idle } with
            next := Function.update s.next item s.cqiFreelist
            cqiFreelist := some item }
      | _ => none

/-- The server takes a step. -/
def Step (n : ℕ) (s : Dispatch) (l : DispatchStep) (s' : Dispatch) : Prop := s.step n l = some s'

/-! ## What a step can do -/

section

variable {n : ℕ} {s s' : Dispatch} {l : DispatchStep} {q : Option ℕ → List ℕ}
  {i j : ℕ}

/-- The workers, when one has changed. -/
@[simp] theorem workers_setWorker (s : Dispatch) (i : ℕ) (w : Receiver) (j : ℕ) :
    (s.setWorker i w).workers j = if j = i then w else s.workers j := Function.update_apply ..

/-- A worker that changes writes no byte for the main thread. -/
@[simp] theorem unwritten_setWorker (s : Dispatch) (i : ℕ) (w : Receiver) :
    (s.setWorker i w).unwritten = s.unwritten := rfl

/-- A worker that changes leaves the main thread where it is. -/
@[simp] theorem main_setWorker (s : Dispatch) (i : ℕ) (w : Receiver) :
    (s.setWorker i w).main = s.main := rfl

/-- `cq_push` as one update of the worker's queue and of the links. -/
theorem cqPush_eq (s : Dispatch) (i item : ℕ) :
    s.cqPush i item = { s.setWorker i { s.workers i with
        head := if (s.workers i).tail = none then some item else (s.workers i).head
        tail := some item } with
      next := setAt (Function.update s.next item none) (s.workers i).tail (some item) } := by
  rw [cqPush]
  split
  · rename_i htail
    simp [htail]
  · rename_i t htail
    simp [htail]

/-- **The steps**, one constructor for each way through the code. -/
inductive Move (n : ℕ) (s : Dispatch) : DispatchStep → Dispatch → Prop
  | call (r : ConnRequest) (hm : s.main = .idle) :
      Move n s (.call r) { s with main := .calling r, calls := s.calls ++ [r] }
  | taken {r : ConnRequest} {item : ℕ} (hm : s.main = .calling r) (hf : s.cqiFreelist = some item) :
      Move n s .take { s with cqiFreelist := s.next item, main := .filling r item }
  | noneFree {r : ConnRequest} (hm : s.main = .calling r) (hf : s.cqiFreelist = none) :
      Move n s .take { s with main := .allocating r }
  | refused {r : ConnRequest} (hm : s.main = .allocating r) :
      Move n s (.malloc none) { s with main := .idle, refused := s.refused ++ [r] }
  | malloc {r : ConnRequest} {item : ℕ} (hm : s.main = .allocating r) (hf : s.Fresh item) :
      Move n s (.malloc (some item)) { s with
        next := linkItems s.next item
        main := .linking r item
        arrays := item :: s.arrays }
  | link {r : ConnRequest} {item : ℕ} (hm : s.main = .linking r item) :
      Move n s .link { s with
        next := Function.update s.next (item + (itemsPerAlloc - 1)) s.cqiFreelist
        cqiFreelist := some (item + 1)
        main := .filling r item }
  | fill {r : ConnRequest} {item : ℕ} (hm : s.main = .filling r item) :
      Move n s .fill { s with
        lastThread := (s.lastThread + 1) % n
        request := Function.update s.request item r
        main := .pushing r item ((s.lastThread + 1) % n).toNat }
  | push {r : ConnRequest} {item tid : ℕ} (hm : s.main = .pushing r item tid) :
      Move n s .push { s.setWorker tid { s.workers tid with
          head := if (s.workers tid).tail = none then some item else (s.workers tid).head
          tail := some item } with
        next := setAt (Function.update s.next item none) (s.workers tid).tail (some item)
        main := .notifying tid
        pushed := s.pushed ++ [(tid, r)] }
  | written {tid : ℕ} (hm : s.main = .notifying tid) :
      Move n s (.write true) { s.setWorker tid { s.workers tid with
          pipe := (s.workers tid).pipe ++ [.c] } with main := .idle }
  | unwritten {tid : ℕ} (hm : s.main = .notifying tid) :
      Move n s (.write false) { s with
        main := .idle
        unwritten := Function.update s.unwritten tid (s.unwritten tid + 1) }
  | switchLock (i : ℕ) {b : NotifyByte} (hb : b ≠ .c) :
      Move n s (.switchLock i b)
        (s.setWorker i { s.workers i with pipe := (s.workers i).pipe ++ [b] })
  | read {i : ℕ} {pipe : List NotifyByte} (hw : (s.workers i).state = .idle)
      (hp : (s.workers i).pipe = .c :: pipe) :
      Move n s (.read i) (s.setWorker i { s.workers i with pipe := pipe, state := .popping })
  | readLock {i : ℕ} {b : NotifyByte} {pipe : List NotifyByte} (hw : (s.workers i).state = .idle)
      (hp : (s.workers i).pipe = b :: pipe) (hb : b ≠ .c) :
      Move n s (.read i) (s.setWorker i { s.workers i with pipe := pipe })
  | popNone {i : ℕ} (hw : (s.workers i).state = .popping) (hh : (s.workers i).head = none) :
      Move n s (.pop i) (s.setWorker i { s.workers i with state := .idle })
  | pop {i item : ℕ} (hw : (s.workers i).state = .popping) (hh : (s.workers i).head = some item) :
      Move n s (.pop i) (s.setWorker i { s.workers i with
        head := s.next item
        tail := if s.next item = none then none else (s.workers i).tail
        state := .opening item })
  | connNew {i item : ℕ} {ok : Bool} (hw : (s.workers i).state = .opening item) :
      Move n s (.connNew i ok) { s.setWorker i { s.workers i with state := .freeing item } with
        opened := Function.update s.opened i (s.opened i ++ [(s.request item, ok)]) }
  | free {i item : ℕ} (hw : (s.workers i).state = .freeing item) :
      Move n s (.free i) { s.setWorker i { s.workers i with state := .idle } with
        next := Function.update s.next item s.cqiFreelist
        cqiFreelist := some item }

/-- A step of the code is a move of the abstract system. -/
theorem Step.move (h : Step n s l s') : Move n s l s' := by
  rw [Step, step.eq_def] at h
  split at h
  · split_ifs at h with hm
    exact Option.some.inj h ▸ .call _ hm
  · split at h
    · rename_i r hm
      split at h
      · rename_i item hf
        exact Option.some.inj h ▸ .taken hm hf
      · rename_i hf
        exact Option.some.inj h ▸ .noneFree hm hf
    · cases h
  · split at h
    · rename_i r hm
      split at h
      · exact Option.some.inj h ▸ .refused hm
      · split_ifs at h with hf
        exact Option.some.inj h ▸ .malloc hm hf
    · cases h
  · split at h
    · rename_i r item hm
      exact Option.some.inj h ▸ .link hm
    · cases h
  · split at h
    · rename_i r item hm
      exact Option.some.inj h ▸ .fill hm
    · cases h
  · split at h
    · rename_i r item tid hm
      rw [cqPush_eq] at h
      exact Option.some.inj h ▸ .push hm
    · cases h
  · split at h
    · rename_i tid hm
      split_ifs at h with hok
      · subst hok
        exact Option.some.inj h ▸ .written hm
      · obtain rfl := Bool.not_eq_true _ ▸ hok
        exact Option.some.inj h ▸ .unwritten hm
    · cases h
  · split_ifs at h with hb
    exact Option.some.inj h ▸ .switchLock _ hb
  · simp only at h
    split at h
    · rename_i pipe hw hp
      exact Option.some.inj h ▸ .read hw hp
    · rename_i b pipe hb hw hp
      exact Option.some.inj h ▸ .readLock hw hp hb
    · cases h
  · split at h
    · rename_i hw
      rw [cqPop.eq_def] at h
      split at h
      · rename_i w hpop
        simp only at hpop
        split at hpop
        · rename_i hh
          obtain rfl := (Prod.mk.inj hpop).2
          exact Option.some.inj h ▸ .popNone hw hh
        · cases hpop
      · rename_i item w hpop
        simp only at hpop
        split at hpop
        · cases hpop
        · rename_i item' hh
          obtain ⟨hitem, rfl⟩ := Prod.mk.inj hpop
          obtain rfl := Option.some.inj hitem
          exact Option.some.inj h ▸ .pop hw hh
    · cases h
  · split at h
    · rename_i item hw
      split_ifs at h with hudp
      exact Option.some.inj h ▸ .connNew hw
    · cases h
  · split at h
    · rename_i item hw
      exact Option.some.inj h ▸ .free hw
    · cases h

/-! ## Who has an item -/

/-- Where an item can be. -/
inductive Place
  | free
  | queue (i : ℕ)
  | main
  | worker (i : ℕ)
  deriving DecidableEq, Repr

/-- The pointers into the lists of items: the free list, and the queue of each worker. -/
def entry (s : Dispatch) : Option ℕ → Option ℕ
  | none => s.cqiFreelist
  | some i => (s.workers i).head

/-- The items at each place. -/
def items (s : Dispatch) (q : Option ℕ → List ℕ) : Place → List ℕ
  | .free => q none
  | .queue i => q (some i)
  | .main => s.main.items
  | .worker i => (s.workers i).state.items

/-- **No item is lost or in two places.** -/
structure Custody (s : Dispatch) (q : Option ℕ → List ℕ) (owner : ℕ → Option Place) : Prop where
  chains : Chains s.next s.entry q
  tail : ∀ i, (s.workers i).tail = (q (some i)).getLast?
  owned : Owned (s.items q) owner
  allocated : ∀ p, owner p ≠ none ↔ s.Allocated p
  linked : ∀ r item, s.main = .linking r item → ∀ p, item + 1 ≤ p → p + 1 < item + itemsPerAlloc →
    s.next p = some (p + 1)

/-- Where the queues begin, when one worker has changed. -/
theorem entry_setWorker (s : Dispatch) (i : ℕ) (w : Receiver) :
    (s.setWorker i w).entry = Function.update s.entry (some i) w.head := by
  funext o
  cases o with
  | none => simp [entry, setWorker]
  | some j => by_cases hj : j = i <;> simp [entry, hj]

/-- Where the queues begin, when the free list has changed. -/
theorem entry_freelist (s : Dispatch) (item : Option ℕ) :
    { s with cqiFreelist := item }.entry = Function.update s.entry none item := by
  funext o
  cases o <;> rfl

/-- A step that leaves the lists and the items where they are. -/
theorem Custody.congr {owner : ℕ → Option Place} (h : Custody s q owner) (hn : s'.next = s.next)
    (hf : s'.cqiFreelist = s.cqiFreelist) (ha : s'.arrays = s.arrays)
    (hw : ∀ j, (s'.workers j).head = (s.workers j).head ∧ (s'.workers j).tail = (s.workers j).tail ∧
      (s'.workers j).state.items = (s.workers j).state.items)
    (hm : s'.main.items = s.main.items) (hl : ∀ r item, s'.main = .linking r item → s.main = s'.main) :
    Custody s' q owner where
  chains := by
    have hentry : s'.entry = s.entry := by
      funext o
      cases o with
      | none => exact hf
      | some j => exact (hw j).1
    rw [hn, hentry]
    exact h.chains
  tail j := (hw j).2.1.trans (h.tail j)
  owned := by
    have hitems : s'.items q = s.items q := by
      funext a
      cases a with
      | free => rfl
      | queue j => rfl
      | main => exact hm
      | worker j => exact (hw j).2.2
    rw [hitems]
    exact h.owned
  allocated p := by
    rw [h.allocated p, Allocated, Allocated, ha]
  linked r item hlink := by
    rw [hn]
    exact h.linked r item ((hl r item hlink).trans hlink)

/-- An item in a thread's hands is on no list. -/
theorem Custody.not_mem {owner : ℕ → Option Place} (h : Custody s q owner) {a : Place} {p : ℕ}
    (hp : p ∈ s.items q a) (ha : a ≠ .free) (hq : ∀ i, a ≠ .queue i) (o : Option ℕ) : p ∉ q o := by
  intro hm
  cases o with
  | none => exact ha (h.owned.unique hp (b := .free) hm)
  | some i => exact hq i (h.owned.unique hp (b := .queue i) hm)

/-- What the main thread holds is in no queue. -/
theorem Custody.main_not_mem {owner : ℕ → Option Place} (h : Custody s q owner) {p : ℕ}
    (hp : p ∈ s.main.items) (o : Option ℕ) : p ∉ q o :=
  h.not_mem (a := .main) hp (by simp) (by simp) o

/-- Items that change hands are given out as before. -/
theorem Custody.moved {owner : ℕ → Option Place} (h : Custody s q owner) {a b : Place} {l : List ℕ}
    (hl : ∀ x ∈ l, x ∈ s.items q a) (p : ℕ) :
    (if p ∈ l then some b else owner p) ≠ none ↔ s.Allocated p := by
  rw [← h.allocated p]
  by_cases hp : p ∈ l
  · simp [hp, (h.owned a p).mp (hl p hp)]
  · simp [hp]

/-- **`cqi_new`** takes the first free item. -/
theorem Custody.taken {owner : ℕ → Option Place} {r : ConnRequest} {item : ℕ} (h : Custody s q owner)
    (hm : s.main = .calling r) (hf : s.cqiFreelist = some item) :
    ∃ q' owner', Custody { s with cqiFreelist := s.next item, main := .filling r item } q' owner' ∧
      ∀ i, q' (some i) = q (some i) := by
  obtain ⟨l, hl⟩ : ∃ l, q none = item :: l := by
    have hhead := h.chains.head_eq none
    rw [entry, hf] at hhead
    exact ⟨(q none).tail, List.eq_cons_of_mem_head? hhead.symm⟩
  have hitem : item ∉ l := (List.nodup_cons.mp (hl ▸ h.chains.nodup none)).1
  have hmem : ∀ x ∈ [item], x ∈ s.items q .free := fun x hx => by
    simp [items, hl, List.mem_singleton.mp hx]
  refine ⟨Function.update q none l, fun x => if x ∈ [item] then some .main else owner x,
    ⟨?_, fun i => by simpa using h.tail i, ?_, h.moved hmem, fun _ _ hlink => by simp at hlink⟩,
    fun i => by simp⟩
  · have hentry : Dispatch.entry { s with cqiFreelist := s.next item, main := .filling r item }
        = Function.update s.entry none (s.next item) := entry_freelist s (s.next item)
    rw [hentry]
    exact h.chains.pop hl
  · refine h.owned.move (a := .free) hmem (fun x => ?_) (fun x => ?_) (fun c ha hb => ?_)
    · simp only [items, Function.update_self, hl, List.mem_cons, List.not_mem_nil, or_false]
      constructor
      · exact fun hx => ⟨.inr hx, fun e => hitem (e ▸ hx)⟩
      · exact fun ⟨hx, hne⟩ => hx.resolve_left hne
    · simp [items, DispatcherState.items, hm]
    · cases c with
      | free => exact absurd rfl ha
      | queue i => simp [items]
      | main => exact absurd rfl hb
      | worker i => rfl

/-- **`malloc`** gives new items to the main thread. -/
theorem Custody.malloc {owner : ℕ → Option Place} {r : ConnRequest} {item : ℕ} (h : Custody s q owner)
    (hm : s.main = .allocating r) (hf : s.Fresh item) :
    ∃ owner', Custody { s with
      next := linkItems s.next item, main := .linking r item, arrays := item :: s.arrays } q owner' := by
  have hnew : ∀ x ∈ List.range' item itemsPerAlloc, owner x = none := fun x hx => by
    by_contra hne
    obtain ⟨b, hb, hle, hlt⟩ := (h.allocated x).mp hne
    have := hf b hb
    simp only [List.mem_range'_1] at hx
    omega
  have hlisted : ∀ o, ∀ x ∈ q o, x ∉ List.range' item itemsPerAlloc := fun o x hx hin => by
    have hown : owner x ≠ none := by
      cases o with
      | none => simp [(h.owned .free x).mp hx]
      | some i => simp [(h.owned (.queue i) x).mp hx]
    exact hown (hnew x hin)
  refine ⟨fun x => if x ∈ List.range' item itemsPerAlloc then some .main else owner x, ?_, h.tail, ?_, ?_,
    ?_⟩
  · refine h.chains.congr (fun o x hx => ?_)
    have hout := hlisted o x hx
    rw [List.mem_range'_1] at hout
    exact if_neg (by omega)
  · refine h.owned.add hnew (fun x => ?_) (fun c hc => ?_)
    · simp [items, DispatcherState.items, hm]
    · cases c with
      | main => exact absurd rfl hc
      | _ => rfl
  · intro p
    simp only [Allocated, List.exists_mem_cons_iff]
    rw [← Allocated, ← h.allocated p, ← List.mem_range'_1]
    by_cases hp : p ∈ List.range' item itemsPerAlloc
    · simp [hp]
    · simp [hp]
  · intro r' item' hlink p h₁ h₂
    obtain ⟨-, rfl⟩ := DispatcherState.linking.inj hlink
    exact if_pos ⟨h₁, h₂⟩

/-- **All new items but the first** go on the free list. -/
theorem Custody.link {owner : ℕ → Option Place} {r : ConnRequest} {item : ℕ} (h : Custody s q owner)
    (hm : s.main = .linking r item) :
    ∃ q' owner', Custody { s with
        next := Function.update s.next (item + (itemsPerAlloc - 1)) s.cqiFreelist
        cqiFreelist := some (item + 1)
        main := .filling r item } q' owner' ∧
      ∀ i, q' (some i) = q (some i) := by
  set l := List.range' (item + 1) (itemsPerAlloc - 1) with hl
  have hitems : s.main.items = item :: l := by
    rw [hm, DispatcherState.items, hl]
    rfl
  have hmem : ∀ x ∈ l, x ∈ s.items q .main := fun x hx => by
    rw [items, hitems]
    exact List.mem_cons_of_mem item hx
  have hfree : ∀ x ∈ l, ∀ o, x ∉ q o := fun x hx o => h.main_not_mem (hmem x hx) o
  have hchain : l.IsChain (fun x y => s.next x = some y) := by
    refine List.isChain_iff_getElem.mpr (fun k hk => ?_)
    simp only [hl, List.length_range'] at hk
    have hnext := h.linked r item hm (item + 1 + k) (by omega) (by unfold itemsPerAlloc at *; omega)
    simpa [hl, Nat.add_assoc] using hnext
  have hlast : l.getLast? = some (item + (itemsPerAlloc - 1)) := by
    rw [hl, List.getLast?_range']
    rfl
  have hhead : l.head? = some (item + 1) := by
    rw [hl, List.head?_range']
    rfl
  have hchains := h.chains.prepend hchain List.nodup_range' hfree none
  rw [hlast, hhead] at hchains
  have hout : item ∉ l := by
    rw [hl, List.mem_range'_1]
    omega
  refine ⟨Function.update q none (l ++ q none), fun x => if x ∈ l then some .free else owner x,
    ⟨?_, fun i => by simpa using h.tail i, ?_, h.moved hmem, fun _ _ hlink => by simp at hlink⟩,
    fun i => by simp⟩
  · have hentry : Dispatch.entry { s with
          next := Function.update s.next (item + (itemsPerAlloc - 1)) s.cqiFreelist
          cqiFreelist := some (item + 1)
          main := .filling r item } = Function.update s.entry none (some (item + 1)) :=
      entry_freelist s (some (item + 1))
    rw [hentry]
    exact hchains
  · refine h.owned.move (a := .main) hmem (fun x => ?_) (fun x => ?_) (fun c ha hb => ?_)
    · rw [show s.items q .main = item :: l from hitems]
      simp only [items, DispatcherState.items, List.mem_cons, List.not_mem_nil, or_false]
      constructor
      · exact fun hx => ⟨.inl hx, fun hx' => hout (hx ▸ hx')⟩
      · exact fun ⟨hx, hne⟩ => hx.resolve_right hne
    · simp [items, or_comm]
    · cases c with
      | free => exact absurd rfl hb
      | queue i => simp [items]
      | main => exact absurd rfl ha
      | worker i => rfl

/-- **`cq_push`.** -/
theorem Custody.push {owner : ℕ → Option Place} {r : ConnRequest} {item tid : ℕ}
    (h : Custody s q owner) (hm : s.main = .pushing r item tid) :
    ∃ owner', Custody { s.setWorker tid { s.workers tid with
          head := if (s.workers tid).tail = none then some item else (s.workers tid).head
          tail := some item } with
        next := setAt (Function.update s.next item none) (s.workers tid).tail (some item)
        main := .notifying tid
        pushed := s.pushed ++ [(tid, r)] }
      (Function.update q (some tid) (q (some tid) ++ [item])) owner' := by
  have hmem : ∀ x ∈ [item], x ∈ s.items q .main := fun x hx => by
    simp [items, DispatcherState.items, hm, List.mem_singleton.mp hx]
  have hfree : ∀ o, item ∉ q o := fun o => h.main_not_mem (hmem item (by simp)) o
  have hchains := h.chains.pushBack hfree (some tid)
  rw [← h.tail tid] at hchains
  refine ⟨fun x => if x ∈ [item] then some (.queue tid) else owner x, ?_, fun j => ?_, ?_, h.moved hmem,
    fun _ _ hlink => by simp at hlink⟩
  · have hentry : Dispatch.entry { s.setWorker tid { s.workers tid with
          head := if (s.workers tid).tail = none then some item else (s.workers tid).head
          tail := some item } with
        next := setAt (Function.update s.next item none) (s.workers tid).tail (some item)
        main := .notifying tid
        pushed := s.pushed ++ [(tid, r)] }
        = if (s.workers tid).tail = none then Function.update s.entry (some tid) (some item)
          else s.entry := by
      refine (entry_setWorker s tid _).trans ?_
      split_ifs
      · rfl
      · exact Function.update_eq_self (some tid) s.entry
    rw [hentry]
    exact hchains
  · by_cases hj : j = tid
    · simp [hj]
    · simpa [hj] using h.tail j
  · refine h.owned.move (a := .main) hmem (fun x => ?_) (fun x => ?_) (fun c ha hb => ?_)
    · simp [items, DispatcherState.items, hm]
    · simp [items]
    · cases c with
      | free => simp [items]
      | queue j =>
          have hj : j ≠ tid := fun e => hb (e ▸ rfl)
          simp [items, hj]
      | main => exact absurd rfl ha
      | worker j => by_cases hj : j = tid <;> simp [items, hj]

/-- **`cq_pop`.** -/
theorem Custody.pop {owner : ℕ → Option Place} {item : ℕ} {l : List ℕ} (h : Custody s q owner)
    (hw : (s.workers i).state = .popping) (hl : q (some i) = item :: l) :
    ∃ owner', Custody (s.setWorker i { s.workers i with
        head := s.next item
        tail := if s.next item = none then none else (s.workers i).tail
        state := .opening item }) (Function.update q (some i) l) owner' := by
  have hitem : item ∉ l := (List.nodup_cons.mp (hl ▸ h.chains.nodup (some i))).1
  have hnext : s.next item = l.head? := by
    have hseg := h.chains.seg (some i)
    rw [hl] at hseg
    exact hseg.1
  have hmem : ∀ x ∈ [item], x ∈ s.items q (.queue i) := fun x hx => by
    simp [items, hl, List.mem_singleton.mp hx]
  refine ⟨fun x => if x ∈ [item] then some (.worker i) else owner x, ?_, fun j => ?_, ?_, h.moved hmem,
    h.linked⟩
  · rw [entry_setWorker]
    exact h.chains.pop hl
  · by_cases hj : j = i
    · subst hj
      have htail := h.tail j
      rw [hl] at htail
      cases l with
      | nil => simp [hnext]
      | cons y ys => simpa [hnext, List.getLast?_cons] using htail
    · simpa [hj] using h.tail j
  · refine h.owned.move (a := .queue i) hmem (fun x => ?_) (fun x => ?_) (fun c ha hb => ?_)
    · simp only [items, Function.update_self, hl, List.mem_cons, List.not_mem_nil, or_false]
      constructor
      · exact fun hx => ⟨.inr hx, fun e => hitem (e ▸ hx)⟩
      · exact fun ⟨hx, hne⟩ => hx.resolve_left hne
    · simp [items, ReceiverState.items, hw]
    · cases c with
      | free => simp [items]
      | queue j =>
          have hj : j ≠ i := fun e => ha (e ▸ rfl)
          simp [items, hj]
      | main => rfl
      | worker j =>
          have hj : j ≠ i := fun e => hb (e ▸ rfl)
          simp [items, hj]

/-- **`cqi_free`.** -/
theorem Custody.free {owner : ℕ → Option Place} {item : ℕ} (h : Custody s q owner)
    (hw : (s.workers i).state = .freeing item) :
    ∃ q' owner', Custody { s.setWorker i { s.workers i with state := .idle } with
        next := Function.update s.next item s.cqiFreelist
        cqiFreelist := some item } q' owner' ∧
      ∀ j, q' (some j) = q (some j) := by
  have hmem : ∀ x ∈ [item], x ∈ s.items q (.worker i) := fun x hx => by
    simp [items, ReceiverState.items, hw, List.mem_singleton.mp hx]
  have hfree : ∀ o, item ∉ q o := fun o =>
    h.not_mem (a := .worker i) (hmem item (by simp)) (by simp) (by simp) o
  refine ⟨Function.update q none (item :: q none), fun x => if x ∈ [item] then some .free else owner x,
    ⟨?_, fun j => ?_, ?_, h.moved hmem, fun r item' hlink p h₁ h₂ => ?_⟩, fun j => by simp⟩
  · have hentry : Dispatch.entry { s.setWorker i { s.workers i with state := .idle } with
          next := Function.update s.next item s.cqiFreelist
          cqiFreelist := some item } = Function.update s.entry none (some item) := by
      refine (entry_freelist (s.setWorker i { s.workers i with state := .idle }) (some item)).trans ?_
      rw [entry_setWorker]
      exact congrArg (Function.update · none (some item)) (Function.update_eq_self (some i) s.entry)
    rw [hentry]
    exact h.chains.insert hfree none
  · by_cases hj : j = i
    · simpa [hj] using h.tail i
    · simpa [hj] using h.tail j
  · refine h.owned.move (a := .worker i) hmem (fun x => ?_) (fun x => ?_) (fun c ha hb => ?_)
    · simp [items, ReceiverState.items, hw]
    · simp [items, or_comm]
    · cases c with
      | free => exact absurd rfl hb
      | queue j => simp [items]
      | main => rfl
      | worker j =>
          have hj : j ≠ i := fun e => ha (e ▸ rfl)
          simp [items, hj]
  · have hp : p ≠ item := by
      rintro rfl
      have hmain : p ∈ s.items q .main := by
        rw [items, show s.main = .linking r item' from hlink, DispatcherState.items, List.mem_range'_1]
        omega
      exact absurd (h.owned.unique hmain (hmem p (by simp))) (by simp)
    exact (Function.update_of_ne hp _ _).trans (h.linked r item' hlink p h₁ h₂)

/-! ## What has been handed on -/

/-- The connections put on the queue of worker `i`. -/
def pushedTo (s : Dispatch) (i : ℕ) : List ConnRequest :=
  (s.pushed.filter (fun x => x.1 = i)).map Prod.snd

/-- The connection that worker `i` has taken and not opened yet. -/
def unopened (s : Dispatch) (i : ℕ) : List ConnRequest :=
  match (s.workers i).state with
  | .opening item => [s.request item]
  | _ => []

/-- Worker `i` has read a byte and not looked at its queue yet. -/
def reading (s : Dispatch) (i : ℕ) : ℕ := if (s.workers i).state = .popping then 1 else 0

/-- The byte for the last connection of worker `i` is not written yet. -/
def unnotified (s : Dispatch) (i : ℕ) : ℕ := if s.main = .notifying i then 1 else 0

/-- What is still to be notified, when one worker has changed. -/
@[simp] theorem unnotified_setWorker (s : Dispatch) (i : ℕ) (w : Receiver) (j : ℕ) :
    (s.setWorker i w).unnotified j = s.unnotified j := rfl

/-- **What was put on a queue** was opened, is being opened or waits, in this order; and there is a byte
for each connection that waits, but for those whose byte is still to come or could not be written. -/
structure Delivery (s : Dispatch) (q : Option ℕ → List ℕ) : Prop where
  filled : ∀ r item tid, s.main = .pushing r item tid → s.request item = r
  delivered : ∀ i, s.pushedTo i
    = (s.opened i).map Prod.fst ++ s.unopened i ++ (q (some i)).map s.request
  counted : ∀ i, (q (some i)).length
    = (s.workers i).pipe.count .c + s.reading i + s.unnotified i + s.unwritten i

/-- A step that leaves the queues and what is written in the items as they are, and for each byte it
takes away notes that it was read. -/
theorem Delivery.congr {q' : Option ℕ → List ℕ} (h : Delivery s q) (hq : ∀ i, q' (some i) = q (some i))
    (hr : s'.request = s.request) (hp : s'.pushed = s.pushed) (ho : s'.opened = s.opened)
    (hu : ∀ i, s'.unopened i = s.unopened i)
    (hm : ∀ r item tid, s'.main = .pushing r item tid → s.main = .pushing r item tid)
    (hc : ∀ i, (s'.workers i).pipe.count .c + s'.reading i + s'.unnotified i + s'.unwritten i
      = (s.workers i).pipe.count .c + s.reading i + s.unnotified i + s.unwritten i) :
    Delivery s' q' where
  filled r item tid hpush := by
    rw [hr]
    exact h.filled r item tid (hm r item tid hpush)
  delivered i := by
    rw [pushedTo, hp, ho, hu i, hq i, hr]
    exact h.delivered i
  counted i := by
    rw [hq i, hc i]
    exact h.counted i

/-- The queues and the items are in order. -/
def Ok (s : Dispatch) : Prop := ∃ q owner, Custody s q owner ∧ Delivery s q

/-- **A worker that has read a `c` finds a connection.** -/
theorem Delivery.head_ne_none {owner : ℕ → Option Place} (hd : Delivery s q) (hc : Custody s q owner)
    (hw : (s.workers i).state = .popping) : (s.workers i).head ≠ none := by
  intro hh
  have hempty : q (some i) = [] := List.head?_eq_none_iff.mp ((hc.chains.head_eq (some i)).symm.trans hh)
  have hlen := hd.counted i
  simp only [hempty, List.length_nil, reading, hw, if_true] at hlen
  omega

/-- Filling an item in delivers nothing yet. -/
theorem Delivery.fill {owner : ℕ → Option Place} {r : ConnRequest} {item tid : ℕ} {z : ℤ}
    (hd : Delivery s q) (hc : Custody s q owner) (hm : s.main = .filling r item) :
    Delivery { s with
      lastThread := z
      request := Function.update s.request item r
      main := .pushing r item tid } q where
  filled r' item' tid' hpush := by
    obtain ⟨rfl, rfl, -⟩ := DispatcherState.pushing.inj hpush
    exact Function.update_self ..
  delivered i := by
    have hmain : item ∈ s.items q .main := by simp [items, hm, DispatcherState.items]
    have hqueue : (q (some i)).map (Function.update s.request item r) = (q (some i)).map s.request := by
      refine List.map_congr_left (fun x hx => Function.update_of_ne (fun e => ?_) _ _)
      exact hc.main_not_mem hmain (some i) (e ▸ hx)
    have hunopened : Dispatch.unopened { s with
          lastThread := z
          request := Function.update s.request item r
          main := .pushing r item tid } i = s.unopened i := by
      simp only [unopened]
      split
      · rename_i item' hw
        have hworker : item' ∈ s.items q (.worker i) := by simp [items, hw, ReceiverState.items]
        have hne : item' ≠ item := fun e => by
          have := hc.owned.unique hmain (e ▸ hworker)
          simp at this
        rw [Function.update_of_ne hne]
      · rfl
    rw [hunopened]
    exact (hd.delivered i).trans (congrArg _ hqueue.symm)
  counted i := by
    have := hd.counted i
    simpa [unnotified, hm, reading] using this

/-- What was pushed to a worker, with one more push. -/
theorem pushedTo_snoc (s : Dispatch) (tid i : ℕ) (r : ConnRequest) :
    ((s.pushed ++ [(tid, r)]).filter (fun x => x.1 = i)).map Prod.snd
      = s.pushedTo i ++ if tid = i then [r] else [] := by
  by_cases h : tid = i <;> simp [pushedTo, h]

/-- A push puts the request last in the worker's queue. -/
theorem Delivery.push {r : ConnRequest} {item tid : ℕ} {h t : Option ℕ} {f : ℕ → Option ℕ}
    (hd : Delivery s q) (hm : s.main = .pushing r item tid) :
    Delivery { s.setWorker tid { s.workers tid with head := h, tail := t } with
      next := f
      main := .notifying tid
      pushed := s.pushed ++ [(tid, r)] } (Function.update q (some tid) (q (some tid) ++ [item])) where
  filled r' item' tid' hpush := by simp at hpush
  delivered i := by
    have hunopened : Dispatch.unopened { s.setWorker tid { s.workers tid with head := h, tail := t } with
        next := f
        main := .notifying tid
        pushed := s.pushed ++ [(tid, r)] } i = s.unopened i := by
      by_cases hi : i = tid <;> simp [unopened, setWorker, hi]
    rw [hunopened]
    refine (pushedTo_snoc s tid i r).trans ?_
    rw [hd.delivered i]
    by_cases hi : i = tid
    · subst hi
      simp [setWorker, hd.filled r item i hm]
    · simp [setWorker, hi, Ne.symm hi]
  counted i := by
    have hcount := hd.counted i
    by_cases hi : i = tid
    · subst hi
      simp [unnotified, reading, hm] at hcount ⊢
      omega
    · simpa [unnotified, reading, hm, hi, Ne.symm hi] using hcount

/-- A pop takes the oldest request of the worker. -/
theorem Delivery.pop {item : ℕ} {l : List ℕ} {h t : Option ℕ} (hd : Delivery s q)
    (hw : (s.workers i).state = .popping) (hl : q (some i) = item :: l) :
    Delivery (s.setWorker i { s.workers i with head := h, tail := t, state := .opening item })
      (Function.update q (some i) l) where
  filled := hd.filled
  delivered j := by
    have hdel := hd.delivered j
    by_cases hj : j = i
    · subst hj
      simpa [unopened, hw, hl, setWorker, pushedTo] using hdel
    · simpa [unopened, hj, setWorker, pushedTo] using hdel
  counted j := by
    have hcount := hd.counted j
    by_cases hj : j = i
    · subst hj
      simp [reading, hw, hl] at hcount ⊢
      omega
    · simpa [reading, hj] using hcount

/-- An opened connection is the request that was popped. -/
theorem Delivery.connNew {item : ℕ} {ok : Bool} (hd : Delivery s q)
    (hw : (s.workers i).state = .opening item) :
    Delivery { s.setWorker i { s.workers i with state := .freeing item } with
      opened := Function.update s.opened i (s.opened i ++ [(s.request item, ok)]) } q where
  filled := hd.filled
  delivered j := by
    have hdel := hd.delivered j
    by_cases hj : j = i
    · subst hj
      simpa [unopened, hw, setWorker, pushedTo] using hdel
    · simpa [unopened, hj, setWorker, pushedTo] using hdel
  counted j := by
    have hcount := hd.counted j
    have hnot : Dispatch.unnotified { s.setWorker i { s.workers i with state := .freeing item } with
        opened := Function.update s.opened i (s.opened i ++ [(s.request item, ok)]) } j
          = s.unnotified j := rfl
    rw [hnot]
    by_cases hj : j = i
    · subst hj
      simpa [reading, hw] using hcount
    · simpa [reading, hj] using hcount

/-- Before the first connection all is in place. -/
theorem ok_init : Ok init := by
  refine ⟨fun _ => [], fun _ => none, ⟨⟨fun o => ?_, fun _ => trivial, fun _ => List.nodup_nil,
    fun _ _ _ hx => by simp at hx⟩, fun _ => rfl, fun a p => ?_, fun p => ?_,
    fun _ _ hlink => by simp [init] at hlink⟩, ⟨fun _ _ _ hpush => by simp [init] at hpush, fun _ => rfl,
    fun _ => rfl⟩⟩
  · cases o <;> rfl
  · cases a <;> simp [items, init, DispatcherState.items, ReceiverState.items]
  · simp [Allocated, init]

/-- **Every step keeps the order.** -/
theorem Ok.move (h : Ok s) (hmv : Move n s l s') : Ok s' := by
  obtain ⟨q, owner, hc, hd⟩ := h
  cases hmv with
  | call r hm =>
      refine ⟨q, owner, hc.congr rfl rfl rfl (fun _ => ⟨rfl, rfl, rfl⟩) ?_ (by simp),
        hd.congr (fun _ => rfl) rfl rfl rfl (fun _ => rfl) (by simp) (fun i => ?_)⟩
      · simp [hm, DispatcherState.items]
      · simp [reading, unnotified, hm]
  | @taken r item hm hf =>
      obtain ⟨q', owner', hc', hq⟩ := hc.taken hm hf
      refine ⟨q', owner', hc', hd.congr hq rfl rfl rfl (fun _ => rfl) (by simp) (fun i => ?_)⟩
      simp [reading, unnotified, hm]
  | noneFree hm hf =>
      refine ⟨q, owner, hc.congr rfl rfl rfl (fun _ => ⟨rfl, rfl, rfl⟩) ?_ (by simp),
        hd.congr (fun _ => rfl) rfl rfl rfl (fun _ => rfl) (by simp) (fun i => ?_)⟩
      · simp [hm, DispatcherState.items]
      · simp [reading, unnotified, hm]
  | refused hm =>
      refine ⟨q, owner, hc.congr rfl rfl rfl (fun _ => ⟨rfl, rfl, rfl⟩) ?_ (by simp),
        hd.congr (fun _ => rfl) rfl rfl rfl (fun _ => rfl) (by simp) (fun i => ?_)⟩
      · simp [hm, DispatcherState.items]
      · simp [reading, unnotified, hm]
  | malloc hm hf =>
      obtain ⟨owner', hc'⟩ := hc.malloc hm hf
      refine ⟨q, owner', hc', hd.congr (fun _ => rfl) rfl rfl rfl (fun _ => rfl) (by simp)
        (fun i => ?_)⟩
      simp [reading, unnotified, hm]
  | link hm =>
      obtain ⟨q', owner', hc', hq⟩ := hc.link hm
      refine ⟨q', owner', hc', hd.congr hq rfl rfl rfl (fun _ => rfl) (by simp) (fun i => ?_)⟩
      simp [reading, unnotified, hm]
  | fill hm =>
      refine ⟨q, owner, hc.congr rfl rfl rfl (fun _ => ⟨rfl, rfl, rfl⟩) ?_ (by simp), hd.fill hc hm⟩
      simp [hm, DispatcherState.items]
  | push hm =>
      obtain ⟨owner', hc'⟩ := hc.push hm
      exact ⟨_, owner', hc', hd.push hm⟩
  | @written tid hm =>
      refine ⟨q, owner, hc.congr rfl rfl rfl (fun i => ?_) ?_ (by simp),
        hd.congr (fun _ => rfl) rfl rfl rfl (fun i => ?_) (by simp) (fun i => ?_)⟩
      · by_cases hi : i = tid <;> simp [hi]
      · simp [hm, DispatcherState.items]
      · by_cases hi : i = tid <;> simp [unopened, setWorker, hi]
      · by_cases hi : i = tid
        · subst hi
          simp [reading, unnotified, hm, Nat.add_right_comm]
        · simp [reading, unnotified, hm, hi, Ne.symm hi]
  | @unwritten tid hm =>
      refine ⟨q, owner, hc.congr rfl rfl rfl (fun _ => ⟨rfl, rfl, rfl⟩) ?_ (by simp),
        hd.congr (fun _ => rfl) rfl rfl rfl (fun i => rfl) (by simp) (fun i => ?_)⟩
      · simp [hm, DispatcherState.items]
      · by_cases hi : i = tid
        · subst hi
          simp [reading, unnotified, hm]
          omega
        · simp [reading, unnotified, hm, hi, Ne.symm hi]
  | switchLock i hb =>
      refine ⟨q, owner, hc.congr rfl rfl rfl (fun j => ?_) rfl (fun _ _ _ => rfl),
        hd.congr (fun _ => rfl) rfl rfl rfl (fun j => ?_) (fun _ _ _ => id) (fun j => ?_)⟩
      · by_cases hj : j = i <;> simp [hj]
      · by_cases hj : j = i <;> simp [unopened, setWorker, hj]
      · by_cases hj : j = i
        · subst hj
          simp [reading, hb]
        · simp [reading, hj]
  | @read i pipe hw hp =>
      refine ⟨q, owner, hc.congr rfl rfl rfl (fun j => ?_) rfl (fun _ _ _ => rfl),
        hd.congr (fun _ => rfl) rfl rfl rfl (fun j => ?_) (fun _ _ _ => id) (fun j => ?_)⟩
      · by_cases hj : j = i <;> simp [hj, hw, ReceiverState.items]
      · by_cases hj : j = i <;> simp [unopened, setWorker, hj, hw]
      · by_cases hj : j = i
        · subst hj
          simp [reading, hw, hp]
        · simp [reading, hj]
  | @readLock i b pipe hw hp hb =>
      refine ⟨q, owner, hc.congr rfl rfl rfl (fun j => ?_) rfl (fun _ _ _ => rfl),
        hd.congr (fun _ => rfl) rfl rfl rfl (fun j => ?_) (fun _ _ _ => id) (fun j => ?_)⟩
      · by_cases hj : j = i <;> simp [hj]
      · by_cases hj : j = i <;> simp [unopened, setWorker, hj]
      · by_cases hj : j = i
        · subst hj
          simp [reading, hp, hb]
        · simp [reading, hj]
  | popNone hw hh => exact absurd hh (hd.head_ne_none hc hw)
  | @pop i item hw hh =>
      obtain ⟨l, hl⟩ : ∃ l, q (some i) = item :: l := by
        have hhead := hc.chains.head_eq (some i)
        rw [entry, hh] at hhead
        exact ⟨(q (some i)).tail, List.eq_cons_of_mem_head? hhead.symm⟩
      obtain ⟨owner', hc'⟩ := hc.pop hw hl
      exact ⟨_, owner', hc', hd.pop hw hl⟩
  | @connNew i item ok hw =>
      refine ⟨q, owner, hc.congr rfl rfl rfl (fun j => ?_) rfl (fun _ _ _ => rfl), hd.connNew hw⟩
      by_cases hj : j = i <;> simp [hj, hw, ReceiverState.items]
  | @free i item hw =>
      obtain ⟨q', owner', hc', hq⟩ := hc.free hw
      refine ⟨q', owner', hc', hd.congr hq rfl rfl rfl (fun j => ?_) (fun _ _ _ => id) (fun j => ?_)⟩
      · by_cases hj : j = i <;> simp [unopened, setWorker, hj, hw]
      · have hnot : ∀ f p, Dispatch.unnotified { s.setWorker i { s.workers i with state := .idle } with
            next := f
            cqiFreelist := p } j = s.unnotified j := fun _ _ => rfl
        rw [hnot]
        by_cases hj : j = i
        · subst hj
          simp [reading, hw]
        · simp [reading, hj]

/-- **All is in place** after every run. -/
theorem ok_of_run {ls : List DispatchStep} (hr : Run (Step n) init ls s) : Ok s :=
  hr.invariant ok_init (fun h hst => h.move hst.move)

/-! ## Whose turn it is -/

/-- **The workers take turns**, and no connection is forgotten. -/
structure Turns (n : ℕ) (s : Dispatch) : Prop where
  calls : s.calls.Perm (s.refused ++ s.pushed.map Prod.snd ++ s.main.inHand)
  last : (s.lastThread + 1) % n = ((s.pushed.length + s.main.turn : ℕ) : ℤ) % n
  tid : ∀ r item tid, s.main = .pushing r item tid → tid = s.pushed.length % n
  turn : s.pushed.map Prod.fst = (List.range s.pushed.length).map (· % n)

/-- No connection has been dispatched yet. -/
theorem turns_init (n : ℕ) : Turns n init := ⟨.nil, by simp [init, DispatcherState.turn],
  fun _ _ _ h => by simp [init] at h, rfl⟩

/-- A step that leaves the turns alone. -/
theorem Turns.congr (h : Turns n s) (hc : s'.calls = s.calls) (hr : s'.refused = s.refused)
    (hp : s'.pushed = s.pushed) (hl : s'.lastThread = s.lastThread)
    (hh : s'.main.inHand = s.main.inHand) (ht : s'.main.turn = s.main.turn)
    (hm : ∀ r item tid, s'.main = .pushing r item tid → s.main = .pushing r item tid) :
    Turns n s' where
  calls := by
    rw [hc, hr, hp, hh]
    exact h.calls
  last := by
    rw [hl, hp, ht]
    exact h.last
  tid r item tid hpush := by
    rw [hp]
    exact h.tid r item tid (hm r item tid hpush)
  turn := by
    rw [hp]
    exact h.turn

/-- One move keeps the turns. -/
theorem Turns.move (h : Turns n s) (hmv : Move n s l s') : Turns n s' := by
  cases hmv with
  | call r hm =>
      refine ⟨?_, ?_, by simp, h.turn⟩
      · have hcalls := h.calls
        simp only [hm, DispatcherState.inHand, List.append_nil] at hcalls ⊢
        exact hcalls.append_right [r]
      · simpa [hm, DispatcherState.turn] using h.last
  | taken hm hf =>
      exact h.congr rfl rfl rfl rfl (by simp [hm, DispatcherState.inHand])
        (by simp [hm, DispatcherState.turn]) (by simp)
  | noneFree hm hf =>
      exact h.congr rfl rfl rfl rfl (by simp [hm, DispatcherState.inHand])
        (by simp [hm, DispatcherState.turn]) (by simp)
  | @refused r hm =>
      refine ⟨?_, ?_, by simp, h.turn⟩
      · have hcalls := h.calls
        simp only [hm, DispatcherState.inHand, List.append_nil] at hcalls ⊢
        refine hcalls.trans ?_
        rw [List.append_assoc, List.append_assoc]
        exact List.perm_append_comm.append_left s.refused
      · simpa [hm, DispatcherState.turn] using h.last
  | malloc hm hf =>
      exact h.congr rfl rfl rfl rfl (by simp [hm, DispatcherState.inHand])
        (by simp [hm, DispatcherState.turn]) (by simp)
  | link hm =>
      exact h.congr rfl rfl rfl rfl (by simp [hm, DispatcherState.inHand])
        (by simp [hm, DispatcherState.turn]) (by simp)
  | @fill r item hm =>
      have hlast := h.last
      simp only [hm, DispatcherState.turn, Nat.add_zero] at hlast
      refine ⟨?_, ?_, fun r' item' tid' hpush => ?_, h.turn⟩
      · simpa [hm, DispatcherState.inHand] using h.calls
      · simp only [DispatcherState.turn, hlast]
        rw [Int.emod_add_emod, Nat.cast_add, Nat.cast_one]
      · obtain ⟨-, -, rfl⟩ := DispatcherState.pushing.inj hpush
        rw [hlast, ← Int.natCast_mod, Int.toNat_natCast]
  | @push r item tid hm =>
      have htid := h.tid r item tid hm
      refine ⟨?_, ?_, by simp, ?_⟩
      · simpa [hm, DispatcherState.inHand, setWorker] using h.calls
      · simpa [hm, DispatcherState.turn, setWorker] using h.last
      · simp [List.range_succ, h.turn, htid]
  | written hm =>
      exact h.congr rfl rfl rfl rfl (by simp [hm, DispatcherState.inHand])
        (by simp [hm, DispatcherState.turn]) (by simp)
  | unwritten hm =>
      exact h.congr rfl rfl rfl rfl (by simp [hm, DispatcherState.inHand])
        (by simp [hm, DispatcherState.turn]) (by simp)
  | _ => exact h.congr rfl rfl rfl rfl rfl rfl (fun _ _ _ => id)

/-- **The workers take turns** in every run. -/
theorem turns_of_run {ls : List DispatchStep} (hr : Run (Step n) init ls s) : Turns n s :=
  hr.invariant (turns_init n) (fun h hst => h.move hst.move)

/-- The turns of worker `i` among the first `k`. -/
theorem count_turns (n k i : ℕ) :
    ((List.range k).map (· % n)).count (i % n) = Nat.count (· ≡ i [MOD n]) k := by
  induction k with
  | zero => rfl
  | succ k ih =>
      rw [List.range_succ, List.map_append, List.count_append, ih, Nat.count_succ]
      by_cases h : k % n = i % n <;> simp [Nat.ModEq, h]

/-! ## Scripts -/

/-- Take a step if it can be taken. -/
def exec (n : ℕ) (s : Dispatch) (l : DispatchStep) : Dispatch := (s.step n l).getD s

/-- A script whose steps all go through is a run. -/
theorem run_script {ls : List DispatchStep}
    (h : Transition.checkAll (exec n) (fun s l => (s.step n l).isSome) init ls = true) :
    Run (Step n) init ls (Transition.execs (exec n) init ls) := by
  refine Transition.run_execs (fun s l hl => ?_) h
  obtain ⟨s', hs'⟩ := Option.isSome_iff_exists.mp hl
  rw [Step, exec, hs', Option.getD_some]

/-- A connection for the scripts. -/
def client (fd : ℕ) : ConnRequest := ⟨fd, .newCmd, 2, 2048, .tcp⟩

/-- Two connections for one worker, of which it opens the first. -/
def twoCalls : List DispatchStep :=
  [.call (client 7), .take, .malloc (some 1000), .link, .fill, .push, .write true, .call (client 8),
    .read 0, .pop 0, .take, .fill, .connNew 0 true, .push, .free 0]

/-- Three connections, each on its worker's queue before the next one comes. -/
def threeCalls : List DispatchStep :=
  [.call (client 7), .take, .malloc (some 1000), .link, .fill, .push, .write true,
    .call (client 8), .take, .fill, .push, .write true, .call (client 9), .take, .fill, .push,
    .write true]

end

end Dispatch

open Dispatch (client twoCalls threeCalls exec run_script)

section

variable {n i : ℕ} {s : Dispatch} {ls : List DispatchStep}

/-- **Connections reach their worker once each, in order**: those put on its queue are the ones it has
opened, the one it is opening, and the ones on the queue, which is linked from its head to its tail. -/
theorem connections_in_order (hr : Run (Dispatch.Step n) .init ls s) (i : ℕ) :
    ∃ queue : List ℕ, SinglyLinked.Seg s.next queue ∧ (s.workers i).head = queue.head? ∧
      (s.workers i).tail = queue.getLast? ∧
      s.pushedTo i = (s.opened i).map Prod.fst ++ s.unopened i ++ queue.map s.request := by
  obtain ⟨q, owner, hc, hd⟩ := Dispatch.ok_of_run hr
  exact ⟨q (some i), hc.chains.seg (some i), hc.chains.head_eq (some i), hc.tail i, hd.delivered i⟩

/-- One connection is opened, and one waits. -/
theorem connections_in_order_waiting :
    ∃ queue : List ℕ, [client 7, client 8] = [client 7] ++ queue.map
      (Transition.execs (exec 1) Dispatch.init twoCalls).request := by
  have hrun : Run (Dispatch.Step 1) _ twoCalls _ := run_script (by decide +kernel)
  set s := Transition.execs (exec 1) Dispatch.init twoCalls with hs
  obtain ⟨queue, -, -, -, hq⟩ := connections_in_order hrun 0
  have hpushed : s.pushedTo 0 = [client 7, client 8] := by decide +kernel
  have hopened : (s.opened 0).map Prod.fst = [client 7] := by decide +kernel
  have hunopened : s.unopened 0 = [] := by decide +kernel
  rw [hpushed, hopened, hunopened] at hq
  exact ⟨queue, hq⟩

/-- **The bytes in the pipe match the queue**: a worker that has read a `c` finds a connection; and one
that has nothing more to read has opened all of its connections, in order, but for as many of the last
as there were failures of `write`. -/
theorem bytes_match_queue (hr : Run (Dispatch.Step n) .init ls s) (i : ℕ) :
    ((s.workers i).state = .popping → (s.workers i).head ≠ none) ∧
      ((s.workers i).state = .idle → NotifyByte.c ∉ (s.workers i).pipe → s.main ≠ .notifying i →
        (s.opened i).map Prod.fst
          = (s.pushedTo i).take ((s.pushedTo i).length - s.unwritten i)) := by
  obtain ⟨q, owner, hc, hd⟩ := Dispatch.ok_of_run hr
  refine ⟨hd.head_ne_none hc, fun hidle hpipe hmain => ?_⟩
  have hcount : (q (some i)).length = s.unwritten i := by
    have := hd.counted i
    simpa [Dispatch.reading, Dispatch.unnotified, hidle, hmain, List.count_eq_zero.mpr hpipe] using this
  have hdel : s.pushedTo i = (s.opened i).map Prod.fst ++ (q (some i)).map s.request := by
    simpa [Dispatch.unopened, hidle] using hd.delivered i
  rw [hdel, ← hcount]
  simp

/-- The byte for the second connection cannot be written. -/
theorem bytes_match_queue_unwritten :
    ((Transition.execs (exec 1) Dispatch.init (twoCalls ++ [.write false])).opened 0).map Prod.fst
      = [client 7] := by
  have hrun : Run (Dispatch.Step 1) _ (twoCalls ++ [.write false]) _ := run_script (by decide +kernel)
  set s := Transition.execs (exec 1) Dispatch.init (twoCalls ++ [.write false]) with hs
  have hpushed : s.pushedTo 0 = [client 7, client 8] := by decide +kernel
  have hunwritten : s.unwritten 0 = 1 := by decide +kernel
  have hopened := (bytes_match_queue hrun 0).2 (by decide +kernel) (by decide +kernel)
    (by decide +kernel)
  rw [hpushed, hunwritten] at hopened
  exact hopened

/-- **The workers take turns**: of the connections handed out, each worker gets the same number, but for
one more to the first workers; and every call of `dispatch_conn_new` ends with its connection on a
queue or closed for want of memory. -/
theorem workers_take_turns (hr : Run (Dispatch.Step n) .init ls s) (hi : i < n) :
    (s.pushedTo i).length = s.pushed.length / n + (if i < s.pushed.length % n then 1 else 0) ∧
      s.calls.Perm (s.refused ++ s.pushed.map Prod.snd ++ s.main.inHand) := by
  have ht := Dispatch.turns_of_run hr
  refine ⟨?_, ht.calls⟩
  have hcount : (s.pushedTo i).length = (s.pushed.map Prod.fst).count i := by
    rw [Dispatch.pushedTo, List.length_map, ← List.countP_eq_length_filter, List.count, List.countP_map]
    rfl
  rw [hcount, ht.turn]
  nth_rewrite 1 [← Nat.mod_eq_of_lt hi]
  rw [Dispatch.count_turns, Nat.count_modEq_card _ (Nat.zero_lt_of_lt hi), Nat.mod_eq_of_lt hi]

/-- Three connections for two workers: the second turn of worker 0. -/
theorem workers_take_turns_three :
    ((Transition.execs (exec 2) Dispatch.init threeCalls).pushedTo 0).length = 2 ∧
      ((Transition.execs (exec 2) Dispatch.init threeCalls).pushedTo 1).length = 1 := by
  have hrun : Run (Dispatch.Step 2) _ threeCalls _ := run_script (by decide +kernel)
  have hpushed : (Transition.execs (exec 2) Dispatch.init threeCalls).pushed.length = 3 := by
    decide +kernel
  have hfirst := (workers_take_turns hrun (i := 0) (by decide)).1
  have hsecond := (workers_take_turns hrun (i := 1) (by decide)).1
  rw [hpushed] at hfirst hsecond
  exact ⟨hfirst, hsecond⟩

/-- **No item is lost, and none is in two places**: each item of the arrays that `malloc` gave is on the
free list, on one queue, or in the hands of one thread. -/
theorem items_kept (hr : Run (Dispatch.Step n) .init ls s) :
    ∃ q : Option ℕ → List ℕ, Chains s.next s.entry q ∧
      (∀ p, s.Allocated p ↔ ∃ a, p ∈ s.items q a) ∧
      ∀ p a b, p ∈ s.items q a → p ∈ s.items q b → a = b := by
  obtain ⟨q, owner, hc, -⟩ := Dispatch.ok_of_run hr
  refine ⟨q, hc.chains, fun p => ?_, fun p a b => hc.owned.unique⟩
  rw [← hc.allocated p, Option.ne_none_iff_exists']
  exact exists_congr (fun a => (hc.owned a p).symm)

/-- The first array. -/
theorem items_kept_first :
    ∃ q : Option ℕ → List ℕ,
      ∃ a, 1063 ∈ (Transition.execs (exec 1) Dispatch.init twoCalls).items q a := by
  have hrun : Run (Dispatch.Step 1) _ twoCalls _ := run_script (by decide +kernel)
  obtain ⟨q, -, hplace, -⟩ := items_kept hrun
  have harrays : (Transition.execs (exec 1) Dispatch.init twoCalls).arrays = [1000] := by
    decide +kernel
  refine ⟨q, (hplace 1063).mp ⟨1000, ?_, by decide, by decide⟩⟩
  simp [harrays]

end

end Memcached
