import Memcached.Assoc
import Memcached.Lib.Transition
import Mathlib.Data.Fintype.Card

/-! # The lock type of the workers

While the hash table grows the workers take one global item lock instead of one of many.
`assoc_maintenance_thread` tells them with `switch_item_lock_type`, by a message in the pipe of each, and
waits until all have answered.

* **`LockSwitch.next`** — the workers and the maintenance thread, step by step.
* **`Exclusive`** — no lock is shared.
* **`Phase`** — how far a switch has got.
* **`switchItemLockType_exclusive_iff`** — in which runs no lock is shared. -/

namespace Memcached

open Transition (Run)

/-! ## The threads -/

/-- `enum item_lock_types`, and the message `l` or `g` that asks for it. -/
inductive ItemLockType
  | granular
  | global
  deriving DecidableEq, Repr

/-- What a worker is doing: nothing that matters here, an item-lock section for a hash value, or
`register_thread_initialized`. -/
inductive WorkerState
  | idle
  | section (hv : ℕ)
  | registering
  deriving DecidableEq, Repr

/-- A worker. -/
structure Worker where
  itemLockType : ItemLockType
  /-- The messages in its pipe that switch the lock type. -/
  pipe : List ItemLockType
  state : WorkerState
  deriving DecidableEq, Repr

/-- Who has the global item lock. -/
inductive LockOwner (n : ℕ)
  | worker (i : Fin n)
  | maintenance
  deriving DecidableEq, Repr

/-- Where `assoc_maintenance_thread` is. -/
inductive MaintenanceState
  /-- Before `item_lock_global`. -/
  | start
  /-- In the loop over the buckets, after `ii` of them. -/
  | migrating (ii : ℕ)
  /-- In the loop of `switch_item_lock_type`, which holds `init_lock`, at worker `i`. -/
  | sending (type : ItemLockType) (i : ℕ)
  /-- In `wait_for_thread_registration`. -/
  | waiting (type : ItemLockType)
  /-- Waiting for `maintenance_cond`. -/
  | parked
  /-- Before `assoc_expand`. -/
  | expand
  deriving DecidableEq, Repr

/-- The constants: `item_lock_hashpower` and `hash_bulk_move`. -/
structure LockSettings where
  itemLockHashpower : ℕ
  hashBulkMove : ℕ
  deriving DecidableEq, Repr

/-- **The workers, the maintenance thread and their locks.** -/
structure LockSwitch (n : ℕ) where
  workers : Fin n → Worker
  itemLocks : ℕ → Option (Fin n)
  itemGlobalLock : Option (LockOwner n)
  initCount : ℕ
  maintenance : MaintenanceState
  expanding : Bool
  hashpower : ℕ
  expandBucket : ℕ

/-- What happens next. -/
inductive LockStep (n : ℕ)
  /-- `item_lock` of a worker. -/
  | itemLock (i : Fin n) (hv : ℕ)
  /-- `item_unlock` of a worker. -/
  | itemUnlock (i : Fin n)
  /-- `thread_libevent_process` takes a message. -/
  | process (i : Fin n)
  /-- `register_thread_initialized`. -/
  | register (i : Fin n)
  /-- `item_lock_global` of the maintenance thread. -/
  | lockGlobal
  /-- A bucket is moved. -/
  | migrate
  /-- `item_unlock_global`. -/
  | unlockGlobal
  /-- `write` to the pipe of the next worker, which may fail. -/
  | write (ok : Bool)
  /-- The messages are out; `pthread_cond_wait` gives `init_lock` back. -/
  | wait
  /-- All workers have registered. -/
  | registered
  /-- `maintenance_cond` is signalled. -/
  | wake
  /-- `assoc_expand`, where `calloc` may fail. -/
  | expand (ok : Bool)
  deriving DecidableEq, Repr

namespace LockSwitch

variable {n : ℕ}

/-- The server when `start_assoc_maintenance_thread` has run. -/
def init (n hashpower : ℕ) : LockSwitch n where
  workers _ := ⟨.granular, [], .idle⟩
  itemLocks _ := none
  itemGlobalLock := none
  initCount := n
  maintenance := .start
  expanding := false
  hashpower := hashpower
  expandBucket := 0

/-- Change worker `i`. -/
def setWorker (s : LockSwitch n) (i : Fin n) (w : Worker) : LockSwitch n :=
  { s with workers := Function.update s.workers i w }

/-- The place of a hash value among `item_locks`. -/
def lockIndex (cfg : LockSettings) (hv : ℕ) : ℕ := hv &&& hashmask cfg.itemLockHashpower

/-- `item_lock`. -/
def itemLock (cfg : LockSettings) (s : LockSwitch n) (i : Fin n) (hv : ℕ) : Option (LockSwitch n) :=
  let w := s.workers i
  if w.state ≠ .idle then none
  else if w.itemLockType = .granular then
    if s.itemLocks (lockIndex cfg hv) ≠ none then none
    else
      some { s.setWorker i { w with state := .section hv } with
        itemLocks := Function.update s.itemLocks (lockIndex cfg hv) (some i) }
  else if s.itemGlobalLock ≠ none then none
  else
    some { s.setWorker i { w with state := .section hv } with itemGlobalLock := some (.worker i) }

/-- `item_unlock`, which goes by the lock type of this moment. -/
def itemUnlock (cfg : LockSettings) (s : LockSwitch n) (i : Fin n) : Option (LockSwitch n) :=
  let w := s.workers i
  match w.state with
  | .section hv =>
      if w.itemLockType = .granular then
        some { s.setWorker i { w with state := .idle } with
          itemLocks := Function.update s.itemLocks (lockIndex cfg hv) none }
      else some { s.setWorker i { w with state := .idle } with itemGlobalLock := none }
  | _ => none

/-- `thread_libevent_process` on `l` or `g`. -/
def process (s : LockSwitch n) (i : Fin n) : Option (LockSwitch n) :=
  let w := s.workers i
  match w.state, w.pipe with
  | .idle, type :: pipe => some (s.setWorker i ⟨type, pipe, .registering⟩)
  | _, _ => none

/-- `register_thread_initialized`; `init_lock` is taken while the messages are written. -/
def register (s : LockSwitch n) (i : Fin n) : Option (LockSwitch n) :=
  let w := s.workers i
  match w.state, s.maintenance with
  | .registering, .sending _ _ => none
  | .registering, _ => some { s.setWorker i { w with state := .idle } with initCount := s.initCount + 1 }
  | _, _ => none

/-- A round of the loop of `assoc_maintenance_thread` over the buckets. -/
def migrate (cfg : LockSettings) (s : LockSwitch n) : Option (LockSwitch n) :=
  match s.maintenance with
  | .migrating ii =>
      if ii < cfg.hashBulkMove ∧ s.expanding = true then
        some { s with
          maintenance := .migrating (ii + 1)
          expandBucket := s.expandBucket + 1
          expanding := decide (s.expandBucket + 1 ≠ 2 ^ (s.hashpower - 1)) }
      else none
  | _ => none

/-- The end of that loop; once the expansion is done, `switch_item_lock_type` begins. -/
def unlockGlobal (cfg : LockSettings) (s : LockSwitch n) : Option (LockSwitch n) :=
  match s.maintenance with
  | .migrating ii =>
      if ii < cfg.hashBulkMove ∧ s.expanding = true then none
      else if s.expanding = true then some { s with itemGlobalLock := none, maintenance := .start }
      else some { s with itemGlobalLock := none, maintenance := .sending .granular 0, initCount := 0 }
  | _ => none

/-- A round of the loop of `switch_item_lock_type`. -/
def write (s : LockSwitch n) (ok : Bool) : Option (LockSwitch n) :=
  match s.maintenance with
  | .sending type i =>
      if h : i < n then
        let w := s.workers ⟨i, h⟩
        let pipe := if ok then w.pipe ++ [type] else w.pipe
        some { s.setWorker ⟨i, h⟩ { w with pipe := pipe } with maintenance := .sending type (i + 1) }
      else none
  | _ => none

/-- **One step.** -/
def next (cfg : LockSettings) (s : LockSwitch n) : LockStep n → Option (LockSwitch n)
  | .itemLock i hv => s.itemLock cfg i hv
  | .itemUnlock i => s.itemUnlock cfg i
  | .process i => s.process i
  | .register i => s.register i
  | .lockGlobal =>
      if s.maintenance = .start ∧ s.itemGlobalLock = none then
        some { s with itemGlobalLock := some .maintenance, maintenance := .migrating 0 }
      else none
  | .migrate => s.migrate cfg
  | .unlockGlobal => s.unlockGlobal cfg
  | .write ok => s.write ok
  | .wait =>
      match s.maintenance with
      | .sending type i => if i < n then none else some { s with maintenance := .waiting type }
      | _ => none
  | .registered =>
      match s.maintenance with
      | .waiting type =>
          if s.initCount < n then none
          else some { s with maintenance := if type = .granular then .parked else .expand }
      | _ => none
  | .wake =>
      if s.maintenance = .parked then
        some { s with maintenance := .sending .global 0, initCount := 0 }
      else none
  | .expand ok =>
      if s.maintenance = .expand then
        if ok then
          some { s with
            maintenance := .start, hashpower := s.hashpower + 1, expandBucket := 0, expanding := true }
        else some { s with maintenance := .start }
      else none

/-! ## Sections for one hash value -/

/-- Worker `i` is in an item-lock section for `hv`. -/
def InSection (s : LockSwitch n) (i : Fin n) (hv : ℕ) : Prop := (s.workers i).state = .section hv

/-- **No two workers are in a section for the same hash value.** -/
def Exclusive (s : LockSwitch n) : Prop := ∀ i j hv, s.InSection i hv → s.InSection j hv → i = j

/-- A worker that takes an item lock finds no worker of the other lock type in a section for the same
hash value. -/
def Apart (s : LockSwitch n) (l : LockStep n) : Prop :=
  ∀ i hv, l = .itemLock i hv → ∀ j, s.InSection j hv →
    (s.workers j).itemLockType = (s.workers i).itemLockType

/-! ## The locks -/

/-- **A worker in a section has the lock of its type**, and the maintenance thread the global one while
it moves buckets. -/
structure LocksHeld (cfg : LockSettings) (s : LockSwitch n) : Prop where
  granular : ∀ i hv, s.InSection i hv → (s.workers i).itemLockType = .granular →
    s.itemLocks (lockIndex cfg hv) = some i
  global : ∀ i hv, s.InSection i hv → (s.workers i).itemLockType = .global →
    s.itemGlobalLock = some (.worker i)
  migrating : ∀ ii, s.maintenance = .migrating ii → s.itemGlobalLock = some .maintenance

section

variable {cfg : LockSettings} {s s' : LockSwitch n} {i : Fin n} {hv : ℕ}

/-- The workers, when one has changed. -/
@[simp] theorem workers_setWorker (s : LockSwitch n) (i : Fin n) (w : Worker) (j : Fin n) :
    (s.setWorker i w).workers j = if j = i then w else s.workers j := Function.update_apply ..

/-- The lock types that a message asks for. -/
theorem eq_granular_or_global (type : ItemLockType) : type = .granular ∨ type = .global := by
  cases type with
  | granular => exact .inl rfl
  | global => exact .inr rfl

/-- **What `item_lock` does**: it takes the lock of the worker's type, which nobody has. -/
theorem itemLock_eq_some (h : s.itemLock cfg i hv = some s') :
    (s.workers i).state = .idle ∧
      (((s.workers i).itemLockType = .granular ∧ s.itemLocks (lockIndex cfg hv) = none ∧
          s' = { s.setWorker i { s.workers i with state := .section hv } with
            itemLocks := Function.update s.itemLocks (lockIndex cfg hv) (some i) }) ∨
        ((s.workers i).itemLockType = .global ∧ s.itemGlobalLock = none ∧
          s' = { s.setWorker i { s.workers i with state := .section hv } with
            itemGlobalLock := some (.worker i) })) := by
  simp only [itemLock] at h
  split_ifs at h with hidle htype hfree hfree
  · exact ⟨not_not.mp hidle, .inl ⟨htype, not_not.mp hfree, (Option.some.inj h).symm⟩⟩
  · exact ⟨not_not.mp hidle, .inr ⟨(eq_granular_or_global _).resolve_left htype, not_not.mp hfree,
      (Option.some.inj h).symm⟩⟩

/-- **What `item_unlock` does.** -/
theorem itemUnlock_eq_some (h : s.itemUnlock cfg i = some s') :
    ∃ hv, s.InSection i hv ∧
      (((s.workers i).itemLockType = .granular ∧
          s' = { s.setWorker i { s.workers i with state := .idle } with
            itemLocks := Function.update s.itemLocks (lockIndex cfg hv) none }) ∨
        ((s.workers i).itemLockType = .global ∧
          s' = { s.setWorker i { s.workers i with state := .idle } with itemGlobalLock := none })) := by
  simp only [itemUnlock] at h
  split at h
  · rename_i hv hstate
    refine ⟨hv, hstate, ?_⟩
    split_ifs at h with htype
    · exact .inl ⟨htype, (Option.some.inj h).symm⟩
    · exact .inr ⟨(eq_granular_or_global _).resolve_left htype, (Option.some.inj h).symm⟩
  · cases h

/-- **What a message does.** -/
theorem process_eq_some (h : s.process i = some s') :
    (s.workers i).state = .idle ∧ ∃ type pipe, (s.workers i).pipe = type :: pipe ∧
      s' = s.setWorker i ⟨type, pipe, .registering⟩ := by
  simp only [process] at h
  split at h
  · rename_i type pipe hstate hpipe
    exact ⟨hstate, type, pipe, hpipe, (Option.some.inj h).symm⟩
  · cases h

/-- **What a registration does.** -/
theorem register_eq_some (h : s.register i = some s') :
    (s.workers i).state = .registering ∧ (∀ type k, s.maintenance ≠ .sending type k) ∧
      s' = { s.setWorker i { s.workers i with state := .idle } with initCount := s.initCount + 1 } := by
  simp only [register] at h
  split at h
  · cases h
  · rename_i hstate hnot
    exact ⟨hstate, hnot, (Option.some.inj h).symm⟩
  · cases h

/-- **What the migration of a bucket does.** -/
theorem migrate_eq_some (h : s.migrate cfg = some s') :
    ∃ ii, s.maintenance = .migrating ii ∧ s.expanding = true ∧
      s' = { s with
        maintenance := .migrating (ii + 1)
        expandBucket := s.expandBucket + 1
        expanding := decide (s.expandBucket + 1 ≠ 2 ^ (s.hashpower - 1)) } := by
  simp only [migrate] at h
  split at h
  · rename_i ii hii
    split_ifs at h with hmore
    exact ⟨ii, hii, hmore.2, (Option.some.inj h).symm⟩
  · cases h

/-- **What the end of a migration step does.** -/
theorem unlockGlobal_eq_some (h : s.unlockGlobal cfg = some s') :
    ∃ ii, s.maintenance = .migrating ii ∧
      ((s.expanding = true ∧ s' = { s with itemGlobalLock := none, maintenance := .start }) ∨
        (s.expanding = false ∧
          s' = { s with itemGlobalLock := none, maintenance := .sending .granular 0, initCount := 0 })) := by
  simp only [unlockGlobal] at h
  split at h
  · rename_i ii hii
    split_ifs at h with hmore hexp
    · exact ⟨ii, hii, .inl ⟨hexp, (Option.some.inj h).symm⟩⟩
    · exact ⟨ii, hii, .inr ⟨by simpa using hexp, (Option.some.inj h).symm⟩⟩
  · cases h

/-- **What a write to a worker's pipe does.** -/
theorem write_eq_some {ok : Bool} (h : s.write ok = some s') :
    ∃ type k, ∃ hk : k < n, s.maintenance = .sending type k ∧
      s' = { s.setWorker ⟨k, hk⟩ { s.workers ⟨k, hk⟩ with
          pipe := if ok then (s.workers ⟨k, hk⟩).pipe ++ [type] else (s.workers ⟨k, hk⟩).pipe } with
        maintenance := .sending type (k + 1) } := by
  simp only [write] at h
  split at h
  · rename_i type k hk
    by_cases hlt : k < n
    · rw [dif_pos hlt] at h
      exact ⟨type, k, hlt, hk, (Option.some.inj h).symm⟩
    · rw [dif_neg hlt] at h
      cases h
  · cases h

/-- That sections hold their locks depends on the sections and on the locks. -/
theorem LocksHeld.congr (h : LocksHeld cfg s)
    (hsec : ∀ j hv, s'.InSection j hv →
      s.InSection j hv ∧ (s'.workers j).itemLockType = (s.workers j).itemLockType)
    (hl : s'.itemLocks = s.itemLocks) (hg : s'.itemGlobalLock = s.itemGlobalLock)
    (hm : ∀ ii, s'.maintenance = .migrating ii → ∃ jj, s.maintenance = .migrating jj) :
    LocksHeld cfg s' where
  granular j hv hj htype := by
    obtain ⟨hj', heq⟩ := hsec j hv hj
    rw [hl]
    exact h.granular j hv hj' (heq ▸ htype)
  global j hv hj htype := by
    obtain ⟨hj', heq⟩ := hsec j hv hj
    rw [hg]
    exact h.global j hv hj' (heq ▸ htype)
  migrating ii hii := by
    obtain ⟨jj, hjj⟩ := hm ii hii
    rw [hg]
    exact h.migrating jj hjj

/-- The worker that enters a section holds its lock. -/
theorem LocksHeld.itemLock (h : LocksHeld cfg s) (hs : s.itemLock cfg i hv = some s') :
    LocksHeld cfg s' := by
  obtain ⟨hidle, ⟨htype, hfree, rfl⟩ | ⟨htype, hfree, rfl⟩⟩ := itemLock_eq_some hs
  · refine ⟨fun j hv' hj hg => ?_, fun j hv' hj hg => ?_, h.migrating⟩
    · by_cases hji : j = i
      · subst hji
        have hhv : hv = hv' := by simpa [InSection] using hj
        simp [hhv]
      · have hj' : s.InSection j hv' := by simpa [InSection, hji] using hj
        have hold := h.granular j hv' hj' (by simpa [hji] using hg)
        have hne : lockIndex cfg hv' ≠ lockIndex cfg hv := by
          intro heq
          rw [heq, hfree] at hold
          cases hold
        simpa [hne] using hold
    · have hji : j ≠ i := by
        rintro rfl
        simp [htype] at hg
      exact h.global j hv' (by simpa [InSection, hji] using hj) (by simpa [hji] using hg)
  · refine ⟨fun j hv' hj hg => ?_, fun j hv' hj hg => ?_, fun ii hii => ?_⟩
    · have hji : j ≠ i := by
        rintro rfl
        simp [htype] at hg
      exact h.granular j hv' (by simpa [InSection, hji] using hj) (by simpa [hji] using hg)
    · by_cases hji : j = i
      · rw [hji]
      · have hold := h.global j hv' (by simpa [InSection, hji] using hj) (by simpa [hji] using hg)
        rw [hfree] at hold
        cases hold
    · have hold := h.migrating ii hii
      rw [hfree] at hold
      cases hold

/-- The worker that leaves a section gives its own lock back. -/
theorem LocksHeld.itemUnlock (h : LocksHeld cfg s) (hs : s.itemUnlock cfg i = some s') :
    LocksHeld cfg s' := by
  obtain ⟨hv, hi, ⟨htype, rfl⟩ | ⟨htype, rfl⟩⟩ := itemUnlock_eq_some hs
  · have hmine := h.granular i hv hi htype
    refine ⟨fun j hv' hj hg => ?_, fun j hv' hj hg => ?_, h.migrating⟩
    · have hji : j ≠ i := by
        rintro rfl
        simp [InSection] at hj
      have hold := h.granular j hv' (by simpa [InSection, hji] using hj) (by simpa [hji] using hg)
      have hne : lockIndex cfg hv' ≠ lockIndex cfg hv := by
        intro heq
        rw [heq, hmine] at hold
        exact hji (Option.some.inj hold).symm
      simpa [hne] using hold
    · have hji : j ≠ i := by
        rintro rfl
        simp [InSection] at hj
      exact h.global j hv' (by simpa [InSection, hji] using hj) (by simpa [hji] using hg)
  · have hmine := h.global i hv hi htype
    refine ⟨fun j hv' hj hg => ?_, fun j hv' hj hg => ?_, fun ii hii => ?_⟩
    · have hji : j ≠ i := by
        rintro rfl
        simp [InSection] at hj
      exact h.granular j hv' (by simpa [InSection, hji] using hj) (by simpa [hji] using hg)
    · have hji : j ≠ i := by
        rintro rfl
        simp [InSection] at hj
      have hold := h.global j hv' (by simpa [InSection, hji] using hj) (by simpa [hji] using hg)
      rw [hmine] at hold
      exact absurd (LockOwner.worker.inj (Option.some.inj hold)).symm hji
    · have hold := h.migrating ii hii
      rw [hmine] at hold
      cases hold

/-- **Every step keeps the locks in order.** -/
theorem LocksHeld.step (h : LocksHeld cfg s) {l : LockStep n} (hs : s.next cfg l = some s') :
    LocksHeld cfg s' := by
  cases l with
  | itemLock i hv => exact h.itemLock hs
  | itemUnlock i => exact h.itemUnlock hs
  | process i =>
      obtain ⟨-, type, pipe, -, rfl⟩ := process_eq_some hs
      refine h.congr (fun j hv hj => ?_) rfl rfl fun ii hii => ⟨ii, hii⟩
      have hji : j ≠ i := by
        rintro rfl
        simp [InSection] at hj
      exact ⟨by simpa [InSection, hji] using hj, by simp [hji]⟩
  | register i =>
      obtain ⟨-, -, rfl⟩ := register_eq_some hs
      refine h.congr (fun j hv hj => ?_) rfl rfl fun ii hii => ⟨ii, hii⟩
      have hji : j ≠ i := by
        rintro rfl
        simp [InSection] at hj
      exact ⟨by simpa [InSection, hji] using hj, by simp [hji]⟩
  | lockGlobal =>
      simp only [next] at hs
      split_ifs at hs with hstart
      obtain rfl := Option.some.inj hs
      refine ⟨h.granular, fun j hv hj htype => ?_, fun _ _ => rfl⟩
      have hold := h.global j hv hj htype
      rw [hstart.2] at hold
      cases hold
  | migrate =>
      obtain ⟨ii, hii, -, rfl⟩ := migrate_eq_some hs
      exact h.congr (fun j hv hj => ⟨hj, rfl⟩) rfl rfl fun _ _ => ⟨ii, hii⟩
  | unlockGlobal =>
      obtain ⟨ii, hii, ⟨-, rfl⟩ | ⟨-, rfl⟩⟩ := unlockGlobal_eq_some hs
      all_goals
        refine ⟨h.granular, fun j hv hj htype => ?_, fun jj hjj => by simp at hjj⟩
        have hold := h.global j hv hj htype
        rw [h.migrating ii hii] at hold
        cases hold
  | write ok =>
      obtain ⟨type, k, hk, -, rfl⟩ := write_eq_some hs
      refine h.congr (fun j hv hj => ?_) rfl rfl fun ii hii => by simp at hii
      by_cases hjk : j = ⟨k, hk⟩
      · subst hjk
        exact ⟨by simpa [InSection] using hj, by simp⟩
      · exact ⟨by simpa [InSection, hjk] using hj, by simp [hjk]⟩
  | wait =>
      simp only [next] at hs
      split at hs
      · split_ifs at hs
        obtain rfl := Option.some.inj hs
        exact h.congr (fun j hv hj => ⟨hj, rfl⟩) rfl rfl fun ii hii => by simp at hii
      · cases hs
  | registered =>
      simp only [next] at hs
      split at hs
      · split_ifs at hs
        all_goals
          obtain rfl := Option.some.inj hs
          exact h.congr (fun j hv hj => ⟨hj, rfl⟩) rfl rfl fun ii hii => by simp at hii
      · cases hs
  | wake =>
      simp only [next] at hs
      split_ifs at hs
      obtain rfl := Option.some.inj hs
      exact h.congr (fun j hv hj => ⟨hj, rfl⟩) rfl rfl fun ii hii => by simp at hii
  | expand ok =>
      simp only [next] at hs
      split_ifs at hs
      all_goals
        obtain rfl := Option.some.inj hs
        exact h.congr (fun j hv hj => ⟨hj, rfl⟩) rfl rfl fun ii hii => by simp at hii

/-! ## The messages -/

/-- All workers have the lock type, and no message is on its way. -/
def Settled (s : LockSwitch n) (type : ItemLockType) : Prop :=
  ∀ j, (s.workers j).itemLockType = type ∧ (s.workers j).pipe = [] ∧ (s.workers j).state ≠ .registering

/-- The worker is among the first `k`, and has registered with its new lock type. -/
def Switched (s : LockSwitch n) (type : ItemLockType) (k : ℕ) (j : Fin n) : Prop :=
  j.val < k ∧ (s.workers j).itemLockType = type ∧ (s.workers j).pipe = [] ∧
    (s.workers j).state ≠ .registering

instance (s : LockSwitch n) (type : ItemLockType) (k : ℕ) (j : Fin n) :
    Decidable (s.Switched type k j) := inferInstanceAs (Decidable (_ ∧ _ ∧ _ ∧ _))

/-- **During a switch**, of which `k` workers have been told: a worker has not read its message, is about
to register, or may have been counted. -/
structure Switching (s : LockSwitch n) (type : ItemLockType) (k : ℕ) : Prop where
  pipe : ∀ j, (s.workers j).pipe = [] ∨ (s.workers j).pipe = [type] ∧ j.val < k
  registering : ∀ j, (s.workers j).state = .registering →
    (s.workers j).itemLockType = type ∧ (s.workers j).pipe = [] ∧ j.val < k
  count : s.initCount ≤ (Finset.univ.filter fun j => s.Switched type k j).card

/-- **Where the maintenance thread is, and what it has made of the workers.** -/
def Phase (s : LockSwitch n) : Prop :=
  match s.maintenance with
  | .start | .migrating _ => ∃ type, s.Settled type ∧ (s.expanding = true → type = .global)
  | .parked => s.Settled .granular ∧ s.expanding = false
  | .expand => s.Settled .global ∧ s.expanding = false
  | .sending type k => s.Switching type k ∧ s.expanding = false
  | .waiting type => s.Switching type n ∧ s.expanding = false

/-- The workers are alike in all that matters for a switch. -/
structure SameWorkers (s s' : LockSwitch n) : Prop where
  itemLockType : ∀ j, (s'.workers j).itemLockType = (s.workers j).itemLockType
  pipe : ∀ j, (s'.workers j).pipe = (s.workers j).pipe
  registering : ∀ j, (s'.workers j).state = .registering ↔ (s.workers j).state = .registering

/-- Whether all are settled depends on the workers. -/
theorem Settled.congr {type : ItemLockType} (h : s.Settled type) (hs : SameWorkers s s') :
    s'.Settled type := by
  intro j
  obtain ⟨htype, hpipe, hstate⟩ := h j
  exact ⟨(hs.itemLockType j).trans htype, (hs.pipe j).trans hpipe, mt (hs.registering j).mp hstate⟩

/-- How far a switch is depends on the workers and on the count. -/
theorem Switching.congr {type : ItemLockType} {k : ℕ} (h : s.Switching type k) (hs : SameWorkers s s')
    (hcount : s'.initCount = s.initCount) : s'.Switching type k where
  pipe j := by
    rw [hs.pipe j]
    exact h.pipe j
  registering j hj := by
    rw [hs.pipe j, hs.itemLockType j]
    exact h.registering j ((hs.registering j).mp hj)
  count := by
    have hsame : ∀ j, s'.Switched type k j ↔ s.Switched type k j := fun j => by
      simp only [Switched, hs.pipe j, hs.itemLockType j, ne_eq, hs.registering j]
    simp only [hcount, hsame]
    exact h.count

/-- The phase depends on the workers, on the count and on the maintenance thread. -/
theorem Phase.congr (h : s.Phase) (hs : SameWorkers s s') (hcount : s'.initCount = s.initCount)
    (hm : s'.maintenance = s.maintenance) (he : s'.expanding = s.expanding) : s'.Phase := by
  rw [Phase] at h ⊢
  rw [hm, he]
  cases hstate : s.maintenance with
  | start =>
      rw [hstate] at h
      obtain ⟨type, hset, hexp⟩ := h
      exact ⟨type, hset.congr hs, hexp⟩
  | migrating ii =>
      rw [hstate] at h
      obtain ⟨type, hset, hexp⟩ := h
      exact ⟨type, hset.congr hs, hexp⟩
  | sending type k =>
      rw [hstate] at h
      exact ⟨h.1.congr hs hcount, h.2⟩
  | waiting type =>
      rw [hstate] at h
      exact ⟨h.1.congr hs hcount, h.2⟩
  | parked =>
      rw [hstate] at h
      exact ⟨h.1.congr hs, h.2⟩
  | expand =>
      rw [hstate] at h
      exact ⟨h.1.congr hs, h.2⟩

/-- Where a worker has a message or registers, a switch is going on. -/
theorem Phase.switching (h : s.Phase)
    (hi : (s.workers i).pipe ≠ [] ∨ (s.workers i).state = .registering) :
    s.expanding = false ∧ ∃ type k, s.Switching type k ∧
      (s.maintenance = .sending type k ∨ s.maintenance = .waiting type ∧ k = n) := by
  have hnot : ∀ type, ¬ s.Settled type := by
    intro type hset
    obtain ⟨-, hpipe, hstate⟩ := hset i
    exact hi.elim (fun hne => hne hpipe) hstate
  rw [Phase] at h
  cases hstate : s.maintenance with
  | start =>
      rw [hstate] at h
      obtain ⟨type, hset, -⟩ := h
      exact absurd hset (hnot type)
  | migrating ii =>
      rw [hstate] at h
      obtain ⟨type, hset, -⟩ := h
      exact absurd hset (hnot type)
  | sending type k =>
      rw [hstate] at h
      exact ⟨h.2, type, k, h.1, .inl rfl⟩
  | waiting type =>
      rw [hstate] at h
      exact ⟨h.2, type, n, h.1, .inr ⟨rfl, rfl⟩⟩
  | parked =>
      rw [hstate] at h
      exact absurd h.1 (hnot _)
  | expand =>
      rw [hstate] at h
      exact absurd h.1 (hnot _)

/-- A switch that is being sent or waited for is a phase. -/
theorem Phase.of_switching {type : ItemLockType} {k : ℕ} (h : s.Switching type k)
    (he : s.expanding = false)
    (hm : s.maintenance = .sending type k ∨ s.maintenance = .waiting type ∧ k = n) : s.Phase := by
  rw [Phase]
  rcases hm with hm | ⟨hm, rfl⟩
  · rw [hm]
    exact ⟨h, he⟩
  · rw [hm]
    exact ⟨h, he⟩

/-- A worker that reads its message. -/
theorem Switching.process {type : ItemLockType} {k : ℕ} (h : s.Switching type k)
    (hs : s.process i = some s') : s'.Switching type k := by
  obtain ⟨hidle, type', pipe, hpipe, rfl⟩ := process_eq_some hs
  obtain ⟨hone, hik⟩ := (h.pipe i).resolve_left (by simp [hpipe])
  rw [hpipe] at hone
  obtain ⟨rfl, rfl⟩ := List.cons.inj hone
  refine ⟨fun j => ?_, fun j hj => ?_, h.count.trans (Finset.card_le_card fun j hj => ?_)⟩
  · by_cases hji : j = i
    · simp [hji]
    · simpa [hji] using h.pipe j
  · by_cases hji : j = i
    · simpa [hji] using hik
    · simpa [hji] using h.registering j (by simpa [hji] using hj)
  · -- the worker has not been counted: its message was unread
    rw [Finset.mem_filter] at hj ⊢
    have hji : j ≠ i := by
      rintro rfl
      simp [Switched, hpipe] at hj
    simpa [Switched, hji] using hj.2

/-- A worker that registers is counted. -/
theorem Switching.register {type : ItemLockType} {k : ℕ} (h : s.Switching type k)
    (hs : s.register i = some s') : s'.Switching type k := by
  obtain ⟨hreg, -, rfl⟩ := register_eq_some hs
  obtain ⟨htype, hpipe, hik⟩ := h.registering i hreg
  refine ⟨fun j => ?_, fun j hj => ?_, ?_⟩
  · by_cases hji : j = i
    · simp [hji, hpipe]
    · simpa [hji] using h.pipe j
  · have hji : j ≠ i := by
      rintro rfl
      simp at hj
    simpa [hji] using h.registering j (by simpa [hji] using hj)
  · have hnot : i ∉ Finset.univ.filter fun j => s.Switched type k j := fun hmem =>
      (Finset.mem_filter.mp hmem).2.2.2.2 hreg
    refine le_trans ?_ (Finset.card_le_card (s := insert i (Finset.univ.filter fun j =>
      s.Switched type k j)) fun j hj => ?_)
    · rw [Finset.card_insert_of_notMem hnot]
      exact Nat.succ_le_succ h.count
    · rw [Finset.mem_filter]
      refine ⟨Finset.mem_univ _, ?_⟩
      rcases Finset.mem_insert.mp hj with rfl | hold
      · simp [Switched, hik, htype, hpipe]
      · have hji : j ≠ i := by
          rintro rfl
          exact hnot hold
        simpa [Switched, hji] using (Finset.mem_filter.mp hold).2

/-- One more worker is told, or the `write` to its pipe fails. -/
theorem Switching.write {type : ItemLockType} {k : ℕ} {ok : Bool} (h : s.Switching type k)
    (hm : s.maintenance = .sending type k) (hs : s.write ok = some s') : s'.Switching type (k + 1) := by
  obtain ⟨type', k', hk, hm', rfl⟩ := write_eq_some hs
  rw [hm] at hm'
  obtain ⟨rfl, rfl⟩ := MaintenanceState.sending.inj hm'
  have hempty : (s.workers ⟨k, hk⟩).pipe = [] := (h.pipe ⟨k, hk⟩).resolve_right fun hp => by simp at hp
  refine ⟨fun j => ?_, fun j hj => ?_, h.count.trans (Finset.card_le_card fun j hj => ?_)⟩
  · by_cases hjk : j = ⟨k, hk⟩
    · cases ok <;> simp [hjk, hempty]
    · exact (h.pipe j).imp (fun hp => by simpa [hjk] using hp) fun hp =>
        ⟨by simpa [hjk] using hp.1, Nat.lt_succ_of_lt hp.2⟩
  · have hold := h.registering j (by
      by_cases hjk : j = ⟨k, hk⟩
      · simpa [hjk] using hj
      · simpa [hjk] using hj)
    have hjk : j ≠ ⟨k, hk⟩ := by
      rintro rfl
      exact absurd hold.2.2 (lt_irrefl _)
    exact ⟨by simpa [hjk] using hold.1, by simpa [hjk] using hold.2.1, Nat.lt_succ_of_lt hold.2.2⟩
  · rw [Finset.mem_filter] at hj ⊢
    obtain ⟨hlt, hrest⟩ := hj.2
    have hjk : j ≠ ⟨k, hk⟩ := by
      rintro rfl
      exact absurd hlt (lt_irrefl _)
    exact ⟨Finset.mem_univ _, Nat.lt_succ_of_lt hlt, by simpa [hjk] using hrest⟩

/-- **When all have registered, all have switched.** -/
theorem Switching.settled {type : ItemLockType} (h : s.Switching type n) (hn : n ≤ s.initCount) :
    s.Settled type := by
  have hfull : Finset.univ.filter (fun j => s.Switched type n j) = Finset.univ := by
    refine Finset.eq_univ_of_card _ (le_antisymm (Finset.card_le_univ _) ?_)
    rw [Fintype.card_fin]
    exact hn.trans h.count
  intro j
  have hj : j ∈ Finset.univ.filter fun j => s.Switched type n j := by
    rw [hfull]
    exact Finset.mem_univ j
  exact (Finset.mem_filter.mp hj).2.2

/-- A switch begins when no message is on its way. -/
theorem Settled.switching {type : ItemLockType} (h : s.Settled type) (type' : ItemLockType)
    (hw : s'.workers = s.workers) (hcount : s'.initCount = 0) : s'.Switching type' 0 where
  pipe j := by
    rw [hw]
    exact .inl (h j).2.1
  registering j hj := by
    rw [hw] at hj
    exact absurd hj (h j).2.2
  count := by
    rw [hcount]
    exact Nat.zero_le _

/-- **Every step of the workers keeps the phase.** -/
theorem Phase.worker (h : s.Phase) {l : LockStep n} (hs : s.next cfg l = some s')
    (hl : (∃ hv, l = .itemLock i hv) ∨ l = .itemUnlock i ∨ l = .process i ∨ l = .register i) :
    s'.Phase := by
  rcases hl with ⟨hv, rfl⟩ | rfl | rfl | rfl
  · obtain ⟨hidle, ⟨-, -, rfl⟩ | ⟨-, -, rfl⟩⟩ := itemLock_eq_some hs
    all_goals
      refine h.congr ⟨fun j => ?_, fun j => ?_, fun j => ?_⟩ rfl rfl rfl
      all_goals
        by_cases hji : j = i
        · simp [hji, hidle]
        · simp [hji]
  · obtain ⟨hv, hi, ⟨-, rfl⟩ | ⟨-, rfl⟩⟩ := itemUnlock_eq_some hs
    all_goals
      have hstate : (s.workers i).state = .section hv := hi
      refine h.congr ⟨fun j => ?_, fun j => ?_, fun j => ?_⟩ rfl rfl rfl
      all_goals
        by_cases hji : j = i
        · simp [hji, hstate]
        · simp [hji]
  · obtain ⟨-, type, pipe, hpipe, hs'⟩ := process_eq_some hs
    obtain ⟨he, type, k, hsw, hm⟩ := h.switching (i := i) (.inl (by simp [hpipe]))
    have hsw' := hsw.process hs
    rw [hs'] at hsw' ⊢
    exact .of_switching hsw' he hm
  · obtain ⟨hreg, -, hs'⟩ := register_eq_some hs
    obtain ⟨he, type, k, hsw, hm⟩ := h.switching (i := i) (.inr hreg)
    have hsw' := hsw.register hs
    rw [hs'] at hsw' ⊢
    exact .of_switching hsw' he hm

/-- **Every step keeps the phase.** -/
theorem Phase.step (h : s.Phase) {l : LockStep n} (hs : s.next cfg l = some s') : s'.Phase := by
  cases l with
  | itemLock i hv => exact h.worker (i := i) hs (.inl ⟨hv, rfl⟩)
  | itemUnlock i => exact h.worker (i := i) hs (.inr (.inl rfl))
  | process i => exact h.worker (i := i) hs (.inr (.inr (.inl rfl)))
  | register i => exact h.worker (i := i) hs (.inr (.inr (.inr rfl)))
  | lockGlobal =>
      simp only [next] at hs
      split_ifs at hs with hstart
      obtain rfl := Option.some.inj hs
      rw [Phase, hstart.1] at h
      exact h
  | migrate =>
      obtain ⟨ii, hii, hexp, rfl⟩ := migrate_eq_some hs
      rw [Phase, hii] at h
      obtain ⟨type, hset, htype⟩ := h
      exact ⟨type, hset, fun _ => htype hexp⟩
  | unlockGlobal =>
      obtain ⟨ii, hii, ⟨hexp, rfl⟩ | ⟨hexp, rfl⟩⟩ := unlockGlobal_eq_some hs
      · rw [Phase, hii] at h
        exact h
      · rw [Phase, hii] at h
        obtain ⟨type, hset, -⟩ := h
        exact ⟨hset.switching _ rfl rfl, hexp⟩
  | write ok =>
      obtain ⟨type, k, hk, hm, hs'⟩ := write_eq_some hs
      rw [Phase, hm] at h
      have hsw := h.1.write hm hs
      rw [hs'] at hsw ⊢
      exact ⟨hsw, h.2⟩
  | wait =>
      simp only [next] at hs
      split at hs
      · rename_i type k hm
        split_ifs at hs with hk
        obtain rfl := Option.some.inj hs
        rw [Phase, hm] at h
        obtain ⟨⟨hpipe, hreg, hcount⟩, hexp⟩ := h
        refine ⟨⟨fun j => ?_, fun j hj => ?_, ?_⟩, hexp⟩
        · exact (hpipe j).imp_right fun hp => ⟨hp.1, j.isLt⟩
        · obtain ⟨htype, hempty, -⟩ := hreg j hj
          exact ⟨htype, hempty, j.isLt⟩
        · refine hcount.trans (Finset.card_le_card fun j hj => ?_)
          rw [Finset.mem_filter] at hj ⊢
          exact ⟨hj.1, j.isLt, hj.2.2⟩
      · cases hs
  | registered =>
      simp only [next] at hs
      split at hs
      · rename_i type hm
        split_ifs at hs with hn hgranular
        · obtain rfl := Option.some.inj hs
          rw [Phase, hm] at h
          exact ⟨hgranular ▸ h.1.settled (Nat.le_of_not_lt hn), h.2⟩
        · obtain rfl := Option.some.inj hs
          rw [Phase, hm] at h
          have hglobal := (eq_granular_or_global type).resolve_left hgranular
          exact ⟨hglobal ▸ h.1.settled (Nat.le_of_not_lt hn), h.2⟩
      · cases hs
  | wake =>
      simp only [next] at hs
      split_ifs at hs with hparked
      obtain rfl := Option.some.inj hs
      rw [Phase, hparked] at h
      exact ⟨h.1.switching _ rfl rfl, h.2⟩
  | expand ok =>
      simp only [next] at hs
      split_ifs at hs with hexpand hok
      · obtain rfl := Option.some.inj hs
        rw [Phase, hexpand] at h
        exact ⟨.global, h.1, fun _ => rfl⟩
      · obtain rfl := Option.some.inj hs
        rw [Phase, hexpand] at h
        exact ⟨.global, h.1, fun _ => rfl⟩

/-! ## Exclusion -/

/-- The invariant of the workers and the maintenance thread. -/
structure Inv (cfg : LockSettings) (s : LockSwitch n) : Prop where
  locks : s.LocksHeld cfg
  phase : s.Phase

/-- At first every worker takes the locks of the buckets. -/
theorem inv_init (cfg : LockSettings) (n hashpower : ℕ) : (init n hashpower).Inv cfg where
  locks := ⟨fun _ _ h => (by cases h), fun _ _ h => (by cases h), fun _ h => (by cases h)⟩
  phase := ⟨.granular, fun _ => ⟨rfl, rfl, by simp [init]⟩, fun h => (by cases h)⟩

/-- **One step keeps the invariant.** -/
theorem Inv.step (h : s.Inv cfg) {l : LockStep n} (hs : s.next cfg l = some s') : s'.Inv cfg :=
  ⟨h.locks.step hs, h.phase.step hs⟩

/-- **While a bucket is moved no worker is in a section.** -/
theorem Inv.not_inSection (h : s.Inv cfg) (hs : s.migrate cfg = some s') (i : Fin n) (hv : ℕ) :
    ¬ s.InSection i hv := by
  obtain ⟨ii, hii, hexp, -⟩ := migrate_eq_some hs
  have hphase := h.phase
  rw [Phase, hii] at hphase
  obtain ⟨type, hset, htype⟩ := hphase
  intro hi
  have hlock := h.locks.global i hv hi ((hset i).1.trans (htype hexp))
  rw [h.locks.migrating ii hii] at hlock
  cases hlock

/-- **A step keeps the sections apart if the workers have one lock type.** -/
theorem Inv.exclusive_step (h : s.Inv cfg) (hex : s.Exclusive) {l : LockStep n}
    (hs : s.next cfg l = some s') (hap : s.Apart l) : s'.Exclusive := by
  -- a section of the new state is one of the old, or the one that the step enters
  have hsec : ∀ j hv, s'.InSection j hv → s.InSection j hv ∨ l = .itemLock j hv := by
    intro j hv hj
    cases l with
    | itemLock i hv' =>
        obtain ⟨-, ⟨-, -, rfl⟩ | ⟨-, -, rfl⟩⟩ := itemLock_eq_some hs
        all_goals
          by_cases hji : j = i
          · subst hji
            have hhv : hv' = hv := by simpa [InSection] using hj
            exact .inr (by rw [hhv])
          · exact .inl (by simpa [InSection, hji] using hj)
    | itemUnlock i =>
        obtain ⟨_, -, ⟨-, rfl⟩ | ⟨-, rfl⟩⟩ := itemUnlock_eq_some hs
        all_goals
          by_cases hji : j = i
          · subst hji
            simp [InSection] at hj
          · exact .inl (by simpa [InSection, hji] using hj)
    | process i =>
        obtain ⟨-, type, pipe, -, rfl⟩ := process_eq_some hs
        by_cases hji : j = i
        · subst hji
          simp [InSection] at hj
        · exact .inl (by simpa [InSection, hji] using hj)
    | register i =>
        obtain ⟨-, -, rfl⟩ := register_eq_some hs
        by_cases hji : j = i
        · subst hji
          simp [InSection] at hj
        · exact .inl (by simpa [InSection, hji] using hj)
    | write ok =>
        obtain ⟨type, k, hk, -, rfl⟩ := write_eq_some hs
        by_cases hjk : j = ⟨k, hk⟩
        · subst hjk
          exact .inl (by simpa [InSection] using hj)
        · exact .inl (by simpa [InSection, hjk] using hj)
    | lockGlobal =>
        simp only [next] at hs
        split_ifs at hs
        obtain rfl := Option.some.inj hs
        exact .inl hj
    | migrate =>
        obtain ⟨_, -, -, rfl⟩ := migrate_eq_some hs
        exact .inl hj
    | unlockGlobal =>
        obtain ⟨_, -, ⟨-, rfl⟩ | ⟨-, rfl⟩⟩ := unlockGlobal_eq_some hs
        · exact .inl hj
        · exact .inl hj
    | wait =>
        simp only [next] at hs
        split at hs
        · split_ifs at hs
          obtain rfl := Option.some.inj hs
          exact .inl hj
        · cases hs
    | registered =>
        simp only [next] at hs
        split at hs
        · split_ifs at hs
          all_goals
            obtain rfl := Option.some.inj hs
            exact .inl hj
        · cases hs
    | wake =>
        simp only [next] at hs
        split_ifs at hs
        obtain rfl := Option.some.inj hs
        exact .inl hj
    | expand ok =>
        simp only [next] at hs
        split_ifs at hs
        all_goals
          obtain rfl := Option.some.inj hs
          exact .inl hj
  -- who is in a section has the lock that the step takes
  have hfree : ∀ i j hv, l = .itemLock i hv → ¬ s.InSection j hv := by
    rintro i j hv rfl hj
    have htype := hap i hv rfl j hj
    obtain ⟨-, ⟨hi, hnone, -⟩ | ⟨hi, hnone, -⟩⟩ := itemLock_eq_some hs
    · have hlock := h.locks.granular j hv hj (htype.trans hi)
      rw [hnone] at hlock
      cases hlock
    · have hlock := h.locks.global j hv hj (htype.trans hi)
      rw [hnone] at hlock
      cases hlock
  intro i j hv hi hj
  rcases hsec i hv hi with hi' | hi' <;> rcases hsec j hv hj with hj' | hj'
  · exact hex i j hv hi' hj'
  · exact absurd hi' (hfree j i hv hj')
  · exact absurd hj' (hfree i j hv hi')
  · exact (LockStep.itemLock.inj (hi'.symm.trans hj')).1

/-- A step into a section that another worker is in does not keep them apart. -/
theorem apart_of_exclusive {l : LockStep n} (hs : s.next cfg l = some s') (hex : s'.Exclusive) :
    s.Apart l := by
  rintro i hv rfl j hj
  obtain ⟨hidle, hcases⟩ := itemLock_eq_some hs
  have hji : j ≠ i := by
    rintro rfl
    rw [InSection, hidle] at hj
    cases hj
  have hboth : s'.InSection i hv ∧ s'.InSection j hv := by
    rcases hcases with ⟨-, -, rfl⟩ | ⟨-, -, rfl⟩
    all_goals exact ⟨by simp [InSection], by simpa [InSection, hji] using hj⟩
  exact absurd (hex j i hv hboth.2 hboth.1) hji

/-- **A run keeps the workers apart if and only if no worker enters a section for a hash value that a
worker of the other lock type is in**; and buckets are moved while no worker is in a section. -/
theorem switchItemLockType_exclusive_iff (cfg : LockSettings) (n hashpower : ℕ)
    (ls : List (LockStep n)) (s : LockSwitch n) :
    (Run (fun s l s' => s.next cfg l = some s' ∧ s'.Exclusive) (init n hashpower) ls s ↔
      Run (fun s l s' => s.next cfg l = some s' ∧ s.Apart l) (init n hashpower) ls s) ∧
    (Run (fun s l s' => s.next cfg l = some s') (init n hashpower) ls s →
      ∀ s', s.next cfg .migrate = some s' → ∀ i hv, ¬ s.InSection i hv) := by
  refine ⟨⟨fun hr => ?_, fun hr => ?_⟩, fun hr s' hs i hv => ?_⟩
  · exact hr.mono (P := fun _ => True) trivial fun _ hst =>
      ⟨⟨hst.1, apart_of_exclusive hst.1 hst.2⟩, trivial⟩
  · refine hr.mono (P := fun s => s.Inv cfg ∧ s.Exclusive) ⟨inv_init cfg n hashpower, ?_⟩ ?_
    · intro i j hv hi
      cases hi
    · rintro s l s' ⟨hinv, hex⟩ ⟨hs, hap⟩
      have hex' := hinv.exclusive_step hex hs hap
      exact ⟨⟨hs, hex'⟩, hinv.step hs, hex'⟩
  · have hinv : s.Inv cfg := hr.invariant (P := fun s => s.Inv cfg) (inv_init cfg n hashpower)
      fun h hst => h.step hst
    exact hinv.not_inSection hs i hv

/-- While the switch to the global lock is under way, worker 0 takes the global lock for a hash value and
worker 1 an item lock for the same one. -/
theorem switchItemLockType_not_exclusive : ¬ ∀ (cfg : LockSettings) (n hashpower : ℕ)
    (ls : List (LockStep n)) (s : LockSwitch n),
    Run (fun s l s' => s.next cfg l = some s') (init n hashpower) ls s →
      s.Exclusive ∧ ∀ s', s.next cfg .migrate = some s' → ∀ i hv, ¬ s.InSection i hv := by
  intro hall
  -- the first switch, to the item locks, completes; of the second one worker 0 has handled the message
  let ls : List (LockStep 2) :=
    [.lockGlobal, .unlockGlobal, .write true, .write true, .wait, .process 0, .register 0, .process 1,
      .register 1, .registered, .wake, .write true, .write true, .wait, .process 0, .register 0,
      .itemLock 0 5, .itemLock 1 5]
  have hrun : ∃ s, ls.foldlM (LockSwitch.next ⟨13, 1⟩) (init 2 16) = some s ∧
      s.InSection 0 5 ∧ s.InSection 1 5 := ⟨_, rfl, rfl, rfl⟩
  obtain ⟨s, hs, h0, h1⟩ := hrun
  have heq := (hall ⟨13, 1⟩ 2 16 ls s (Run.of_foldlM hs)).1 0 1 5 h0 h1
  cases heq

end

end LockSwitch

end Memcached
