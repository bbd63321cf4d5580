import Memcached.LockSwitch

/-! # The end of a switch

`switch_item_lock_type` waits until as many workers have registered as there are. It gets there if every
worker was told, although workers may be blocked in `item_lock` at the time; a message that could not be
written is not written again, and the wait has no end.

* **`LockHolders`** — whoever has an item lock is in a section, or migrates buckets.
* **`BlockedSwitch`** — the threads of `LockSwitch`, with the workers that are blocked in `item_lock`.
* **`exists_register`** — a worker that was told can register, whatever it waits for.
* **`wait_ends_iff`**, **`switch_completes`** — when the wait ends. -/

namespace Memcached

open Transition (Run)

namespace LockSwitch

variable {n : ℕ} {cfg : LockSettings} {s s' : LockSwitch n} {i : Fin n} {type : ItemLockType} {k : ℕ}
  {l : LockStep n}

/-- The workers that are still to register: they have a message, or have read it. -/
def owed (s : LockSwitch n) : Finset (Fin n) :=
  Finset.univ.filter fun j => (s.workers j).pipe ≠ [] ∨ (s.workers j).state = .registering

/-- The workers that were told: they have registered, or will. -/
def told (s : LockSwitch n) : ℕ := s.initCount + s.owed.card

/-- A worker owes its registration until it has registered. -/
theorem mem_owed {j : Fin n} :
    j ∈ s.owed ↔ (s.workers j).pipe ≠ [] ∨ (s.workers j).state = .registering := by
  simp [owed]

/-- A step of a worker. -/
def OfWorker (l : LockStep n) : Prop :=
  ∃ i, (∃ hv, l = .itemLock i hv) ∨ l = .itemUnlock i ∨ l = .process i ∨ l = .register i

/-- What is owed depends on the pipes and on who registers. -/
theorem owed_congr (hp : ∀ j, (s'.workers j).pipe = (s.workers j).pipe)
    (hr : ∀ j, (s'.workers j).state = .registering ↔ (s.workers j).state = .registering) :
    s'.owed = s.owed := by
  ext j
  rw [mem_owed, mem_owed, hp j, hr j]

/-- **Nobody is told, and nobody forgotten**, by what the workers do. -/
theorem told_worker (h : s.Switching type k) (hs : s.next cfg l = some s') (hl : OfWorker l) :
    s'.told = s.told := by
  obtain ⟨i, ⟨hv, rfl⟩ | rfl | rfl | rfl⟩ := hl
  · obtain ⟨hidle, ⟨-, -, rfl⟩ | ⟨-, -, rfl⟩⟩ := itemLock_eq_some hs
    all_goals
      refine congrArg (s.initCount + Finset.card ·) (owed_congr (fun j => ?_) (fun j => ?_))
      all_goals
        by_cases hji : j = i
        · simp [hji, hidle]
        · simp [hji]
  · obtain ⟨hv, hi, ⟨-, rfl⟩ | ⟨-, rfl⟩⟩ := itemUnlock_eq_some hs
    all_goals
      have hstate : (s.workers i).state = .section hv := hi
      refine congrArg (s.initCount + Finset.card ·) (owed_congr (fun j => ?_) (fun j => ?_))
      all_goals
        by_cases hji : j = i
        · simp [hji, hstate]
        · simp [hji]
  · obtain ⟨hidle, type', pipe, hpipe, rfl⟩ := process_eq_some hs
    have howed : (s.setWorker i ⟨type', pipe, .registering⟩).owed = s.owed := by
      ext j
      rw [mem_owed, mem_owed]
      by_cases hji : j = i
      · simp [hji, hpipe]
      · simp [hji]
    exact congrArg (s.initCount + Finset.card ·) howed
  · obtain ⟨hreg, -, rfl⟩ := register_eq_some hs
    obtain ⟨-, hpipe, -⟩ := h.registering i hreg
    have hmem : i ∈ s.owed := mem_owed.mpr (.inr hreg)
    have howed : LockSwitch.owed { s.setWorker i { s.workers i with state := .idle } with
        initCount := s.initCount + 1 } = s.owed.erase i := by
      ext j
      rw [mem_owed, Finset.mem_erase, mem_owed]
      by_cases hji : j = i
      · simp [hji, hpipe]
      · simp [hji]
    have hcard := Finset.card_erase_add_one hmem
    rw [told, told, howed]
    simp only
    omega

/-- **One more worker is told**, if `write` succeeds. -/
theorem told_write {ok : Bool} (h : s.Switching type k) (hm : s.maintenance = .sending type k)
    (hs : s.write ok = some s') : s'.told = s.told + if ok then 1 else 0 := by
  obtain ⟨type', k', hk, hm', rfl⟩ := write_eq_some hs
  rw [hm] at hm'
  obtain ⟨rfl, rfl⟩ := MaintenanceState.sending.inj hm'
  have hempty : (s.workers ⟨k, hk⟩).pipe = [] := (h.pipe ⟨k, hk⟩).resolve_right fun hp => by simp at hp
  -- its turn comes once, so nobody has told it yet
  have hnot : ⟨k, hk⟩ ∉ s.owed := by
    rw [mem_owed]
    rintro (hne | hreg)
    · exact hne hempty
    · exact absurd (h.registering _ hreg).2.2 (lt_irrefl _)
  have howed : LockSwitch.owed { s.setWorker ⟨k, hk⟩ { s.workers ⟨k, hk⟩ with
        pipe := if ok then (s.workers ⟨k, hk⟩).pipe ++ [type] else (s.workers ⟨k, hk⟩).pipe } with
      maintenance := .sending type (k + 1) } = if ok then insert ⟨k, hk⟩ s.owed else s.owed := by
    cases ok with
    | true =>
        ext j
        simp only [reduceIte, Finset.mem_insert]
        rw [mem_owed, mem_owed]
        by_cases hjk : j = ⟨k, hk⟩
        · simp [hjk]
        · simp [hjk]
    | false =>
        simp only [Bool.false_eq_true, reduceIte]
        refine owed_congr (fun j => ?_) (fun j => ?_)
        all_goals
          by_cases hjk : j = ⟨k, hk⟩
          · simp [hjk]
          · simp [hjk]
  rw [told, told, howed]
  cases ok with
  | true => simp [Finset.card_insert_of_notMem hnot, setWorker, Nat.add_assoc]
  | false => simp [setWorker]

/-! ## Waiting -/

/-- What can happen while the maintenance thread waits. -/
theorem waiting_cases (hm : s.maintenance = .waiting type) (hs : s.next cfg l = some s') :
    OfWorker l ∨ l = .registered ∧ n ≤ s.initCount := by
  cases l with
  | itemLock i hv => exact .inl ⟨i, .inl ⟨hv, rfl⟩⟩
  | itemUnlock i => exact .inl ⟨i, .inr (.inl rfl)⟩
  | process i => exact .inl ⟨i, .inr (.inr (.inl rfl))⟩
  | register i => exact .inl ⟨i, .inr (.inr (.inr rfl))⟩
  | registered =>
      refine .inr ⟨rfl, Nat.not_lt.mp fun hcount => ?_⟩
      simp [next, hm, hcount] at hs
  | _ => simp [next, hm, migrate, unlockGlobal, write] at hs

/-- The steps of the workers do not move the maintenance thread. -/
theorem maintenance_worker (hs : s.next cfg l = some s') (hl : OfWorker l) :
    s'.maintenance = s.maintenance := by
  obtain ⟨i, ⟨hv, rfl⟩ | rfl | rfl | rfl⟩ := hl
  · obtain ⟨-, ⟨-, -, rfl⟩ | ⟨-, -, rfl⟩⟩ := itemLock_eq_some hs <;> rfl
  · obtain ⟨hv, -, ⟨-, rfl⟩ | ⟨-, rfl⟩⟩ := itemUnlock_eq_some hs <;> rfl
  · obtain ⟨-, type', pipe, -, rfl⟩ := process_eq_some hs
    rfl
  · obtain ⟨-, -, rfl⟩ := register_eq_some hs
    rfl

/-- A switch that waits has sent all its messages. -/
theorem Phase.waiting (h : s.Phase) (hm : s.maintenance = .waiting type) : s.Switching type n := by
  rw [Phase, hm] at h
  exact h.1

/-- **A wait for a worker that was not told goes on.** -/
theorem waiting_stays (h : s.Phase) (hm : s.maintenance = .waiting type) (ht : s.told < n)
    (hs : s.next cfg l = some s') : s'.maintenance = .waiting type ∧ s'.told < n := by
  rcases waiting_cases hm hs with hw | ⟨-, hcount⟩
  · exact ⟨(maintenance_worker hs hw).trans hm, (told_worker (h.waiting hm) hs hw).trans_lt ht⟩
  · have : s.initCount ≤ s.told := Nat.le_add_right _ _
    omega

/-! ## Messages that are all written -/

/-- Every worker whose turn has come was told. -/
def AllTold (s : LockSwitch n) : Prop :=
  match s.maintenance with
  | .sending _ k => s.told = k ∧ k ≤ n
  | .waiting _ => s.told = n
  | _ => True

/-- Nothing is owed between two switches. -/
theorem Settled.owed_eq (h : s.Settled type) (hw : s'.workers = s.workers) : s'.owed = ∅ := by
  refine Finset.eq_empty_of_forall_notMem fun j hj => ?_
  rw [mem_owed, hw] at hj
  exact hj.elim (fun hp => hp (h j).2.1) (h j).2.2

/-- Where a switch begins, nobody was told. -/
theorem Settled.allTold (h : s.Settled type) {type' : ItemLockType} (hw : s'.workers = s.workers)
    (hm : s'.maintenance = .sending type' 0) (hc : s'.initCount = 0) : s'.AllTold := by
  rw [AllTold, hm]
  exact ⟨by rw [told, h.owed_eq hw, hc, Finset.card_empty], Nat.zero_le n⟩

/-- A step of a worker leaves nobody untold. -/
theorem AllTold.worker (h : s.AllTold) (hp : s.Phase) (hs : s.next cfg l = some s') (hl : OfWorker l) :
    s'.AllTold := by
  have hm := maintenance_worker hs hl
  rw [AllTold] at h ⊢
  rw [hm]
  rw [Phase] at hp
  cases hstate : s.maintenance with
  | sending type k =>
      rw [hstate] at h hp
      exact ⟨(told_worker hp.1 hs hl).trans h.1, h.2⟩
  | waiting type =>
      rw [hstate] at h hp
      exact (told_worker hp.1 hs hl).trans h
  | _ => trivial

/-- A step other than a failed write leaves nobody untold. -/
theorem AllTold.step (h : s.AllTold) (hp : s.Phase) (hs : s.next cfg l = some s')
    (hl : l ≠ .write false) : s'.AllTold := by
  cases l with
  | itemLock i hv => exact h.worker hp hs ⟨i, .inl ⟨hv, rfl⟩⟩
  | itemUnlock i => exact h.worker hp hs ⟨i, .inr (.inl rfl)⟩
  | process i => exact h.worker hp hs ⟨i, .inr (.inr (.inl rfl))⟩
  | register i => exact h.worker hp hs ⟨i, .inr (.inr (.inr rfl))⟩
  | lockGlobal =>
      simp only [next] at hs
      split_ifs at hs
      exact Option.some.inj hs ▸ trivial
  | migrate =>
      obtain ⟨ii, -, -, rfl⟩ := migrate_eq_some hs
      trivial
  | unlockGlobal =>
      obtain ⟨ii, hm, ⟨-, rfl⟩ | ⟨-, rfl⟩⟩ := unlockGlobal_eq_some hs
      · trivial
      · rw [Phase, hm] at hp
        obtain ⟨type, hset, -⟩ := hp
        exact hset.allTold rfl rfl rfl
  | write ok =>
      obtain rfl : ok = true := by
        cases ok with
        | true => rfl
        | false => exact absurd rfl hl
      obtain ⟨type, k, hk, hm, hs'⟩ := write_eq_some hs
      rw [AllTold, hm] at h
      rw [Phase, hm] at hp
      have htold := told_write hp.1 hm hs
      rw [AllTold, show s'.maintenance = .sending type (k + 1) by rw [hs']]
      exact ⟨by rw [htold, h.1, if_pos rfl], hk⟩
  | wait =>
      simp only [next] at hs
      split at hs
      · rename_i type k hm
        split_ifs at hs with hk
        obtain rfl := Option.some.inj hs
        rw [AllTold, hm] at h
        exact h.1.trans (by omega)
      · cases hs
  | registered =>
      simp only [next] at hs
      split at hs
      · split_ifs at hs
        all_goals exact Option.some.inj hs ▸ trivial
      · cases hs
  | wake =>
      simp only [next] at hs
      split_ifs at hs with hm
      obtain rfl := Option.some.inj hs
      rw [Phase, hm] at hp
      exact hp.1.allTold rfl rfl rfl
  | expand ok =>
      simp only [next] at hs
      split_ifs at hs
      all_goals exact Option.some.inj hs ▸ trivial

/-! ## Messages that were lost -/

/-- A switch is going on in which a worker was not told. -/
def Short (s : LockSwitch n) : Prop :=
  match s.maintenance with
  | .sending _ k => s.told < k ∧ k ≤ n
  | .waiting _ => s.told < n
  | _ => False

/-- Nobody is told before its turn, or twice. -/
theorem Switching.told_le (h : s.Switching type k) : s.told ≤ k := by
  have hdisj : Disjoint (Finset.univ.filter fun j => s.Switched type k j) s.owed := by
    refine Finset.disjoint_left.mpr fun j hj ho => ?_
    obtain ⟨-, -, hpipe, hstate⟩ := (Finset.mem_filter.mp hj).2
    exact (mem_owed.mp ho).elim (fun hne => hne hpipe) hstate
  have hturn : ∀ j ∈ (Finset.univ.filter fun j => s.Switched type k j) ∪ s.owed, j.val < k := by
    intro j hj
    rcases Finset.mem_union.mp hj with hj | ho
    · exact (Finset.mem_filter.mp hj).2.1
    · rcases mem_owed.mp ho with hne | hreg
      · exact ((h.pipe j).resolve_left hne).2
      · exact (h.registering j hreg).2.2
  calc s.told ≤ _ + s.owed.card := Nat.add_le_add_right h.count _
    _ = (_ ∪ s.owed).card := (Finset.card_union_of_disjoint hdisj).symm
    _ ≤ (Finset.range k).card := Finset.card_le_card_of_injOn Fin.val
        (fun j hj => Finset.mem_coe.mpr (Finset.mem_range.mpr (hturn j hj)))
        fun _ _ _ _ he => Fin.ext he
    _ = k := Finset.card_range k

/-- **A message that is not written leaves a worker untold.** -/
theorem short_write (hp : s.Phase) (hs : s.next cfg (.write false) = some s') : s'.Short := by
  obtain ⟨type, k, hk, hm, hs'⟩ := write_eq_some hs
  have hsw : s.Switching type k := by
    rw [Phase, hm] at hp
    exact hp.1
  have htold := told_write hsw hm hs
  have hle := hsw.told_le
  rw [Short, show s'.maintenance = .sending type (k + 1) by rw [hs'], htold]
  simp only [Bool.false_eq_true, reduceIte]
  omega

/-- A step of a worker does not make up for a message that was lost. -/
theorem Short.worker (h : s.Short) (hp : s.Phase) (hs : s.next cfg l = some s') (hl : OfWorker l) :
    s'.Short := by
  have hm := maintenance_worker hs hl
  rw [Short] at h ⊢
  rw [hm]
  rw [Phase] at hp
  cases hstate : s.maintenance with
  | sending type k =>
      rw [hstate] at h hp
      exact ⟨(told_worker hp.1 hs hl).trans_lt h.1, h.2⟩
  | waiting type =>
      rw [hstate] at h hp
      exact (told_worker hp.1 hs hl).trans_lt h
  | _ =>
      rw [hstate] at h
      exact h

/-- What can happen while messages are written. -/
theorem sending_cases (hm : s.maintenance = .sending type k) (hs : s.next cfg l = some s') :
    OfWorker l ∨ (∃ ok, l = .write ok) ∨ l = .wait := by
  cases l with
  | itemLock i hv => exact .inl ⟨i, .inl ⟨hv, rfl⟩⟩
  | itemUnlock i => exact .inl ⟨i, .inr (.inl rfl)⟩
  | process i => exact .inl ⟨i, .inr (.inr (.inl rfl))⟩
  | register i => exact .inl ⟨i, .inr (.inr (.inr rfl))⟩
  | write ok => exact .inr (.inl ⟨ok, rfl⟩)
  | wait => exact .inr (.inr rfl)
  | _ => simp [next, hm, migrate, unlockGlobal] at hs

/-- **A switch in which a worker was not told goes on.** -/
theorem Short.step (h : s.Short) (hp : s.Phase) (hs : s.next cfg l = some s') : s'.Short := by
  have hcases := h
  rw [Short] at hcases
  cases hm : s.maintenance with
  | sending type k =>
      rw [hm] at hcases
      rcases sending_cases hm hs with hw | ⟨ok, rfl⟩ | rfl
      · exact h.worker hp hs hw
      · have hsw : s.Switching type k := by
          rw [Phase, hm] at hp
          exact hp.1
        have htold := told_write hsw hm hs
        obtain ⟨type', k', hk, hm', hs'⟩ := write_eq_some hs
        rw [hm] at hm'
        obtain ⟨rfl, rfl⟩ := MaintenanceState.sending.inj hm'
        have hle : (if ok = true then 1 else 0) ≤ 1 := by split <;> omega
        rw [Short, show s'.maintenance = .sending type (k + 1) by rw [hs'], htold]
        simp only
        omega
      · simp only [next, hm] at hs
        split_ifs at hs with hk
        obtain rfl := Option.some.inj hs
        show s.told < n
        omega
  | waiting type =>
      rw [hm] at hcases
      rcases waiting_cases hm hs with hw | ⟨-, hcount⟩
      · exact h.worker hp hs hw
      · have : s.initCount ≤ s.told := Nat.le_add_right _ _
        omega
  | _ =>
      rw [hm] at hcases
      exact hcases.elim

/-! ## Who has the locks -/

/-- **Whoever has an item lock is in a section of its type**, or moves buckets. -/
structure LockHolders (cfg : LockSettings) (s : LockSwitch n) : Prop where
  granular : ∀ k j, s.itemLocks k = some j → ∃ hv, s.InSection j hv ∧ lockIndex cfg hv = k ∧
    (s.workers j).itemLockType = .granular
  global : ∀ j, s.itemGlobalLock = some (.worker j) → ∃ hv, s.InSection j hv ∧
    (s.workers j).itemLockType = .global
  migrating : s.itemGlobalLock = some .maintenance → ∃ ii, s.maintenance = .migrating ii

/-- Who holds the locks depends on the sections and on the maintenance thread. -/
theorem LockHolders.congr (h : LockHolders cfg s)
    (hsec : ∀ j hv, s.InSection j hv →
      s'.InSection j hv ∧ (s'.workers j).itemLockType = (s.workers j).itemLockType)
    (hl : s'.itemLocks = s.itemLocks) (hg : s'.itemGlobalLock = s.itemGlobalLock)
    (hm : ∀ ii, s.maintenance = .migrating ii → ∃ jj, s'.maintenance = .migrating jj) :
    LockHolders cfg s' where
  granular k j hj := by
    obtain ⟨hv, hin, hk, htype⟩ := h.granular k j (hl ▸ hj)
    exact ⟨hv, (hsec j hv hin).1, hk, (hsec j hv hin).2.trans htype⟩
  global j hj := by
    obtain ⟨hv, hin, htype⟩ := h.global j (hg ▸ hj)
    exact ⟨hv, (hsec j hv hin).1, (hsec j hv hin).2.trans htype⟩
  migrating hj := by
    obtain ⟨ii, hii⟩ := h.migrating (hg ▸ hj)
    exact hm ii hii

/-- A lock that is taken is held by its worker. -/
theorem LockHolders.itemLock {hv : ℕ} (h : LockHolders cfg s) (hs : s.itemLock cfg i hv = some s') :
    LockHolders cfg s' := by
  obtain ⟨hidle, ⟨htype, hfree, rfl⟩ | ⟨htype, hfree, rfl⟩⟩ := itemLock_eq_some hs
  -- the sections that were there are not the one that begins
  all_goals
    have hother : ∀ j hv', s.InSection j hv' → j ≠ i := by
      rintro j hv' hj rfl
      rw [InSection, hidle] at hj
      exact absurd hj (by simp)
  · refine ⟨fun k j hj => ?_, fun j hj => ?_, h.migrating⟩
    · by_cases hk : k = lockIndex cfg hv
      · subst hk
        obtain rfl : i = j := by simpa using hj
        exact ⟨hv, by simp [InSection], rfl, by simpa using htype⟩
      · obtain ⟨hv', hin, hk', htype'⟩ := h.granular k j (by simpa [hk] using hj)
        have hji := hother j hv' hin
        exact ⟨hv', by simpa [InSection, hji] using hin, hk', by simpa [hji] using htype'⟩
    · obtain ⟨hv', hin, htype'⟩ := h.global j hj
      have hji := hother j hv' hin
      exact ⟨hv', by simpa [InSection, hji] using hin, by simpa [hji] using htype'⟩
  · refine ⟨fun k j hj => ?_, fun j hj => ?_, fun hj => by simp at hj⟩
    · obtain ⟨hv', hin, hk', htype'⟩ := h.granular k j hj
      have hji := hother j hv' hin
      exact ⟨hv', by simpa [InSection, hji] using hin, hk', by simpa [hji] using htype'⟩
    · obtain rfl : i = j := by simpa using hj
      exact ⟨hv, by simp [InSection], by simpa using htype⟩

/-- A lock that is given back is held by nobody. -/
theorem LockHolders.itemUnlock (h : LockHolders cfg s) (hs : s.itemUnlock cfg i = some s') :
    LockHolders cfg s' := by
  obtain ⟨hv, hi, ⟨htype, rfl⟩ | ⟨htype, rfl⟩⟩ := itemUnlock_eq_some hs
  · refine ⟨fun k j hj => ?_, fun j hj => ?_, h.migrating⟩
    · have hk : k ≠ lockIndex cfg hv := by
        rintro rfl
        simp at hj
      obtain ⟨hv', hin, hk', htype'⟩ := h.granular k j (by simpa [hk] using hj)
      have hji : j ≠ i := by
        rintro rfl
        obtain rfl := WorkerState.section.inj ((show _ = _ from hi).symm.trans hin)
        exact hk hk'.symm
      exact ⟨hv', by simpa [InSection, hji] using hin, hk', by simpa [hji] using htype'⟩
    · obtain ⟨hv', hin, htype'⟩ := h.global j hj
      have hji : j ≠ i := by
        rintro rfl
        rw [htype] at htype'
        cases htype'
      exact ⟨hv', by simpa [InSection, hji] using hin, by simpa [hji] using htype'⟩
  · refine ⟨fun k j hj => ?_, fun j hj => by simp at hj, fun hj => by simp at hj⟩
    obtain ⟨hv', hin, hk', htype'⟩ := h.granular k j hj
    have hji : j ≠ i := by
      rintro rfl
      rw [htype] at htype'
      cases htype'
    exact ⟨hv', by simpa [InSection, hji] using hin, hk', by simpa [hji] using htype'⟩

/-- **Every step keeps the locks with those who are in sections.** -/
theorem LockHolders.step (h : LockHolders cfg s) (hs : s.next cfg l = some s') :
    LockHolders cfg s' := by
  cases l with
  | itemLock i hv => exact h.itemLock hs
  | itemUnlock i => exact h.itemUnlock hs
  | process i =>
      obtain ⟨hidle, type, pipe, -, rfl⟩ := process_eq_some hs
      refine h.congr (fun j hv hj => ?_) rfl rfl fun ii hii => ⟨ii, hii⟩
      have hji : j ≠ i := by
        rintro rfl
        rw [InSection, hidle] at hj
        exact absurd hj (by simp)
      exact ⟨by simpa [InSection, hji] using hj, by simp [hji]⟩
  | register i =>
      obtain ⟨hreg, -, rfl⟩ := register_eq_some hs
      refine h.congr (fun j hv hj => ?_) rfl rfl fun ii hii => ⟨ii, hii⟩
      have hji : j ≠ i := by
        rintro rfl
        rw [InSection, hreg] at hj
        exact absurd hj (by simp)
      exact ⟨by simpa [InSection, hji] using hj, by simp [hji]⟩
  | lockGlobal =>
      simp only [next] at hs
      split_ifs at hs with hstart
      obtain rfl := Option.some.inj hs
      exact ⟨h.granular, fun j hj => by simp at hj, fun _ => ⟨0, rfl⟩⟩
  | migrate =>
      obtain ⟨ii, hii, -, rfl⟩ := migrate_eq_some hs
      exact h.congr (fun j hv hj => ⟨hj, rfl⟩) rfl rfl fun _ _ => ⟨ii + 1, rfl⟩
  | unlockGlobal =>
      obtain ⟨ii, hii, ⟨-, rfl⟩ | ⟨-, rfl⟩⟩ := unlockGlobal_eq_some hs
      all_goals exact ⟨h.granular, fun j hj => by simp at hj, fun hj => by simp at hj⟩
  | write ok =>
      obtain ⟨type, k, hk, hm, rfl⟩ := write_eq_some hs
      refine h.congr (fun j hv hj => ?_) rfl rfl fun ii hii => absurd (hm.symm.trans hii) (by simp)
      by_cases hjk : j = ⟨k, hk⟩
      · subst hjk
        exact ⟨by simpa [InSection] using hj, by simp⟩
      · exact ⟨by simpa [InSection, hjk] using hj, by simp [hjk]⟩
  | wait =>
      simp only [next] at hs
      split at hs
      · rename_i hm
        split_ifs at hs
        obtain rfl := Option.some.inj hs
        exact h.congr (fun j hv hj => ⟨hj, rfl⟩) rfl rfl
          fun ii hii => absurd (hm.symm.trans hii) (by simp)
      · cases hs
  | registered =>
      simp only [next] at hs
      split at hs
      · rename_i hm
        split_ifs at hs
        all_goals
          obtain rfl := Option.some.inj hs
          exact h.congr (fun j hv hj => ⟨hj, rfl⟩) rfl rfl
            fun ii hii => absurd (hm.symm.trans hii) (by simp)
      · cases hs
  | wake =>
      simp only [next] at hs
      split_ifs at hs with hm
      obtain rfl := Option.some.inj hs
      exact h.congr (fun j hv hj => ⟨hj, rfl⟩) rfl rfl
        fun ii hii => absurd (hm.symm.trans hii) (by simp)
  | expand ok =>
      simp only [next] at hs
      split_ifs at hs with hm
      all_goals
        obtain rfl := Option.some.inj hs
        exact h.congr (fun j hv hj => ⟨hj, rfl⟩) rfl rfl
          fun ii hii => absurd (hm.symm.trans hii) (by simp)

/-- At first no lock is taken. -/
theorem lockHolders_init (cfg : LockSettings) (n hashpower : ℕ) :
    LockHolders cfg (init n hashpower) :=
  ⟨fun _ _ h => by simp [init] at h, fun _ h => by simp [init] at h, fun h => by simp [init] at h⟩

end LockSwitch

/-! ## Blocked workers -/

/-- **The threads, with the workers that are blocked in `item_lock`**, and the hash value each has asked
for. -/
structure BlockedSwitch (n : ℕ) where
  threads : LockSwitch n
  wants : Fin n → Option ℕ

/-- What happens next. -/
inductive BlockedStep (n : ℕ)
  /-- A worker calls `item_lock`. -/
  | call (i : Fin n) (hv : ℕ)
  /-- It gets the lock. -/
  | acquire (i : Fin n)
  /-- Anything else. -/
  | other (l : LockStep n)
  deriving DecidableEq, Repr

namespace BlockedSwitch

open LockSwitch (LockHolders OfWorker lockIndex)

variable {n : ℕ} {cfg : LockSettings} {b b' : BlockedSwitch n} {i : Fin n} {type : ItemLockType}

/-- A step that a blocked worker cannot take: it reads no message, and takes no other lock. -/
def Hinders (b : BlockedSwitch n) : LockStep n → Bool
  | .itemLock _ _ => true
  | .process i => (b.wants i).isSome
  | _ => false

/-- **One step.** -/
def next (cfg : LockSettings) (b : BlockedSwitch n) : BlockedStep n → Option (BlockedSwitch n)
  | .call i hv =>
      if (b.threads.workers i).state = .idle ∧ b.wants i = none then
        some { b with wants := Function.update b.wants i (some hv) }
      else none
  | .acquire i =>
      match b.wants i with
      | some hv => (b.threads.itemLock cfg i hv).map fun s => ⟨s, Function.update b.wants i none⟩
      | none => none
  | .other l => if b.Hinders l then none else (b.threads.next cfg l).map fun s => { b with threads := s }

/-- A step as a relation. -/
def Step (cfg : LockSettings) (b : BlockedSwitch n) (l : BlockedStep n) (b' : BlockedSwitch n) : Prop :=
  b.next cfg l = some b'

/-- The server at start-up. -/
def init (n hashpower : ℕ) : BlockedSwitch n := ⟨LockSwitch.init n hashpower, fun _ => none⟩

/-- What the workers do on their way to the registration: no new lock is asked for. -/
def Drains : BlockedStep n → Prop
  | .call _ _ => False
  | .acquire _ => True
  | .other l => OfWorker l

/-- **A step of the threads**, or a call that changes nothing but what a worker waits for. -/
theorem step_threads {l : BlockedStep n} (h : b.Step cfg l b') :
    (∃ i hv, l = .call i hv ∧ b'.threads = b.threads) ∨
      ∃ l', b.threads.next cfg l' = some b'.threads ∧ (Drains l → OfWorker l') ∧
        ((∃ i hv, l' = .itemLock i hv) ∨ l = .other l') := by
  cases l with
  | call i hv =>
      simp only [Step, next] at h
      split_ifs at h
      obtain rfl := Option.some.inj h
      exact .inl ⟨i, hv, rfl, rfl⟩
  | acquire i =>
      simp only [Step, next] at h
      split at h
      · rename_i hv _
        obtain ⟨s, hs, rfl⟩ := Option.map_eq_some_iff.mp h
        exact .inr ⟨.itemLock i hv, hs, fun _ => ⟨i, .inl ⟨hv, rfl⟩⟩, .inl ⟨i, hv, rfl⟩⟩
      · cases h
  | other l =>
      simp only [Step, next] at h
      split_ifs at h
      obtain ⟨s, hs, rfl⟩ := Option.map_eq_some_iff.mp h
      exact .inr ⟨l, hs, id, .inr rfl⟩

/-- What the threads keep, the blocked threads keep. -/
theorem keeps {P : LockSwitch n → Prop}
    (hP : ∀ {s s' : LockSwitch n} {l : LockStep n}, P s → s.next cfg l = some s' → P s')
    {l : BlockedStep n} (hb : P b.threads) (h : b.Step cfg l b') : P b'.threads := by
  obtain ⟨_, _, -, heq⟩ | ⟨_, hs, -, -⟩ := step_threads h
  · rw [heq]
    exact hb
  · exact hP hb hs

/-- **The invariant**: of the threads, of their locks, and that a blocked worker does nothing else. -/
structure Inv (cfg : LockSettings) (b : BlockedSwitch n) : Prop where
  phase : b.threads.Phase
  holders : LockHolders cfg b.threads
  idle : ∀ i, b.wants i ≠ none → (b.threads.workers i).state = .idle

/-- At first nobody waits. -/
theorem inv_init (cfg : LockSettings) (n hashpower : ℕ) : (init n hashpower).Inv cfg :=
  ⟨(LockSwitch.inv_init cfg n hashpower).phase, LockSwitch.lockHolders_init cfg n hashpower,
    fun _ h => absurd rfl h⟩

/-- Another worker's state is its own. -/
theorem idle_of_next {s s' : LockSwitch n} {l : LockStep n} (h : s.next cfg l = some s')
    (hi : (s.workers i).state = .idle) (hl : ∀ hv, l ≠ .itemLock i hv) (hp : l ≠ .process i) :
    (s'.workers i).state = .idle := by
  cases l with
  | itemLock j hv =>
      have hji : i ≠ j := by
        rintro rfl
        exact hl hv rfl
      obtain ⟨-, ⟨-, -, rfl⟩ | ⟨-, -, rfl⟩⟩ := LockSwitch.itemLock_eq_some h <;> simpa [hji] using hi
  | itemUnlock j =>
      obtain ⟨hv, -, ⟨-, rfl⟩ | ⟨-, rfl⟩⟩ := LockSwitch.itemUnlock_eq_some h
      all_goals
        by_cases hji : i = j
        · simp [hji]
        · simpa [hji] using hi
  | process j =>
      have hji : i ≠ j := by
        rintro rfl
        exact hp rfl
      obtain ⟨-, _, _, -, rfl⟩ := LockSwitch.process_eq_some h
      simpa [hji] using hi
  | register j =>
      obtain ⟨-, -, rfl⟩ := LockSwitch.register_eq_some h
      by_cases hji : i = j
      · simp [hji]
      · simpa [hji] using hi
  | migrate =>
      obtain ⟨_, -, -, rfl⟩ := LockSwitch.migrate_eq_some h
      exact hi
  | unlockGlobal =>
      obtain ⟨_, -, ⟨-, rfl⟩ | ⟨-, rfl⟩⟩ := LockSwitch.unlockGlobal_eq_some h <;> exact hi
  | write ok =>
      obtain ⟨_, k, hk, -, rfl⟩ := LockSwitch.write_eq_some h
      by_cases hik : i = ⟨k, hk⟩
      · subst hik
        simpa using hi
      · simpa [hik] using hi
  | lockGlobal | wake | expand =>
      simp only [LockSwitch.next] at h
      split_ifs at h
      all_goals exact Option.some.inj h ▸ hi
  | wait | registered =>
      simp only [LockSwitch.next] at h
      split at h
      · split_ifs at h
        all_goals exact Option.some.inj h ▸ hi
      · cases h

/-- **Every step keeps the invariant.** -/
theorem Inv.step {l : BlockedStep n} (hb : b.Inv cfg) (h : b.Step cfg l b') : b'.Inv cfg := by
  refine ⟨keeps (P := LockSwitch.Phase) (fun hp hs => hp.step hs) hb.phase h,
    keeps (P := LockHolders cfg) (fun hp hs => hp.step hs) hb.holders h, fun j hj => ?_⟩
  cases l with
  | call i hv =>
      simp only [Step, next] at h
      split_ifs at h with hcall
      obtain rfl := Option.some.inj h
      by_cases hji : j = i
      · subst hji
        exact hcall.1
      · exact hb.idle j (by simpa [hji] using hj)
  | acquire i =>
      simp only [Step, next] at h
      split at h
      · rename_i hv _
        obtain ⟨s, hs, rfl⟩ := Option.map_eq_some_iff.mp h
        have hji : j ≠ i := by
          rintro rfl
          simp at hj
        exact idle_of_next (l := .itemLock i hv) hs (hb.idle j (by simpa [hji] using hj))
          (fun hv' e => hji (LockStep.itemLock.inj e).1.symm) (by simp)
      · cases h
  | other l =>
      simp only [Step, next] at h
      split_ifs at h with hfree
      obtain ⟨s, hs, rfl⟩ := Option.map_eq_some_iff.mp h
      have hwants : b.wants j ≠ none := hj
      refine idle_of_next hs (hb.idle j hwants) ?_ ?_
      · rintro hv rfl
        exact hfree rfl
      · rintro rfl
        exact hfree (Option.isSome_iff_ne_none.mpr hwants)

/-! ## The way out of the wait -/

/-- A run of workers that ask for no new lock. -/
def DrainRun (cfg : LockSettings) (b : BlockedSwitch n) (ls : List (BlockedStep n))
    (b' : BlockedSwitch n) : Prop :=
  Run (Step cfg) b ls b' ∧ ∀ l ∈ ls, Drains l

/-- One more step in front. -/
theorem DrainRun.cons {l : BlockedStep n} {ls : List (BlockedStep n)} {c : BlockedSwitch n}
    (h : b.Step cfg l c) (hl : Drains l) (hr : c.DrainRun cfg ls b') : b.DrainRun cfg (l :: ls) b' :=
  ⟨.cons h hr.1, fun l' hmem => by
    obtain rfl | hmem := List.mem_cons.mp hmem
    · exact hl
    · exact hr.2 l' hmem⟩

/-- The maintenance thread waits, and worker `i` is to register. -/
structure Owing (b : BlockedSwitch n) (i : Fin n) (type : ItemLockType) (count : ℕ) : Prop where
  waiting : b.threads.maintenance = .waiting type
  owed : i ∈ b.threads.owed
  initCount : b.threads.initCount = count

/-- A worker that has read its message registers. -/
theorem Owing.register {count : ℕ} (h : b.Owing i type count)
    (hi : (b.threads.workers i).state = .registering) :
    ∃ ls b', b.DrainRun cfg ls b' ∧ b'.threads.initCount = count + 1 := by
  have hreg : b.Step cfg (.other (.register i)) { b with threads := { b.threads.setWorker i
      { b.threads.workers i with state := .idle } with initCount := b.threads.initCount + 1 } } := by
    simp [Step, next, Hinders, LockSwitch.next, LockSwitch.register, hi, h.waiting]
  exact ⟨_, _, DrainRun.cons hreg ⟨i, .inr (.inr (.inr rfl))⟩ ⟨.nil, by simp⟩,
    congrArg (· + 1) h.initCount⟩

/-- A worker that is not blocked reads its message, and registers. -/
theorem Owing.idle {count : ℕ} (h : b.Owing i type count)
    (hi : (b.threads.workers i).state = .idle) (hw : b.wants i = none) :
    ∃ ls b', b.DrainRun cfg ls b' ∧ b'.threads.initCount = count + 1 := by
  have hpipe : (b.threads.workers i).pipe ≠ [] :=
    (LockSwitch.mem_owed.mp h.owed).resolve_right (by simp [hi])
  obtain ⟨m, pipe, hm⟩ := List.exists_cons_of_ne_nil hpipe
  set c : BlockedSwitch n := { b with threads := b.threads.setWorker i ⟨m, pipe, .registering⟩ }
  have hprocess : b.Step cfg (.other (.process i)) c := by
    simp [Step, next, Hinders, hw, LockSwitch.next, LockSwitch.process, hi, hm, c]
  have hc : c.Owing i type count :=
    ⟨h.waiting, LockSwitch.mem_owed.mpr (.inr (by simp [c])), h.initCount⟩
  obtain ⟨ls, b', hr, hcount⟩ : ∃ ls b', c.DrainRun cfg ls b' ∧ b'.threads.initCount = count + 1 :=
    hc.register (by simp [c])
  exact ⟨_, b', hr.cons hprocess ⟨i, .inr (.inr (.inl rfl))⟩, hcount⟩

/-- What a worker that gives its lock back leaves as it was. -/
theorem exists_unlock (cfg : LockSettings) {j : Fin n} {hv : ℕ} (hj : b.threads.InSection j hv) :
    ∃ c, b.Step cfg (.other (.itemUnlock j)) c ∧ c.wants = b.wants ∧
      c.threads.maintenance = b.threads.maintenance ∧
      c.threads.initCount = b.threads.initCount ∧
      (c.threads.workers j).state = .idle ∧
      (∀ k, (c.threads.workers k).pipe = (b.threads.workers k).pipe) ∧
      (∀ k, (c.threads.workers k).itemLockType = (b.threads.workers k).itemLockType) ∧
      (∀ k, k ≠ j → (c.threads.workers k).state = (b.threads.workers k).state) ∧
      ((b.threads.workers j).itemLockType = .granular →
        c.threads.itemLocks (lockIndex cfg hv) = none) ∧
      ((b.threads.workers j).itemLockType = .global → c.threads.itemGlobalLock = none) := by
  have hstate : (b.threads.workers j).state = .section hv := hj
  have hsame : ∀ (w : Worker) (k : Fin n), w.pipe = (b.threads.workers j).pipe →
      w.itemLockType = (b.threads.workers j).itemLockType →
      ((b.threads.setWorker j w).workers k).pipe = (b.threads.workers k).pipe ∧
        ((b.threads.setWorker j w).workers k).itemLockType = (b.threads.workers k).itemLockType := by
    intro w k hp ht
    by_cases hkj : k = j
    · subst hkj
      simp [hp, ht]
    · simp [hkj]
  set w : Worker := { b.threads.workers j with state := .idle }
  by_cases htype : (b.threads.workers j).itemLockType = .granular
  · set c : BlockedSwitch n := { b with threads := { b.threads.setWorker j w with
      itemLocks := Function.update b.threads.itemLocks (lockIndex cfg hv) none } }
    have hstep : b.Step cfg (.other (.itemUnlock j)) c := by
      simp [Step, next, Hinders, LockSwitch.next, LockSwitch.itemUnlock, hstate, htype, c, w]
    refine ⟨c, hstep, rfl, rfl, rfl, by simp [c, w], fun k => (hsame w k rfl rfl).1,
      fun k => (hsame w k rfl rfl).2, fun k hkj => by simp [c, hkj], fun _ => by simp [c], fun hg => ?_⟩
    rw [htype] at hg
    cases hg
  · set c : BlockedSwitch n := { b with threads := { b.threads.setWorker j w with
      itemGlobalLock := none } }
    have hstep : b.Step cfg (.other (.itemUnlock j)) c := by
      simp [Step, next, Hinders, LockSwitch.next, LockSwitch.itemUnlock, hstate, htype, c, w]
    exact ⟨c, hstep, rfl, rfl, rfl, by simp [c, w], fun k => (hsame w k rfl rfl).1,
      fun k => (hsame w k rfl rfl).2, fun k hkj => by simp [c, hkj], fun hg => absurd hg htype,
      fun _ => rfl⟩

/-- A worker in a section gives its lock back first. -/
theorem Owing.section {count hv : ℕ} (h : b.Owing i type count) (hi : b.threads.InSection i hv)
    (hw : b.wants i = none) : ∃ ls b', b.DrainRun cfg ls b' ∧ b'.threads.initCount = count + 1 := by
  obtain ⟨c, hc, hwants, hm, hcount, hidle, hpipe, -, -, -, -⟩ := exists_unlock cfg hi
  have hstate : (b.threads.workers i).state = .section hv := hi
  have hp : (b.threads.workers i).pipe ≠ [] :=
    (LockSwitch.mem_owed.mp h.owed).resolve_right (by simp [hstate])
  have hown : c.Owing i type count :=
    ⟨hm.trans h.waiting, LockSwitch.mem_owed.mpr (.inl (by rwa [hpipe i])), hcount.trans h.initCount⟩
  obtain ⟨ls, b', hr, hend⟩ : ∃ ls b', c.DrainRun cfg ls b' ∧ b'.threads.initCount = count + 1 :=
    hown.idle hidle (by rw [hwants, hw])
  exact ⟨_, b', hr.cons hc ⟨i, .inr (.inl rfl)⟩, hend⟩

/-- The lock that a worker asks for is nobody's. -/
def Free (cfg : LockSettings) (b : BlockedSwitch n) (i : Fin n) (hv : ℕ) : Prop :=
  match (b.threads.workers i).itemLockType with
  | .granular => b.threads.itemLocks (lockIndex cfg hv) = none
  | .global => b.threads.itemGlobalLock = none

/-- A worker that waits for a lock that is free takes it, and gives it back. -/
theorem Owing.acquire {count hv : ℕ} (h : b.Owing i type count)
    (hi : (b.threads.workers i).state = .idle) (hw : b.wants i = some hv) (hfree : b.Free cfg i hv) :
    ∃ ls b', b.DrainRun cfg ls b' ∧ b'.threads.initCount = count + 1 := by
  have hp : (b.threads.workers i).pipe ≠ [] :=
    (LockSwitch.mem_owed.mp h.owed).resolve_right (by simp [hi])
  obtain ⟨s, hs, hm, hcount, hsec, hpipe⟩ : ∃ s, b.threads.itemLock cfg i hv = some s ∧
      s.maintenance = .waiting type ∧ s.initCount = count ∧ s.InSection i hv ∧
      (s.workers i).pipe ≠ [] := by
    rw [Free] at hfree
    set w : Worker := { b.threads.workers i with state := .section hv }
    cases htype : (b.threads.workers i).itemLockType with
    | granular =>
        rw [htype] at hfree
        have hfree : b.threads.itemLocks (lockIndex cfg hv) = none := hfree
        exact ⟨{ b.threads.setWorker i w with
            itemLocks := Function.update b.threads.itemLocks (lockIndex cfg hv) (some i) },
          by simp [LockSwitch.itemLock, hi, htype, hfree, w], h.waiting, h.initCount,
          by simp [LockSwitch.InSection, w], by simpa [w] using hp⟩
    | global =>
        rw [htype] at hfree
        have hfree : b.threads.itemGlobalLock = none := hfree
        exact ⟨{ b.threads.setWorker i w with itemGlobalLock := some (.worker i) },
          by simp [LockSwitch.itemLock, hi, htype, hfree, w], h.waiting, h.initCount,
          by simp [LockSwitch.InSection, w], by simpa [w] using hp⟩
  have hstep : b.Step cfg (.acquire i) ⟨s, Function.update b.wants i none⟩ := by
    simp [Step, next, hw, hs]
  have hown : (⟨s, Function.update b.wants i none⟩ : BlockedSwitch n).Owing i type count :=
    ⟨hm, LockSwitch.mem_owed.mpr (.inl hpipe), hcount⟩
  obtain ⟨ls, b', hr, hend⟩ : ∃ ls b', (⟨s, Function.update b.wants i none⟩ :
      BlockedSwitch n).DrainRun cfg ls b' ∧ b'.threads.initCount = count + 1 :=
    hown.section hsec (by simp)
  exact ⟨_, b', hr.cons hstep trivial, hend⟩

/-- **A worker that was told can register**, whatever it waits for: who has the lock is in a section,
which ends. -/
theorem exists_register {count : ℕ} (hb : b.Inv cfg) (h : b.Owing i type count) :
    ∃ ls b', b.DrainRun cfg ls b' ∧ b'.threads.initCount = count + 1 := by
  cases hw : b.wants i with
  | none =>
      cases hstate : (b.threads.workers i).state with
      | idle => exact h.idle hstate hw
      | «section» hv => exact h.section hstate hw
      | registering => exact h.register hstate
  | some hv =>
      have hidle := hb.idle i (by simp [hw])
      by_cases hfree : b.Free cfg i hv
      · exact h.acquire hidle hw hfree
      -- somebody is in a section under this lock
      obtain ⟨j, hv', hj, hgives⟩ : ∃ j hv', b.threads.InSection j hv' ∧
          ((b.threads.workers i).itemLockType = .granular →
            (b.threads.workers j).itemLockType = .granular ∧ lockIndex cfg hv' = lockIndex cfg hv) ∧
          ((b.threads.workers i).itemLockType = .global →
            (b.threads.workers j).itemLockType = .global) := by
        rw [Free] at hfree
        cases htype : (b.threads.workers i).itemLockType with
        | granular =>
            rw [htype] at hfree
            obtain ⟨j, hj⟩ := Option.ne_none_iff_exists'.mp hfree
            obtain ⟨hv', hin, hk, ht⟩ := hb.holders.granular _ j hj
            exact ⟨j, hv', hin, fun _ => ⟨ht, hk⟩, fun hg => by cases hg⟩
        | global =>
            rw [htype] at hfree
            obtain ⟨o, ho⟩ := Option.ne_none_iff_exists'.mp hfree
            cases o with
            | maintenance =>
                obtain ⟨ii, hii⟩ := hb.holders.migrating ho
                rw [h.waiting] at hii
                cases hii
            | worker j =>
                obtain ⟨hv', hin, ht⟩ := hb.holders.global j ho
                exact ⟨j, hv', hin, (fun hg => by cases hg), fun _ => ht⟩
      have hij : i ≠ j := by
        rintro rfl
        rw [LockSwitch.InSection, hidle] at hj
        cases hj
      obtain ⟨c, hc, hwants, hm, hcount, -, hpipe, htype, hother, hgran, hglob⟩ :=
        exists_unlock cfg hj
      have hp : (b.threads.workers i).pipe ≠ [] :=
        (LockSwitch.mem_owed.mp h.owed).resolve_right (by simp [hidle])
      have hown : c.Owing i type count :=
        ⟨hm.trans h.waiting, LockSwitch.mem_owed.mpr (.inl (by rwa [hpipe i])),
          hcount.trans h.initCount⟩
      have hcfree : c.Free cfg i hv := by
        rw [Free, htype i]
        cases ht : (b.threads.workers i).itemLockType with
        | granular =>
            obtain ⟨htj, hk⟩ := hgives.1 ht
            exact hk ▸ hgran htj
        | global => exact hglob (hgives.2 ht)
      obtain ⟨ls, b', hr, hend⟩ := hown.acquire ((hother i hij).trans hidle) (by rw [hwants, hw]) hcfree
      exact ⟨_, b', hr.cons hc ⟨j, .inr (.inl rfl)⟩, hend⟩

/-- The workers on their way to the registration leave the wait and its count of who was told. -/
theorem DrainRun.keeps {ls : List (BlockedStep n)} (h : b.DrainRun cfg ls b') (hb : b.Inv cfg)
    (hm : b.threads.maintenance = .waiting type) :
    b'.Inv cfg ∧ b'.threads.maintenance = .waiting type ∧ b'.threads.told = b.threads.told := by
  obtain ⟨hr, hl⟩ := h
  induction hr with
  | nil => exact ⟨hb, hm, rfl⟩
  | cons hs _ ih =>
      have hd := hl _ List.mem_cons_self
      obtain ⟨_, _, rfl, -⟩ | ⟨l', hs', hw, -⟩ := step_threads hs
      · exact hd.elim
      · have hwait := hb.phase.waiting hm
        obtain ⟨hinv, hmt, htold⟩ := ih (hb.step hs)
          ((LockSwitch.maintenance_worker hs' (hw hd)).trans hm)
          fun l hmem => hl l (List.mem_cons_of_mem _ hmem)
        exact ⟨hinv, hmt, htold.trans (LockSwitch.told_worker hwait hs' (hw hd))⟩

/-- Where the maintenance thread goes when it has waited. -/
def afterWait (type : ItemLockType) : MaintenanceState := if type = .granular then .parked else .expand

/-- **A wait for workers that were all told can end**, by steps of theirs alone. -/
theorem waiting_ends (hb : b.Inv cfg) (hm : b.threads.maintenance = .waiting type)
    (ht : n ≤ b.threads.told) :
    ∃ ls b', Run (Step cfg) b ls b' ∧ (∀ l ∈ ls, Drains l ∨ l = .other .registered) ∧
      b'.threads.maintenance = afterWait type := by
  -- by induction on how many are still to register
  induction hleft : n - b.threads.initCount generalizing b with
  | zero =>
      have hregistered : b.Step cfg (.other .registered)
          { b with threads := { b.threads with maintenance := afterWait type } } := by
        simp only [Step, next, Hinders, LockSwitch.next, hm]
        rw [if_neg (by simp), if_neg (by omega)]
        rfl
      exact ⟨_, _, .single hregistered, by simp, rfl⟩
  | succ left ih =>
      have hpos : 0 < b.threads.owed.card := by
        unfold LockSwitch.told at ht
        omega
      obtain ⟨i, hi⟩ := Finset.card_pos.mp hpos
      obtain ⟨ls, c, hr, hcount⟩ := exists_register hb ⟨hm, hi, rfl⟩
      obtain ⟨hinv, hmt, htold⟩ := hr.keeps hb hm
      obtain ⟨ls', b', hr', hl', hend⟩ := ih hinv hmt (htold ▸ ht) (by omega)
      refine ⟨ls ++ ls', b', hr.1.append hr', fun l hmem => ?_, hend⟩
      rcases List.mem_append.mp hmem with hmem | hmem
      · exact .inl (hr.2 l hmem)
      · exact hl' l hmem

/-- The maintenance thread is in `switch_item_lock_type`. -/
def InSwitch (b : BlockedSwitch n) : Prop :=
  ∃ type, b.threads.maintenance = .waiting type ∨ ∃ k, b.threads.maintenance = .sending type k

/-- Only in a switch a worker goes untold. -/
theorem inSwitch_of_short (h : b.threads.Short) : b.InSwitch := by
  rw [LockSwitch.Short] at h
  cases hm : b.threads.maintenance with
  | waiting type => exact ⟨type, .inl hm⟩
  | sending type k => exact ⟨type, .inr ⟨k, hm⟩⟩
  | _ =>
      rw [hm] at h
      exact h.elim

/-- **When the wait ends**: it can end if and only if every worker was told; and once a message could not
be written, the maintenance thread never leaves the switch. -/
theorem wait_ends_iff {hashpower : ℕ} {ls : List (BlockedStep n)}
    (hr : Run (Step cfg) (init n hashpower) ls b) :
    (∀ type, b.threads.maintenance = .waiting type →
      ((∃ ls' b', Run (Step cfg) b ls' b' ∧ b'.threads.maintenance ≠ .waiting type) ↔
        n ≤ b.threads.told)) ∧
    ∀ c ls' b', b.Step cfg (.other (.write false)) c → Run (Step cfg) c ls' b' → b'.InSwitch := by
  have hinv : b.Inv cfg := hr.invariant (P := Inv cfg) (inv_init cfg n hashpower)
    fun h hst => h.step hst
  refine ⟨fun type hm => ⟨?_, fun ht => ?_⟩, fun c ls' b' hw hr' => ?_⟩
  · rintro ⟨ls', b', hr', hne⟩
    by_contra hlt
    have hshort : b.threads.Short := by
      rw [LockSwitch.Short, hm]
      exact Nat.not_le.mp hlt
    have hstays : b'.threads.Phase ∧ b'.threads.maintenance = .waiting type ∧ b'.threads.told < n := by
      refine hr'.invariant (P := fun c => c.threads.Phase ∧ c.threads.maintenance = .waiting type ∧
        c.threads.told < n) ⟨hinv.phase, hm, Nat.not_le.mp hlt⟩ fun {c l c'} hc hst => ?_
      exact keeps (P := fun s => s.Phase ∧ s.maintenance = .waiting type ∧ s.told < n)
        (fun hs hst => ⟨hs.1.step hst, LockSwitch.waiting_stays hs.1 hs.2.1 hs.2.2 hst⟩) hc hst
    exact hne hstays.2.1
  · obtain ⟨ls', b', hr', -, hend⟩ := waiting_ends hinv hm ht
    refine ⟨ls', b', hr', ?_⟩
    rw [hend, afterWait]
    split_ifs <;> simp
  · have hshort : c.threads.Phase ∧ c.threads.Short := by
      simp only [Step, next] at hw
      split_ifs at hw
      obtain ⟨s, hs, rfl⟩ := Option.map_eq_some_iff.mp hw
      exact ⟨hinv.phase.step hs, LockSwitch.short_write hinv.phase hs⟩
    have hend : b'.threads.Phase ∧ b'.threads.Short :=
      hr'.invariant (P := fun c => c.threads.Phase ∧ c.threads.Short) hshort fun hc hst =>
        keeps (P := fun s => s.Phase ∧ s.Short)
          (fun hs hst => ⟨hs.1.step hst, hs.2.step hs.1 hst⟩) hc hst
    exact inSwitch_of_short hend.2

/-- Worker 1 is blocked by worker 0, and its message could not be written: the wait has no end. -/
theorem wait_ends_iff_two : ∃ b : BlockedSwitch 2, b.threads.maintenance = .waiting .granular ∧
    b.wants 1 = some 5 ∧ ¬ ∃ ls' b', Run (Step ⟨13, 1⟩) b ls' b' ∧
      b'.threads.maintenance ≠ .waiting .granular := by
  let ls : List (BlockedStep 2) := [.call 0 5, .acquire 0, .call 1 5, .other .lockGlobal,
    .other .unlockGlobal, .other (.write true), .other (.write false), .other .wait]
  obtain ⟨b, hs, hm, hw, ht⟩ : ∃ b, ls.foldlM (BlockedSwitch.next ⟨13, 1⟩) (init 2 16) = some b ∧
    b.threads.maintenance = .waiting .granular ∧ b.wants 1 = some 5 ∧ b.threads.told = 1 :=
    ⟨_, rfl, rfl, rfl, by decide⟩
  refine ⟨b, hm, hw, fun h => ?_⟩
  have htold := ((wait_ends_iff (Run.of_foldlM hs)).1 _ hm).mp h
  omega

/-- **A switch is no deadlock**: where no `write` to a pipe has failed, the maintenance thread can go on
after steps of the workers alone, whatever locks they hold and wait for. -/
theorem switch_completes {hashpower : ℕ} {ls : List (BlockedStep n)}
    (hr : Run (fun b l b' => b.Step cfg l b' ∧ l ≠ .other (.write false)) (init n hashpower) ls b)
    (hm : b.threads.maintenance = .waiting type) :
    ∃ ls' b', Run (Step cfg) b ls' b' ∧
      (∀ l ∈ ls', Drains l ∨ l = .other .registered) ∧ b'.threads.maintenance = afterWait type := by
  have hall : b.Inv cfg ∧ b.threads.AllTold := by
    refine hr.invariant (P := fun b => b.Inv cfg ∧ b.threads.AllTold)
      ⟨inv_init cfg n hashpower, trivial⟩ fun {b l b'} h hst => ⟨h.1.step hst.1, ?_⟩
    obtain ⟨_, _, -, heq⟩ | ⟨l', hs, -, hl⟩ := step_threads hst.1
    · rw [heq]
      exact h.2
    · refine h.2.step h.1.phase hs ?_
      rintro rfl
      obtain ⟨_, _, hl⟩ | hl := hl
      · cases hl
      · exact hst.2 hl
  have htold := hall.2
  rw [LockSwitch.AllTold, hm] at htold
  exact waiting_ends hall.1 hm (le_of_eq htold.symm)

/-- Worker 1 is blocked by worker 0, and both have been told. -/
theorem switch_completes_two : ∃ (b : BlockedSwitch 2) (ls' : _) (b' : _),
    b.threads.maintenance = .waiting .granular ∧ b.wants 1 = some 5 ∧
    (b.threads.workers 0).state = .section 5 ∧ Run (Step ⟨13, 1⟩) b ls' b' ∧ b'.threads.maintenance = .parked := by
  have hr : ∃ b : BlockedSwitch 2, b.threads.maintenance = .waiting .granular ∧ b.wants 1 = some 5 ∧
      (b.threads.workers 0).state = .section 5 ∧
      Run (fun b l b' => b.Step ⟨13, 1⟩ l b' ∧ l ≠ .other (.write false)) (init 2 16)
        [.call 0 5, .acquire 0, .call 1 5, .other .lockGlobal, .other .unlockGlobal,
          .other (.write true), .other (.write true), .other .wait] b :=
    ⟨_, rfl, rfl, rfl, .cons ⟨rfl, nofun⟩ (.cons ⟨rfl, nofun⟩ (.cons ⟨rfl, nofun⟩ (.cons ⟨rfl, nofun⟩
      (.cons ⟨rfl, nofun⟩ (.cons ⟨rfl, nofun⟩ (.cons ⟨rfl, nofun⟩ (.cons ⟨rfl, nofun⟩ .nil)))))))⟩
  obtain ⟨b, hm, hw, hsec, hr⟩ := hr
  obtain ⟨ls', b', hr', -, hend⟩ := switch_completes hr hm
  exact ⟨b, ls', b', hm, hw, hsec, hr', hend⟩

end BlockedSwitch

end Memcached
