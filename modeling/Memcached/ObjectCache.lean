import Memcached.Lib.Transition
import Mathlib.Data.List.Perm.Basic
import Mathlib.Data.List.Nodup
import Mathlib.Logic.Function.Basic

/-! # The object cache

`cache_alloc` and `cache_free` keep freed objects, constructed, in an array from which they are handed
out again. A build without `NDEBUG` puts a red zone before and after each object, and does not take
objects back of which a red zone was overwritten.

* **`ObjectCache.cacheAlloc`**, **`cacheFree`**, **`cacheDestroy`** — the cache.
* **`Inv`** — who has which object.
* **`cacheAlloc_exclusive`**, **`cacheDestroy_paired`** — no object is handed out twice, and each is
  destroyed once. -/

namespace Memcached

open Transition (Run)

/-- How the cache was built and created: `NDEBUG`, and whether there are a constructor and a
destructor. -/
structure CacheConfig where
  ndebug : Bool
  constructor : Bool
  destructor : Bool
  deriving DecidableEq, Repr

/-- `initial_pool_size`. -/
def initialPoolSize : ℕ := 64

/-- **`cache_t`**, and what has become of its buffers. -/
structure ObjectCache where
  /-- The array of free buffers. -/
  ptr : ℕ → ℕ
  freetotal : ℕ
  freecurr : ℕ
  /-- The buffers that `malloc` gave and `free` has not taken back. -/
  live : List ℕ
  /-- Those of objects in use. -/
  used : List ℕ
  /-- Those that `cache_free` refused. -/
  refused : List ℕ
  /-- Those whose red zones are overwritten. -/
  damaged : List ℕ
  /-- The objects that the constructor was called for. -/
  constructed : List ℕ
  /-- What the destructor was called with. -/
  destructed : List ℕ

/-- What happens next. -/
inductive CacheCall
  /-- `cache_alloc`, with the answers of `malloc` and of the constructor. -/
  | alloc (malloc : Option ℕ) (ok : Bool)
  /-- Somebody writes next to an object in use. -/
  | overrun (p : ℕ)
  /-- `cache_free` of the object in `p`, with the answer of `realloc`. -/
  | free (p : ℕ) (realloc : Bool)
  deriving DecidableEq, Repr

namespace ObjectCache

/-- `cache_create`. -/
def create : ObjectCache where
  ptr _ := 0
  freetotal := initialPoolSize
  freecurr := 0
  live := []
  used := []
  refused := []
  damaged := []
  constructed := []
  destructed := []

/-- `get_object`. -/
def getObject (cfg : CacheConfig) (p : ℕ) : ℕ := if cfg.ndebug then p else p + 8

/-- The free buffers. -/
def pool (s : ObjectCache) : List ℕ := (List.range s.freecurr).map s.ptr

/-- A buffer is given out, with its red zones written. -/
def handOut (s : ObjectCache) (p : ℕ) : ObjectCache :=
  { s with used := p :: s.used, damaged := s.damaged.filter (· ≠ p) }

/-- `cache_alloc`. -/
def cacheAlloc (cfg : CacheConfig) (s : ObjectCache) (malloc : Option ℕ) (ok : Bool) : ObjectCache :=
  if s.freecurr > 0 then
    { s with freecurr := s.freecurr - 1 }.handOut (s.ptr (s.freecurr - 1))
  else
    match malloc with
    | none => s
    | some p =>
        if cfg.constructor then
          if ok then
            { s with
              live := p :: s.live
              constructed := getObject cfg p :: s.constructed }.handOut p
          else s
        else { s with live := p :: s.live }.handOut p

/-- Put a buffer on the array. -/
def keep (s : ObjectCache) (p : ℕ) : ObjectCache :=
  { s with ptr := Function.update s.ptr s.freecurr p, freecurr := s.freecurr + 1 }

/-- `cache_free`, which calls the destructor with the address of the buffer. -/
def cacheFree (cfg : CacheConfig) (s : ObjectCache) (p : ℕ) (realloc : Bool) : ObjectCache :=
  let s := { s with used := s.used.erase p }
  if cfg.ndebug = false ∧ p ∈ s.damaged then { s with refused := p :: s.refused }
  else if s.freecurr < s.freetotal then s.keep p
  else if realloc then { s with freetotal := s.freetotal * 2 }.keep p
  else
    { s with
      live := s.live.erase p
      destructed := if cfg.destructor then p :: s.destructed else s.destructed }

/-- The loop of `cache_destroy`. -/
def destroyLoop (cfg : CacheConfig) : ℕ → ObjectCache → ObjectCache
  | 0, s => s
  | fuel + 1, s =>
      if s.freecurr > 0 then
        let p := s.ptr (s.freecurr - 1)
        destroyLoop cfg fuel { s with
          freecurr := s.freecurr - 1
          live := s.live.erase p
          destructed := if cfg.destructor then getObject cfg p :: s.destructed else s.destructed }
      else s

/-- `cache_destroy`. -/
def cacheDestroy (cfg : CacheConfig) (s : ObjectCache) : ObjectCache := destroyLoop cfg s.freecurr s

/-- A call is as its caller promises: `malloc` gives a buffer that is not live, and what is freed or
written next to is in use. -/
def Allowed (s : ObjectCache) : CacheCall → Prop
  | .alloc malloc _ => ∀ p ∈ malloc, p ∉ s.live
  | .overrun p => p ∈ s.used
  | .free p _ => p ∈ s.used

instance (s : ObjectCache) (c : CacheCall) : Decidable (s.Allowed c) :=
  match c with
  | .alloc none _ => isTrue (fun _ h => by cases h)
  | .alloc (some p) _ => decidable_of_iff (p ∉ s.live) (by simp [Allowed])
  | .overrun p => inferInstanceAs (Decidable (p ∈ s.used))
  | .free p _ => inferInstanceAs (Decidable (p ∈ s.used))

/-- **One call.** -/
def exec (cfg : CacheConfig) (s : ObjectCache) : CacheCall → ObjectCache
  | .alloc malloc ok => s.cacheAlloc cfg malloc ok
  | .overrun p => { s with damaged := p :: s.damaged }
  | .free p realloc => s.cacheFree cfg p realloc

/-- A step of the threads that use the cache, each under its mutex. -/
def Step (cfg : CacheConfig) (s : ObjectCache) (c : CacheCall) (s' : ObjectCache) : Prop :=
  s.Allowed c ∧ s' = s.exec cfg c

/-! ## Where the buffers are -/

/-- **Every live buffer is in one place**: free, in use, or refused; and the array has room for those
that are free, of which no red zone is overwritten. -/
structure Inv (cfg : CacheConfig) (s : ObjectCache) : Prop where
  room : s.freecurr ≤ s.freetotal
  total : initialPoolSize ≤ s.freetotal
  live : s.live.Perm (s.pool ++ s.used ++ s.refused)
  nodup : s.live.Nodup
  whole : cfg.ndebug = false → ∀ p ∈ s.pool, p ∉ s.damaged

variable {cfg : CacheConfig} {s s' : ObjectCache} {p : ℕ}

/-- The pool is the rest and the object that is handed out next. -/
theorem pool_succ {k : ℕ} (h : s.freecurr = k + 1) :
    s.pool = ({ s with freecurr := k } : ObjectCache).pool ++ [s.ptr k] := by
  rw [pool, h, List.range_succ, List.map_append]
  rfl

/-- An object that is kept is the last of the pool. -/
theorem pool_keep (s : ObjectCache) (p : ℕ) : (s.keep p).pool = s.pool ++ [p] := by
  rw [keep, pool, List.range_succ, List.map_append]
  refine congrArg₂ (· ++ ·) (List.map_congr_left (fun k hk => ?_)) (by simp)
  exact Function.update_of_ne (Nat.ne_of_lt (List.mem_range.mp hk)) _ _

/-- A new cache is empty. -/
theorem inv_create (cfg : CacheConfig) : create.Inv cfg :=
  ⟨Nat.zero_le _, Nat.le_refl _, .nil, List.nodup_nil, fun _ p hp => by simp [pool, create] at hp⟩

/-- An object of the pool is handed out. -/
theorem Inv.handOut_pool (h : s.Inv cfg) {k : ℕ} (hk : s.freecurr = k + 1) :
    ({ s with freecurr := k }.handOut (s.ptr k)).Inv cfg where
  room := by
    have := h.room
    simp only [handOut]
    omega
  total := h.total
  live := by
    have hlive := h.live
    rw [pool_succ hk] at hlive
    simpa [handOut, pool] using hlive
  nodup := h.nodup
  whole hd p hp hdam := by
    have hpool : p ∈ s.pool := by
      rw [pool_succ hk]
      exact List.mem_append_left _ hp
    exact h.whole hd p hpool (List.mem_of_mem_filter hdam)

/-- A new object is handed out. -/
theorem Inv.handOut_new (h : s.Inv cfg) (hp : p ∉ s.live) (l : List ℕ) :
    ({ s with live := p :: s.live, constructed := l }.handOut p).Inv cfg where
  room := h.room
  total := h.total
  live := by
    refine (h.live.cons p).trans ?_
    simpa [handOut, pool] using (@List.perm_middle _ p s.pool _).symm
  nodup := List.nodup_cons.mpr ⟨hp, h.nodup⟩
  whole hd x hx hdam := h.whole hd x hx (List.mem_of_mem_filter hdam)

/-- **`cache_alloc` keeps the invariant.** -/
theorem Inv.alloc (h : s.Inv cfg) {malloc : Option ℕ} (hf : ∀ p ∈ malloc, p ∉ s.live) (ok : Bool) :
    (s.cacheAlloc cfg malloc ok).Inv cfg := by
  rw [cacheAlloc.eq_def]
  by_cases hfree : s.freecurr > 0
  · rw [if_pos hfree]
    exact h.handOut_pool (by omega)
  · rw [if_neg hfree]
    cases malloc with
    | none => exact h
    | some p =>
        have hp : p ∉ s.live := hf p rfl
        simp only
        split_ifs
        · exact h.handOut_new hp _
        · exact h
        · exact h.handOut_new hp s.constructed

/-- The buffers without one in use. -/
theorem Inv.live_used (h : s.Inv cfg) (hp : p ∈ s.used) :
    s.live.Perm (p :: (s.pool ++ s.used.erase p ++ s.refused)) := by
  refine h.live.trans ?_
  have hused := List.perm_cons_erase hp
  refine ((hused.append_left s.pool).append_right s.refused).trans ?_
  simp

/-- A buffer that was in use goes on the array. -/
theorem Inv.keep (h : s.Inv cfg) (hp : p ∈ s.used) {total : ℕ} (hroom : s.freecurr < total)
    (htotal : initialPoolSize ≤ total) (hw : cfg.ndebug = false → p ∉ s.damaged) :
    ({ s with used := s.used.erase p, freetotal := total }.keep p).Inv cfg where
  room := hroom
  total := htotal
  live := by
    rw [pool_keep]
    refine (h.live_used hp).trans ?_
    simpa [ObjectCache.keep, pool] using (@List.perm_middle _ p s.pool _).symm
  nodup := h.nodup
  whole hd x hx := by
    rw [pool_keep] at hx
    rcases List.mem_append.mp hx with hx | hx
    · exact h.whole hd x hx
    · rw [List.mem_singleton.mp hx]
      exact hw hd

/-- **`cache_free` keeps the invariant.** -/
theorem Inv.free (h : s.Inv cfg) (hp : p ∈ s.used) (realloc : Bool) :
    (s.cacheFree cfg p realloc).Inv cfg := by
  rw [cacheFree]
  simp only
  by_cases hdam : cfg.ndebug = false ∧ p ∈ s.damaged
  · rw [if_pos hdam]
    refine ⟨h.room, h.total, (h.live_used hp).trans ?_, h.nodup, h.whole⟩
    simpa [pool] using (@List.perm_middle _ p (s.pool ++ s.used.erase p) _).symm
  · rw [if_neg hdam]
    have hw : cfg.ndebug = false → p ∉ s.damaged := fun hd hm => hdam ⟨hd, hm⟩
    have htotal := h.total
    by_cases hroom : s.freecurr < s.freetotal
    · rw [if_pos hroom]
      exact h.keep hp hroom htotal hw
    · rw [if_neg hroom]
      cases realloc with
      | true =>
          have hle := h.room
          have hbig : s.freecurr < s.freetotal * 2 := by
            unfold initialPoolSize at htotal
            omega
          exact h.keep hp hbig (Nat.le_trans htotal (Nat.le_mul_of_pos_right _ (by decide))) hw
      | false =>
          refine ⟨h.room, htotal, ?_, h.nodup.erase p, h.whole⟩
          have hlive := (h.live_used hp).erase p
          rwa [List.erase_cons_head] at hlive

/-- A buffer in use is not on the array. -/
theorem Inv.used_not_mem_pool (h : s.Inv cfg) (hp : p ∈ s.used) : p ∉ s.pool := by
  have hnodup := (h.live_used hp).nodup_iff.mp h.nodup
  exact fun hm => (List.nodup_cons.mp hnodup).1 (by simp [hm])

/-- **Every call keeps the buffers in their places.** -/
theorem Inv.step {c : CacheCall} (h : s.Inv cfg) (hst : Step cfg s c s') : s'.Inv cfg := by
  obtain ⟨hal, rfl⟩ := hst
  cases c with
  | alloc malloc ok => exact h.alloc hal ok
  | overrun p =>
      refine ⟨h.room, h.total, h.live, h.nodup, fun hd x hx hdam => ?_⟩
      rcases List.mem_cons.mp hdam with rfl | hdam
      · exact h.used_not_mem_pool hal hx
      · exact h.whole hd x hx hdam
  | free p realloc => exact h.free hal realloc

/-! ## Constructors and destructors -/

/-- **Every object constructed is live or was destructed**, once. -/
def Paired (s : ObjectCache) : Prop := s.constructed.Perm (s.destructed ++ s.live)

/-- The server's cache, when it has both. -/
def paired : CacheConfig := ⟨true, true, true⟩

/-- **One call keeps constructions and destructions paired.** -/
theorem Paired.step {c : CacheCall} (h : s.Paired) (hi : s.Inv paired) (hst : Step paired s c s') :
    s'.Paired ∧ (s.refused = [] → s'.refused = []) := by
  obtain ⟨hal, rfl⟩ := hst
  cases c with
  | alloc malloc ok =>
      rw [exec, cacheAlloc.eq_def]
      by_cases hfree : s.freecurr > 0
      · rw [if_pos hfree]
        exact ⟨h, id⟩
      · rw [if_neg hfree]
        cases malloc with
        | none => exact ⟨h, id⟩
        | some p =>
            simp only [paired, if_true]
            cases ok with
            | false => exact ⟨h, id⟩
            | true =>
                refine ⟨?_, id⟩
                exact (h.cons p).trans (@List.perm_middle _ p s.destructed _).symm
  | overrun p => exact ⟨h, id⟩
  | free p realloc =>
      rw [exec, cacheFree]
      have hdebug : ¬ (paired.ndebug = false ∧ p ∈ s.damaged) := by simp [paired]
      simp only [if_neg hdebug]
      by_cases hroom : s.freecurr < s.freetotal
      · rw [if_pos hroom]
        exact ⟨h, id⟩
      · rw [if_neg hroom]
        cases realloc with
        | true => exact ⟨h, id⟩
        | false =>
            -- the array does not grow, so the object is destructed and freed
            refine ⟨?_, id⟩
            have hlive : p ∈ s.live := (hi.live_used hal).symm.subset List.mem_cons_self
            refine h.trans (((List.perm_cons_erase hlive).append_left s.destructed).trans ?_)
            exact List.perm_middle

/-- What `cache_destroy` leaves. -/
structure Destroyed (s s' : ObjectCache) : Prop where
  paired : s'.Paired
  live : s'.live.Perm (s'.pool ++ s.used ++ s.refused)
  constructed : s'.constructed = s.constructed

/-- **`cache_destroy`** destroys every object of the pool once. -/
theorem destroyLoop_spec (fuel : ℕ) (h : s.Paired)
    (hl : s.live.Perm (s.pool ++ s.used ++ s.refused)) (hf : s.freecurr ≤ fuel) :
    Destroyed s (destroyLoop paired fuel s) ∧ (destroyLoop paired fuel s).freecurr = 0 := by
  induction fuel generalizing s with
  | zero => exact ⟨⟨h, hl, rfl⟩, Nat.le_zero.mp hf⟩
  | succ fuel ih =>
      rw [destroyLoop]
      by_cases hfree : s.freecurr > 0
      · rw [if_pos hfree]
        obtain ⟨k, hk⟩ : ∃ k, s.freecurr = k + 1 := ⟨s.freecurr - 1, by omega⟩
        simp only [hk, Nat.add_sub_cancel]
        have hperm : s.live.Perm (s.ptr k :: (({ s with freecurr := k } : ObjectCache).pool
            ++ s.used ++ s.refused)) := by
          rw [pool_succ hk] at hl
          refine hl.trans ?_
          simp
        have hmem : s.ptr k ∈ s.live := hperm.symm.subset List.mem_cons_self
        have herase : (s.live.erase (s.ptr k)).Perm (({ s with freecurr := k } : ObjectCache).pool
            ++ s.used ++ s.refused) := by
          have := hperm.erase (s.ptr k)
          rwa [List.erase_cons_head] at this
        have hpaired : s.constructed.Perm (s.ptr k :: s.destructed ++ s.live.erase (s.ptr k)) :=
          h.trans (((List.perm_cons_erase hmem).append_left s.destructed).trans List.perm_middle)
        obtain ⟨hd, hzero⟩ := ih (s := { s with
            freecurr := k
            live := s.live.erase (s.ptr k)
            destructed := s.ptr k :: s.destructed }) hpaired herase
          (show k ≤ fuel by omega)
        exact ⟨⟨hd.paired, hd.live, hd.constructed⟩, hzero⟩
      · rw [if_neg hfree]
        exact ⟨⟨h, hl, rfl⟩, by omega⟩

/-! ## Scripts -/

/-- A script whose calls are all allowed is a run. -/
theorem run_script {calls : List CacheCall}
    (h : Transition.checkAll (exec cfg) (fun s c => decide (s.Allowed c)) s calls = true) :
    Run (Step cfg) s calls (Transition.execs (exec cfg) s calls) :=
  Transition.run_execs (fun _ _ hc => ⟨of_decide_eq_true hc, rfl⟩) h

/-- Two objects are constructed, and one of them comes back. -/
def oneFree : List CacheCall := [.alloc (some 1000) true, .alloc (some 2000) true, .free 1000 false]

end ObjectCache

section

variable {cfg : CacheConfig} {s s' : ObjectCache} {ls : List CacheCall}

/-- **No object is handed out twice**: what `cache_alloc` takes from its array is not in use, was not
refused, and in a build with red zones has them intact; the array has room for all that is on it; and
every buffer of `malloc` is free, in use or refused. -/
theorem cacheAlloc_exclusive (hr : Run (ObjectCache.Step cfg) .create ls s) :
    s.live.Perm (s.pool ++ s.used ++ s.refused) ∧ s.live.Nodup ∧ s.freecurr ≤ s.freetotal ∧
      (0 < s.freecurr → s.ptr (s.freecurr - 1) ∉ s.used ∧ s.ptr (s.freecurr - 1) ∉ s.refused ∧
        (cfg.ndebug = false → s.ptr (s.freecurr - 1) ∉ s.damaged)) := by
  have h : s.Inv cfg := hr.invariant (P := ObjectCache.Inv cfg) (ObjectCache.inv_create cfg)
    fun hinv hst => hinv.step hst
  refine ⟨h.live, h.nodup, h.room, fun hfree => ?_⟩
  have hmem : s.ptr (s.freecurr - 1) ∈ s.pool :=
    List.mem_map_of_mem (List.mem_range.mpr (by omega))
  have hnodup := h.live.nodup_iff.mp h.nodup
  rw [List.append_assoc, List.nodup_append] at hnodup
  have hapart := fun b hb => hnodup.2.2 _ hmem b hb
  exact ⟨fun hu => hapart _ (List.mem_append_left _ hu) rfl,
    fun hu => hapart _ (List.mem_append_right _ hu) rfl, fun hd => h.whole hd _ hmem⟩

/-- The object that came back goes out next. -/
theorem cacheAlloc_exclusive_oneFree :
    1000 ∉ (Transition.execs (ObjectCache.exec ObjectCache.paired) .create
      ObjectCache.oneFree).used := by
  have hrun : Run (ObjectCache.Step ObjectCache.paired) .create ObjectCache.oneFree _ :=
    ObjectCache.run_script (by decide +kernel)
  exact ((cacheAlloc_exclusive hrun).2.2.2 (by decide +kernel)).1

/-- **`cache_destroy` gives everything back**: in a server with constructor and destructor, every object
that was constructed has been destructed once, but for those in use. -/
theorem cacheDestroy_paired (hr : Run (ObjectCache.Step ObjectCache.paired) .create ls s) :
    (s.cacheDestroy ObjectCache.paired).live.Perm s.used ∧
      s.constructed.Perm ((s.cacheDestroy ObjectCache.paired).destructed ++ s.used) := by
  have h : s.Inv ObjectCache.paired ∧ s.Paired ∧ s.refused = [] :=
    hr.invariant (P := fun s => s.Inv ObjectCache.paired ∧ s.Paired ∧ s.refused = [])
      ⟨ObjectCache.inv_create _, .nil, rfl⟩ fun hinv hst => by
        obtain ⟨hi, hp, hn⟩ := hinv
        obtain ⟨hp', hn'⟩ := hp.step hi hst
        exact ⟨hi.step hst, hp', hn' hn⟩
  obtain ⟨hi, hp, hn⟩ := h
  obtain ⟨hd, hzero⟩ := ObjectCache.destroyLoop_spec s.freecurr hp hi.live (Nat.le_refl _)
  have hlive : (s.cacheDestroy ObjectCache.paired).live.Perm s.used := by
    have := hd.live
    rw [ObjectCache.pool, hzero, hn] at this
    simpa [ObjectCache.cacheDestroy] using this
  refine ⟨hlive, ?_⟩
  have := hd.paired
  rw [ObjectCache.Paired, hd.constructed] at this
  exact this.trans (hlive.append_left _)

/-- One object is free and one in use. -/
theorem cacheDestroy_paired_oneFree :
    ((Transition.execs (ObjectCache.exec ObjectCache.paired) .create
      ObjectCache.oneFree).cacheDestroy ObjectCache.paired).live.Perm [2000] := by
  have hrun : Run (ObjectCache.Step ObjectCache.paired) .create ObjectCache.oneFree _ :=
    ObjectCache.run_script (by decide +kernel)
  exact (cacheDestroy_paired hrun).1

end

end Memcached
