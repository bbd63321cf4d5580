import Memcached.Items

/-! # Storage commands

The parts of `memcached.c` that change the store: `do_store_item` for every `comm`,
`do_add_delta`, and the flush point that `flush_all` sets.

* **`doStoreItem`** — `set`, `add`, `replace`, `append`, `prepend` and `cas`.
* **`doAddDelta`** — `incr` and `decr`. -/

namespace Memcached

open CNumber (Bytes)

/-- The `comm` argument of `do_store_item`. -/
inductive Comm
  | add
  | set
  | replace
  | append
  | prepend
  | cas
  deriving DecidableEq, Repr

/-- `enum store_item_type`. -/
inductive StoreItemType
  | notStored
  | stored
  | exists
  | notFound
  deriving DecidableEq, Repr

/-- `enum delta_result_type`. -/
inductive DeltaResultType
  | ok
  | nonNumeric
  | eom
  | itemNotFound
  | itemCasMismatch
  deriving DecidableEq, Repr

/-- `memcpy(dst + off, src, n)` with `n` the length of `src`, inside a buffer. -/
def memcpyAt (dst : Bytes) (off : ℕ) (src : Bytes) : Bytes :=
  dst.take off ++ src ++ dst.drop (off + src.length)

/-- `realtime`: a client's expiry time as seconds since the server started, `1` for a past one. -/
def realtime (cfg : Settings) (now : ℕ) (exptime : ℤ) : ℕ :=
  if exptime = 0 then 0
  else if exptime > realtimeMaxdelta then
    -- an absolute time before the start; `1` is past, where `0` would be never
    if exptime ≤ cfg.processStarted then 1
    else ((exptime - cfg.processStarted) % 2 ^ 32).toNat
  else ((exptime + now) % 2 ^ 32).toNat

/-- The number `do_add_delta` computes, in 64-bit arithmetic. -/
def deltaValue (incr : Bool) (value delta : ℕ) : ℕ :=
  if incr then (value + delta) % 2 ^ 64
  else if delta > value then 0
  else value - delta

namespace Store

/-! ## Storing -/

/-- The flags of an item, read back from its suffix. -/
def suffixFlags (s : Store) (it : Ptr) : ℤ := CNumber.toInt32 (CNumber.strtol (s.suffix it))

/-- The value of `new_it` in `do_store_item`: `it` appended or prepended to `old_it`. -/
def joinValues (s : Store) (comm : Comm) (newIt oldIt it : Ptr) : Bytes :=
  if comm = .append then
    memcpyAt (memcpyAt (s.data newIt) 0 (s.data oldIt)) (s.nbytes oldIt - 2) (s.data it)
  else
    memcpyAt (memcpyAt (s.data newIt) 0 (s.data it)) (s.nbytes it - 2) (s.data oldIt)

/-- The branch of `do_store_item` that joins the values of `it` and `old_it` in a new item. -/
def appendItem (cfg : Settings) (env : AllocEnv) (s : Store) (comm : Comm) (oldIt it : Ptr)
    (hv : ℕ) : Store × StoreItemType × Option ℕ :=
  -- `append` with a CAS id, in the binary protocol
  if s.itemGetCas it ≠ 0 ∧ s.itemGetCas it ≠ s.itemGetCas oldIt then
    (s.doItemRemove cfg oldIt, .exists, none)
  else
    match s.doItemAlloc cfg env (s.key it) (s.suffixFlags oldIt) (s.exptime oldIt)
      (s.nbytes it + s.nbytes oldIt - 2) hv with
    | (s, none) => (s.doItemRemove cfg oldIt, .notStored, none)
    | (s, some newIt) =>
        let s := s.setData newIt (s.joinValues comm newIt oldIt it)
        -- the new item is linked with `it`'s key; `it` stays unlinked
        let s := s.doItemReplace cfg oldIt newIt hv
        let s := s.doItemRemove cfg oldIt
        let s := s.doItemRemove cfg newIt
        (s, .stored, some (s.itemGetCas newIt))

/-- `do_store_item`: the result, and the CAS id left in `c->cas` when it sets one. -/
def doStoreItem (cfg : Settings) (env : AllocEnv) (s : Store) (it : Ptr) (comm : Comm)
    (hv : ℕ) : Store × StoreItemType × Option ℕ :=
  match s.doItemGet cfg (s.key it) hv with
  | (s, some oldIt) =>
      match comm with
      -- `add` only touches the item that is there
      | .add => ((s.doItemUpdate oldIt).doItemRemove cfg oldIt, .notStored, none)
      | .cas =>
          if s.itemGetCas it = s.itemGetCas oldIt then
            let s := (s.doItemReplace cfg oldIt it hv).doItemRemove cfg oldIt
            (s, .stored, some (s.itemGetCas it))
          else (s.doItemRemove cfg oldIt, .exists, none)
      | .append | .prepend => s.appendItem cfg env comm oldIt it hv
      | .set | .replace =>
          let s := (s.doItemReplace cfg oldIt it hv).doItemRemove cfg oldIt
          (s, .stored, some (s.itemGetCas it))
  | (s, none) =>
      match comm with
      | .replace | .append | .prepend => (s, .notStored, none)
      -- `cas` fails otherwise than `replace` does
      | .cas => (s, .notFound, none)
      | .add | .set =>
          let s := s.doItemLink cfg it hv
          (s, .stored, some (s.itemGetCas it))

/-! ## Arithmetic -/

/-- The in-place branch of `do_add_delta`: the digits `buf` overwrite the value, blanks fill it up
to the CRLF. -/
def deltaInPlace (cfg : Settings) (s : Store) (it : Ptr) (buf : Bytes) : Store :=
  let s := s.setFreshCas cfg it
  -- `nbytes` stays, so a shorter number is padded
  let blanks := List.replicate (s.nbytes it - buf.length - 2) 32
  let s := s.setData it (memcpyAt (memcpyAt (s.data it) 0 buf) buf.length blanks)
  s.doItemUpdate it

/-- The replacing branch of `do_add_delta`, up to the release of the reference to `it`. -/
def deltaReplace (cfg : Settings) (s : Store) (it newIt : Ptr) (buf : Bytes) (hv : ℕ) : Store :=
  let s := s.setData newIt (memcpyAt (memcpyAt (s.data newIt) 0 buf) buf.length crlf)
  let s := s.doItemReplace cfg it newIt hv
  -- the old item gets the CAS id that is reported
  let s := s.itemSetCas it (if cfg.useCas then s.itemGetCas newIt else 0)
  s.doItemRemove cfg newIt

/-- `do_add_delta`: the result, with the number and the CAS id it reports. `reqCas` is `*cas`, `0`
where `cas` is null or zero; `beyond` is the memory after the item's value, which the number is
parsed from when the value is all white space. -/
def doAddDelta (cfg : Settings) (env : AllocEnv) (beyond : Bytes) (s : Store) (key : Bytes)
    (incr : Bool) (delta reqCas hv : ℕ) : Store × DeltaResultType × Option (ℕ × ℕ) :=
  match s.doItemGet cfg key hv with
  | (s, none) => (s, .itemNotFound, none)
  | (s, some it) =>
      if reqCas ≠ 0 ∧ s.itemGetCas it ≠ reqCas then
        (s.doItemRemove cfg it, .itemCasMismatch, none)
      else
        match CNumber.safeStrtoull (s.data it ++ beyond) with
        | none => (s.doItemRemove cfg it, .nonNumeric, none)
        | some value =>
            let value := deltaValue incr value delta
            let buf := CNumber.decDigits value
            -- the reference of the hash table and the one taken here are the only ones
            if buf.length + 2 ≤ s.nbytes it ∧ s.refcount it = 2 then
              let s := s.deltaInPlace cfg it buf
              (s.doItemRemove cfg it, .ok, some (value, s.itemGetCas it))
            else if s.refcount it > 1 then
              match s.doItemAlloc cfg env (s.key it)
                (CNumber.toInt32 (CNumber.strtol ((s.suffix it).drop 1))) (s.exptime it)
                (buf.length + 2) hv with
              | (s, none) => (s.doItemRemove cfg it, .eom, none)
              | (s, some newIt) =>
                  let s := s.deltaReplace cfg it newIt buf hv
                  (s.doItemRemove cfg it, .ok, some (value, s.itemGetCas it))
            else
              (if s.refcount it = 1 then s.doItemRemove cfg it else s, .itemNotFound, none)

/-! ## flush_all -/

/-- The flush point `flush_all` sets: with a positive delay one second before it runs out, else
one second ago. -/
def flushPoint (cfg : Settings) (s : Store) (exptime : ℤ) : ℕ :=
  if exptime > 0 then (realtime cfg s.currentTime exptime + (2 ^ 32 - 1)) % 2 ^ 32
  else s.currentTime - 1

/-- `flush_all [exptime]`. -/
def flushAll (cfg : Settings) (s : Store) (exptime : ℤ) : Store :=
  ({ s with oldestLive := s.flushPoint cfg exptime }).doItemFlushExpired cfg

end Store

end Memcached
