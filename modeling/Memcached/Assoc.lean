import Memcached.Slabs

/-! # The hash table

`assoc.c`: buckets of items chained through `h_next`, and the incremental move to a table of twice
the size. A walk along a chain is bounded by `hash_items`, the number of items in the table.

* **`assocFind`**, **`assocInsert`**, **`assocDelete`** — the table as the commands use it.
* **`assocExpand`**, **`migrateBucket`** — its growth, one bucket at a time. -/

namespace Memcached

open DoublyLinked (setAt)
open CNumber (Bytes)

/-- `hashmask(n)`. -/
def hashmask (n : ℕ) : ℕ := 2 ^ n - 1

/-- `primary_hashtable[bucket]`, where `bucket` is an `int`. -/
def Bucket.ofInt (bucket : ℤ) : Bucket :=
  if 0 ≤ bucket then .primary bucket.toNat else .outside bucket.natAbs

namespace Store

variable (s : Store)

/-- The bucket for hash value `hv`: during expansion, the old one as long as it has not been
migrated. -/
def bucketOf (hv : ℕ) : Bucket :=
  if s.expanding && decide (hv &&& hashmask (s.hashpower - 1) ≥ s.expandBucket) then
    .old (hv &&& hashmask (s.hashpower - 1))
  else .primary (hv &&& hashmask s.hashpower)

/-- `nkey == it->nkey && memcmp(key, ITEM_key(it), nkey) == 0`. -/
def hasKey (key : Bytes) (it : Ptr) : Bool := s.key it == key

/-- `assoc_find`. -/
def assocFind (key : Bytes) (hv : ℕ) : Option Ptr :=
  SinglyLinked.find s.hNext (s.hasKey key) s.hashItems (s.hashtable (s.bucketOf hv))

/-- `_hashitem_before`, with the item itself: the item in front of the one with this key (`none`
when the bucket points at it), and the one with this key. -/
def hashitemBefore (key : Bytes) (hv : ℕ) : Option Ptr × Option Ptr :=
  SinglyLinked.before s.hNext (s.hasKey key) s.hashItems none (s.hashtable (s.bucketOf hv))

/-- `assoc_insert`: the item becomes the first of its bucket. -/
def assocInsert (it : Ptr) (hv : ℕ) : Store :=
  { s with
    hNext := Function.update s.hNext it (s.hashtable (s.bucketOf hv))
    hashtable := Function.update s.hashtable (s.bucketOf hv) (some it)
    hashItems := s.hashItems + 1
    startedExpanding := s.startedExpanding ||
      (!s.expanding && decide (s.hashItems + 1 > 2 ^ s.hashpower * 3 / 2)) }

/-- Take the item `it`, entered from `pred`, out of the bucket of `hv`. -/
def assocUnlink (hv : ℕ) (pred : Option Ptr) (it : Ptr) : Store :=
  { s with
    -- the pointer in front is a bucket or the `h_next` of `pred`
    hNext := setAt (Function.update s.hNext it none) pred (s.hNext it)
    hashtable :=
      if pred.isNone then Function.update s.hashtable (s.bucketOf hv) (s.hNext it)
      else s.hashtable
    hashItems := s.hashItems - 1 }

/-- `assoc_delete`. -/
def assocDelete (key : Bytes) (hv : ℕ) : Store :=
  match s.hashitemBefore key hv with
  | (pred, some it) => s.assocUnlink hv pred it
  | (_, none) => s

/-- `assoc_expand`: the table becomes the old one and an empty one of twice the size takes its
place, unless `calloc` fails. -/
def assocExpand (callocOk : Bool) : Store :=
  if callocOk then
    { s with
      hashtable := fun b =>
        match b with
        | .primary _ => none
        | .old i => s.hashtable (.primary i)
        | .outside i => s.hashtable (.outside i)
      hashpower := s.hashpower + 1
      expanding := true
      expandBucket := 0 }
  else s

/-- The inner loop of `assoc_maintenance_thread`: relink the chain from `it` on into the new
table. -/
def migrateChain (cfg : Settings) : ℕ → Option Ptr → Store → Store
  | 0, _, s => s
  | _ + 1, none, s => s
  | n + 1, some it, s =>
      -- `hashpower` is that of the new table already; `bucket` is an `int`
      let bucket := Bucket.ofInt
        (CNumber.toInt32 (cfg.hash (s.key it) &&& hashmask s.hashpower : ℕ))
      migrateChain cfg n (s.hNext it)
        { s with
          hNext := Function.update s.hNext it (s.hashtable bucket)
          hashtable := Function.update s.hashtable bucket (some it) }

/-- One round of `assoc_maintenance_thread`: migrate the bucket `expand_bucket`; the last one ends
the expansion. -/
def migrateBucket (cfg : Settings) : Store :=
  if s.expanding then
    let s := migrateChain cfg s.hashItems (s.hashtable (.old s.expandBucket)) s
    { s with
      -- `old_hashtable[expand_bucket] = NULL` after its chain has gone
      hashtable := Function.update s.hashtable (.old s.expandBucket) none
      -- an `unsigned int`
      expandBucket := (s.expandBucket + 1) % 2 ^ 32
      expanding := decide ((s.expandBucket + 1) % 2 ^ 32 ≠ 2 ^ (s.hashpower - 1)) }
  else s

end Store

end Memcached
