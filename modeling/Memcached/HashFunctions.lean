import Memcached.Lib.CNumber
import Mathlib.Data.UInt
import Mathlib.Tactic.IntervalCases

/-! # The hash of a key

`jenkins_hash` reads a key in words, half words or bytes, as its address allows, and in its last block
may read bytes after the key and mask them off. A key is hashed in the request, in an item and wherever
else it lies; that the results agree is what the hash table and the item locks rest on. `hash_init`
chooses between `jenkins_hash` and `MurmurHash3_x86_32`.

* **`jenkinsHash`**, **`murmurHash`** — the two functions, over memory.
* **`JenkinsPath.Plain`** — a way to read the words of a key that gives the words of its bytes.
* **`jenkinsHash_eq`**, **`hash_congr`** — the hash depends on the bytes alone. -/

namespace Memcached

open CNumber (Bytes)

/-! ## Reading memory -/

/-- How the server was compiled: `ENDIAN_BIG`, and `VALGRIND`. -/
structure HashBuild where
  bigEndian : Bool
  valgrind : Bool
  deriving DecidableEq, Repr

/-- A byte as a number of 32 bits. -/
def byteAt (mem : ℕ → UInt8) (p : ℕ) : UInt32 := UInt32.ofNat (mem p).toNat

/-- The word made of four bytes. -/
def wordOf (bigEndian : Bool) (b₀ b₁ b₂ b₃ : UInt8) : UInt32 :=
  if bigEndian then
    UInt32.ofNat (b₀.toNat * 2 ^ 24 + b₁.toNat * 2 ^ 16 + b₂.toNat * 2 ^ 8 + b₃.toNat)
  else UInt32.ofNat (b₀.toNat + b₁.toNat * 2 ^ 8 + b₂.toNat * 2 ^ 16 + b₃.toNat * 2 ^ 24)

/-- A read of a `uint32_t`. -/
def load32 (bigEndian : Bool) (mem : ℕ → UInt8) (p : ℕ) : UInt32 :=
  wordOf bigEndian (mem p) (mem (p + 1)) (mem (p + 2)) (mem (p + 3))

/-- A read of a `uint16_t`, on a little-endian machine. -/
def load16 (mem : ℕ → UInt8) (p : ℕ) : UInt32 :=
  UInt32.ofNat ((mem p).toNat + (mem (p + 1)).toNat * 2 ^ 8)

/-- The bytes from `p` on. -/
def bytesFrom (mem : ℕ → UInt8) (p : ℕ) : ℕ → Bytes
  | 0 => []
  | length + 1 => mem p :: bytesFrom mem (p + 1) length

/-! ## `jenkins_hash` -/

/-- The internal state. -/
structure JenkinsState where
  a : UInt32
  b : UInt32
  c : UInt32
  deriving DecidableEq, Repr

/-- `rot`. -/
def rot (x k : UInt32) : UInt32 := (x <<< k) ^^^ (x >>> (32 - k))

namespace JenkinsState

/-- `mix`. -/
def mix (s : JenkinsState) : JenkinsState :=
  let a := s.a - s.c
  let a := a ^^^ rot s.c 4
  let c := s.c + s.b
  let b := s.b - a
  let b := b ^^^ rot a 6
  let a := a + c
  let c := c - b
  let c := c ^^^ rot b 8
  let b := b + a
  let a := a - c
  let a := a ^^^ rot c 16
  let c := c + b
  let b := b - a
  let b := b ^^^ rot a 19
  let a := a + c
  let c := c - b
  let c := c ^^^ rot b 4
  let b := b + a
  ⟨a, b, c⟩

/-- `final`. -/
def final (s : JenkinsState) : JenkinsState :=
  let c := (s.c ^^^ s.b) - rot s.b 14
  let a := (s.a ^^^ c) - rot c 11
  let b := (s.b ^^^ a) - rot a 25
  let c := (c ^^^ b) - rot b 16
  let a := (a ^^^ c) - rot c 4
  let b := (b ^^^ a) - rot a 14
  let c := (c ^^^ b) - rot b 24
  ⟨a, b, c⟩

/-- Add a word to each part. -/
def add (s : JenkinsState) (x y z : UInt32) : JenkinsState := ⟨s.a + x, s.b + y, s.c + z⟩

end JenkinsState

/-- A path through `jenkins_hash`: how it takes in a block of twelve bytes, and how the last one. -/
structure JenkinsPath where
  block : (ℕ → UInt8) → ℕ → JenkinsState → JenkinsState
  last : (ℕ → UInt8) → ℕ → ℕ → JenkinsState → JenkinsState

/-- The loop over all but the last block, the `switch` on what is left, and `final`. -/
def JenkinsPath.run (w : JenkinsPath) (mem : ℕ → UInt8) (k length : ℕ) (s : JenkinsState) : UInt32 :=
  if 12 < length then w.run mem (k + 12) (length - 12) (w.block mem k s).mix
  else if length = 0 then s.c
  else (w.last mem k length s).final.c
termination_by length

/-- A block read in words. -/
def wordBlock (bigEndian : Bool) (mem : ℕ → UInt8) (k : ℕ) (s : JenkinsState) : JenkinsState :=
  s.add (load32 bigEndian mem k) (load32 bigEndian mem (k + 4)) (load32 bigEndian mem (k + 8))

/-- The masks of the last block, by how many bytes of a word belong to the key. -/
def tailMask (bigEndian : Bool) : ℕ → UInt32
  | 1 => if bigEndian then 0xff000000 else 0xff
  | 2 => if bigEndian then 0xffff0000 else 0xffff
  | 3 => if bigEndian then 0xffffff00 else 0xffffff
  | _ => 0xffffffff

/-- The last block read in words, with the bytes after the key masked off. -/
def wordLast (bigEndian : Bool) (mem : ℕ → UInt8) (k length : ℕ) (s : JenkinsState) : JenkinsState :=
  let k₀ := load32 bigEndian mem k
  let k₁ := load32 bigEndian mem (k + 4)
  let k₂ := load32 bigEndian mem (k + 8)
  let mask := tailMask bigEndian
  match length with
  | 12 => ⟨s.a + k₀, s.b + k₁, s.c + k₂⟩
  | 11 => ⟨s.a + k₀, s.b + k₁, s.c + (k₂ &&& mask 3)⟩
  | 10 => ⟨s.a + k₀, s.b + k₁, s.c + (k₂ &&& mask 2)⟩
  | 9 => ⟨s.a + k₀, s.b + k₁, s.c + (k₂ &&& mask 1)⟩
  | 8 => ⟨s.a + k₀, s.b + k₁, s.c⟩
  | 7 => ⟨s.a + k₀, s.b + (k₁ &&& mask 3), s.c⟩
  | 6 => ⟨s.a + k₀, s.b + (k₁ &&& mask 2), s.c⟩
  | 5 => ⟨s.a + k₀, s.b + (k₁ &&& mask 1), s.c⟩
  | 4 => ⟨s.a + k₀, s.b, s.c⟩
  | 3 => ⟨s.a + (k₀ &&& mask 3), s.b, s.c⟩
  | 2 => ⟨s.a + (k₀ &&& mask 2), s.b, s.c⟩
  | 1 => ⟨s.a + (k₀ &&& mask 1), s.b, s.c⟩
  | _ => s

/-- The shifts of the four bytes of a word. -/
def byteShift (bigEndian : Bool) (i : ℕ) : UInt32 :=
  UInt32.ofNat (if bigEndian then 24 - 8 * i else 8 * i)

/-- The last block read in words where they are full, else in bytes. The cases of the `switch` fall
through from the highest byte of a word to its lowest. -/
def valgrindLast (bigEndian : Bool) (mem : ℕ → UInt8) (k length : ℕ) (s : JenkinsState) :
    JenkinsState :=
  let k₀ := load32 bigEndian mem k
  let k₁ := load32 bigEndian mem (k + 4)
  let k₂ := load32 bigEndian mem (k + 8)
  let k8 := fun i => byteAt mem (k + i) <<< byteShift bigEndian (i % 4)
  match length with
  | 12 => ⟨s.a + k₀, s.b + k₁, s.c + k₂⟩
  | 11 => ⟨s.a + k₀, s.b + k₁, s.c + k8 10 + k8 9 + k8 8⟩
  | 10 => ⟨s.a + k₀, s.b + k₁, s.c + k8 9 + k8 8⟩
  | 9 => ⟨s.a + k₀, s.b + k₁, s.c + k8 8⟩
  | 8 => ⟨s.a + k₀, s.b + k₁, s.c⟩
  | 7 => ⟨s.a + k₀, s.b + k8 6 + k8 5 + k8 4, s.c⟩
  | 6 => ⟨s.a + k₀, s.b + k8 5 + k8 4, s.c⟩
  | 5 => ⟨s.a + k₀, s.b + k8 4, s.c⟩
  | 4 => ⟨s.a + k₀, s.b, s.c⟩
  | 3 => ⟨s.a + k8 2 + k8 1 + k8 0, s.b, s.c⟩
  | 2 => ⟨s.a + k8 1 + k8 0, s.b, s.c⟩
  | 1 => ⟨s.a + k8 0, s.b, s.c⟩
  | _ => s

/-- A block read in half words. -/
def halfBlock (mem : ℕ → UInt8) (k : ℕ) (s : JenkinsState) : JenkinsState :=
  let h := fun i => load16 mem (k + 2 * i)
  s.add (h 0 + (h 1 <<< 16)) (h 2 + (h 3 <<< 16)) (h 4 + (h 5 <<< 16))

/-- The last block read in half words, an odd byte by itself. -/
def halfLast (mem : ℕ → UInt8) (k length : ℕ) (s : JenkinsState) : JenkinsState :=
  let h := fun i => load16 mem (k + 2 * i)
  let k8 := fun i => byteAt mem (k + i)
  match length with
  | 12 => ⟨s.a + (h 0 + (h 1 <<< 16)), s.b + (h 2 + (h 3 <<< 16)), s.c + (h 4 + (h 5 <<< 16))⟩
  | 11 => ⟨s.a + (h 0 + (h 1 <<< 16)), s.b + (h 2 + (h 3 <<< 16)), s.c + (k8 10 <<< 16) + h 4⟩
  | 10 => ⟨s.a + (h 0 + (h 1 <<< 16)), s.b + (h 2 + (h 3 <<< 16)), s.c + h 4⟩
  | 9 => ⟨s.a + (h 0 + (h 1 <<< 16)), s.b + (h 2 + (h 3 <<< 16)), s.c + k8 8⟩
  | 8 => ⟨s.a + (h 0 + (h 1 <<< 16)), s.b + (h 2 + (h 3 <<< 16)), s.c⟩
  | 7 => ⟨s.a + (h 0 + (h 1 <<< 16)), s.b + (k8 6 <<< 16) + h 2, s.c⟩
  | 6 => ⟨s.a + (h 0 + (h 1 <<< 16)), s.b + h 2, s.c⟩
  | 5 => ⟨s.a + (h 0 + (h 1 <<< 16)), s.b + k8 4, s.c⟩
  | 4 => ⟨s.a + (h 0 + (h 1 <<< 16)), s.b, s.c⟩
  | 3 => ⟨s.a + (k8 2 <<< 16) + h 0, s.b, s.c⟩
  | 2 => ⟨s.a + h 0, s.b, s.c⟩
  | 1 => ⟨s.a + k8 0, s.b, s.c⟩
  | _ => s

/-- A block read in bytes. -/
def byteBlock (bigEndian : Bool) (mem : ℕ → UInt8) (k : ℕ) (s : JenkinsState) : JenkinsState :=
  let k8 := fun i => byteAt mem (k + i) <<< byteShift bigEndian (i % 4)
  ⟨s.a + k8 0 + k8 1 + k8 2 + k8 3, s.b + k8 4 + k8 5 + k8 6 + k8 7, s.c + k8 8 + k8 9 + k8 10 + k8 11⟩

/-- The last block read in bytes; all the cases of the `switch` fall through. -/
def byteLast (bigEndian : Bool) (mem : ℕ → UInt8) (k length : ℕ) (s : JenkinsState) : JenkinsState :=
  let k8 := fun i => byteAt mem (k + i) <<< byteShift bigEndian (i % 4)
  let upTo := fun (x : UInt32) i => if i < length then x + k8 i else x
  ⟨upTo (upTo (upTo (upTo s.a 3) 2) 1) 0, upTo (upTo (upTo (upTo s.b 7) 6) 5) 4,
    upTo (upTo (upTo (upTo s.c 11) 10) 9) 8⟩

/-- **`jenkins_hash`**, and `jenkins_hash` of a big-endian machine, which knows no half words. -/
def jenkinsHash (cfg : HashBuild) (mem : ℕ → UInt8) (key length : ℕ) : UInt32 :=
  let start := 0xdeadbeef + UInt32.ofNat length + 0
  let s : JenkinsState := ⟨start, start, start⟩
  let last := if cfg.valgrind then valgrindLast else wordLast
  if key % 4 = 0 then
    JenkinsPath.run ⟨wordBlock cfg.bigEndian, last cfg.bigEndian⟩ mem key length s
  else if cfg.bigEndian = false ∧ key % 2 = 0 then
    JenkinsPath.run ⟨halfBlock, halfLast⟩ mem key length s
  else JenkinsPath.run ⟨byteBlock cfg.bigEndian, byteLast cfg.bigEndian⟩ mem key length s

/-! ## The hash as a function of the bytes -/

/-- Word `i` of a block, which is filled up with zeros. -/
def blockWord (bigEndian : Bool) (block : Bytes) (i : ℕ) : UInt32 :=
  wordOf bigEndian (block.getD (4 * i) 0) (block.getD (4 * i + 1) 0) (block.getD (4 * i + 2) 0)
    (block.getD (4 * i + 3) 0)

/-- Take in a block. -/
def JenkinsState.addBlock (bigEndian : Bool) (s : JenkinsState) (block : Bytes) : JenkinsState :=
  s.add (blockWord bigEndian block 0) (blockWord bigEndian block 1) (blockWord bigEndian block 2)

/-- What `jenkins_hash` computes: the key is cut into blocks of twelve bytes, the last one filled up
with zeros; each is added to the state and mixed in. -/
def lookup3 (bigEndian : Bool) (key : Bytes) (s : JenkinsState) : UInt32 :=
  if 12 < key.length then
    lookup3 bigEndian (key.drop 12) (s.addBlock bigEndian (key.take 12)).mix
  else if key = [] then s.c
  else (s.addBlock bigEndian key).final.c
termination_by key.length
decreasing_by
  rw [List.length_drop]
  omega

/-! ## Words and their bytes -/

section

variable {e : Bool} {mem mem' : ℕ → UInt8} {k k' length : ℕ} {s : JenkinsState}

/-- A shift is a multiplication. -/
theorem shiftLeft_ofNat (x : UInt32) {i : ℕ} (hi : i < 32) :
    x <<< UInt32.ofNat i = x * UInt32.ofNat (2 ^ i) := by
  apply UInt32.toNat_inj.mp
  rw [UInt32.toNat_shiftLeft, UInt32.toNat_mul, UInt32.toNat_ofNat', UInt32.toNat_ofNat',
    Nat.mod_eq_of_lt (show i < 2 ^ 32 by omega), Nat.mod_eq_of_lt hi,
    Nat.mod_eq_of_lt (Nat.pow_lt_pow_right (by decide) hi), Nat.shiftLeft_eq]

/-- A word is the sum of its bytes, each in its place. -/
theorem wordOf_eq (e : Bool) (b₀ b₁ b₂ b₃ : UInt8) :
    wordOf e b₀ b₁ b₂ b₃ = UInt32.ofNat b₀.toNat <<< byteShift e 0 + UInt32.ofNat b₁.toNat <<< byteShift e 1
      + UInt32.ofNat b₂.toNat <<< byteShift e 2 + UInt32.ofNat b₃.toNat <<< byteShift e 3 := by
  cases e with
  | false =>
      simp only [wordOf, byteShift, Bool.false_eq_true, if_false]
      rw [shiftLeft_ofNat _ (by decide), shiftLeft_ofNat _ (by decide), shiftLeft_ofNat _ (by decide),
        shiftLeft_ofNat _ (by decide)]
      simp only [UInt32.ofNat_add, UInt32.ofNat_mul]
      simp
  | true =>
      simp only [wordOf, byteShift, if_true]
      rw [shiftLeft_ofNat _ (by decide), shiftLeft_ofNat _ (by decide), shiftLeft_ofNat _ (by decide),
        shiftLeft_ofNat _ (by decide)]
      simp only [UInt32.ofNat_add, UInt32.ofNat_mul]
      simp

/-- Masking the high part of a number. -/
theorem and_high {q m r i : ℕ} (hr : r < 2 ^ i) : (2 ^ i * q + r) &&& (2 ^ i * m) = 2 ^ i * (q &&& m) := by
  refine Nat.eq_of_testBit_eq (fun j => ?_)
  rw [Nat.testBit_and, Nat.testBit_two_pow_mul_add _ hr, Nat.testBit_two_pow_mul,
    Nat.testBit_two_pow_mul, Nat.testBit_and]
  by_cases hj : j < i
  · simp [hj, Nat.not_le.mpr hj]
  · simp [hj, Nat.not_lt.mp hj]

/-- **The masks** leave the bytes of the key. -/
theorem wordOf_and (e : Bool) (b₀ b₁ b₂ b₃ : UInt8) :
    wordOf e b₀ b₁ b₂ b₃ &&& tailMask e 1 = wordOf e b₀ 0 0 0 ∧
      wordOf e b₀ b₁ b₂ b₃ &&& tailMask e 2 = wordOf e b₀ b₁ 0 0 ∧
      wordOf e b₀ b₁ b₂ b₃ &&& tailMask e 3 = wordOf e b₀ b₁ b₂ 0 := by
  have h₀ := b₀.toNat_lt
  have h₁ := b₁.toNat_lt
  have h₂ := b₂.toNat_lt
  have h₃ := b₃.toNat_lt
  cases e with
  | false =>
      have hmask : ∀ N i : ℕ, N &&& (2 ^ i - 1) = N % 2 ^ i := fun N i => Nat.and_two_pow_sub_one_eq_mod N i
      refine ⟨?_, ?_, ?_⟩
      · refine (UInt32.ofNat_and _ (2 ^ 8 - 1)).symm.trans ?_
        rw [hmask]
        exact congrArg UInt32.ofNat (by simp; omega)
      · refine (UInt32.ofNat_and _ (2 ^ 16 - 1)).symm.trans ?_
        rw [hmask]
        exact congrArg UInt32.ofNat (by simp; omega)
      · refine (UInt32.ofNat_and _ (2 ^ 24 - 1)).symm.trans ?_
        rw [hmask]
        exact congrArg UInt32.ofNat (by simp; omega)
  | true =>
      have hmask : ∀ q r i j : ℕ, r < 2 ^ i → q < 2 ^ j →
          (2 ^ i * q + r) &&& (2 ^ i * (2 ^ j - 1)) = 2 ^ i * q := fun q r i j hr hq => by
        rw [and_high hr, Nat.and_two_pow_sub_one_eq_mod, Nat.mod_eq_of_lt hq]
      refine ⟨?_, ?_, ?_⟩
      · refine (UInt32.ofNat_and _ (2 ^ 24 * (2 ^ 8 - 1))).symm.trans (congrArg UInt32.ofNat ?_)
        have := hmask b₀.toNat (b₁.toNat * 2 ^ 16 + b₂.toNat * 2 ^ 8 + b₃.toNat) 24 8 (by omega) h₀
        rw [← Nat.add_assoc, ← Nat.add_assoc, Nat.mul_comm (2 ^ 24) b₀.toNat] at this
        simpa using this
      · refine (UInt32.ofNat_and _ (2 ^ 16 * (2 ^ 16 - 1))).symm.trans (congrArg UInt32.ofNat ?_)
        have := hmask (b₀.toNat * 2 ^ 8 + b₁.toNat) (b₂.toNat * 2 ^ 8 + b₃.toNat) 16 16 (by omega)
          (by omega)
        have hsum : 2 ^ 16 * (b₀.toNat * 2 ^ 8 + b₁.toNat) = b₀.toNat * 2 ^ 24 + b₁.toNat * 2 ^ 16 := by
          omega
        rw [hsum, ← Nat.add_assoc] at this
        simpa using this
      · refine (UInt32.ofNat_and _ (2 ^ 8 * (2 ^ 24 - 1))).symm.trans (congrArg UInt32.ofNat ?_)
        have := hmask (b₀.toNat * 2 ^ 16 + b₁.toNat * 2 ^ 8 + b₂.toNat) b₃.toNat 8 24 (by omega)
          (by omega)
        have hsum : 2 ^ 8 * (b₀.toNat * 2 ^ 16 + b₁.toNat * 2 ^ 8 + b₂.toNat)
            = b₀.toNat * 2 ^ 24 + b₁.toNat * 2 ^ 16 + b₂.toNat * 2 ^ 8 := by
          omega
        rw [hsum] at this
        simpa using this

/-! ## The bytes of a key -/

/-- A piece of memory has its length. -/
theorem length_bytesFrom (mem : ℕ → UInt8) (k length : ℕ) : (bytesFrom mem k length).length = length := by
  induction length generalizing k with
  | zero => rfl
  | succ length ih => simp [bytesFrom, ih]

/-- The bytes of a piece of memory. -/
theorem getElem?_bytesFrom (mem : ℕ → UInt8) (k length i : ℕ) :
    (bytesFrom mem k length)[i]? = if i < length then some (mem (k + i)) else none := by
  induction length generalizing k i with
  | zero => simp [bytesFrom]
  | succ length ih =>
      cases i with
      | zero => simp [bytesFrom]
      | succ i => simp [bytesFrom, ih, Nat.add_assoc, Nat.add_comm 1 i]

/-- A key in two parts. -/
theorem bytesFrom_add (mem : ℕ → UInt8) (k m length : ℕ) :
    bytesFrom mem k (m + length) = bytesFrom mem k m ++ bytesFrom mem (k + m) length := by
  induction m generalizing k with
  | zero => simp [bytesFrom]
  | succ m ih =>
      rw [Nat.succ_add, bytesFrom, bytesFrom, ih, List.cons_append, Nat.add_assoc, Nat.add_comm 1 m]

/-- Two pieces of memory with the same bytes. -/
theorem bytesFrom_congr (h : ∀ i < length, mem (k + i) = mem' (k' + i)) :
    bytesFrom mem k length = bytesFrom mem' k' length := by
  induction length generalizing k k' with
  | zero => rfl
  | succ length ih =>
      rw [bytesFrom, bytesFrom, ih (fun i hi => ?_)]
      · rw [show mem k = mem' k' from h 0 (by omega)]
      · simpa [Nat.add_assoc, Nat.add_comm 1 i] using h (i + 1) (by omega)

/-! ## The paths -/

/-- The path takes in the words of each block, and of the last one filled up with zeros. -/
structure JenkinsPath.Plain (e : Bool) (w : JenkinsPath) : Prop where
  block : ∀ mem k s, w.block mem k s = s.addBlock e (bytesFrom mem k 12)
  last : ∀ mem k length s, 0 < length → length ≤ 12 →
    w.last mem k length s = s.addBlock e (bytesFrom mem k length)

/-- **Such a path computes the hash of the bytes.** -/
theorem JenkinsPath.Plain.run_eq {w : JenkinsPath} (hw : w.Plain e) :
    w.run mem k length s = lookup3 e (bytesFrom mem k length) s := by
  induction length using Nat.strong_induction_on generalizing k s with
  | h length ih =>
      rw [JenkinsPath.run, lookup3, length_bytesFrom]
      by_cases hlong : 12 < length
      · obtain ⟨m, rfl⟩ := Nat.exists_eq_add_of_lt hlong
        have hcut : bytesFrom mem k (12 + m + 1)
            = bytesFrom mem k 12 ++ bytesFrom mem (k + 12) (12 + m + 1 - 12) := by
          rw [← bytesFrom_add]
          congr 1
          omega
        have htwelve := length_bytesFrom mem k 12
        rw [if_pos hlong, if_pos hlong, ih _ (by omega), hw.block, hcut, List.drop_left' htwelve,
          List.take_left' htwelve]
      · rw [if_neg hlong, if_neg hlong]
        by_cases hempty : length = 0
        · simp [hempty, bytesFrom]
        · have hne : bytesFrom mem k length ≠ [] := fun h => hempty (by
            rw [← length_bytesFrom mem k length, h, List.length_nil])
          rw [if_neg hempty, if_neg hne, hw.last mem k length s (by omega) (by omega)]

/-- A word of a block is the word that is loaded. -/
theorem blockWord_bytesFrom (e : Bool) (mem : ℕ → UInt8) (k : ℕ) (i : ℕ) (hi : i < 3) :
    blockWord e (bytesFrom mem k 12) i = load32 e mem (k + 4 * i) := by
  have hbyte : ∀ j < 4, (bytesFrom mem k 12).getD (4 * i + j) 0 = mem (k + 4 * i + j) := fun j hj => by
    rw [List.getD_eq_getElem?_getD, getElem?_bytesFrom, if_pos (by omega), Nat.add_assoc]
    rfl
  rw [blockWord, load32, ← hbyte 1 (by decide), ← hbyte 2 (by decide), ← hbyte 3 (by decide)]
  exact congrArg (wordOf e · _ _ _) (hbyte 0 (by decide))

/-- A block read by words is the block of its bytes. -/
theorem wordBlock_eq (e : Bool) (mem : ℕ → UInt8) (k : ℕ) (s : JenkinsState) :
    wordBlock e mem k s = s.addBlock e (bytesFrom mem k 12) := by
  rw [JenkinsState.addBlock, blockWord_bytesFrom e mem k 0 (by decide),
    blockWord_bytesFrom e mem k 1 (by decide), blockWord_bytesFrom e mem k 2 (by decide)]
  rfl

/-- Four zero bytes are the word zero. -/
@[simp] theorem wordOf_zero (e : Bool) : wordOf e 0 0 0 0 = 0 := by
  cases e <;> rfl

/-- The path over words is plain. -/
theorem plain_words (e : Bool) : JenkinsPath.Plain e ⟨wordBlock e, wordLast e⟩ where
  block := wordBlock_eq e
  last mem k length s h0 h12 := by
    interval_cases length <;>
      simp [wordLast, JenkinsState.addBlock, JenkinsState.add, blockWord, getElem?_bytesFrom, load32,
        wordOf_and, Nat.add_assoc]

/-- The path that reads no byte behind the key is plain. -/
theorem plain_valgrind (e : Bool) : JenkinsPath.Plain e ⟨wordBlock e, valgrindLast e⟩ where
  block := wordBlock_eq e
  last mem k length s h0 h12 := by
    interval_cases length <;>
      simp [valgrindLast, JenkinsState.addBlock, JenkinsState.add, blockWord, getElem?_bytesFrom, load32,
        wordOf_eq, byteAt, Nat.add_assoc] <;> ac_nf

/-- The path over bytes is plain. -/
theorem plain_bytes (e : Bool) : JenkinsPath.Plain e ⟨byteBlock e, byteLast e⟩ where
  block mem k s := by
    simp [byteBlock, JenkinsState.addBlock, JenkinsState.add, blockWord, getElem?_bytesFrom,
      wordOf_eq, byteAt]
    ac_nf
  last mem k length s h0 h12 := by
    interval_cases length <;>
      simp [byteLast, JenkinsState.addBlock, JenkinsState.add, blockWord, getElem?_bytesFrom,
        wordOf_eq, byteAt] <;> ac_nf

/-- A half word is the sum of its bytes. -/
theorem load16_eq (mem : ℕ → UInt8) (p : ℕ) :
    load16 mem p = byteAt mem p + byteAt mem (p + 1) <<< 8 := by
  have hshift := shiftLeft_ofNat (byteAt mem (p + 1)) (i := 8) (by decide)
  rw [show (8 : UInt32) = UInt32.ofNat 8 from rfl, hshift, load16, byteAt, byteAt, ← UInt32.ofNat_mul,
    ← UInt32.ofNat_add]

/-- A half word in the high half. -/
theorem half_shiftLeft (x y : UInt32) : (x + y <<< 8) <<< 16 = x <<< 16 + y <<< 24 := by
  have h8 := fun z : UInt32 => shiftLeft_ofNat z (i := 8) (by decide)
  have h16 := fun z : UInt32 => shiftLeft_ofNat z (i := 16) (by decide)
  have h24 := fun z : UInt32 => shiftLeft_ofNat z (i := 24) (by decide)
  rw [show (8 : UInt32) = UInt32.ofNat 8 from rfl, show (16 : UInt32) = UInt32.ofNat 16 from rfl,
    show (24 : UInt32) = UInt32.ofNat 24 from rfl, h8, h16, h16, h24, UInt32.add_mul, UInt32.mul_assoc,
    ← UInt32.ofNat_mul]
  rfl

/-- A little-endian word as a sum of its bytes. -/
theorem wordOf_little (b₀ b₁ b₂ b₃ : UInt8) :
    wordOf false b₀ b₁ b₂ b₃ = UInt32.ofNat b₀.toNat + UInt32.ofNat b₁.toNat <<< 8
      + UInt32.ofNat b₂.toNat <<< 16 + UInt32.ofNat b₃.toNat <<< 24 := by
  rw [wordOf_eq]
  simp [byteShift]

/-- Two half words, and one with the byte after it. -/
theorem halves_eq (mem : ℕ → UInt8) (p : ℕ) :
    load16 mem p + load16 mem (p + 2) <<< 16 = load32 false mem p ∧
      byteAt mem (p + 2) <<< 16 + load16 mem p = wordOf false (mem p) (mem (p + 1)) (mem (p + 2)) 0 ∧
      load16 mem p = wordOf false (mem p) (mem (p + 1)) 0 0 ∧
      byteAt mem p = wordOf false (mem p) 0 0 0 := by
  refine ⟨?_, ?_, ?_, ?_⟩
  · rw [load16_eq, load16_eq, half_shiftLeft, load32, wordOf_little]
    simp only [byteAt, UInt32.add_assoc]
  · rw [load16_eq, wordOf_little, UInt32.add_comm]
    simp [byteAt]
  · rw [load16_eq, wordOf_little]
    simp [byteAt]
  · rw [wordOf_little]
    simp [byteAt]

/-- The path over half words is plain. -/
theorem plain_halves : JenkinsPath.Plain false ⟨halfBlock, halfLast⟩ where
  block mem k s := by
    rw [← wordBlock_eq, wordBlock, ← (halves_eq mem k).1, ← (halves_eq mem (k + 4)).1,
      ← (halves_eq mem (k + 8)).1]
    rfl
  last mem k length s h0 h12 := by
    obtain ⟨ha₄, ha₃, ha₂, ha₁⟩ := halves_eq mem k
    obtain ⟨hb₄, hb₃, hb₂, hb₁⟩ := halves_eq mem (k + 4)
    obtain ⟨hc₄, hc₃, hc₂, hc₁⟩ := halves_eq mem (k + 8)
    simp only [Nat.add_assoc, Nat.reduceAdd] at hb₄ hb₃ hb₂ hb₁ hc₄ hc₃ hc₂ hc₁
    interval_cases length <;>
      simp only [halfLast, Nat.mul_zero, Nat.add_zero, Nat.reduceMul, UInt32.add_assoc, ha₄, ha₃, hb₄,
        hb₃, hc₄, hc₃] <;>
      simp [ha₂, ha₁, hb₂, hb₁, hc₂, hc₁, JenkinsState.addBlock, JenkinsState.add, blockWord,
        getElem?_bytesFrom, load32, Nat.add_assoc]

/-- The internal state at the start. -/
def JenkinsState.start (length : ℕ) : JenkinsState :=
  ⟨0xdeadbeef + UInt32.ofNat length, 0xdeadbeef + UInt32.ofNat length, 0xdeadbeef + UInt32.ofNat length⟩

/-- **All paths of `jenkins_hash` compute one function of the bytes of the key**, whatever its address
and whatever follows it in memory. -/
theorem jenkinsHash_eq (cfg : HashBuild) (mem : ℕ → UInt8) (key length : ℕ) :
    jenkinsHash cfg mem key length
      = lookup3 cfg.bigEndian (bytesFrom mem key length) (.start length) := by
  have hwords : JenkinsPath.Plain cfg.bigEndian ⟨wordBlock cfg.bigEndian,
      (if cfg.valgrind then valgrindLast else wordLast) cfg.bigEndian⟩ := by
    split
    · exact plain_valgrind cfg.bigEndian
    · exact plain_words cfg.bigEndian
  rw [jenkinsHash, UInt32.add_zero]
  by_cases hword : key % 4 = 0
  · rw [if_pos hword]
    exact hwords.run_eq
  · rw [if_neg hword]
    by_cases hhalf : cfg.bigEndian = false ∧ key % 2 = 0
    · rw [if_pos hhalf, hhalf.1]
      exact plain_halves.run_eq
    · rw [if_neg hhalf]
      exact (plain_bytes cfg.bigEndian).run_eq

/-! ## `MurmurHash3_x86_32` -/

/-- `rotl32`. -/
def rotl32 (x r : UInt32) : UInt32 := (x <<< r) ||| (x >>> (32 - r))

/-- `fmix32`. -/
def fmix32 (h : UInt32) : UInt32 :=
  let h := h ^^^ (h >>> 16)
  let h := h * 0x85ebca6b
  let h := h ^^^ (h >>> 13)
  let h := h * 0xc2b2ae35
  h ^^^ (h >>> 16)

/-- A block before it is mixed in. -/
def murmurScramble (k1 : UInt32) : UInt32 := rotl32 (k1 * 0xcc9e2d51) 15 * 0x1b873593

/-- A block of four bytes. -/
def murmurBlock (h1 k1 : UInt32) : UInt32 := rotl32 (h1 ^^^ murmurScramble k1) 13 * 5 + 0xe6546b64

/-- The `switch` on the bytes after the last block, whose cases fall through. -/
def murmurTail (tail : ℕ → UInt32) (rest : ℕ) (h1 : UInt32) : UInt32 :=
  let k1 : UInt32 := 0
  let k1 := if 3 ≤ rest then k1 ^^^ (tail 2 <<< 16) else k1
  let k1 := if 2 ≤ rest then k1 ^^^ (tail 1 <<< 8) else k1
  if 1 ≤ rest then h1 ^^^ murmurScramble (k1 ^^^ tail 0) else h1

/-- **`MurmurHash3_x86_32`.** -/
def murmurHash (cfg : HashBuild) (mem : ℕ → UInt8) (key length : ℕ) : UInt32 :=
  let nblocks := length / 4
  let h1 := (List.range nblocks).foldl
    (fun h1 i => murmurBlock h1 (load32 cfg.bigEndian mem (key + 4 * i))) 0
  let tail := fun i => byteAt mem (key + 4 * nblocks + i)
  fmix32 (murmurTail tail (length % 4) h1 ^^^ UInt32.ofNat length)

/-- The tail reads no byte behind the key. -/
theorem murmurTail_congr {tail tail' : ℕ → UInt32} {rest : ℕ} {h1 : UInt32}
    (h : ∀ i < rest, tail i = tail' i) : murmurTail tail rest h1 = murmurTail tail' rest h1 := by
  rw [murmurTail, murmurTail]
  by_cases h₃ : 3 ≤ rest
  · rw [h 0 (by omega), h 1 (by omega), h 2 (by omega)]
  · simp only [if_neg h₃]
    by_cases h₂ : 2 ≤ rest
    · rw [h 0 (by omega), h 1 (by omega)]
    · simp only [if_neg h₂]
      by_cases h₁ : 1 ≤ rest
      · rw [h 0 (by omega)]
      · simp only [if_neg h₁]

/-- Only the bytes of the key are read. -/
theorem murmurHash_congr (cfg : HashBuild) (h : ∀ i < length, mem (k + i) = mem' (k' + i)) :
    murmurHash cfg mem k length = murmurHash cfg mem' k' length := by
  have hblock : ∀ i < length / 4,
      load32 cfg.bigEndian mem (k + 4 * i) = load32 cfg.bigEndian mem' (k' + 4 * i) := fun i hi => by
    have hbyte : ∀ j < 4, mem (k + 4 * i + j) = mem' (k' + 4 * i + j) := fun j hj => by
      rw [Nat.add_assoc, Nat.add_assoc]
      exact h (4 * i + j) (by omega)
    rw [load32, load32, hbyte 1 (by decide), hbyte 2 (by decide), hbyte 3 (by decide)]
    exact congrArg (wordOf cfg.bigEndian · _ _ _) (hbyte 0 (by decide))
  have htail : ∀ i < length % 4,
      byteAt mem (k + 4 * (length / 4) + i) = byteAt mem' (k' + 4 * (length / 4) + i) := fun i hi => by
    rw [byteAt, byteAt, Nat.add_assoc, Nat.add_assoc, h (4 * (length / 4) + i) (by omega)]
  have hbody : (List.range (length / 4)).foldl
        (fun h1 i => murmurBlock h1 (load32 cfg.bigEndian mem (k + 4 * i))) 0
      = (List.range (length / 4)).foldl
        (fun h1 i => murmurBlock h1 (load32 cfg.bigEndian mem' (k' + 4 * i))) 0 :=
    List.foldl_ext _ _ _ (fun h1 i hi => by rw [hblock i (List.mem_range.mp hi)])
  simp only [murmurHash, hbody, murmurTail_congr htail]

/-! ## The choice -/

/-- `enum hashfunc_type`. -/
inductive HashFunc
  | jenkins
  | murmur3
  deriving DecidableEq, Repr

/-- `hash`, as `hash_init` sets it. -/
def HashFunc.hash (type : HashFunc) (cfg : HashBuild) (mem : ℕ → UInt8) (key length : ℕ) : UInt32 :=
  match type with
  | .jenkins => jenkinsHash cfg mem key length
  | .murmur3 => murmurHash cfg mem key length

/-- **The hash of a key is the same wherever the key lies**: it does not depend on the address, its
alignment, or the bytes before and after the key. -/
theorem hash_congr (type : HashFunc) (cfg : HashBuild)
    (h : ∀ i < length, mem (k + i) = mem' (k' + i)) :
    type.hash cfg mem k length = type.hash cfg mem' k' length := by
  cases type with
  | jenkins =>
      rw [HashFunc.hash, HashFunc.hash, jenkinsHash_eq, jenkinsHash_eq, bytesFrom_congr h]
  | murmur3 => exact murmurHash_congr cfg h

/-- A key of 14 bytes at an odd address, and in a word. -/
theorem hash_congr_moved :
    HashFunc.jenkins.hash ⟨false, false⟩ (fun p => if p < 15 then UInt8.ofNat (p + 96) else 10) 1 14
      = HashFunc.jenkins.hash ⟨false, false⟩ (fun p => UInt8.ofNat (p + 1)) 96 14 :=
  hash_congr .jenkins ⟨false, false⟩ (by decide)

end

end Memcached
