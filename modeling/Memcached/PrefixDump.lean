import Memcached.PrefixStats
import Memcached.Protocol
import Memcached.Lib.Buffer
import Mathlib.Data.UInt

/-! # The dump of the prefix statistics

`stats_prefix_dump` computes the size of its buffer from the number and the total length of the
prefixes, and prints the records into it chain by chain.

* **`statsPrefixDump`** — the dump, with what `malloc` has left in the buffer.
* **`dumpText`** — what it is to say, record by record.
* **`statsPrefixDump_complete`** — it says so. -/

namespace Memcached

open CNumber (Bytes decDigits toInt32)
open Buffer (write snprintf)

/-! ## The dump -/

/-- `format`, as `printf` expands it for a record. -/
def dumpLine (pfs : PrefixStats) : Bytes :=
  ascii "PREFIX " ++ pfs.pfx.takeWhile (· ≠ 0) ++ ascii " get " ++ decDigits pfs.numGets ++
    ascii " hit " ++ decDigits pfs.numHits ++ ascii " set " ++ decDigits pfs.numSets ++
    ascii " del " ++ decDigits pfs.numDeletes ++ ascii "\r\n"

/-- `strlen(format)`. -/
def dumpFormatLength : ℕ := (ascii "PREFIX %s get %llu hit %llu set %llu del %llu\r\n").length

/-- The size of the buffer, a `size_t`. -/
def dumpSize (t : PrefixTable) : ℕ :=
  -- each record has the format less `%s`, and 20 digits for each `%llu`
  ((dumpFormatLength + t.totalPrefixSize +
    t.numPrefixes * (dumpFormatLength - 2 + 4 * (20 - 4)) + 6) % 2 ^ 64).toNat

/-- The variables of the loop of `stats_prefix_dump`. -/
structure DumpState where
  buf : Bytes
  pos : ℤ
  totalWritten : ℕ
  deriving DecidableEq, Repr

/-- One record is printed; `none` where the assertion fails, or a write leaves the buffer. -/
def dumpRecord (size : ℕ) (st : DumpState) (pfs : PrefixStats) : Option DumpState :=
  let room := ((size - st.pos) % 2 ^ 64).toNat
  let written := (dumpLine pfs).length
  if st.pos < 0 then none
  else
    match snprintf st.buf st.pos.toNat room (dumpLine pfs) with
    | none => none
    | some buf =>
        -- `assert(total_written < size)`
        let totalWritten := (st.totalWritten + written) % 2 ^ 64
        if totalWritten < size then some ⟨buf, toInt32 (st.pos + written), totalWritten⟩ else none

/-- The records in the order in which they are printed. -/
def dumpOrder (t : PrefixTable) : List ℕ := (List.range prefixHashSize).flatMap t.chains

/-- The record at an address. -/
def PrefixTable.record (t : PrefixTable) (p : ℕ) : PrefixStats := t.records.getD p ⟨[], 0, 0, 0, 0⟩

/-- **`stats_prefix_dump`** with `malloc` succeeding: the buffer, which held `junk` before, and
`*length`. -/
def statsPrefixDump (t : PrefixTable) (junk : ℕ → UInt8) : Option (Bytes × ℤ) :=
  let size := dumpSize t
  match ((dumpOrder t).map t.record).foldlM (dumpRecord size) ⟨(List.range size).map junk, 0, 0⟩ with
  | none => none
  | some st =>
      if st.pos < 0 then none
      else
        -- `memcpy` of `END\r\n` with its NUL, which `*length` leaves out
        (write st.buf st.pos.toNat (ascii "END\r\n" ++ [0])).map fun buf => (buf, toInt32 (st.pos + 5))

/-- What the loop prints, and `END`. -/
def dumpBytes (t : PrefixTable) : Bytes :=
  (dumpOrder t).flatMap (fun p => dumpLine (t.record p)) ++ ascii "END\r\n"

/-! ## What a dump has to say -/

/-- A record as its reader wants it: the prefix, and the four counters in decimal. -/
def recordText (pfs : PrefixStats) : Bytes :=
  ascii "PREFIX " ++ pfs.pfx ++
    ascii (" get " ++ toString pfs.numGets ++ " hit " ++ toString pfs.numHits ++
      " set " ++ toString pfs.numSets ++ " del " ++ toString pfs.numDeletes ++ "\r\n")

/-- The text of a dump that lists the records in some order. -/
def dumpText (t : PrefixTable) (order : List ℕ) : Bytes :=
  order.flatMap (fun p => recordText (t.record p)) ++ ascii "END\r\n"

/-- The bytes of two texts. -/
theorem ascii_append (x y : String) : ascii (x ++ y) = ascii x ++ ascii y := by
  rw [ascii, String.toList_append, List.map_append, ← ascii, ← ascii]

/-- A digit is the byte that `snprintf` prints for it. -/
theorem ascii_digitChar {d : ℕ} (h : d < 10) :
    UInt8.ofNat (Nat.digitChar d).toNat = CNumber.digitChar d := by
  interval_cases d <;> rfl

/-- `%llu` prints what `toString` does, digit by digit from the last one. -/
theorem map_toDigitsCore (fuel n : ℕ) (acc : List Char) :
    (Nat.toDigitsCore 10 fuel n acc).map (fun c => UInt8.ofNat c.toNat) =
      CNumber.decDigitsAux fuel n (acc.map fun c => UInt8.ofNat c.toNat) := by
  induction fuel generalizing n acc with
  | zero => rfl
  | succ fuel ih =>
      have hdigit := ascii_digitChar (Nat.mod_lt n (show 0 < 10 by decide))
      rw [Nat.toDigitsCore, CNumber.decDigitsAux]
      by_cases hn : n < 10
      · rw [if_pos hn, if_pos (Nat.div_eq_of_lt hn), List.map_cons, hdigit, Nat.mod_eq_of_lt hn]
      · rw [if_neg hn, if_neg (by omega), ih, List.map_cons, hdigit]

/-- A number is printed as its digits. -/
theorem ascii_toString (n : ℕ) : ascii (toString n) = decDigits n := by
  have hchars : (toString n).toList = Nat.toDigits 10 n := String.toList_ofList
  rw [ascii, hchars, Nat.toDigits, map_toDigitsCore]
  rfl

/-- The line of a record is its text. -/
theorem dumpLine_eq {pfs : PrefixStats} (h : 0 ∉ pfs.pfx) : dumpLine pfs = recordText pfs := by
  have hpfx : pfs.pfx.takeWhile (· ≠ 0) = pfs.pfx :=
    List.takeWhile_eq_self_iff.mpr fun c hc => by
      simpa using ne_of_mem_of_not_mem hc h
  simp only [dumpLine, recordText, hpfx, ascii_append, ascii_toString, List.append_assoc]

/-! ## The size of the buffer -/

section Dump

variable {hash : Bytes → ℕ} {t : PrefixTable}

/-- The room that is planned for the fixed text of a line. -/
theorem dumpFormatLength_eq : dumpFormatLength = 47 := by decide

/-- A record takes at most what the size allows for it. -/
theorem length_dumpLine_le {pfs : PrefixStats} (h : ∀ k, pfs.counter k < 2 ^ 64) :
    (dumpLine pfs).length ≤ pfs.pfx.length + 109 := by
  have hpfx : (pfs.pfx.takeWhile (· ≠ 0)).length ≤ pfs.pfx.length :=
    (List.takeWhile_prefix _).length_le
  have hgets := CNumber.length_decDigits_le (h .gets)
  have hhits := CNumber.length_decDigits_le (h .hits)
  have hsets := CNumber.length_decDigits_le (h .sets)
  have hdeletes := CNumber.length_decDigits_le (h .deletes)
  simp only [PrefixStats.counter] at hgets hhits hsets hdeletes
  have h1 : (ascii "PREFIX ").length = 7 := by decide
  have h2 : (ascii " get ").length = 5 := by decide
  have h3 : (ascii " hit ").length = 5 := by decide
  have h4 : (ascii " set ").length = 5 := by decide
  have h5 : (ascii " del ").length = 5 := by decide
  have h6 : (ascii "\r\n").length = 2 := by decide
  simp only [dumpLine, List.length_append, h1, h2, h3, h4, h5, h6]
  omega

/-- A line is longer than its prefix. -/
theorem le_length_dumpLine {pfs : PrefixStats} (h : 0 ∉ pfs.pfx) :
    pfs.pfx.length + 1 ≤ (dumpLine pfs).length := by
  have hpfx : pfs.pfx.takeWhile (· ≠ 0) = pfs.pfx :=
    List.takeWhile_eq_self_iff.mpr fun c hc => by
      simp only [ne_eq, decide_not, Bool.not_eq_eq_eq_not, Bool.not_true, decide_eq_false_iff_not]
      rintro rfl
      exact h hc
  have h1 : (ascii "PREFIX ").length = 7 := by decide
  simp only [dumpLine, List.length_append, hpfx, h1]
  omega

namespace PrefixTable.WellFormed

/-- Every record is dumped. -/
theorem mem_dumpOrder (ht : t.WellFormed hash) {p : ℕ} : p ∈ dumpOrder t ↔ p < t.records.length := by
  rw [dumpOrder, List.mem_flatMap]
  constructor
  · rintro ⟨b, -, hp⟩
    obtain ⟨x, hx, -⟩ := ht.mem_chains.mp hp
    simpa using (List.getElem?_eq_some_iff.mp hx).1
  · intro hp
    have hp' : p < t.prefixes.length := by simpa using hp
    refine ⟨prefixChain hash t.prefixes[p], ?_, ht.mem_chains.mpr ⟨_, List.getElem?_eq_getElem hp', rfl⟩⟩
    exact List.mem_range.mpr (Nat.mod_lt _ (by decide))

/-- **Every record is printed once.** -/
theorem dumpOrder_perm (ht : t.WellFormed hash) : (dumpOrder t).Perm (List.range t.records.length) := by
  refine (List.perm_ext_iff_of_nodup ?_ List.nodup_range).mpr fun p => by
    rw [ht.mem_dumpOrder, List.mem_range]
  refine List.nodup_flatMap.mpr ⟨fun b _ => ?_, ?_⟩
  · rw [ht.chains b]
    exact List.nodup_reverse.mpr (List.nodup_range.filter _)
  · -- a record is in the chain of its prefix only
    refine List.nodup_range.imp fun {a b} hab => ?_
    rw [Function.onFun, List.disjoint_left]
    intro p hp hp'
    obtain ⟨x, hx, rfl⟩ := ht.mem_chains.mp hp
    obtain ⟨y, hy, rfl⟩ := ht.mem_chains.mp hp'
    rw [Option.some.inj (hx.symm.trans hy)] at hab
    exact hab rfl

/-- The records of the dump, in another order. -/
theorem map_record_perm (ht : t.WellFormed hash) : ((dumpOrder t).map t.record).Perm t.records := by
  have hall : (List.range t.records.length).map t.record = t.records := by
    refine List.ext_getElem (by simp) fun i h₁ h₂ => ?_
    simp [PrefixTable.record, List.getD_eq_getElem?_getD, List.getElem?_eq_getElem h₂]
  exact hall ▸ ht.dumpOrder_perm.map t.record

end PrefixTable.WellFormed

/-! ## The loop -/

/-- What the loop has printed: the text at the front of the buffer, counted twice. -/
structure DumpState.Printed (size : ℕ) (out : Bytes) (st : DumpState) : Prop where
  buf : out <+: st.buf
  length : st.buf.length = size
  pos : st.pos = out.length
  totalWritten : st.totalWritten = out.length

/-- One record is printed behind the others, where it fits. -/
theorem dumpRecord_printed {size : ℕ} (pfs : PrefixStats) {out : Bytes} {st : DumpState}
    (hst : st.Printed size out) (hfit : out.length + (dumpLine pfs).length < size)
    (hsize : size < 2 ^ 64) (hint : out.length + (dumpLine pfs).length < 2 ^ 31) :
    ∃ st', dumpRecord size st pfs = some st' ∧ st'.Printed size (out ++ dumpLine pfs) := by
  have hroom : (((size : ℤ) - st.pos) % 2 ^ 64).toNat = size - out.length := by
    rw [hst.pos, Int.emod_eq_of_lt (by omega) (by omega)]
    omega
  have hneg : ¬ st.pos < 0 := by
    rw [hst.pos]
    omega
  have hpos : st.pos.toNat = out.length := by
    rw [hst.pos]
    rfl
  obtain ⟨buf', hbuf', hlen', hpre'⟩ := Buffer.snprintf_append hst.buf
    (show (dumpLine pfs).length < size - out.length by omega) (by rw [hst.length]; omega)
  have htotal : (st.totalWritten + (dumpLine pfs).length) % 2 ^ 64 =
      out.length + (dumpLine pfs).length := by
    rw [hst.totalWritten, Nat.mod_eq_of_lt (by omega)]
  refine ⟨⟨buf', toInt32 (st.pos + (dumpLine pfs).length), out.length + (dumpLine pfs).length⟩, ?_, ?_⟩
  · simp only [dumpRecord, hroom, hpos, hbuf', htotal]
    rw [if_neg hneg, if_pos hfit]
  · refine ⟨?_, hlen'.trans hst.length, ?_, ?_⟩
    · rw [← List.append_assoc] at hpre'
      exact (List.prefix_append _ _).trans hpre'
    · rw [hst.pos, List.length_append, CNumber.toInt32_of_bounds (by omega) (by omega)]
      norm_num
    · rw [List.length_append]

/-- The records of a list are printed one behind the other, where they fit. -/
theorem dumpRecords_printed {size : ℕ} (pfss : List PrefixStats) {out : Bytes} {st : DumpState}
    (hst : st.Printed size out) (hfit : out.length + (pfss.flatMap dumpLine).length < size)
    (hsize : size < 2 ^ 64) (hint : out.length + (pfss.flatMap dumpLine).length < 2 ^ 31) :
    ∃ st', pfss.foldlM (dumpRecord size) st = some st' ∧
      st'.Printed size (out ++ pfss.flatMap dumpLine) := by
  -- by induction on the records; `Printed` is the invariant of the loop
  induction pfss generalizing out st with
  | nil => exact ⟨st, rfl, by simpa using hst⟩
  | cons pfs pfss ih =>
      rw [List.flatMap_cons, List.length_append] at hfit hint
      obtain ⟨st₁, hst₁, hprinted⟩ := dumpRecord_printed pfs hst (by omega) hsize (by omega)
      have hlen : (out ++ dumpLine pfs).length = out.length + (dumpLine pfs).length :=
        List.length_append
      obtain ⟨st', hst', hprinted'⟩ := ih hprinted (by omega) (by omega)
      refine ⟨st', ?_, ?_⟩
      · rw [List.foldlM_cons, hst₁]
        exact hst'
      · rwa [List.flatMap_cons, ← List.append_assoc]

/-! ## The dump fits -/

/-- The total length of the prefixes. -/
def PrefixTable.prefixBytes (t : PrefixTable) : ℕ := (t.prefixes.map List.length).sum

/-- The lines of the records, in any order. -/
theorem PrefixTable.WellFormed.length_lines (ht : t.WellFormed hash) :
    t.prefixBytes + t.records.length ≤ (((dumpOrder t).map t.record).flatMap dumpLine).length ∧
      (((dumpOrder t).map t.record).flatMap dumpLine).length ≤
        t.prefixBytes + t.records.length * 109 := by
  have hsum : (((dumpOrder t).map t.record).flatMap dumpLine).length =
      (t.records.map fun r => (dumpLine r).length).sum := by
    rw [List.length_flatMap]
    exact (ht.map_record_perm.map _).sum_eq
  have hbytes : t.prefixBytes = (t.records.map fun r => r.pfx.length).sum := by
    simp [PrefixTable.prefixBytes, PrefixTable.prefixes, Function.comp_def]
  have hconst : ∀ c, t.prefixBytes + t.records.length * c =
      (t.records.map fun r => r.pfx.length + c).sum := by
    intro c
    rw [hbytes, List.sum_map_add]
    simp
  rw [hsum]
  constructor
  · rw [← Nat.mul_one t.records.length, hconst 1]
    exact List.sum_le_sum fun r hr =>
      le_length_dumpLine (ht.noNul r.pfx (List.mem_map_of_mem hr))
  · rw [hconst 109]
    exact List.sum_le_sum fun r hr => length_dumpLine_le (ht.counters r hr)

/-- The dump is the lines of the records and `END`. -/
theorem dumpBytes_eq (t : PrefixTable) :
    dumpBytes t = ((dumpOrder t).map t.record).flatMap dumpLine ++ ascii "END\r\n" := by
  rw [dumpBytes, List.flatMap_map]

/-- The running totals are those of the table as long as the output has fewer than 2 ^ 31 bytes. -/
theorem PrefixTable.WellFormed.dumpSize_eq (ht : t.WellFormed hash)
    (h : (dumpBytes t).length < 2 ^ 31) :
    dumpSize t = t.prefixBytes + t.records.length * 109 + 53 := by
  have hlines := ht.length_lines.1
  rw [dumpBytes_eq, List.length_append] at h
  have hnum : t.numPrefixes = t.records.length := by
    rw [ht.numPrefixes, CNumber.toInt32_of_bounds (by omega) (by omega)]
  have htotal : t.totalPrefixSize = t.prefixBytes := by
    rw [ht.totalPrefixSize]
    exact CNumber.toInt32_of_bounds (by omega) (by rw [← PrefixTable.prefixBytes]; omega)
  rw [dumpSize, hnum, htotal, dumpFormatLength_eq]
  push_cast
  omega

/-- **The dump is printed in full**, and ends in the buffer. -/
theorem PrefixTable.WellFormed.dump (ht : t.WellFormed hash) (junk : ℕ → UInt8)
    (h : (dumpBytes t).length < 2 ^ 31) :
    ∃ buf, statsPrefixDump t junk = some (buf, ((dumpBytes t).length : ℤ)) ∧ buf.length = dumpSize t ∧
      dumpBytes t ++ [0] <+: buf := by
  have hsize := ht.dumpSize_eq h
  obtain ⟨hge, hle⟩ := ht.length_lines
  have hend : (ascii "END\r\n").length = 5 := by decide
  have hint := h
  rw [dumpBytes_eq, List.length_append, hend] at hint
  have hstart : DumpState.Printed (dumpSize t) [] ⟨(List.range (dumpSize t)).map junk, 0, 0⟩ :=
    ⟨by simp, by simp, rfl, rfl⟩
  obtain ⟨st, hst, hprinted⟩ := dumpRecords_printed ((dumpOrder t).map t.record) hstart
    (by simp only [List.length_nil]; omega) (by omega) (by simp only [List.length_nil]; omega)
  rw [List.nil_append] at hprinted
  have hlast : (ascii "END\r\n" ++ [0]).length = 6 := by decide
  obtain ⟨buf, hbuf, hlen, hpre⟩ := Buffer.write_append hprinted.buf
    (show _ + (ascii "END\r\n" ++ [0]).length ≤ _ by rw [hprinted.length, hlast]; omega)
  refine ⟨buf, ?_, hlen.trans hprinted.length, ?_⟩
  · have hpos : st.pos.toNat = (((dumpOrder t).map t.record).flatMap dumpLine).length := by
      rw [hprinted.pos]
      rfl
    have hneg : ¬ st.pos < 0 := by
      rw [hprinted.pos]
      omega
    simp only [statsPrefixDump, hst, hpos, hbuf, Option.map_some]
    rw [if_neg hneg, hprinted.pos, CNumber.toInt32_of_bounds (by omega) (by omega), dumpBytes_eq,
      List.length_append, hend]
    norm_num
  · rwa [dumpBytes_eq, List.append_assoc]

/-- What is printed is the text of the records. -/
theorem PrefixTable.WellFormed.dumpText_eq (ht : t.WellFormed hash) :
    dumpText t (dumpOrder t) = dumpBytes t := by
  have hlines : (dumpOrder t).flatMap (fun p => recordText (t.record p)) =
      (dumpOrder t).flatMap (fun p => dumpLine (t.record p)) := by
    refine List.flatMap_congr fun p hp => ?_
    have hmem : t.record p ∈ t.records :=
      ht.map_record_perm.subset (List.mem_map_of_mem hp)
    exact (dumpLine_eq (ht.noNul _ (List.mem_map_of_mem hmem))).symm
  rw [dumpText, dumpBytes, hlines]

end Dump

/-- **The dump fits its buffer and is complete.** After any calls, the buffer of the computed size
takes the text of every record, once each, and `END` with its NUL. -/
theorem statsPrefixDump_complete (hash : Bytes → ℕ) (delimiter : UInt8) (calls : List PrefixCall)
    (junk : ℕ → UInt8)
    (h : (dumpText (prefixTableAfter hash delimiter calls)
      (dumpOrder (prefixTableAfter hash delimiter calls))).length < 2 ^ 31) :
    (dumpOrder (prefixTableAfter hash delimiter calls)).Perm
        (List.range (prefixTableAfter hash delimiter calls).records.length) ∧
      ∃ buf : Bytes,
        statsPrefixDump (prefixTableAfter hash delimiter calls) junk =
          some (buf, ((dumpText (prefixTableAfter hash delimiter calls)
            (dumpOrder (prefixTableAfter hash delimiter calls))).length : ℤ)) ∧
        buf.length = dumpSize (prefixTableAfter hash delimiter calls) ∧
        dumpText (prefixTableAfter hash delimiter calls)
          (dumpOrder (prefixTableAfter hash delimiter calls)) ++ [0] <+: buf ∧
        (dumpText (prefixTableAfter hash delimiter calls)
            (dumpOrder (prefixTableAfter hash delimiter calls))).length + 1 ≤
          dumpSize (prefixTableAfter hash delimiter calls) := by
  have ht := wellFormed_prefixTableAfter hash delimiter calls
  rw [ht.dumpText_eq] at h ⊢
  obtain ⟨buf, hdump, hlen, hpre⟩ := ht.dump junk h
  refine ⟨ht.dumpOrder_perm, buf, hdump, hlen, hpre, ?_⟩
  have hle := hpre.length_le
  rwa [List.length_append, List.length_singleton, hlen] at hle

/-- The dump of two prefixes of one chain, one of them with a hit. -/
theorem statsPrefixDump_complete_two :
    ∃ buf, statsPrefixDump (prefixTableAfter (fun _ => 7) 58
        [⟨[97, 58], .get true, true⟩, ⟨[98, 58], .set, true⟩]) (fun _ => 170) = some (buf, 73) ∧
      ascii ("PREFIX b get 0 hit 0 set 1 del 0\r\nPREFIX a get 1 hit 1 set 0 del 0\r\nEND\r\n") ++ [0]
        <+: buf := by
  set t : PrefixTable := prefixTableAfter (fun _ => 7) 58
    [⟨[97, 58], .get true, true⟩, ⟨[98, 58], .set, true⟩] with ht
  have htext : dumpText t (dumpOrder t) =
      ascii "PREFIX b get 0 hit 0 set 1 del 0\r\nPREFIX a get 1 hit 1 set 0 del 0\r\nEND\r\n" := by
    rw [ht]
    decide +kernel
  have hlen : (dumpText t (dumpOrder t)).length = 73 := by
    rw [htext]
    decide
  obtain ⟨-, buf, hdump, -, hpre, -⟩ := statsPrefixDump_complete (fun _ => 7) 58
    [⟨[97, 58], .get true, true⟩, ⟨[98, 58], .set, true⟩] (fun _ => 170)
    (by rw [← ht, hlen]; norm_num)
  rw [← ht, hlen] at hdump
  rw [← ht, htext] at hpre
  exact ⟨buf, hdump, hpre⟩

end Memcached
