import Memcached.CrawlRun
import Memcached.Protocol
import Memcached.Lib.Buffer
import Mathlib.Data.UInt

/-! # The dump of a class

`stats cachedump` prints the items of one LRU list into a buffer of 2 MB, the newest first, until the list
ends, as many are shown as were asked for, or the next line does not fit.

* **`doItemCachedump`** — the loop over the list, with its buffer.
* **`cachedump`** — what is to be printed.
* **`cachedump_shows`**, **`cachedump_injective`** — it is what is printed, and it tells what was in
  the list. -/

namespace Memcached

open Buffer (write snprintf)
open CNumber (Bytes decDigits formatInt)
open Transition (Run)

/-- `memlimit`. -/
def memlimit : ℕ := 2 * 1024 * 1024

/-- `sizeof(temp)`. -/
def sizeofTemp : ℕ := 512

/-- `ITEM %s [%d b; %lu s]`, where `%s` ends at a NUL in the key. -/
def cachedumpLine (key : Bytes) (nbytes : ℤ) (exptime : ℕ) : Bytes :=
  ascii "ITEM " ++ (key.takeWhile (· ≠ 0) ++ (ascii " [" ++ (formatInt nbytes ++
    (ascii " b; " ++ (decDigits exptime ++ ascii " s]\r\n")))))

/-- The variables of the loop of `do_item_cachedump`. -/
structure Cachedump where
  buffer : Bytes
  temp : Bytes
  bufcurr : ℕ
  shown : ℕ
  deriving DecidableEq, Repr

namespace Store

/-- `(unsigned long)it->exptime + process_started`. -/
def cachedumpExptime (cfg : Settings) (s : Store) (it : Ptr) : ℕ :=
  ((s.exptime it + cfg.processStarted) % 2 ^ 64).toNat

/-- The line of an item. -/
def cachedumpItem (cfg : Settings) (s : Store) (it : Ptr) : Bytes :=
  cachedumpLine (s.key it) (s.nbytes it - 2) (s.cachedumpExptime cfg it)

/-- One line is printed to `temp`, and copied; `none` where `temp` is read or `buffer` written past its
end. -/
def cachedumpShow (st : Cachedump) (line : Bytes) : Option Cachedump :=
  match snprintf st.temp 0 sizeofTemp line with
  | none => none
  | some temp =>
      if temp.length < line.length then none
      else
        (write st.buffer st.bufcurr (temp.take line.length)).map fun buffer =>
          ⟨buffer, temp, st.bufcurr + line.length, st.shown + 1⟩

/-- The loop of `do_item_cachedump` from `it` on; `none` where it goes wrong, and where it has not ended
after `fuel` items. -/
def cachedumpLoop (cfg : Settings) (s : Store) (limit : ℕ) :
    ℕ → Option Ptr → Cachedump → Option Cachedump
  | 0, _, _ => none
  | _ + 1, none, st => some st
  | fuel + 1, some it, st =>
      if ¬ (limit = 0 ∨ st.shown < limit) then some st
      -- `assert(it->nkey <= KEY_MAX_LENGTH)`
      else if keyMaxLength < (s.key it).length then none
      -- the pseudo-item of a crawler
      else if s.nbytes it = 0 ∧ (s.key it).length = 0 then cachedumpLoop cfg s limit fuel (s.next it) st
      -- 6 is `END\r\n` with its NUL
      else if memlimit < st.bufcurr + (s.cachedumpItem cfg it).length + 6 then some st
      else
        match cachedumpShow st (s.cachedumpItem cfg it) with
        | none => none
        | some st => cachedumpLoop cfg s limit fuel (s.next it) st

/-- **`do_item_cachedump`** with `malloc` succeeding: the buffer and `*bytes`, where `buffer` and `temp`
held `junk` and `stack` before. -/
def doItemCachedump (cfg : Settings) (s : Store) (slabsClsid limit fuel : ℕ) (junk stack : ℕ → UInt8) :
    Option (Bytes × ℕ) :=
  match s.cachedumpLoop cfg limit fuel (s.heads slabsClsid)
      ⟨(List.range memlimit).map junk, (List.range sizeofTemp).map stack, 0, 0⟩ with
  | none => none
  | some st =>
      (write st.buffer st.bufcurr (ascii "END\r\n" ++ [0])).map fun buffer => (buffer, st.bufcurr + 5)

end Store

/-! ## The items that are shown -/

section Fitting

variable {α β : Type*}

/-- Of the items in turn, those whose lines leave 6 bytes of the room. -/
def fitting (line : α → List β) : ℕ → List α → List α
  | _, [] => []
  | room, p :: l =>
      if room < (line p).length + 6 then [] else p :: fitting line (room - (line p).length) l

variable {line : α → List β}

/-- Whether the first line fits decides how it goes on. -/
theorem fitting_cons (room : ℕ) (p : α) (l : List α) :
    fitting line room (p :: l)
      = if room < (line p).length + 6 then [] else p :: fitting line (room - (line p).length) l := rfl

/-- What fits is an initial part of what there is. -/
theorem fitting_isPrefix (room : ℕ) (l : List α) : fitting line room l <+: l := by
  induction l generalizing room with
  | nil => exact List.prefix_rfl
  | cons p l ih =>
      rw [fitting_cons]
      split_ifs
      · exact List.nil_prefix
      · exact List.cons_prefix_cons.mpr ⟨rfl, ih _⟩

/-- **The item after them does not fit.** -/
theorem fitting_maximal {room : ℕ} {l : List α} {p : α} (h : fitting line room l ++ [p] <+: l) :
    room < ((fitting line room l ++ [p]).flatMap line).length + 6 := by
  induction l generalizing room with
  | nil => simp at h
  | cons q l ih =>
      rw [fitting_cons] at h ⊢
      split_ifs at h ⊢ with hfit
      · obtain rfl : p = q := by simpa using h
        simpa using hfit
      · rw [List.cons_append, List.cons_prefix_cons] at h
        have := ih h.2
        rw [List.cons_append, List.flatMap_cons, List.length_append]
        omega

/-- What is asked for of a list when some are shown already: `limit` in all, or all if that is 0. -/
def asked (limit shown : ℕ) (l : List α) : List α := if limit = 0 then l else l.take (limit - shown)

/-- While the limit is not reached the next item is asked for. -/
theorem asked_cons {limit shown : ℕ} (h : limit = 0 ∨ shown < limit) (p : α) (l : List α) :
    asked limit shown (p :: l) = p :: asked limit (shown + 1) l := by
  unfold asked
  split_ifs
  · rfl
  · rw [show limit - shown = (limit - (shown + 1)) + 1 by omega, List.take_succ_cons]

/-- At the limit nothing more is asked for. -/
theorem asked_of_not {limit shown : ℕ} (h : ¬ (limit = 0 ∨ shown < limit)) (l : List α) :
    asked limit shown l = [] := by
  rw [asked, if_neg (by omega), show limit - shown = 0 by omega, List.take_zero]

/-- Of an empty list nothing is asked for. -/
theorem asked_nil (limit shown : ℕ) : asked limit shown ([] : List α) = [] := by
  unfold asked
  split_ifs <;> simp

end Fitting

namespace Store

/-- The items that the dump of class `c` shows. -/
def dumpedItems (cfg : Settings) (s : Store) (c limit : ℕ) : List Ptr :=
  fitting (s.cachedumpItem cfg) memlimit (asked limit 0 (s.lruItems c))

/-- The text of the dump. -/
def dumpedText (cfg : Settings) (s : Store) (c limit : ℕ) : Bytes :=
  (s.dumpedItems cfg c limit).flatMap (s.cachedumpItem cfg) ++ ascii "END\r\n"

/-- What callers promise: keys are checked when they are read, and `nbytes` is an `int`. -/
def Printable (s : Store) (c : ℕ) : Prop :=
  ∀ p ∈ s.lruItems c, (s.key p).length ≤ keyMaxLength ∧ s.nbytes p < 2 ^ 31

end Store

/-! ## The loop -/

section Loop

variable {cfg : Settings} {s : Store} {l : List Ptr} {c limit fuel : ℕ} {out line : Bytes}
  {st : Cachedump}

/-- A line fits `temp`. -/
theorem length_cachedumpLine_lt {key : Bytes} {nbytes : ℤ} {exptime : ℕ}
    (hk : key.length ≤ keyMaxLength) (hn : nbytes.natAbs < 2 ^ 64) (he : exptime < 2 ^ 64) :
    (cachedumpLine key nbytes exptime).length < sizeofTemp := by
  have hkey : (key.takeWhile (· ≠ 0)).length ≤ keyMaxLength :=
    (List.takeWhile_prefix _).length_le.trans hk
  have hbytes : (formatInt nbytes).length ≤ 21 := by
    have := CNumber.length_decDigits_le hn
    rw [formatInt]
    split_ifs
    · rw [List.length_cons]
      omega
    · omega
  have htime := CNumber.length_decDigits_le he
  have h1 : (ascii "ITEM ").length = 5 := by decide
  have h2 : (ascii " [").length = 2 := by decide
  have h3 : (ascii " b; ").length = 4 := by decide
  have h4 : (ascii " s]\r\n").length = 5 := by decide
  simp only [cachedumpLine, List.length_append, h1, h2, h3, h4]
  rw [keyMaxLength] at hkey
  rw [sizeofTemp]
  omega

/-- The expiration time that is printed fits 64 bits. -/
theorem Store.cachedumpExptime_lt (cfg : Settings) (s : Store) (it : Ptr) :
    s.cachedumpExptime cfg it < 2 ^ 64 := by
  rw [Store.cachedumpExptime]
  omega

/-- **The text at the front of the buffer**, with room for the end of the reply. -/
structure Cachedump.Printed (out : Bytes) (st : Cachedump) : Prop where
  buffer : out <+: st.buffer
  length : st.buffer.length = memlimit
  temp : st.temp.length = sizeofTemp
  bufcurr : st.bufcurr = out.length
  room : out.length + 6 ≤ memlimit

/-- **A line that fits is appended.** -/
theorem Cachedump.Printed.show (h : st.Printed out) (hline : line.length < sizeofTemp)
    (hfit : out.length + line.length + 6 ≤ memlimit) :
    ∃ st', Store.cachedumpShow st line = some st' ∧ st'.Printed (out ++ line) ∧
      st'.shown = st.shown + 1 := by
  obtain ⟨temp, htemp, hlen, hpre⟩ := Buffer.snprintf_append (List.nil_prefix (l := st.temp)) hline
    (by rw [h.temp]; simp)
  have hcopy : temp.take line.length = line :=
    Buffer.take_of_prefix ((List.prefix_append line [0]).trans hpre)
  have hroom : out.length + line.length ≤ st.buffer.length := by
    rw [h.length]
    omega
  obtain ⟨buffer, hbuffer, hlen', hpre'⟩ := Buffer.write_append h.buffer hroom
  refine ⟨⟨buffer, temp, st.bufcurr + line.length, st.shown + 1⟩, ?_, ⟨hpre', hlen'.trans h.length,
    hlen.trans h.temp, ?_, ?_⟩, rfl⟩
  · rw [Store.cachedumpShow, show snprintf st.temp 0 sizeofTemp line = some temp from htemp]
    have hin : ¬ temp.length < line.length := by
      rw [hlen, h.temp]
      omega
    simp only
    rw [if_neg hin, hcopy, h.bufcurr, hbuffer]
    rfl
  · rw [h.bufcurr, List.length_append]
  · rwa [List.length_append]

/-- What the loop meets on a list: items that can be printed, and pseudo-items. -/
def Store.Dumpable (s : Store) (it : Ptr) : Prop :=
  if it.isChunk = true then (s.key it).length ≤ keyMaxLength ∧ 2 ≤ s.nbytes it ∧ s.nbytes it < 2 ^ 31
  else s.nbytes it = 0 ∧ s.key it = []

/-- The line of an item fits `temp`. -/
theorem Store.length_cachedumpItem_lt (cfg : Settings) {it : Ptr} (h : s.Dumpable it) (hc : it.isChunk = true) :
    (s.cachedumpItem cfg it).length < sizeofTemp := by
  rw [Store.Dumpable, if_pos hc] at h
  exact length_cachedumpLine_lt h.1 (by omega) (s.cachedumpExptime_lt cfg it)

/-- **The loop prints the items that fit**, and goes on past the pseudo-items. -/
theorem Store.cachedumpLoop_eq (cfg : Settings) (limit : ℕ) (hseg : SinglyLinked.Seg s.next l)
    (hl : ∀ p ∈ l, s.Dumpable p) (hst : st.Printed out) (hfuel : l.length < fuel) :
    ∃ st', s.cachedumpLoop cfg limit fuel l.head? st = some st' ∧
      st'.Printed (out ++ (fitting (s.cachedumpItem cfg) (memlimit - out.length)
        (asked limit st.shown (l.filter Ptr.isChunk))).flatMap (s.cachedumpItem cfg)) := by
  -- by induction on the list; `Printed` is the invariant of the loop
  induction l generalizing fuel out st with
  | nil =>
      obtain ⟨fuel, rfl⟩ := Nat.exists_eq_add_one_of_ne_zero (Nat.ne_zero_of_lt hfuel)
      exact ⟨st, rfl, by simpa [asked_nil, fitting] using hst⟩
  | cons p l ih =>
      obtain ⟨fuel, rfl⟩ := Nat.exists_eq_add_one_of_ne_zero (Nat.ne_zero_of_lt hfuel)
      obtain ⟨hnext, hseg⟩ := hseg
      have hp := hl p List.mem_cons_self
      have hrest : ∀ q ∈ l, s.Dumpable q := fun q hq => hl q (List.mem_cons_of_mem p hq)
      rw [List.length_cons] at hfuel
      rw [List.head?_cons, Store.cachedumpLoop]
      by_cases hgo : limit = 0 ∨ st.shown < limit
      · rw [if_neg (not_not.mpr hgo)]
        cases hc : p.isChunk with
        | false =>
            -- a pseudo-item is passed over
            rw [Store.Dumpable, if_neg (by simp [hc])] at hp
            rw [if_neg (by simp [hp.2]), if_pos ⟨hp.1, by simp [hp.2]⟩, hnext,
              List.filter_cons_of_neg (by simp [hc])]
            exact ih hseg hrest hst (by omega)
        | true =>
            have hline := s.length_cachedumpItem_lt cfg hp hc
            rw [Store.Dumpable, if_pos hc] at hp
            rw [if_neg (Nat.not_lt.mpr hp.1), if_neg (by omega), List.filter_cons_of_pos hc,
              asked_cons hgo, fitting_cons, hst.bufcurr]
            by_cases hfit : memlimit < out.length + (s.cachedumpItem cfg p).length + 6
            · rw [if_pos hfit, if_pos (by omega)]
              exact ⟨st, rfl, by simpa using hst⟩
            · rw [if_neg hfit, if_neg (by have := hst.room; omega)]
              obtain ⟨st₁, hshow, hst₁, hshown⟩ := hst.show hline (Nat.not_lt.mp hfit)
              obtain ⟨st', hloop, hst'⟩ := ih hseg hrest hst₁ (show l.length < fuel by omega)
              refine ⟨st', ?_, ?_⟩
              · rw [hshow, hnext]
                exact hloop
              · rw [hshown, List.length_append, ← Nat.sub_sub] at hst'
                rwa [List.flatMap_cons, ← List.append_assoc]
      · rw [if_pos hgo, asked_of_not hgo]
        exact ⟨st, rfl, by simpa [fitting] using hst⟩

end Loop

/-! ## The reply -/

section Reply

variable {n : ℕ} {cfg : Settings} {w w' : World n} {s s' : Store} {g : Ghost} {L : Layout}
  {c c' limit limit' fuel fuel' : ℕ}

namespace WellFormed

/-- Every item of a list that is printable can be dumped. -/
theorem dumpable (h : WellFormed cfg s g L) (hp : s.Printable c) : ∀ p ∈ s.lruList c, s.Dumpable p := by
  intro p hm
  have hlinked := ((h.mem_lru p c).mp (h.lruList_eq c ▸ hm)).1
  cases p with
  | chunk a =>
      obtain ⟨hkey, hbytes⟩ := hp _ (List.mem_filter.mpr ⟨hm, rfl⟩)
      exact ⟨hkey, h.two_le_nbytes _ (.inl ⟨rfl, hlinked⟩), hbytes⟩
  | crawler i =>
      obtain ⟨-, -, -, hbytes, hkey⟩ := h.crawler i hlinked
      exact ⟨hbytes, hkey⟩

/-- **`do_item_cachedump` stays within its buffers**, and its reply is `dumpedText`. -/
theorem cachedump (h : WellFormed cfg s g L) (limit : ℕ) (hp : s.Printable c)
    (hfuel : (s.lruList c).length < fuel) (junk stack : ℕ → UInt8) :
    ∃ buf, s.doItemCachedump cfg c limit fuel junk stack
        = some (buf, (s.dumpedText cfg c limit).length) ∧
      buf.length = memlimit ∧ s.dumpedText cfg c limit ++ [0] <+: buf := by
  have hseg : SinglyLinked.Seg s.next (s.lruList c) :=
    h.lruList_eq c ▸ .of_doubly (h.family.seg _)
  have hhead : s.heads c = (s.lruList c).head? := h.lruList_eq c ▸ h.heads c
  have hstart : Cachedump.Printed [] ⟨(List.range memlimit).map junk, (List.range sizeofTemp).map stack,
      0, 0⟩ := ⟨List.nil_prefix, by simp, by simp, rfl, by decide⟩
  obtain ⟨st, hloop, hst⟩ := s.cachedumpLoop_eq cfg limit hseg (h.dumpable hp)
    hstart hfuel
  simp only [List.nil_append, List.length_nil, Nat.sub_zero] at hst
  have hroom := hst.room.trans_eq hst.length.symm
  obtain ⟨buf, hbuf, hlen, hpre⟩ := Buffer.write_append hst.buffer
    (show _ + (ascii "END\r\n" ++ [0]).length ≤ _ from hroom)
  refine ⟨buf, ?_, hlen.trans hst.length, ?_⟩
  · rw [Store.doItemCachedump, hhead, hloop]
    simp only
    rw [hst.bufcurr, hbuf]
    rw [Store.dumpedText, List.length_append, show (ascii "END\r\n").length = 5 by decide]
    rfl
  · rwa [← List.append_assoc] at hpre

end WellFormed

/-- What is dumped is the newest part of the list. -/
theorem dumpedItems_isPrefix (cfg : Settings) (s : Store) (c limit : ℕ) :
    s.dumpedItems cfg c limit <+: s.lruItems c := by
  refine (fitting_isPrefix _ _).trans ?_
  unfold asked
  split_ifs
  · exact List.prefix_rfl
  · exact List.take_prefix _ _

/-- **What `stats cachedump` shows**: the first items of the list, the newest first, up to the limit or to
the first that does not fit; each line is printed in full, and nothing leaves the buffers. -/
theorem cachedump_shows {ls : List (Op n × Reply)}
    (hr : Run (World.SafeStep cfg) (World.init n) ls w) (hp : w.store.Printable c)
    (hfuel : (w.store.lruList c).length < fuel) (junk stack : ℕ → UInt8) :
    ∃ shown buf, w.store.doItemCachedump cfg c limit fuel junk stack = some (buf,
        (shown.flatMap (w.store.cachedumpItem cfg) ++ ascii "END\r\n").length) ∧
      shown.flatMap (w.store.cachedumpItem cfg) ++ ascii "END\r\n" ++ [0] <+: buf ∧
      buf.length = memlimit ∧ shown <+: w.store.lruItems c ∧ w.store.Aged shown ∧
      (limit ≠ 0 → shown.length ≤ limit) ∧
      ∀ p, shown ++ [p] <+: w.store.lruItems c → (limit ≠ 0 ∧ shown.length = limit) ∨
        memlimit < ((shown ++ [p]).flatMap (w.store.cachedumpItem cfg)).length + 6 := by
  obtain ⟨L, hwf⟩ := (World.ok_of_run hr).inv
  obtain ⟨buf, hdump, hlen, hpre⟩ := hwf.cachedump limit hp hfuel junk stack
  have hdumped := dumpedItems_isPrefix cfg w.store c limit
  have hle : limit ≠ 0 → (w.store.dumpedItems cfg c limit).length ≤ limit := fun h0 => by
    refine (fitting_isPrefix _ _).length_le.trans ?_
    rw [asked, if_neg h0, List.length_take]
    omega
  have hsorted : w.store.Aged (w.store.lruItems c) := by
    rw [Store.lruItems, hwf.lruList_eq]
    exact (hwf.sorted c).sublist List.filter_sublist
  refine ⟨w.store.dumpedItems cfg c limit, buf, hdump, hpre, hlen, hdumped,
    hsorted.sublist hdumped.sublist, hle, fun p hnext => ?_⟩
  -- what is asked for goes on, so the next line is too long
  by_cases hend : limit ≠ 0 ∧ (w.store.dumpedItems cfg c limit).length = limit
  · exact .inl hend
  · have hasked : w.store.dumpedItems cfg c limit ++ [p] <+: asked limit 0 (w.store.lruItems c) := by
      by_cases h0 : limit = 0
      · rwa [asked, if_pos h0]
      · have := hle h0
        rw [asked, if_neg h0]
        refine List.prefix_take_iff.mpr ⟨hnext, ?_⟩
        rw [List.length_append, List.length_singleton]
        omega
    exact .inr (fitting_maximal hasked)

/-- The list of the two keys, the newer one first. -/
theorem twoKeys_lruItems : World.twoKeys.store.lruItems 1 = [.chunk 768, firstChunk] := by
  decide +kernel

/-- Both items can be printed. -/
theorem twoKeys_printable : World.twoKeys.store.Printable 1 := by
  intro p hp
  rw [twoKeys_lruItems] at hp
  simp only [List.mem_cons, List.not_mem_nil, or_false] at hp
  obtain rfl | rfl := hp <;> decide +kernel

/-- Two items, the second one in front. -/
theorem cachedump_shows_two : ∃ buf,
    World.twoKeys.store.doItemCachedump .small 1 0 3 (fun _ => 0) (fun _ => 0) = some (buf, 43) ∧
      ascii "ITEM m [1 b; 0 s]\r\nITEM k [1 b; 0 s]\r\nEND\r\n" ++ [0] <+: buf := by
  obtain ⟨ls, hrun⟩ := World.run_twoKeys
  obtain ⟨shown, buf, hdump, htext, -, hpre, -, -, hmax⟩ := cachedump_shows hrun twoKeys_printable
    (show _ < 3 by decide +kernel) (fun _ => 0) (fun _ => 0)
  rw [twoKeys_lruItems] at hpre hmax
  -- neither item is too long, so both are shown
  have hall : shown = [.chunk 768, firstChunk] := by
    rcases List.prefix_cons_iff.mp hpre with rfl | ⟨rest, rfl, hrest⟩
    · rcases hmax (.chunk 768) ⟨[firstChunk], rfl⟩ with ⟨h0, -⟩ | hlong
      · exact absurd rfl h0
      · exact absurd hlong (by decide +kernel)
    · rcases List.prefix_cons_iff.mp hrest with rfl | ⟨last, rfl, hend⟩
      · rcases hmax firstChunk List.prefix_rfl with ⟨h0, -⟩ | hlong
        · exact absurd rfl h0
        · exact absurd hlong (by decide +kernel)
      · rw [List.prefix_nil.mp hend]
  have hlines : shown.flatMap (World.twoKeys.store.cachedumpItem .small) ++ ascii "END\r\n" =
      ascii "ITEM m [1 b; 0 s]\r\nITEM k [1 b; 0 s]\r\nEND\r\n" := by
    rw [hall]
    decide +kernel
  rw [hlines] at hdump htext
  exact ⟨buf, hdump, htext⟩

/-! ## Reading a reply -/

/-- Two texts that the same character ends for the first time are equal. -/
theorem append_cons_inj {α : Type*} {a : α} {x y u v : List α} (hx : a ∉ x) (hy : a ∉ y)
    (h : x ++ a :: u = y ++ a :: v) : x = y ∧ u = v := by
  induction x generalizing y with
  | nil => cases y with
    | nil => exact ⟨rfl, (List.cons.inj h).2⟩
    | cons b y =>
        obtain ⟨rfl, -⟩ := List.cons.inj h
        exact absurd List.mem_cons_self hy
  | cons b x ih => cases y with
    | nil =>
        obtain ⟨rfl, -⟩ := List.cons.inj h
        exact absurd List.mem_cons_self hx
    | cons b' y =>
        obtain ⟨rfl, htail⟩ := List.cons.inj h
        obtain ⟨rfl, rfl⟩ := ih (fun hm => hx (List.mem_cons_of_mem _ hm))
          (fun hm => hy (List.mem_cons_of_mem _ hm)) htail
        exact ⟨rfl, rfl⟩

/-- **A line says where it ends, and what it was made of**, if the key is a word. -/
theorem cachedumpLine_inj {k k' u v : Bytes} {m m' e e' : ℕ} (hk : 0 ∉ k ∧ 32 ∉ k)
    (hk' : 0 ∉ k' ∧ 32 ∉ k') (h : cachedumpLine k m e ++ u = cachedumpLine k' m' e' ++ v) :
    k = k' ∧ m = m' ∧ e = e' ∧ u = v := by
  have hword : ∀ {k : Bytes}, 0 ∉ k → k.takeWhile (· ≠ 0) = k := fun h0 =>
    List.takeWhile_eq_self_iff.mpr fun b hb => by
      have : b ≠ 0 := fun e => h0 (e ▸ hb)
      simpa using this
  have hdigits : ∀ m, (32 : UInt8) ∉ decDigits m := fun m hm =>
    absurd (CNumber.isdigit_of_mem_decDigits hm) (by decide)
  have hint : ∀ m : ℕ, formatInt m = decDigits m := fun m => by
    rw [formatInt, if_neg (by omega), Int.natAbs_natCast]
  have hnum : ∀ {m m' : ℕ}, decDigits m = decDigits m' → m = m' := fun {m m'} hd => by
    simpa using congrArg CNumber.digitsValue hd
  have h1 : ascii " [" = [32, 91] := by decide
  have h2 : ascii " b; " = [32, 98, 59, 32] := by decide
  have h3 : ascii " s]\r\n" = [32, 115, 93, 13, 10] := by decide
  simp only [cachedumpLine, hword hk.1, hword hk'.1, hint, List.append_assoc, h1, h2, h3,
    List.cons_append, List.nil_append] at h
  -- the key ends at the first blank, and each number where its digits end
  obtain ⟨hkey, hbytes⟩ := append_cons_inj hk.2 hk'.2 (List.append_cancel_left h)
  obtain ⟨hm, htime⟩ := append_cons_inj (hdigits m) (hdigits m') (List.cons.inj hbytes).2
  simp only [List.cons.injEq, true_and] at htime
  obtain ⟨he, hrest⟩ := append_cons_inj (hdigits e) (hdigits e') htime
  simp only [List.cons.injEq, true_and] at hrest
  exact ⟨hkey, hnum hm, hnum he, hrest⟩

/-- What a line tells about an item. -/
def Store.cachedumpEntry (cfg : Settings) (s : Store) (it : Ptr) : Bytes × ℕ × ℕ :=
  (s.key it, s.nbytes it, s.cachedumpExptime cfg it)

/-- The keys are words, as those of the ASCII protocol are. -/
def Store.Words (s : Store) (l : List Ptr) : Prop := ∀ p ∈ l, 0 ∉ s.key p ∧ 32 ∉ s.key p

/-- The lines of two lists are equal only when the lists say the same. -/
theorem cachedumpItems_inj {l l' : List Ptr} (hw : s.Words l) (hw' : s'.Words l')
    (hb : ∀ p ∈ l, 2 ≤ s.nbytes p) (hb' : ∀ p ∈ l', 2 ≤ s'.nbytes p)
    (h : l.flatMap (s.cachedumpItem cfg) ++ ascii "END\r\n"
      = l'.flatMap (s'.cachedumpItem cfg) ++ ascii "END\r\n") :
    l.map (s.cachedumpEntry cfg) = l'.map (s'.cachedumpEntry cfg) := by
  have hend : ascii "END\r\n" = 69 :: ascii "ND\r\n" := by decide
  have hitem : ∀ (t : Store) (p : Ptr), ∃ rest, t.cachedumpItem cfg p = 73 :: rest := fun t p =>
    ⟨_, rfl⟩
  have hcast : ∀ {m : ℕ}, 2 ≤ m → (m : ℤ) - 2 = ((m - 2 : ℕ) : ℤ) := fun h2 => by omega
  induction l generalizing l' with
  | nil => cases l' with
    | nil => rfl
    | cons p' l' =>
        obtain ⟨rest, hrest⟩ := hitem s' p'
        rw [List.flatMap_cons, hrest, hend] at h
        simp at h
  | cons p l ih => cases l' with
    | nil =>
        obtain ⟨rest, hrest⟩ := hitem s p
        rw [List.flatMap_cons, hrest, hend] at h
        simp at h
    | cons p' l' =>
        have h2 := hb p List.mem_cons_self
        have h2' := hb' p' List.mem_cons_self
        rw [List.flatMap_cons, List.flatMap_cons, List.append_assoc, List.append_assoc,
          Store.cachedumpItem, Store.cachedumpItem, hcast h2, hcast h2'] at h
        obtain ⟨hkey, hbytes, htime, hrest⟩ := cachedumpLine_inj (hw p List.mem_cons_self)
          (hw' p' List.mem_cons_self) h
        have htail := ih (fun q hq => hw q (List.mem_cons_of_mem p hq))
          (fun q hq => hw' q (List.mem_cons_of_mem p' hq)) (fun q hq => hb q (List.mem_cons_of_mem p hq))
          (fun q hq => hb' q (List.mem_cons_of_mem p' hq)) hrest
        rw [List.map_cons, List.map_cons, htail, Store.cachedumpEntry, Store.cachedumpEntry, hkey, htime,
          show s.nbytes p = s'.nbytes p' by omega]

/-- **The reply can be read back**: two dumps that agree show the same keys, lengths and times, if the
keys are words. -/
theorem cachedump_injective {ls ls' : List (Op n × Reply)}
    (hr : Run (World.SafeStep cfg) (World.init n) ls w)
    (hr' : Run (World.SafeStep cfg) (World.init n) ls' w') (hp : w.store.Printable c)
    (hp' : w'.store.Printable c') (hw : w.store.Words (w.store.lruItems c))
    (hw' : w'.store.Words (w'.store.lruItems c')) (hfuel : (w.store.lruList c).length < fuel)
    (hfuel' : (w'.store.lruList c').length < fuel') {junk stack junk' stack' : ℕ → UInt8}
    {buf buf' : Bytes} {bytes : ℕ}
    (h : w.store.doItemCachedump cfg c limit fuel junk stack = some (buf, bytes))
    (h' : w'.store.doItemCachedump cfg c' limit' fuel' junk' stack' = some (buf', bytes))
    (heq : buf.take bytes = buf'.take bytes) :
    (w.store.dumpedItems cfg c limit).map (w.store.cachedumpEntry cfg)
      = (w'.store.dumpedItems cfg c' limit').map (w'.store.cachedumpEntry cfg) := by
  have htext : ∀ {w : World n} {ls : List (Op n × Reply)} {c limit fuel : ℕ} {junk stack : ℕ → UInt8}
      {buf : Bytes} {bytes : ℕ}, Run (World.SafeStep cfg) (World.init n) ls w → w.store.Printable c →
      (w.store.lruList c).length < fuel →
      w.store.doItemCachedump cfg c limit fuel junk stack = some (buf, bytes) →
      buf.take bytes = w.store.dumpedText cfg c limit ∧
        ∀ p ∈ w.store.dumpedItems cfg c limit, p ∈ w.store.lruItems c ∧ 2 ≤ w.store.nbytes p := by
    intro w ls c limit fuel junk stack buf bytes hr hp hfuel hdump
    obtain ⟨L, hwf⟩ := (World.ok_of_run hr).inv
    obtain ⟨buf', hdump', -, hpre⟩ := hwf.cachedump limit hp hfuel junk stack
    obtain ⟨rfl, rfl⟩ := Prod.mk.inj (Option.some.inj (hdump.symm.trans hdump'))
    refine ⟨Buffer.take_of_prefix ((List.prefix_append _ _).trans hpre), fun p hm => ?_⟩
    have hitem := (dumpedItems_isPrefix cfg w.store c limit).subset hm
    obtain ⟨hlist, hchunk⟩ := List.mem_filter.mp hitem
    have hdumpable := hwf.dumpable hp p hlist
    rw [Store.Dumpable, if_pos hchunk] at hdumpable
    exact ⟨hitem, hdumpable.2.1⟩
  obtain ⟨ht, hm⟩ := htext hr hp hfuel h
  obtain ⟨ht', hm'⟩ := htext hr' hp' hfuel' h'
  exact cachedumpItems_inj (fun p hd => hw p (hm p hd).1) (fun p hd => hw' p (hm' p hd).1)
    (fun p hd => (hm p hd).2) (fun p hd => (hm' p hd).2) (ht.symm.trans (heq.trans ht'))

/-- The newest of two items, and the only one of another server. -/
theorem cachedump_injective_newest :
    (World.twoKeys.store.dumpedItems .small 1 1).map (World.twoKeys.store.cachedumpEntry .small)
      = ((World.seeded (0 : Fin 1) [109] [54, 13, 10]).store.dumpedItems .small 1 0).map
        ((World.seeded (0 : Fin 1) [109] [54, 13, 10]).store.cachedumpEntry .small) := by
  obtain ⟨ls, hrun⟩ := World.run_twoKeys
  set w : World 1 := World.seeded 0 [109] [54, 13, 10] with hw
  obtain ⟨ls', hrun'⟩ : ∃ ls, Run (World.SafeStep .small) (World.init 1) ls w :=
    World.run_seeded (by decide) (by decide +kernel)
  obtain ⟨L, hwf⟩ := (World.ok_of_run hrun).inv
  obtain ⟨L', hwf'⟩ := (World.ok_of_run hrun').inv
  have hlist : w.store.lruItems 1 = [firstChunk] := by decide +kernel
  have hprint : w.store.Printable 1 := by
    intro p hp
    rw [hlist] at hp
    obtain rfl := List.mem_singleton.mp hp
    decide +kernel
  have hwords : World.twoKeys.store.Words (World.twoKeys.store.lruItems 1) := by
    intro p hp
    rw [twoKeys_lruItems] at hp
    simp only [List.mem_cons, List.not_mem_nil, or_false] at hp
    obtain rfl | rfl := hp <;> decide +kernel
  have hwords' : w.store.Words (w.store.lruItems 1) := by
    intro p hp
    rw [hlist] at hp
    obtain rfl := List.mem_singleton.mp hp
    decide +kernel
  have hfuel : (World.twoKeys.store.lruList 1).length < 3 := by decide +kernel
  have hfuel' : (w.store.lruList 1).length < 3 := by decide +kernel
  have htext : World.twoKeys.store.dumpedText .small 1 1 = w.store.dumpedText .small 1 0 := by
    decide +kernel
  obtain ⟨buf, h, -, hpre⟩ := hwf.cachedump 1 twoKeys_printable hfuel (fun _ => 0) (fun _ => 0)
  obtain ⟨buf', h', -, hpre'⟩ := hwf'.cachedump 0 hprint hfuel' (fun _ => 0) (fun _ => 0)
  rw [htext] at h hpre
  refine cachedump_injective hrun hrun' twoKeys_printable hprint hwords hwords' hfuel hfuel' h h' ?_
  rw [Buffer.take_of_prefix ((List.prefix_append _ _).trans hpre),
    Buffer.take_of_prefix ((List.prefix_append _ _).trans hpre')]

end Reply

end Memcached
