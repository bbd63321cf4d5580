import Memcached.Crawler
import Memcached.Numbers

/-! # The crawl command

`lru_crawler_crawl` marks the classes of its argument in a local array of one byte a class, which it
fills at those positions only, and kicks off the crawler on the lists that are marked. It takes ids up
to `POWER_LARGEST`, of which there are one more than the array has bytes.

* **`lruCrawlerCrawl`** — the command, with what the array held before.
* **`selectsListed_iff`** — when the crawlers that start are those of the classes named. -/

namespace Memcached

open CNumber (Bytes Decimal safeStrtoul)

/-! ## The command -/

/-- `POWER_LARGEST`, the length of `tocrawl`. -/
def tocrawlLength : ℕ := 200

/-- The local array `tocrawl`, and whether a byte outside it was written. -/
structure Tocrawl where
  cells : ℕ → UInt8
  outside : Bool := false

/-- `tocrawl[sid] = 1`. -/
def Tocrawl.mark (t : Tocrawl) (sid : ℕ) : Tocrawl where
  cells := Function.update t.cells sid 1
  outside := t.outside || decide (tocrawlLength ≤ sid)

/-- `enum crawler_result_type`. -/
inductive CrawlerResult
  | ok
  | running
  | badClass
  deriving DecidableEq, Repr

/-- The ids that `strtok_r` finds between the commas. -/
def crawlTokens (slabs : Bytes) : List Bytes := (slabs.splitOn 44).filter (· ≠ [])

/-- The check of an id, from `POWER_SMALLEST` to `POWER_LARGEST`. -/
def crawlId (p : Bytes) : Option ℕ :=
  match safeStrtoul p with
  | none => none
  | some sid => if sid < 1 ∨ tocrawlLength < sid then none else some sid

/-- The loop over the ids; false when one is refused. -/
def markClasses : List Bytes → Tocrawl → Bool × Tocrawl
  | [], t => (true, t)
  | p :: ps, t =>
      match crawlId p with
      | none => (false, t)
      | some sid => markClasses ps (t.mark sid)

/-- The loop over the classes. -/
def Store.kickCrawlers (s : Store) (tocrawl : ℕ → UInt8) (limit : ℕ) : List ℕ → Store
  | [] => s
  | sid :: sids =>
      if tocrawl sid ≠ 0 then (s.crawlStart sid limit).kickCrawlers tocrawl limit sids
      else s.kickCrawlers tocrawl limit sids

/-- What `lru_crawler_crawl` returns and leaves. -/
structure CrawlOutcome where
  result : CrawlerResult
  store : Store
  /-- A byte outside `tocrawl` was written. -/
  outside : Bool

/-- `lru_crawler_crawl`: `stack` is what the memory of `tocrawl` holds before, `limit` is
`settings.lru_crawler_tocrawl`, and `busy` is the outcome of `pthread_mutex_trylock`. -/
def Store.lruCrawlerCrawl (s : Store) (stack : ℕ → UInt8) (limit : ℕ) (busy : Bool)
    (slabs : Bytes) : CrawlOutcome :=
  if busy then ⟨.running, s, false⟩
  else if slabs = ascii "all" then
    ⟨.ok, s.kickCrawlers (fun _ => 1) limit (List.range largestId), false⟩
  else
    match markClasses (crawlTokens slabs) ⟨stack, false⟩ with
    | (false, t) => ⟨.badClass, s, t.outside⟩
    | (true, t) => ⟨.ok, s.kickCrawlers t.cells limit (List.range largestId), t.outside⟩

/-! ## Kicking off the crawler -/

/-- The store `s'` is `s` with a pseudo-item at the tail of every list of `sel` that is not empty, and
nowhere else. -/
structure Kicked (sel : Finset ℕ) (s s' : Store) : Prop where
  count : s'.crawlerCount = s.crawlerCount + (sel.filter fun sid => s.tails sid ≠ none).card
  linked : ∀ sid ∈ sel, s.tails sid ≠ none → s'.itFlags (.crawler sid) = { linked := true } ∧
    s'.tails sid = some (.crawler sid) ∧ s'.prev (.crawler sid) = s.tails sid
  others : ∀ sid, ¬ (sid ∈ sel ∧ s.tails sid ≠ none) →
    s'.itFlags (.crawler sid) = s.itFlags (.crawler sid) ∧ s'.tails sid = s.tails sid ∧
      s'.heads sid = s.heads sid ∧ s'.prev (.crawler sid) = s.prev (.crawler sid)
  chunks : ∀ q, q.isChunk = true → s'.itFlags q = s.itFlags q ∧ s'.prev q = s.prev q ∧
    ((∀ sid ∈ sel, s.tails sid ≠ some q) → s'.next q = s.next q)

/-- Nothing is started when no class is named. -/
theorem Kicked.refl (s : Store) : Kicked ∅ s s :=
  ⟨by simp, by simp, fun _ _ => ⟨rfl, rfl, rfl, rfl⟩, fun _ _ => ⟨rfl, rfl, fun _ => rfl⟩⟩

/-- What starting the crawler on a list that is not empty changes. -/
theorem crawlStart_fields {s : Store} {sid : ℕ} (h : s.tails sid ≠ none) (limit : ℕ) :
    let s' := s.crawlStart sid limit
    s'.crawlerCount = s.crawlerCount + 1 ∧
      s'.itFlags = Function.update s.itFlags (.crawler sid) { linked := true } ∧
      s'.tails = Function.update s.tails sid (some (.crawler sid)) ∧
      s'.prev = Function.update s.prev (.crawler sid) (s.tails sid) ∧
      (∀ i, i ≠ sid → s'.heads i = s.heads i) ∧
      ∀ q, q ≠ .crawler sid → s.tails sid ≠ some q → s'.next q = s.next q := by
  simp only [Store.crawlStart, if_neg h, Store.crawlerLinkQ, Function.update_self,
    Function.update_idem]
  refine ⟨trivial, trivial, trivial, trivial, fun i hi => Function.update_of_ne hi .., ?_⟩
  intro q hq ht
  obtain ⟨t, ht'⟩ := Option.ne_none_iff_exists'.mp h
  rw [ht'] at ht ⊢
  rw [DoublyLinked.setAt, Function.update_of_ne fun e => ht (congrArg some e.symm),
    Function.update_of_ne hq]

/-- One more class. -/
theorem Kicked.crawlStart {sel : Finset ℕ} {s s' : Store} (h : Kicked sel s s') {sid : ℕ}
    (hsid : sid ∉ sel) (limit : ℕ) : Kicked (insert sid sel) s (s'.crawlStart sid limit) := by
  have hrest := h.others sid fun hm => hsid hm.1
  have hne : ∀ {i}, i ∈ sel → i ≠ sid := fun hi he => hsid (he ▸ hi)
  by_cases hempty : s.tails sid = none
  · have hsame : s'.crawlStart sid limit = s' := by
      rw [Store.crawlStart, if_pos (hrest.2.1.trans hempty)]
    rw [hsame]
    refine ⟨?_, fun i hi hn => ?_, fun i hi => h.others i fun hm =>
      hi ⟨Finset.mem_insert_of_mem hm.1, hm.2⟩, fun q hq => ⟨(h.chunks q hq).1, (h.chunks q hq).2.1,
        fun hall => (h.chunks q hq).2.2 fun i hi => hall i (Finset.mem_insert_of_mem hi)⟩⟩
    · rw [Finset.filter_insert, if_neg (not_not.mpr hempty), h.count]
    · obtain rfl | hi := Finset.mem_insert.mp hi
      · exact absurd hempty hn
      · exact h.linked i hi hn
  · obtain ⟨hcount, hflags, htails, hprev, hheads, hnext⟩ :=
      crawlStart_fields (s := s') (hrest.2.1 ▸ hempty) limit
    refine ⟨?_, fun i hi hn => ?_, fun i hi => ?_, fun q hq => ?_⟩
    · rw [hcount, h.count, Finset.filter_insert, if_pos hempty,
        Finset.card_insert_of_notMem fun hm => hsid (Finset.mem_filter.mp hm).1, Nat.add_assoc]
    · rw [hflags, htails, hprev]
      by_cases he : i = sid
      · subst he
        exact ⟨Function.update_self .., Function.update_self .., by
          rw [Function.update_self, hrest.2.1]⟩
      · have hc : Ptr.crawler i ≠ .crawler sid := fun e => he (Ptr.crawler.inj e)
        rw [Function.update_of_ne hc, Function.update_of_ne he, Function.update_of_ne hc]
        exact h.linked i (Finset.mem_of_mem_insert_of_ne hi he) hn
    · have he : i ≠ sid := by
        rintro rfl
        exact hi ⟨Finset.mem_insert_self .., hempty⟩
      have hc : Ptr.crawler i ≠ .crawler sid := fun e => he (Ptr.crawler.inj e)
      rw [hflags, htails, hprev, hheads i he, Function.update_of_ne hc, Function.update_of_ne he,
        Function.update_of_ne hc]
      exact h.others i fun hm => hi ⟨Finset.mem_insert_of_mem hm.1, hm.2⟩
    · have hc : q ≠ .crawler sid := by
        rintro rfl
        exact absurd hq (by simp [Ptr.isChunk])
      rw [hflags, hprev, Function.update_of_ne hc, Function.update_of_ne hc]
      refine ⟨(h.chunks q hq).1, (h.chunks q hq).2.1, fun hall => ?_⟩
      rw [hnext q hc (by rw [hrest.2.1]; exact hall sid (Finset.mem_insert_self ..))]
      exact (h.chunks q hq).2.2 fun i hi => hall i (Finset.mem_insert_of_mem hi)

/-- **The loop over the classes** kicks off the crawler where the array is not zero. -/
theorem Kicked.kickCrawlers {sel : Finset ℕ} {s s' : Store} (h : Kicked sel s s')
    (tocrawl : ℕ → UInt8) (limit : ℕ) {sids : List ℕ} (hnd : sids.Nodup)
    (hdisj : ∀ sid ∈ sids, sid ∉ sel) :
    Kicked (sel ∪ (sids.filter fun sid => tocrawl sid ≠ 0).toFinset) s
      (s'.kickCrawlers tocrawl limit sids) := by
  -- by induction on the classes to come; those done are in `sel`
  induction sids generalizing sel s' with
  | nil => simpa [Store.kickCrawlers] using h
  | cons sid sids ih =>
      obtain ⟨hnot, hnd⟩ := List.nodup_cons.mp hnd
      have hrest : ∀ i ∈ sids, i ∉ sel := fun i hi => hdisj i (List.mem_cons_of_mem _ hi)
      by_cases hsid : tocrawl sid ≠ 0
      · have hstep := ih (h.crawlStart (hdisj sid (List.mem_cons_self ..)) limit) hnd fun i hi hm =>
          (Finset.mem_insert.mp hm).elim (fun e => hnot (e ▸ hi)) (hrest i hi)
        rw [Store.kickCrawlers, if_pos hsid, List.filter_cons_of_pos (by simpa using hsid),
          List.toFinset_cons, Finset.union_insert, ← Finset.insert_union]
        exact hstep
      · rw [Store.kickCrawlers, if_neg hsid, List.filter_cons_of_neg (by simpa using hsid)]
        exact ih h hnd hrest

/-- What the loop over the classes does to the store of the command. -/
theorem kicked_kickCrawlers (s : Store) (tocrawl : ℕ → UInt8) (limit : ℕ) :
    Kicked ((Finset.range largestId).filter fun sid => tocrawl sid ≠ 0) s
      (s.kickCrawlers tocrawl limit (List.range largestId)) := by
  have h := (Kicked.refl s).kickCrawlers tocrawl limit (List.nodup_range (n := largestId))
    (by simp)
  rw [Finset.empty_union, List.toFinset_filter, List.toFinset_range] at h
  simpa only [decide_eq_true_eq] using h

/-- The lists that are empty do not matter. -/
theorem Kicked.congr {sel sel' : Finset ℕ} {s s' : Store} (h : Kicked sel s s')
    (he : ∀ sid, s.tails sid ≠ none → (sid ∈ sel ↔ sid ∈ sel')) : Kicked sel' s s' where
  count := by
    rw [h.count]
    congr 2
    ext sid
    simp only [Finset.mem_filter]
    exact and_congr_left (he sid)
  linked sid hs hn := h.linked sid ((he sid hn).mpr hs) hn
  others sid hs := h.others sid fun hm => hs ⟨(he sid hm.2).mp hm.1, hm.2⟩
  chunks q hq := ⟨(h.chunks q hq).1, (h.chunks q hq).2.1, fun hall => (h.chunks q hq).2.2
    fun sid hs hn => hall sid ((he sid (by simp [hn])).mp hs) hn⟩

/-- **A store is kicked off in one way**: of two selections, one in the other, the lists that are not
empty are the same. -/
theorem Kicked.mem_of_subset {sel sel' : Finset ℕ} {s s' : Store} (h : Kicked sel s s')
    (h' : Kicked sel' s s') (hsub : sel ⊆ sel') {sid : ℕ} (hs : sid ∈ sel')
    (hn : s.tails sid ≠ none) : sid ∈ sel := by
  have hcard : (sel.filter fun sid => s.tails sid ≠ none).card
      = (sel'.filter fun sid => s.tails sid ≠ none).card := by
    have := h.count.symm.trans h'.count
    omega
  have heq := Finset.eq_of_subset_of_card_le (Finset.filter_subset_filter _ hsub) hcard.ge
  have hmem : sid ∈ sel'.filter fun sid => s.tails sid ≠ none := Finset.mem_filter.mpr ⟨hs, hn⟩
  rw [← heq] at hmem
  exact (Finset.mem_filter.mp hmem).1

/-! ## The loop over the ids -/

/-- The ids that are accepted: a number, of a class that can be crawled. -/
theorem crawlId_eq_some {p : Bytes} {sid : ℕ} :
    crawlId p = some sid ↔ safeStrtoul p = some sid ∧ 1 ≤ sid ∧ sid ≤ tocrawlLength := by
  unfold crawlId
  cases safeStrtoul p with
  | none => simp
  | some v =>
      simp only [Option.some.injEq]
      split
      · exact iff_of_false (by simp) (by rintro ⟨rfl, h⟩; omega)
      · rw [Option.some.injEq]
        constructor
        · rintro rfl
          omega
        · exact fun h => h.1

/-- A byte outside the array stays written. -/
theorem outside_markClasses {toks : List Bytes} {t : Tocrawl} (h : t.outside = true) :
    (markClasses toks t).2.outside = true := by
  induction toks generalizing t with
  | nil => exact h
  | cons p toks ih =>
      rw [markClasses]
      cases crawlId p with
      | none => exact h
      | some sid => exact ih (by rw [Tocrawl.mark, h, Bool.true_or])

/-- The loop goes through if no id is refused. -/
theorem markClasses_fst {toks : List Bytes} {t : Tocrawl} :
    (markClasses toks t).1 = true ↔ ∀ p ∈ toks, crawlId p ≠ none := by
  induction toks generalizing t with
  | nil => simp [markClasses]
  | cons p toks ih =>
      rw [markClasses]
      cases hp : crawlId p with
      | none => simp [hp]
      | some sid =>
          simp only [ih, List.mem_cons, forall_eq_or_imp, hp]
          simp

/-- **A loop that goes through** marks the ids it reads, and no byte outside the array if none of
them is `POWER_LARGEST`. -/
theorem markClasses_snd {toks : List Bytes} {t : Tocrawl} (h : ∀ p ∈ toks, crawlId p ≠ none) :
    (∀ sid, (markClasses toks t).2.cells sid ≠ 0 ↔
        t.cells sid ≠ 0 ∨ ∃ p ∈ toks, crawlId p = some sid) ∧
      ((markClasses toks t).2.outside = true ↔
        t.outside = true ∨ ∃ p ∈ toks, crawlId p = some tocrawlLength) := by
  -- by induction on the tokens, from any array
  induction toks generalizing t with
  | nil => simp [markClasses]
  | cons p toks ih =>
      obtain ⟨v, hv⟩ := Option.ne_none_iff_exists'.mp (h p (List.mem_cons_self ..))
      obtain ⟨hcells, hout⟩ := ih (t := t.mark v) fun q hq => h q (List.mem_cons_of_mem _ hq)
      have hle := (crawlId_eq_some.mp hv).2.2
      rw [markClasses, hv]
      refine ⟨fun sid => ?_, ?_⟩
      · rw [hcells, Tocrawl.mark]
        by_cases he : sid = v
        · subst he
          simp [hv]
        · simp only [Function.update_of_ne he, List.mem_cons, exists_eq_or_imp, hv,
            Option.some.injEq, Ne.symm he, false_or]
      · rw [hout, Tocrawl.mark]
        simp only [Bool.or_eq_true, decide_eq_true_eq, List.mem_cons, exists_eq_or_imp, hv,
          Option.some.injEq, or_assoc]
        constructor
        · rintro (ht | hv' | hex)
          · exact Or.inl ht
          · exact Or.inr (Or.inl (le_antisymm hle hv'))
          · exact Or.inr (Or.inr hex)
        · rintro (ht | rfl | hex)
          · exact Or.inl ht
          · exact Or.inr (Or.inl le_rfl)
          · exact Or.inr (Or.inr hex)

/-- An id is refused, and none before it is `POWER_LARGEST`. -/
def RefusedInside (toks : List Bytes) : Prop :=
  ∃ pre p post, toks = pre ++ p :: post ∧ crawlId p = none ∧
    ∀ q ∈ pre, crawlId q ≠ some tocrawlLength

/-- **A loop that refuses an id** has written inside the array unless `POWER_LARGEST` came first. -/
theorem markClasses_refused {toks : List Bytes} {t : Tocrawl} (ht : t.outside = false)
    (h : (markClasses toks t).1 = false) :
    (markClasses toks t).2.outside = false ↔ RefusedInside toks := by
  induction toks generalizing t with
  | nil => exact absurd h (by simp [markClasses])
  | cons p toks ih =>
      rw [markClasses] at h ⊢
      cases hp : crawlId p with
      | none =>
          simp only [ht, true_iff]
          exact ⟨[], p, toks, rfl, hp, by simp⟩
      | some v =>
          simp only [hp] at h
          have hle := (crawlId_eq_some.mp hp).2.2
          by_cases hv : v = tocrawlLength
          · have hout : (t.mark v).outside = true := by simp [Tocrawl.mark, hv]
            refine iff_of_false (by simp [outside_markClasses hout]) ?_
            rintro ⟨pre, q, post, htoks, hq, hpre⟩
            cases pre with
            | nil =>
                obtain ⟨rfl, -⟩ := List.cons.inj htoks
                exact absurd (hp.symm.trans hq) (by simp)
            | cons r pre =>
                obtain ⟨rfl, -⟩ := List.cons.inj htoks
                exact hpre p (List.mem_cons_self ..) (hv ▸ hp)
          · have hin : (t.mark v).outside = false := by
              simp only [Tocrawl.mark, ht, Bool.false_or, decide_eq_false_iff_not]
              omega
            simp only
            rw [ih hin h]
            constructor
            · rintro ⟨pre, q, post, rfl, hq, hpre⟩
              refine ⟨p :: pre, q, post, rfl, hq, fun r hr => ?_⟩
              obtain rfl | hr := List.mem_cons.mp hr
              · rw [hp]
                exact fun e => hv (Option.some.inj e)
              · exact hpre r hr
            · rintro ⟨pre, q, post, htoks, hq, hpre⟩
              cases pre with
              | nil =>
                  obtain ⟨rfl, -⟩ := List.cons.inj htoks
                  exact absurd (hp.symm.trans hq) (by simp)
              | cons r pre =>
                  obtain ⟨-, rfl⟩ := List.cons.inj htoks
                  exact ⟨pre, q, post, rfl, hq, fun r' hr' =>
                    hpre r' (List.mem_cons_of_mem _ hr')⟩

/-! ## What the command was told -/

/-- The text is the id of a class with an LRU list. -/
def ClassId (p : Bytes) (sid : ℕ) : Prop := Decimal p sid ∧ 1 ≤ sid ∧ sid < largestId

/-- An id of a class is read as such. -/
theorem ClassId.crawlId {p : Bytes} {sid : ℕ} (h : ClassId p sid) : crawlId p = some sid := by
  have hlt : sid < 200 := h.2.2
  refine crawlId_eq_some.mpr ⟨CNumber.safeStrtoul_eq_some.mpr
    ⟨sid, h.1, by omega, Or.inl ⟨by omega, by omega⟩⟩, h.2.1, hlt.le⟩

/-- The command selects what its argument says. -/
structure SelectsListed (s : Store) (slabs : Bytes) (out : CrawlOutcome) : Prop where
  inside : out.outside = false
  all : slabs = ascii "all" → out.result = .ok ∧ Kicked (Finset.range largestId) s out.store
  listed : slabs ≠ ascii "all" → (∀ p ∈ crawlTokens slabs, ∃ sid, ClassId p sid) →
    out.result = .ok ∧ ∃ sel : Finset ℕ,
      (∀ sid, sid ∈ sel ↔ ∃ p ∈ crawlTokens slabs, ClassId p sid) ∧ Kicked sel s out.store
  badClass : slabs ≠ ascii "all" → ¬ (∀ p ∈ crawlTokens slabs, ∃ sid, ClassId p sid) →
    out.result = .badClass ∧ out.store = s

/-- The array is zero where a list is not empty and its class is not listed. -/
def StackClean (s : Store) (stack : ℕ → UInt8) (slabs : Bytes) : Prop :=
  ∀ sid, sid < largestId → s.tails sid ≠ none →
    (∀ p ∈ crawlTokens slabs, ¬ ClassId p sid) → stack sid = 0

/-- What the command leaves when no id is refused. -/
theorem lruCrawlerCrawl_ok {s : Store} {slabs : Bytes} (stack : ℕ → UInt8) (limit : ℕ)
    (hall : slabs ≠ ascii "all") (h : ∀ p ∈ crawlTokens slabs, crawlId p ≠ none) :
    let out := s.lruCrawlerCrawl stack limit false slabs
    out.result = .ok ∧
      (out.outside = true ↔ ∃ p ∈ crawlTokens slabs, crawlId p = some tocrawlLength) ∧
      ∃ sel : Finset ℕ, Kicked sel s out.store ∧ ∀ sid, sid ∈ sel ↔
        sid < largestId ∧ (stack sid ≠ 0 ∨ ∃ p ∈ crawlTokens slabs, crawlId p = some sid) := by
  have hfst := markClasses_fst (t := ⟨stack, false⟩).mpr h
  obtain ⟨hcells, hout⟩ := markClasses_snd (t := ⟨stack, false⟩) h
  unfold Store.lruCrawlerCrawl
  rw [if_neg (by simp), if_neg hall]
  generalize markClasses (crawlTokens slabs) ⟨stack, false⟩ = m at hfst hcells hout
  obtain ⟨b, t⟩ := m
  simp only at hfst
  subst hfst
  simp only at hcells hout ⊢
  refine ⟨trivial, by simpa using hout, _, kicked_kickCrawlers s t.cells limit, fun sid => ?_⟩
  rw [Finset.mem_filter, Finset.mem_range, hcells]

/-- What the command leaves when an id is refused. -/
theorem lruCrawlerCrawl_refused {s : Store} {slabs : Bytes} (stack : ℕ → UInt8) (limit : ℕ)
    (hall : slabs ≠ ascii "all") (h : ¬ ∀ p ∈ crawlTokens slabs, crawlId p ≠ none) :
    let out := s.lruCrawlerCrawl stack limit false slabs
    out.result = .badClass ∧ out.store = s ∧
      (out.outside = false ↔ RefusedInside (crawlTokens slabs)) := by
  have hfst : (markClasses (crawlTokens slabs) ⟨stack, false⟩).1 = false := by
    rw [← Bool.not_eq_true, markClasses_fst]
    exact h
  have hout := markClasses_refused rfl hfst
  unfold Store.lruCrawlerCrawl
  rw [if_neg (by simp), if_neg hall]
  generalize markClasses (crawlTokens slabs) ⟨stack, false⟩ = m at hfst hout
  obtain ⟨b, t⟩ := m
  simp only at hfst
  subst hfst
  exact ⟨rfl, rfl, hout⟩

/-- A command without an id that is refused selects what it was told, if all its ids are of classes
and the array was zero for the others, and only then. -/
theorem selectsListed_ok {s : Store} {slabs : Bytes} (stack : ℕ → UInt8) (limit : ℕ)
    (hall : slabs ≠ ascii "all") (h : ∀ p ∈ crawlTokens slabs, crawlId p ≠ none) :
    SelectsListed s slabs (s.lruCrawlerCrawl stack limit false slabs) ↔
      (∀ p ∈ crawlTokens slabs, ∃ sid, ClassId p sid) ∧ StackClean s stack slabs := by
  obtain ⟨hok, hout, sel, hk, hsel⟩ := lruCrawlerCrawl_ok (s := s) stack limit hall h
  generalize s.lruCrawlerCrawl stack limit false slabs = out at hok hout hk ⊢
  constructor
  · intro hs
    have hvalid : ∀ p ∈ crawlTokens slabs, ∃ sid, ClassId p sid := by
      by_contra hbad
      rw [(hs.badClass hall hbad).1] at hok
      exact absurd hok (by decide)
    refine ⟨hvalid, fun sid hlt hn hunlisted => ?_⟩
    by_contra hstack
    obtain ⟨-, told, htold, hk'⟩ := hs.listed hall hvalid
    have hsub : told ⊆ sel := by
      intro i hi
      obtain ⟨p, hp, hid⟩ := (htold i).mp hi
      exact (hsel i).mpr ⟨hid.2.2, Or.inr ⟨p, hp, hid.crawlId⟩⟩
    have hmem := hk'.mem_of_subset hk hsub ((hsel sid).mpr ⟨hlt, Or.inl hstack⟩) hn
    obtain ⟨p, hp, hid⟩ := (htold sid).mp hmem
    exact hunlisted p hp hid
  · rintro ⟨hvalid, hclean⟩
    have hread : ∀ p ∈ crawlTokens slabs, ∀ sid, crawlId p = some sid ↔ ClassId p sid := by
      intro p hp sid
      obtain ⟨v, hv⟩ := hvalid p hp
      constructor
      · intro hsid
        obtain rfl := Option.some.inj (hv.crawlId.symm.trans hsid)
        exact hv
      · exact fun hid => hid.crawlId
    have hin : out.outside = false := by
      rw [← Bool.not_eq_true, hout]
      rintro ⟨p, hp, hid⟩
      have hlt : tocrawlLength < largestId := ((hread p hp _).mp hid).2.2
      exact absurd hlt (by decide)
    refine ⟨hin, fun he => absurd he hall, fun _ _ => ⟨hok, ?_⟩, fun _ hbad => absurd hvalid hbad⟩
    classical
    refine ⟨(Finset.range largestId).filter fun sid => ∃ p ∈ crawlTokens slabs, ClassId p sid,
      fun sid => ?_, hk.congr fun sid hn => ?_⟩
    · rw [Finset.mem_filter, Finset.mem_range, and_iff_right_iff_imp]
      rintro ⟨p, -, hid⟩
      exact hid.2.2
    · rw [Finset.mem_filter, Finset.mem_range, hsel]
      refine and_congr_right fun hlt => ?_
      constructor
      · rintro (hstack | ⟨p, hp, hid⟩)
        · by_contra hno
          exact hstack (hclean sid hlt hn fun p hp hid => hno ⟨p, hp, hid⟩)
        · exact ⟨p, hp, (hread p hp sid).mp hid⟩
      · rintro ⟨p, hp, hid⟩
        exact Or.inr ⟨p, hp, hid.crawlId⟩

/-- **`lru_crawler_crawl` selects what it was told** where the argument is `all`, or all its ids are
of classes and the array was zero for the others, or an id is refused before one is
`POWER_LARGEST`; and only there. -/
theorem selectsListed_iff (s : Store) (stack : ℕ → UInt8) (limit : ℕ) (slabs : Bytes) :
    SelectsListed s slabs (s.lruCrawlerCrawl stack limit false slabs) ↔
      slabs = ascii "all" ∨
        (∀ p ∈ crawlTokens slabs, ∃ sid, ClassId p sid) ∧ StackClean s stack slabs ∨
        RefusedInside (crawlTokens slabs) := by
  by_cases hall : slabs = ascii "all"
  · refine iff_of_true ?_ (Or.inl hall)
    have hk : Kicked (Finset.range largestId) s
        (s.kickCrawlers (fun _ => 1) limit (List.range largestId)) :=
      (kicked_kickCrawlers s _ limit).congr fun sid _ => by simp
    have hout : s.lruCrawlerCrawl stack limit false slabs
        = ⟨.ok, s.kickCrawlers (fun _ => 1) limit (List.range largestId), false⟩ := by
      rw [Store.lruCrawlerCrawl, if_neg (by simp), if_pos hall]
    generalize s.kickCrawlers (fun _ => 1) limit (List.range largestId) = s' at hk hout
    rw [hout]
    exact ⟨rfl, fun _ => ⟨rfl, hk⟩, fun h => absurd hall h, fun h => absurd hall h⟩
  rw [or_iff_right hall]
  by_cases h : ∀ p ∈ crawlTokens slabs, crawlId p ≠ none
  · rw [selectsListed_ok stack limit hall h, or_iff_left]
    rintro ⟨pre, p, post, htoks, hp, -⟩
    exact h p (by simp [htoks]) hp
  · obtain ⟨hbad, hsame, hout⟩ := lruCrawlerCrawl_refused (s := s) stack limit hall h
    have hinvalid : ¬ ∀ p ∈ crawlTokens slabs, ∃ sid, ClassId p sid := by
      intro hvalid
      refine h fun p hp => ?_
      obtain ⟨sid, hid⟩ := hvalid p hp
      simp [hid.crawlId]
    rw [or_iff_right fun hv => hinvalid hv.1, ← hout]
    exact ⟨fun hs => hs.inside, fun hin => ⟨hin, fun he => absurd he hall,
      fun _ hv => absurd hv hinvalid, fun _ _ => ⟨hbad, hsame⟩⟩⟩

/-- `lru_crawler crawl 200` writes behind the array. -/
theorem lruCrawlerCrawl_outside : ¬ ∀ (s : Store) (stack : ℕ → UInt8) (limit : ℕ) (slabs : Bytes),
    SelectsListed s slabs (s.lruCrawlerCrawl stack limit false slabs) := by
  intro h
  have htoks : crawlTokens (ascii "200") = [ascii "200"] := by decide
  have hid : crawlId (ascii "200") = some tocrawlLength := by decide
  have hout := (@lruCrawlerCrawl_ok .init (ascii "200") (fun _ => 0) 0 (by decide)
    (by simp [htoks, hid])).2.1.mpr ⟨_, by simp [htoks], hid⟩
  exact absurd ((h .init (fun _ => 0) 0 (ascii "200")).inside.symm.trans hout) (by simp)

end Memcached
