import Memcached.Lib.Transition

/-! # Maps that lose entries

Maps from keys to values that may lose entries at any time, as a cache does, and such maps whose
values carry a version number that every write renews.

* **`Writes`**, **`Loses`** — how such a map changes.
* **`VersionStep`** — a step of one with versions.
* **`Fresh.run`**, **`same_of_version`** — a version stands for one value. -/

namespace LossyMap

open Transition (Run)

variable {κ ε : Type*}

/-! ## Losses and writes -/

/-- **Entries are lost**, and no others come up. -/
def Loses (m m' : κ → Option ε) : Prop := ∀ k e, m' k = some e → m k = some e

/-- **The value under a key is written**; other entries may be lost. -/
structure Writes (m : κ → Option ε) (k : κ) (e : ε) (m' : κ → Option ε) : Prop where
  self : m' k = some e
  other : ∀ j e', j ≠ k → m' j = some e' → m j = some e'

variable {m m' m'' : κ → Option ε} {k : κ} {e : ε}

/-- A map that loses nothing. -/
theorem Loses.refl (m : κ → Option ε) : Loses m m := fun _ _ h => h

/-- What is found after a write. -/
theorem Writes.cases {j : κ} {e' : ε} (h : Writes m k e m') (hj : m' j = some e') :
    j = k ∧ e' = e ∨ j ≠ k ∧ m j = some e' := by
  by_cases hjk : j = k
  · subst hjk
    exact Or.inl ⟨rfl, Option.some.inj (hj.symm.trans h.self)⟩
  · exact Or.inr ⟨hjk, h.other j e' hjk hj⟩

/-! ## Versions -/

/-- A lossy map and the last version number given out. -/
structure Versioned (κ ε : Type*) where
  table : κ → Option ε
  last : ℕ

variable {version : ε → ℕ} {same : ε → ε → Prop}

/-- **A step of a versioned map**: a loss, a write with a new version, or a change that keeps the
version and what `same` looks at. -/
inductive VersionStep (version : ε → ℕ) (same : ε → ε → Prop) :
    Versioned κ ε → Versioned κ ε → Prop
  | lose {c c' : Versioned κ ε} (hl : Loses c.table c'.table) (hn : c'.last = c.last) :
      VersionStep version same c c'
  | write {c c' : Versioned κ ε} {k : κ} {e : ε} (he : version e = c.last + 1)
      (hw : Writes c.table k e c'.table) (hn : c'.last = c.last + 1) : VersionStep version same c c'
  | amend {c c' : Versioned κ ε} {k : κ} {e f : ε} (hk : c.table k = some e)
      (hv : version f = version e) (hs : same e f) (hw : Writes c.table k f c'.table)
      (hn : c'.last = c.last) : VersionStep version same c c'

/-- **No version is above the last one**, and two keys have different versions. -/
structure Fresh (version : ε → ℕ) (c : Versioned κ ε) : Prop where
  le : ∀ k e, c.table k = some e → version e ≤ c.last
  inj : ∀ j k a b, c.table j = some a → c.table k = some b → version a = version b → j = k

/-- **One step keeps the version numbers fresh.** -/
theorem Fresh.step {c c' : Versioned κ ε} (h : Fresh version c) (hst : VersionStep version same c c') :
    Fresh version c' := by
  cases hst with
  | lose hl hn =>
      refine ⟨fun k e he => ?_, fun j k a b ha hb => h.inj j k a b (hl j a ha) (hl k b hb)⟩
      rw [hn]
      exact h.le k e (hl k e he)
  | @write k e he hw hn =>
      have hold : ∀ j a, c.table j = some a → version a ≠ version e := by
        intro j a ha heq
        have := h.le j a ha
        omega
      refine ⟨fun j a ha => ?_, fun i j a b ha hb hab => ?_⟩
      · rw [hn]
        rcases hw.cases ha with ⟨-, rfl⟩ | ⟨-, ha⟩
        · exact Nat.le_of_eq he
        · exact Nat.le_succ_of_le (h.le j a ha)
      · rcases hw.cases ha with ⟨rfl, rfl⟩ | ⟨-, ha⟩ <;> rcases hw.cases hb with ⟨rfl, rfl⟩ | ⟨-, hb⟩
        · rfl
        · exact absurd hab.symm (hold j b hb)
        · exact absurd hab (hold i a ha)
        · exact h.inj i j a b ha hb hab
  | @amend k e e' hk hv hs hw hn =>
      -- what was under the key before has the version that is there now
      have hold : ∀ j a, c'.table j = some a → ∃ b, c.table j = some b ∧ version a = version b := by
        intro j a ha
        rcases hw.cases ha with ⟨rfl, rfl⟩ | ⟨-, ha⟩
        · exact ⟨e, hk, hv⟩
        · exact ⟨a, ha, rfl⟩
      refine ⟨fun j a ha => ?_, fun i j a b ha hb hab => ?_⟩
      · obtain ⟨b, hb, heq⟩ := hold j a ha
        rw [hn, heq]
        exact h.le j b hb
      · obtain ⟨a', ha', hea⟩ := hold i a ha
        obtain ⟨b', hb', heb⟩ := hold j b hb
        exact h.inj i j a' b' ha' hb' (hea.symm.trans (hab.trans heb))

/-- What has been the content of version `v` at key `k`: it may only change to the `same`. -/
def Settles (version : ε → ℕ) (same : ε → ε → Prop) (k : κ) (e : ε) (c : Versioned κ ε) : Prop :=
  version e ≤ c.last ∧ ∀ e', c.table k = some e' → version e' = version e → same e e'

/-- **One step keeps what a version number stands for.** -/
theorem Settles.step (htrans : ∀ a b c, same a b → same b c → same a c) {c c' : Versioned κ ε}
    (h : Settles version same k e c) (hst : VersionStep version same c c') :
    Settles version same k e c' := by
  cases hst with
  | lose hl hn => exact ⟨hn ▸ h.1, fun e' he' => h.2 e' (hl k e' he')⟩
  | @write j a ha hw hn =>
      refine ⟨Nat.le_trans h.1 (by omega), fun e' he' hv => ?_⟩
      rcases hw.cases he' with ⟨-, rfl⟩ | ⟨-, he'⟩
      · have := h.1
        omega
      · exact h.2 e' he' hv
  | @amend j a a' hk hv hs hw hn =>
      refine ⟨hn ▸ h.1, fun e' he' hve => ?_⟩
      rcases hw.cases he' with ⟨rfl, rfl⟩ | ⟨-, he'⟩
      · exact htrans e a e' (h.2 a hk (hv.symm.trans hve)) hs
      · exact h.2 e' he' hve

variable {σ ι : Type*} {Step : σ → ι → σ → Prop} {s t : σ} {is : List ι}

/-- **Runs keep versions fresh.** -/
theorem Fresh.run (abs : σ → Versioned κ ε)
    (hstep : ∀ {s i t}, Step s i t → VersionStep version same (abs s) (abs t))
    (h : Fresh version (abs s)) (hr : Run Step s is t) : Fresh version (abs t) :=
  hr.invariant (P := fun s => Fresh version (abs s)) h fun h hst => h.step (hstep hst)

/-- **A version stands for one content**: whoever finds under a key the version that was there before
finds the same. -/
theorem same_of_version (abs : σ → Versioned κ ε)
    (hrefl : ∀ a, same a a) (htrans : ∀ a b c, same a b → same b c → same a c)
    (hstep : ∀ {s i t}, Step s i t → VersionStep version same (abs s) (abs t))
    (h : Fresh version (abs s)) (hr : Run Step s is t) {e' : ε} (he : (abs s).table k = some e)
    (he' : (abs t).table k = some e') (hv : version e' = version e) : same e e' := by
  have h0 : Settles version same k e (abs s) := by
    refine ⟨h.le k e he, fun e₁ he₁ _ => ?_⟩
    obtain rfl := Option.some.inj (he.symm.trans he₁)
    exact hrefl e
  have ht : Settles version same k e (abs t) :=
    hr.invariant (P := fun s => Settles version same k e (abs s)) h0
      fun h hst => h.step htrans (hstep hst)
  exact ht.2 e' he' hv

end LossyMap
