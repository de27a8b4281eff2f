import Mathlib.Data.List.Nodup
import Mathlib.Logic.Function.Basic

/-!
# Tables with an index

A table of records by address, and for every key the list of the addresses
whose record has that key: the way an intrusive list head collects the records
that name their owner.  `Indexes tbl key idx` says that the lists are exactly
that, without repetition.  The four ways such a structure is maintained keep
it: inserting a fresh record at the head of its key's list (`insert`), changing
a record without changing its key (`modify`), taking a record out of its list
together with its key (`unlist`), and touching a record that is on no list
(`untracked`).
-/

/-- The lists `idx` index the table `tbl` by `key`. -/
structure Indexes {β κ : Type} (tbl : Nat → Option β) (key : β → Option κ)
    (idx : κ → List Nat) : Prop where
  mem_iff : ∀ k r, r ∈ idx k ↔ ∃ b, tbl r = some b ∧ key b = some k
  nodup : ∀ k, (idx k).Nodup

namespace Indexes

variable {β κ : Type} [DecidableEq κ] {tbl : Nat → Option β} {key : β → Option κ}
  {idx : κ → List Nat}

omit [DecidableEq κ] in
theorem empty : Indexes (fun _ => none : Nat → Option β) key (fun _ => []) :=
  ⟨by simp, by simp⟩

/-- A new row goes to the head of its key's list. -/
theorem insert (h : Indexes tbl key idx) {r : Nat} {b : β} {k : κ} (hfresh : tbl r = none)
    (hkey : key b = some k) :
    Indexes (Function.update tbl r (some b)) key
      (Function.update idx k (r :: idx k)) := by
  have hout : ∀ k', r ∉ idx k' := by
    intro k' hmem
    obtain ⟨b', hb', -⟩ := (h.mem_iff k' r).mp hmem
    rw [hfresh] at hb'
    cases hb'
  refine ⟨?_, ?_⟩
  · intro k' q
    by_cases hq : q = r
    · subst hq
      by_cases hk : k' = k
      · subst hk
        simp [hkey]
      · have hne : ¬ k = k' := fun e => hk e.symm
        simp [hk, hkey, hne, hout k']
    · by_cases hk : k' = k
      · subst hk
        simp [hq, h.mem_iff]
      · simp [hk, hq, h.mem_iff]
  · intro k'
    by_cases hk : k' = k
    · subst hk
      simpa using ⟨hout k', h.nodup k'⟩
    · simpa [hk] using h.nodup k'

omit [DecidableEq κ] in
theorem modify (h : Indexes tbl key idx) (r : Nat) {f : β → β}
    (hf : ∀ b, key (f b) = key b) :
    Indexes (Function.update tbl r ((tbl r).map f)) key idx := by
  refine ⟨?_, h.nodup⟩
  intro k q
  rw [h.mem_iff]
  by_cases hq : q = r
  · subst hq
    cases htbl : tbl q with
    | none => simp
    | some b => simp [hf]
  · simp [hq]

/-- The record at `r` loses its key, or goes altogether. -/
theorem unlist (h : Indexes tbl key idx) {r : Nat} {b : β} {k : κ} {v : Option β}
    (hr : tbl r = some b) (hkey : key b = some k) (hv : ∀ b', v = some b' → key b' = none) :
    Indexes (Function.update tbl r v) key
      (Function.update idx k ((idx k).erase r)) := by
  refine ⟨?_, ?_⟩
  · intro k' q
    by_cases hq : q = r
    · subst hq
      have hnone : ¬ ∃ b', v = some b' ∧ key b' = some k' := by
        rintro ⟨b', rfl, hb'⟩
        rw [hv b' rfl] at hb'
        cases hb'
      by_cases hk : k' = k
      · subst hk
        simpa [(h.nodup k').mem_erase_iff] using hnone
      · have hout : q ∉ idx k' := by
          rw [h.mem_iff]
          rintro ⟨b', hb', hk'⟩
          rw [hr] at hb'
          cases hb'
          exact hk (Option.some.inj (hk'.symm.trans hkey))
        simpa [hk, hout] using hnone
    · by_cases hk : k' = k
      · subst hk
        simp [hq, (h.nodup k').mem_erase_iff, h.mem_iff]
      · simp [hk, hq, h.mem_iff]
  · intro k'
    by_cases hk : k' = k
    · subst hk
      simpa using (h.nodup k').erase r
    · simpa [hk] using h.nodup k'

omit [DecidableEq κ] in
/-- A record on no list changes into one on no list, or goes. -/
theorem untracked (h : Indexes tbl key idx) {r : Nat} {v : Option β}
    (hr : ∀ b, tbl r = some b → key b = none) (hv : ∀ b, v = some b → key b = none) :
    Indexes (Function.update tbl r v) key idx := by
  refine ⟨?_, h.nodup⟩
  intro k q
  rw [h.mem_iff]
  by_cases hq : q = r
  · subst hq
    simp only [Function.update_self]
    constructor
    · rintro ⟨b, hb, hk⟩
      rw [hr b hb] at hk
      cases hk
    · rintro ⟨b, hb, hk⟩
      rw [hv b hb] at hk
      cases hk
  · simp [hq]

end Indexes
