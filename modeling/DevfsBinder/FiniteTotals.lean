import Mathlib.Algebra.BigOperators.Finprod
import Mathlib.Data.Set.Card

/-!
# Totals over a table

A table has finitely many entries that count.  `Totals f n` says that `n` is the
sum of what the entries count for; a change of one entry changes the sum by the
difference.  A counter kept beside a table is right exactly if it is the total of
the table.

`Tally f n bound` is for a table of records, each of which counts for one, at
places below `bound`: a record made at a free place adds one to the counter, and
a record released takes one away.
-/

/-- `f` is zero at all but finitely many places, and its values add up to `n`. -/
structure Totals {ι : Type*} (f : ι → ℤ) (n : ℤ) : Prop where
  finite : f.support.Finite
  sum : ∑ᶠ i, f i = n

namespace Totals

variable {ι : Type*} {f : ι → ℤ} {n : ℤ}

theorem zero : Totals (fun _ : ι => 0) 0 where
  finite := by simp
  sum := finsum_zero

/-- One entry changes. -/
theorem update [DecidableEq ι] (h : Totals f n) (i : ι) (a : ℤ) :
    Totals (Function.update f i a) (n + a - f i) := by
  have hsplit : Function.update f i a = fun j => f j + if j = i then a - f i else 0 := by
    funext j
    by_cases hj : j = i
    · subst hj
      simp
    · simp [hj]
  have hsingle : (Function.support fun j => if j = i then a - f i else 0).Finite := by
    apply (Set.finite_singleton i).subset
    intro j hj
    by_contra hne
    exact hj (if_neg hne)
  rw [hsplit]
  constructor
  · exact (h.finite.union hsingle).subset (Function.support_add f _)
  · rw [finsum_add_distrib h.finite hsingle, h.sum,
      finsum_eq_single _ i fun j hj => if_neg hj, if_pos rfl]
    ring

/-- The total of an indicator is the size of the set it indicates. -/
theorem indicator {P : ι → Prop} [DecidablePred P]
    (h : Totals (fun i => if P i then 1 else 0) n) :
    {i | P i}.Finite ∧ n = ({i | P i}.ncard : ℤ) := by
  have hsupport : Function.support (fun i => if P i then (1 : ℤ) else 0) = {i | P i} := by
    ext i
    simp
  have hfinite : {i | P i}.Finite := hsupport ▸ h.finite
  refine ⟨hfinite, ?_⟩
  have hsum : ∑ᶠ i, (if P i then (1 : ℤ) else 0) =
      ∑ i ∈ hfinite.toFinset, if P i then (1 : ℤ) else 0 :=
    finsum_eq_sum_of_support_subset _ (by simp [hsupport])
  rw [← h.sum, hsum, Set.ncard_eq_toFinset_card _ hfinite, Finset.card_eq_sum_ones]
  push_cast
  apply Finset.sum_congr rfl
  intro i hi
  rw [if_pos (by simpa using hi)]

end Totals

/-- `n` records, all below `bound`. -/
structure Tally (f : ℕ → ℤ) (n : ℤ) (bound : ℕ) : Prop where
  total : Totals f n
  fresh : ∀ i, bound ≤ i → f i = 0

namespace Tally

variable {f : ℕ → ℤ} {n : ℤ} {bound : ℕ}

theorem zero (bound : ℕ) : Tally (fun _ => 0) 0 bound where
  total := .zero
  fresh _ _ := rfl

theorem mono {bound' : ℕ} (h : Tally f n bound) (hle : bound ≤ bound') : Tally f n bound' where
  total := h.total
  fresh i hi := h.fresh i (Nat.le_trans hle hi)

/-- A record is made. -/
theorem insert (h : Tally f n bound) {i : ℕ} (hi : i < bound) (hfree : f i = 0) :
    Tally (Function.update f i 1) (n + 1) bound where
  total := by
    have htotal := h.total.update i 1
    rw [hfree, sub_zero] at htotal
    exact htotal
  fresh j hj := by
    rw [Function.update_of_ne (by omega)]
    exact h.fresh j hj

/-- A record is released. -/
theorem erase (h : Tally f n bound) {i : ℕ} (hi : f i = 1) :
    Tally (Function.update f i 0) (n - 1) bound where
  total := by
    have htotal := h.total.update i 0
    rw [hi, add_zero] at htotal
    exact htotal
  fresh j hj := by
    have hne : j ≠ i := by
      intro heq
      have hzero := h.fresh j hj
      rw [heq, hi] at hzero
      exact one_ne_zero hzero
    rw [Function.update_of_ne hne]
    exact h.fresh j hj

end Tally
