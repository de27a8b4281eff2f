import Mathlib.Data.List.Basic
import Mathlib.Logic.Function.Basic

/-!
# Intrusive queues

An intrusive queue links an item through fields of the item itself, and the
item carries a back pointer naming the queue it is on.  Whether an item is
linked can therefore be asked of the item, without searching any list, and
that answer is what every insertion trusts.

`Queues Q W` is the state of a whole family of such queues: the contents of
each queue of `Q`, and for each item of `W` its back pointer.  The two are
redundant; `Consistent` says that they agree and that no item is linked
twice.  A guarded insertion and a removal keep them in agreement
(`insert_consistent`, `remove_consistent`), whatever the items mean.
-/

variable {Q W : Type} [DecidableEq Q] [DecidableEq W]

/-- A family of queues indexed by `Q`, holding items of `W`. -/
structure Queues (Q W : Type) where
  items : Q → List W
  loc : W → Option Q

namespace Queues

/-- Every queue empty, every item unlinked. -/
def empty : Queues Q W where
  items := fun _ => []
  loc := fun _ => none

/-- Link `w` at one end of `q`, unless it is already waiting somewhere. -/
def insert (qs : Queues Q W) (q : Q) (w : W) (head : Bool) : Queues Q W :=
  if (qs.loc w).isSome then qs
  else
    { items := Function.update qs.items q
        (if head then w :: qs.items q else qs.items q ++ [w])
      loc := Function.update qs.loc w (some q) }

/-- Link `w` at the tail of `q` by hand, without asking its back pointer. -/
def link (qs : Queues Q W) (q : Q) (w : W) : Queues Q W :=
  { items := Function.update qs.items q (qs.items q ++ [w])
    loc := Function.update qs.loc w (some q) }

/-- Unlink `w` from whichever queue its back pointer names. -/
def remove (qs : Queues Q W) (w : W) : Queues Q W :=
  match qs.loc w with
  | none => qs
  | some q =>
      { items := Function.update qs.items q ((qs.items q).erase w)
        loc := Function.update qs.loc w none }

/-- The back pointers describe the queues: an item is on the queue it names
and on no other, exactly once. -/
structure Consistent (qs : Queues Q W) : Prop where
  mem_iff : ∀ w q, w ∈ qs.items q ↔ qs.loc w = some q
  nodup : ∀ q, (qs.items q).Nodup

omit [DecidableEq Q] [DecidableEq W] in
theorem empty_consistent : (empty : Queues Q W).Consistent :=
  ⟨fun _ _ => by simp [empty], fun _ => by simp [empty]⟩

theorem insert_loc (qs : Queues Q W) (q : Q) (w : W) (head : Bool) (v : W) :
    (qs.insert q w head).loc v =
      if v = w ∧ qs.loc w = none then some q else qs.loc v := by
  cases hw : qs.loc w with
  | some q' => simp [insert, hw]
  | none =>
      by_cases hv : v = w <;> simp [insert, hw, hv]

/-- An insertion says nothing about the other items. -/
theorem insert_loc_of_ne (qs : Queues Q W) (q : Q) (head : Bool) {v w : W}
    (h : v ≠ w) : (qs.insert q w head).loc v = qs.loc v := by
  simp [insert_loc, h]

theorem remove_loc (qs : Queues Q W) (w v : W) :
    (qs.remove w).loc v = if v = w then none else qs.loc v := by
  cases hw : qs.loc w with
  | none =>
      by_cases hv : v = w
      · subst hv; simp [remove, hw]
      · simp [remove, hw, hv]
  | some q => by_cases hv : v = w <;> simp [remove, hw, hv]

/-- Unlinking an item that is not linked changes nothing. -/
theorem remove_of_unlinked {qs : Queues Q W} {w : W} (h : qs.loc w = none) :
    qs.remove w = qs := by
  simp [remove, h]

theorem remove_remove (qs : Queues Q W) (w : W) : (qs.remove w).remove w = qs.remove w :=
  remove_of_unlinked (by simp [remove_loc])

/-- **A guarded insertion is safe.**  It needs no premise about the item: an
item that is already linked stays where it is. -/
theorem insert_consistent {qs : Queues Q W} (h : qs.Consistent)
    (q : Q) (w : W) (head : Bool) : (qs.insert q w head).Consistent := by
  unfold insert
  split
  · exact h
  · rename_i hnone
    have hloc : qs.loc w = none := by simpa using hnone
    have hout : ∀ q', w ∉ qs.items q' := by
      intro q' hmem
      rw [h.mem_iff, hloc] at hmem
      cases hmem
    refine ⟨?_, ?_⟩
    · intro v q'
      by_cases hq : q' = q
      · subst hq
        by_cases hv : v = w
        · subst hv; cases head <;> simp
        · cases head <;> simp [hv, h.mem_iff]
      · by_cases hv : v = w
        · subst hv
          have hne : q ≠ q' := fun e => hq e.symm
          simp [hq, hne, hout q']
        · simp [hq, hv, h.mem_iff]
    · intro q'
      by_cases hq : q' = q
      · subst hq
        cases head with
        | true => simpa using ⟨hout q', h.nodup q'⟩
        | false =>
            simp only [Function.update_self, Bool.false_eq_true, if_false]
            exact List.nodup_append.mpr ⟨h.nodup q', by simp, by
              intro a ha b hb
              rw [List.mem_singleton] at hb
              subst hb
              exact fun e => hout q' (e ▸ ha)⟩
      · simpa [hq] using h.nodup q'

/-- Linking by hand agrees with a guarded insertion of an unlinked item. -/
theorem link_eq_insert {qs : Queues Q W} {w : W} (h : qs.loc w = none) (q : Q) :
    qs.link q w = qs.insert q w false := by
  simp [link, insert, h]

/-- Removing an item keeps the queues consistent. -/
theorem remove_consistent {qs : Queues Q W} (h : qs.Consistent) (w : W) :
    (qs.remove w).Consistent := by
  unfold remove
  split
  · exact h
  · rename_i q hloc
    refine ⟨?_, ?_⟩
    · intro v q'
      by_cases hv : v = w
      · subst hv
        by_cases hq : q' = q
        · subst hq
          simp [(h.nodup q').mem_erase_iff]
        · have hout : v ∉ qs.items q' := by
            rw [h.mem_iff, hloc]
            exact fun e => hq (Option.some.inj e).symm
          simp [hq, hout]
      · by_cases hq : q' = q
        · subst hq
          simp [(h.nodup q').mem_erase_iff, hv, h.mem_iff]
        · simp [hq, hv, h.mem_iff]
    · intro q'
      by_cases hq : q' = q
      · subst hq
        simpa using (h.nodup q').erase w
      · simpa [hq] using h.nodup q'

end Queues
