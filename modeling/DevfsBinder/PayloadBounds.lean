import DevfsBinder.DriverSoundness

/-!
# Every access to a payload copy stays inside it

The sizes, the bytes and the offsets array of a parcel are the client's.  The
translation loop and the release walk read and write the kernel copy at places
computed from all three.  `Layout` collects what the size checks establish:
the three areas follow one another without 64-bit wrap.  With it, each turn of
the loop stays inside the copy except for the two words it loads from the
parent of a nested buffer object, whose position is an offsets entry that was
matched but not validated.  `ParentInside` gives the arithmetic condition on that
entry, and the loop is safe exactly when it holds in every turn.
-/

namespace Binder

open LittleEndian

/-- All listed accesses fall inside a copy of `total` bytes. -/
def Inside (total : Nat) (spans : List Span) : Prop :=
  ∀ sp ∈ spans, sp.1 + sp.2 ≤ total

@[simp] theorem inside_nil (total : Nat) : Inside total [] := by
  simp [Inside]

@[simp] theorem inside_cons (total : Nat) (sp : Span) (spans : List Span) :
    Inside total (sp :: spans) ↔ sp.1 + sp.2 ≤ total ∧ Inside total spans := by
  simp [Inside]

@[simp] theorem inside_append (total : Nat) (l₁ l₂ : List Span) :
    Inside total (l₁ ++ l₂) ↔ Inside total l₁ ∧ Inside total l₂ := by
  simp only [Inside, List.mem_append, or_imp, forall_and]

/-- The areas of a parcel's kernel copy of `total` bytes. -/
structure Layout (c : Parcel) (total : Nat) : Prop where
  small : total ≤ 2 ^ 20
  extra_small : c.extraSize ≤ 2 ^ 20
  data_le : c.dataSize ≤ c.offArea
  offsets_le : c.offArea + 8 * c.count ≤ c.sgArea
  sg_eq : c.sgArea + align c.extraSize = total

/-- Between two turns the copy has kept its length and the scatter-gather area
is not overdrawn. -/
structure Fits (c : Parcel) (total : Nat) (ls : LoopState) : Prop where
  length : ls.kdata.length = total
  used : ls.sgUsed ≤ align c.extraSize

/-- The words the containment check loads from its parent object are inside a copy
of `total` bytes: the parent's `buffer` at distance 8, and its `length` at distance 16
if the first comparison passes.  A parent in the last eight bytes of the address space
wraps round to the front of the copy. -/
def ParentWordsInside (kdata : Bytes) (total parent buffer : Nat) : Prop :=
  2 ^ 64 ≤ parent + 8 ∨
    parent + 16 ≤ total ∧ (field kdata (parent + 8) 8 ≤ buffer → parent + 24 ≤ total)

/-- If entry `i` is a nested buffer object whose parent is listed in the offsets array,
that parent's words are inside. -/
def ParentInside (c : Parcel) (total : Nat) (ls : LoopState) (i : Nat) : Prop :=
  let off := offsetEntry ls.kdata c.offArea i
  let parent := field ls.kdata (off + 24) 8
  objectAt ls.kdata c.dataSize off = some .ptr →
    hasParent (field ls.kdata (off + 4) 4) = true →
    (∃ j < c.count, offsetEntry ls.kdata c.offArea j = parent) →
    ParentWordsInside ls.kdata total parent (field ls.kdata (off + 8) 8)

instance (c : Parcel) (total : Nat) (ls : LoopState) (i : Nat) :
    Decidable (ParentInside c total ls i) := by
  dsimp only [ParentInside, ParentWordsInside]
  infer_instance

/-- The scatter-gather arithmetic of turn `i` is exact: what is used is within the
area, `need` is the length rounded up whenever the length passes its check, and a
buffer object is refused for want of room exactly when it does not fit. -/
structure RoomExact (c : Parcel) (ls : LoopState) (i : Nat) : Prop where
  used : ls.sgUsed ≤ (c.extraSize + 7) / 8 * 8
  need : let length := field ls.kdata (offsetEntry ls.kdata c.offArea i + 16) 8
    length ≤ c.extraSize → align length = (length + 7) / 8 * 8
  refused : let length := field ls.kdata (offsetEntry ls.kdata c.offArea i + 16) 8
    (translatePtrCopy c ls (offsetEntry ls.kdata c.offArea i)).2 = some .einval ↔
      c.extraSize < length ∨ (c.extraSize + 7) / 8 * 8 < ls.sgUsed + (length + 7) / 8 * 8

/-! ## Objects -/

/-- What `binder_object_at` has checked when it answers. -/
theorem objectAt_bound {kdata : Bytes} {dataSize off : Nat} {type : ObjectType}
    (h : objectAt kdata dataSize off = some type) : off + objectSize type ≤ dataSize := by
  unfold objectAt at h
  split at h
  · cases h
  · split at h
    · cases h
    · split at h
      · cases h
      · split at h
        · cases h
        · rename_i hoff _ _ _ hfit
          rw [← Option.some.inj h]
          omega

theorem objectAtTouches_inside {total dataSize off : Nat} (h : dataSize ≤ total) :
    Inside total (objectAtTouches dataSize off) := by
  unfold objectAtTouches
  split
  · simp
  · split
    · simp
    · simp
      omega

/-- The search for a parent reads the offsets array only. -/
theorem findParentTouches_inside {total offArea parent count : Nat} {kdata : Bytes}
    (h : offArea + 8 * count ≤ total) :
    Inside total (findParentTouches kdata offArea parent count) := by
  have hturns : ∀ j, findParent kdata offArea parent count = some j → j < count := by
    intro j hj
    simpa using List.mem_of_find?_eq_some hj
  intro sp hsp
  simp only [findParentTouches, List.mem_map, List.mem_range] at hsp
  obtain ⟨j, hj, rfl⟩ := hsp
  have hcount : j < count := by
    cases hfind : findParent kdata offArea parent count with
    | none => simpa [hfind] using hj
    | some k =>
        have hk := hturns k hfind
        have hjk : j < k + 1 := by simpa [hfind] using hj
        omega
  simp only
  omega

/-- The search succeeds exactly for a listed parent. -/
theorem findParent_isSome {kdata : Bytes} {offArea parent count : Nat} :
    (findParent kdata offArea parent count).isSome ↔
      ∃ j < count, offsetEntry kdata offArea j = parent := by
  simp [findParent]

/-- A load inside the copy finds the copy's bytes. -/
theorem wildField_inside {env : Env} {kdata : Bytes} {addr : Nat}
    (hsmall : kdata.length ≤ 2 ^ 20) (h : addr + 8 ≤ kdata.length) :
    wildField env kdata addr = field kdata addr 8 := by
  unfold wildField field
  congr 1
  apply List.ext_getElem
  · simp [slice]
    omega
  · intro k hk _
    have hk8 : k < 8 := by simpa using hk
    have haddr : (addr + k) % 2 ^ 64 = addr + k := Nat.mod_eq_of_lt (by omega)
    simp only [List.getElem_map, List.getElem_range, slice, List.getElem_take, List.getElem_drop]
    rw [haddr, List.getElem?_eq_getElem (by omega), Option.getD_some]

/-- The loads of the containment check, in arithmetic. -/
theorem parentTouches_inside_iff (env : Env) {kdata : Bytes} {total parent : Nat}
    (buffer : Nat) (hlen : kdata.length = total) (hsmall : total ≤ 2 ^ 20) (hlarge : 24 ≤ total)
    (hparent : parent < 2 ^ 64) :
    Inside total (parentTouches env kdata parent buffer) ↔
      ParentWordsInside kdata total parent buffer := by
  unfold parentTouches ParentWordsInside
  rw [inside_cons]
  by_cases hwrap : 2 ^ 64 ≤ parent + 8
  · -- both words are at the front of the copy
    have hfirst : (parent + 8) % 2 ^ 64 + 8 ≤ total := by omega
    have hsecond : (parent + 16) % 2 ^ 64 + 8 ≤ total := by omega
    simp only [hwrap, true_or, iff_true]
    refine ⟨hfirst, ?_⟩
    split
    · simpa using hsecond
    · exact inside_nil total
  · have hfirst : (parent + 8) % 2 ^ 64 = parent + 8 := Nat.mod_eq_of_lt (by omega)
    have hsum : parent + 8 + 8 ≤ total ↔ parent + 16 ≤ total := by omega
    simp only [hwrap, false_or, hfirst, hsum]
    apply and_congr_right
    intro hin
    have hload : wildField env kdata (parent + 8) = field kdata (parent + 8) 8 :=
      wildField_inside (by omega) (by omega)
    have hsecond : (parent + 16) % 2 ^ 64 = parent + 16 := Nat.mod_eq_of_lt (by omega)
    rw [hload, hsecond]
    split
    · rename_i hle
      simp [hle]
    · rename_i hlt
      simp [hlt]

theorem writeHandle_length {kdata : Bytes} {off desc : Nat} {strong : Bool}
    (h : off + 24 ≤ kdata.length) :
    (Driver.writeHandle kdata off strong desc).length = kdata.length := by
  have htype := setField_length (v := (if strong then ObjectType.handle else .weakHandle).code)
    (rfl : kdata.length = _) (show off + 4 ≤ _ by omega)
  have hbinder := setField_length (v := 0) htype (show off + 8 + 8 ≤ _ by omega)
  have hhandle := setField_length (v := desc) hbinder (show off + 8 + 4 ≤ _ by omega)
  exact setField_length hhandle (by omega)

theorem writeBinder_length {kdata : Bytes} {off : Nat} {strong : Bool} {nd : Node}
    (h : off + 24 ≤ kdata.length) :
    (Driver.writeBinder kdata off strong nd).length = kdata.length := by
  have htype := setField_length (v := (if strong then ObjectType.binder else .weakBinder).code)
    (rfl : kdata.length = _) (show off + 4 ≤ _ by omega)
  have hptr := setField_length (v := nd.ptr) htype (show off + 8 + 8 ≤ _ by omega)
  exact setField_length hptr (by omega)

theorem translateBinder_length {env : Env} {s : Driver} {p : ProcId} {th : ThreadId}
    {tp : ProcId} {kdata : Bytes} {off : Nat} {strong : Bool}
    (h : off + 24 ≤ kdata.length) :
    (Driver.translateBinder env s p th tp kdata off strong).2.1.length = kdata.length := by
  unfold Driver.translateBinder
  simp only
  split
  · rfl
  · split
    · rfl
    · split
      · rfl
      · exact writeHandle_length h

theorem translateHandle_length {env : Env} {s : Driver} {p : ProcId} {th : ThreadId}
    {tp : ProcId} {kdata : Bytes} {off : Nat} {strong : Bool}
    (h : off + 24 ≤ kdata.length) :
    (Driver.translateHandle env s p th tp kdata off strong).2.1.length = kdata.length := by
  unfold Driver.translateHandle
  split
  · rfl
  · split
    · rfl
    · split
      · exact writeBinder_length h
      · split
        · rfl
        · exact setField_length rfl (by omega)

theorem translateFd_length {s : Driver} {p : ProcId} {n : Option NodeId} {kdata : Bytes}
    {off : Nat} (h : off + 24 ≤ kdata.length) :
    (s.translateFd p n kdata off).1.length = kdata.length := by
  unfold Driver.translateFd
  split
  · split
    · exact setField_length rfl (by omega)
    · rfl
  · exact setField_length rfl (by omega)

/-! ## One turn of the loop -/

variable {c : Parcel} {total : Nat} {ls : LoopState}

@[simp] theorem touch_kdata (ls : LoopState) (spans : List Span) :
    (ls.touch spans).kdata = ls.kdata := rfl

@[simp] theorem touch_sgUsed (ls : LoopState) (spans : List Span) :
    (ls.touch spans).sgUsed = ls.sgUsed := rfl

@[simp] theorem touch_touched (ls : LoopState) (spans : List Span) :
    (ls.touch spans).touched = ls.touched ++ spans := rfl

/-- A turn's accesses are appended to those already made, and fall inside the
copy exactly when `cond` holds. -/
def Adds (total : Nat) (ls ls' : LoopState) (cond : Prop) : Prop :=
  ∃ spans, ls'.touched = ls.touched ++ spans ∧ (Inside total spans ↔ cond)

theorem Adds.touch {spans : List Span} {ls' : LoopState} {cond : Prop}
    (hin : Inside total spans) (h : Adds total (ls.touch spans) ls' cond) :
    Adds total ls ls' cond := by
  obtain ⟨rest, heq, hiff⟩ := h
  refine ⟨spans ++ rest, by rw [heq, touch_touched, List.append_assoc], ?_⟩
  rw [inside_append, hiff]
  exact ⟨fun h => h.2, fun h => ⟨hin, h⟩⟩

theorem Adds.touched {spans : List Span} {ls' : LoopState}
    (h : Adds total (ls.touch spans) ls' True) : Adds total ls ls' (Inside total spans) := by
  obtain ⟨rest, heq, hiff⟩ := h
  refine ⟨spans ++ rest, by rw [heq, touch_touched, List.append_assoc], ?_⟩
  rw [inside_append, hiff, and_true]

theorem Adds.congr {ls' : LoopState} {cond cond' : Prop} (h : Adds total ls ls' cond)
    (hiff : cond ↔ cond') : Adds total ls ls' cond' := by
  obtain ⟨rest, heq, hrest⟩ := h
  exact ⟨rest, heq, hrest.trans hiff⟩

theorem Adds.refl : Adds total ls ls True :=
  ⟨[], by simp, by simp⟩

/-- The scatter-gather copy: the size check leaves room for the bytes. -/
theorem translatePtrCopy_spec {off : Nat} (hl : Layout c total) (hf : Fits c total ls)
    (hoff : off + 40 ≤ c.dataSize) :
    Fits c total (translatePtrCopy c ls off).1 ∧
      Adds total ls (translatePtrCopy c ls off).1 True := by
  have hdata := hl.data_le
  have hoffsets := hl.offsets_le
  have hsg := hl.sg_eq
  have hsmall := hl.small
  have hused := hf.used
  unfold translatePtrCopy
  simp only
  split
  · exact ⟨hf, Adds.refl⟩
  · rename_i hcheck
    rw [not_or, Nat.not_lt, Nat.not_lt] at hcheck
    obtain ⟨hlen, hroom⟩ := hcheck
    have hlensmall : field ls.kdata (off + 16) 8 ≤ 2 ^ 20 :=
      Nat.le_trans hlen hl.extra_small
    have hle := le_align hlensmall
    have hlt := align_lt hlensmall
    rw [Nat.mod_eq_of_lt (by omega)] at hroom
    have hdest : Inside total [(c.sgArea + ls.sgUsed, field ls.kdata (off + 16) 8)] := by
      simp
      omega
    split
    · exact ⟨⟨hf.length, hf.used⟩, Adds.touch hdest Adds.refl⟩
    · rename_i bytes hbytes
      have hbl := Env.copyin_length hbytes
      refine ⟨⟨?_, hroom⟩, Adds.touch hdest ⟨[(off + 8, 8)], rfl, by simp; omega⟩⟩
      refine setField_length ?_ (by omega)
      rw [touch_kdata, touch_sgUsed, patch_length _ _ _ (by rw [hbl, hf.length]; omega)]
      exact hf.length

/-- A length that passes its check is far from the 64-bit limit, and one that does
not is refused whatever the rounding makes of it. -/
theorem Fits.roomExact (hl : Layout c total) (hf : Fits c total ls) (i : Nat) :
    RoomExact c ls i := by
  have harea := align_of_small hl.extra_small
  have hused := hf.used
  rw [harea] at hused
  generalize hoff : offsetEntry ls.kdata c.offArea i = off
  have hneed : field ls.kdata (off + 16) 8 ≤ c.extraSize →
      align (field ls.kdata (off + 16) 8) = (field ls.kdata (off + 16) 8 + 7) / 8 * 8 :=
    fun hlen => align_of_small (Nat.le_trans hlen hl.extra_small)
  refine ⟨hused, by rw [hoff]; exact hneed, ?_⟩
  simp only [hoff, translatePtrCopy, harea]
  have hsmall := hl.extra_small
  by_cases hlen : c.extraSize < field ls.kdata (off + 16) 8
  · simp [hlen]
  · rw [hneed (by omega), Nat.mod_eq_of_lt (by omega)]
    split
    · rename_i hfull
      simp [hfull]
    · rename_i hfits
      simp only [hfits, iff_false]
      split <;> simp

/-- A buffer object: everything but the parent's words is checked. -/
theorem translatePtr_spec {off : Nat} (hl : Layout c total) (hf : Fits c total ls)
    (hoff : off + 40 ≤ c.dataSize) :
    Fits c total (translatePtr c ls off).1 ∧
      Adds total ls (translatePtr c ls off).1
        (hasParent (field ls.kdata (off + 4) 4) = true →
          (∃ j < c.count, offsetEntry ls.kdata c.offArea j = field ls.kdata (off + 24) 8) →
          ParentWordsInside ls.kdata total (field ls.kdata (off + 24) 8)
            (field ls.kdata (off + 8) 8)) := by
  have hdata := hl.data_le
  have hoffsets := hl.offsets_le
  have hsg := hl.sg_eq
  have hhead : Inside total [(off + 4, 4), (off + 8, 8), (off + 16, 8)] := by
    simp
    omega
  have hsearch : Inside total ((off + 24, 8) ::
      findParentTouches ls.kdata c.offArea (field ls.kdata (off + 24) 8) c.count) := by
    rw [inside_cons]
    exact ⟨by simp only; omega, findParentTouches_inside (by omega)⟩
  have hcopy : ∀ ls' : LoopState, Fits c total ls' →
      Fits c total (translatePtrCopy c ls' off).1 ∧
        Adds total ls' (translatePtrCopy c ls' off).1 True :=
    fun ls' hf' => translatePtrCopy_spec hl hf' hoff
  unfold translatePtr
  simp only [touch_kdata]
  split
  · rename_i hnested
    split
    · rename_i hnone
      have hunlisted : ¬ ∃ j < c.count, offsetEntry ls.kdata c.offArea j =
          field ls.kdata (off + 24) 8 := by
        rw [← findParent_isSome, hnone]
        exact Bool.false_ne_true
      refine ⟨⟨hf.length, hf.used⟩, Adds.touch hhead (Adds.touch hsearch ?_)⟩
      exact Adds.refl.congr (by simp only [hunlisted, false_implies, implies_true])
    · rename_i j hfound
      -- the parent's words are the only accesses not already covered by a check
      have hcond : ∀ ls' : LoopState, Adds total ls ls' (Inside total (parentTouches c.env
          ls.kdata (field ls.kdata (off + 24) 8) (field ls.kdata (off + 8) 8))) →
          Adds total ls ls' (hasParent (field ls.kdata (off + 4) 4) = true →
            (∃ j < c.count, offsetEntry ls.kdata c.offArea j = field ls.kdata (off + 24) 8) →
            ParentWordsInside ls.kdata total (field ls.kdata (off + 24) 8)
              (field ls.kdata (off + 8) 8)) := by
        intro ls' hadds
        have hlisted := findParent_isSome.mp (Option.isSome_iff_exists.mpr ⟨j, hfound⟩)
        have hwords := parentTouches_inside_iff c.env (field ls.kdata (off + 8) 8) hf.length
          hl.small (by omega) (field_lt ls.kdata (off + 24) 8)
        exact hadds.congr (by simp only [hnested, hlisted, hwords, true_implies])
      by_cases hin : parentContains c.env ls.kdata (field ls.kdata (off + 24) 8)
          (field ls.kdata (off + 8) 8) (field ls.kdata (off + 16) 8) = true
      · have hc := hcopy (((ls.touch [(off + 4, 4), (off + 8, 8), (off + 16, 8)]).touch
          ((off + 24, 8) :: findParentTouches ls.kdata c.offArea
            (field ls.kdata (off + 24) 8) c.count)).touch
          (parentTouches c.env ls.kdata (field ls.kdata (off + 24) 8)
            (field ls.kdata (off + 8) 8))) ⟨hf.length, hf.used⟩
        simp only [hin, if_true]
        exact ⟨hc.1, hcond _ (Adds.touch hhead (Adds.touch hsearch hc.2.touched))⟩
      · simp only [hin, if_false, Bool.false_eq_true]
        exact ⟨⟨hf.length, hf.used⟩,
          hcond _ (Adds.touch hhead (Adds.touch hsearch Adds.refl.touched))⟩
  · rename_i hflat
    have hc := hcopy (ls.touch [(off + 4, 4), (off + 8, 8), (off + 16, 8)])
      ⟨hf.length, hf.used⟩
    refine ⟨hc.1, Adds.touch hhead ?_⟩
    simpa [hflat] using hc.2

/-- **One turn.**  Entry `i` keeps the copy's shape, and its accesses stay inside
exactly when a nested parent does. -/
theorem translateObject_spec {i : Nat} (hl : Layout c total) (hf : Fits c total ls)
    (hi : i < c.count) :
    Fits c total (translateObject c ls i).1 ∧
      Adds total ls (translateObject c ls i).1 (ParentInside c total ls i) := by
  have hdata := hl.data_le
  have hoffsets := hl.offsets_le
  have hsg := hl.sg_eq
  have hlen := hf.length
  generalize hoff : offsetEntry ls.kdata c.offArea i = off
  have hhead : Inside total ((c.offArea + 8 * i, 8) :: objectAtTouches c.dataSize off) := by
    rw [inside_cons]
    exact ⟨by simp only; omega, objectAtTouches_inside (by omega)⟩
  -- an object that is not a buffer object has no parent to read
  have hother : objectAt ls.kdata c.dataSize off ≠ some .ptr →
      ∀ ls' : LoopState, Adds total ls ls' True →
        Adds total ls ls' (ParentInside c total ls i) := by
    intro hne ls' hadds
    refine hadds.congr ⟨fun _ => ?_, fun _ => trivial⟩
    intro hptr
    exact absurd (hoff ▸ hptr) hne
  have hbound : ∀ type, objectAt ls.kdata c.dataSize off = some type → off + 24 ≤ total := by
    intro type htype
    have hfit := objectAt_bound htype
    have hsize := objectSize_ge type
    omega
  unfold translateObject
  simp only [hoff, touch_kdata]
  cases hobj : objectAt ls.kdata c.dataSize off with
  | none =>
      exact ⟨⟨hlen, hf.used⟩, hother (by simp [hobj]) _ (Adds.touch hhead Adds.refl)⟩
  | some type =>
      have hin := hbound type hobj
      have hflat : ∀ spans, Inside total spans → ∀ kdata : Bytes, kdata.length = ls.kdata.length →
          ∀ drv, objectAt ls.kdata c.dataSize off ≠ some .ptr →
          Fits c total { (ls.touch ((c.offArea + 8 * i, 8) ::
              objectAtTouches c.dataSize off)).touch spans with drv := drv, kdata := kdata } ∧
            Adds total ls { (ls.touch ((c.offArea + 8 * i, 8) ::
              objectAtTouches c.dataSize off)).touch spans with drv := drv, kdata := kdata }
              (ParentInside c total ls i) := by
        intro spans hspans kdata hkdata drv hne
        exact ⟨⟨hkdata.trans hlen, hf.used⟩, hother hne _ (Adds.touch hhead
          (Adds.touch hspans ⟨[], by simp [LoopState.touch], by simp⟩))⟩
      cases type with
      | binder =>
          exact hflat [(off, 24)] (by simp; omega) _ (translateBinder_length (by omega)) _
            (by simp [hobj])
      | weakBinder =>
          exact hflat [(off, 24)] (by simp; omega) _ (translateBinder_length (by omega)) _
            (by simp [hobj])
      | handle =>
          exact hflat [(off, 24)] (by simp; omega) _ (translateHandle_length (by omega)) _
            (by simp [hobj])
      | weakHandle =>
          exact hflat [(off, 24)] (by simp; omega) _ (translateHandle_length (by omega)) _
            (by simp [hobj])
      | fd =>
          exact hflat [(off + 16, 8)] (by simp; omega) _ (translateFd_length (by omega)) _
            (by simp [hobj])
      | ptr =>
          have hfits : Fits c total (ls.touch ((c.offArea + 8 * i, 8) ::
              objectAtTouches c.dataSize off)) := ⟨hlen, hf.used⟩
          have hptr := translatePtr_spec hl hfits (objectAt_bound hobj)
          refine ⟨hptr.1, (Adds.touch hhead hptr.2).congr ?_⟩
          simp only [ParentInside, hoff, hobj, touch_kdata, true_implies]
      | fda =>
          exact ⟨⟨hlen, hf.used⟩, hother (by simp [hobj]) _ (Adds.touch hhead Adds.refl)⟩

/-! ## The whole loop -/

/-- The condition for a list of entries: wherever the loop gets to, a nested
parent lies inside. -/
def ParentsInside (c : Parcel) (total : Nat) (ls : LoopState) (entries : List Nat) : Prop :=
  ∀ done i rest, entries = done ++ i :: rest → (translateLoop c ls done).2 = none →
    ParentInside c total (translateLoop c ls done).1 i

/-- The condition on a list of entries, entry by entry. -/
theorem parentsInside_cons {i : Nat} {rest : List Nat} :
    ParentsInside c total ls (i :: rest) ↔
      ParentInside c total ls i ∧
        ((translateObject c ls i).2 = none →
          ParentsInside c total (translateObject c ls i).1 rest) := by
  constructor
  · intro h
    refine ⟨h [] i rest rfl rfl, ?_⟩
    intro hok done j tail heq hdone
    have hstep : translateLoop c ls (i :: done) =
        translateLoop c (translateObject c ls i).1 done := by
      rw [translateLoop]
      generalize translateObject c ls i = r at hok
      obtain ⟨ls', error⟩ := r
      cases hok
      rfl
    have hj := h (i :: done) j tail (by rw [heq]; rfl) (by rw [hstep]; exact hdone)
    rwa [hstep] at hj
  · rintro ⟨hi, hrest⟩ done j tail heq hdone
    cases done with
    | nil =>
        obtain ⟨rfl, rfl⟩ := List.cons.inj heq
        exact hi
    | cons k done =>
        obtain ⟨rfl, htail⟩ := List.cons.inj heq
        rw [translateLoop] at hdone ⊢
        generalize hr : translateObject c ls i = r at hdone hrest
        obtain ⟨ls', error⟩ := r
        cases error with
        | none => exact hrest rfl done j tail htail hdone
        | some error => cases hdone

/-- **The loop.**  Its accesses are inside the copy exactly when every nested
parent it gets to is. -/
theorem translateLoop_spec (hl : Layout c total) (entries : List Nat)
    (hentries : ∀ i ∈ entries, i < c.count) (hf : Fits c total ls) :
    Fits c total (translateLoop c ls entries).1 ∧
      Adds total ls (translateLoop c ls entries).1 (ParentsInside c total ls entries) := by
  induction entries generalizing ls with
  | nil =>
      refine ⟨hf, Adds.refl.congr ⟨fun _ => ?_, fun _ => trivial⟩⟩
      intro done i rest heq
      simp at heq
  | cons i rest ih =>
      obtain ⟨hfit, spans, heq, hiff⟩ := translateObject_spec hl hf (hentries i (by simp))
      have hrest := fun j hj => hentries j (List.mem_cons_of_mem i hj)
      unfold translateLoop
      simp only [parentsInside_cons, Adds]
      generalize translateObject c ls i = r at hfit heq hiff
      obtain ⟨ls', error⟩ := r
      cases error with
      | some error => exact ⟨hfit, spans, heq, by simp [hiff]⟩
      | none =>
          obtain ⟨hfit', more, heq', hiff'⟩ := ih hrest hfit
          refine ⟨hfit', spans ++ more, ?_, ?_⟩
          · simp only at heq heq' ⊢
            rw [heq', heq, List.append_assoc]
          · rw [inside_append, hiff, hiff']
            simp

/-! ## The release walk -/

/-- The walk reads nothing outside the data and offsets areas. -/
theorem releaseTouches_inside {kdata : Bytes} {dataSize offsetsSize : Nat}
    (hdata : dataSize ≤ total) (hoffsets : align dataSize + 8 * (offsetsSize / 8) ≤ total) :
    Inside total (Driver.releaseTouches kdata dataSize offsetsSize) := by
  intro sp hsp
  simp only [Driver.releaseTouches, List.mem_flatMap, List.mem_range] at hsp
  obtain ⟨i, hi, hsp⟩ := hsp
  revert sp
  change Inside total (_ :: Driver.releaseObjectTouches _ _ _)
  generalize offsetEntry kdata (align dataSize) i = off
  rw [inside_cons, Driver.releaseObjectTouches, inside_append]
  refine ⟨by simp only; omega, objectAtTouches_inside hdata, ?_⟩
  split <;> try exact inside_nil total
  all_goals
    rename_i hobj
    have hfit := objectAt_bound hobj
    simp [objectSize] at hfit ⊢
    omega

/-! ## What the size checks establish -/

open Driver

theorem sizesOk_iff {tr : TransactionData} {extraSize : Nat} :
    sizesOk tr extraSize = true ↔ tr.dataSize ≤ 2 ^ 20 ∧ tr.offsetsSize ≤ 2 ^ 20 ∧
      extraSize ≤ 2 ^ 20 ∧ tr.offsetsSize % 8 = 0 := by
  have hmax : maxTransactionSize = 2 ^ 20 := by decide
  simp only [sizesOk, Bool.and_eq_true, decide_eq_true_eq, hmax, and_assoc]

/-- The three areas of an accepted set of sizes, computed without wrap. -/
theorem areas_exact {tr : TransactionData} {extraSize : Nat}
    (h : sizesOk tr extraSize = true) :
    offAreaOf tr = (tr.dataSize + 7) / 8 * 8 ∧
      sgAreaOf tr = offAreaOf tr + tr.offsetsSize ∧
      totalOf tr extraSize = sgAreaOf tr + (extraSize + 7) / 8 * 8 := by
  obtain ⟨hdata, hoffsets, hextra, hmod⟩ := sizesOk_iff.mp h
  have h1 : offAreaOf tr = (tr.dataSize + 7) / 8 * 8 := align_of_small (by omega)
  have h2 : align tr.offsetsSize = tr.offsetsSize := by
    rw [align_of_small (by omega)]
    omega
  have h3 : align extraSize = (extraSize + 7) / 8 * 8 := align_of_small (by omega)
  have h4 : sgAreaOf tr = offAreaOf tr + tr.offsetsSize := by
    rw [sgAreaOf, h2, Nat.mod_eq_of_lt (by omega)]
  refine ⟨h1, h4, ?_⟩
  rw [totalOf, h3, Nat.mod_eq_of_lt (by omega)]

theorem layoutOf_length {data offsets : Bytes} {offArea total : Nat}
    (hdata : data.length ≤ offArea) (htotal : offArea + offsets.length ≤ total) :
    (layoutOf data offsets offArea total).length = total := by
  simp only [layoutOf, List.length_append, List.length_replicate]
  omega

/-- A fetched payload has the layout the loop relies on. -/
theorem translationOf_layout {env : Env} {s : Driver} {p : ProcId} {th : ThreadId}
    {tgt : Target} {tr : TransactionData} {extraSize : Nat} {oneway : Bool}
    (h : translationOf env s p th tgt tr extraSize oneway = some (c, ls)) :
    Layout c (totalOf tr extraSize) ∧ Fits c (totalOf tr extraSize) ls ∧
      sizesOk tr extraSize = true ∧ ls.touched = [] ∧ c.dataSize = tr.dataSize ∧
      c.offArea = align tr.dataSize ∧ c.count = tr.offsetsSize / 8 ∧
      c.extraSize = extraSize := by
  unfold translationOf at h
  split at h
  · cases h
  · rename_i s' buf kdata hready
    obtain ⟨hsizes, htotal, data, offsets, hdata, hoffsets, rfl⟩ := fetchPayload_ready hready
    obtain ⟨harea, hsg, htot⟩ := areas_exact hsizes
    obtain ⟨rfl, rfl⟩ := Prod.mk.inj (Option.some.inj h)
    obtain ⟨-, -, hextra, -⟩ := sizesOk_iff.mp hsizes
    have hdl := Env.copyin_length hdata
    have hol := Env.copyin_length hoffsets
    have hlen : (layoutOf data offsets (offAreaOf tr) (totalOf tr extraSize)).length =
        totalOf tr extraSize := layoutOf_length (by omega) (by omega)
    refine ⟨⟨?_, hextra, ?_, ?_, ?_⟩, ⟨hlen, Nat.zero_le _⟩, hsizes, rfl, rfl, rfl, rfl, rfl⟩
    · simpa [maxTransactionSize] using htotal
    · simp only [parcelOf]
      omega
    · simp only [parcelOf]
      omega
    · simp only [parcelOf]
      rw [align_of_small hextra, htot]

/-- The entries of a loop over `range n`, one by one. -/
theorem parentsInside_range {n : Nat} :
    ParentsInside c total ls (List.range n) ↔
      ∀ i, i < n → (translateLoop c ls (List.range i)).2 = none →
        ParentInside c total (translateLoop c ls (List.range i)).1 i := by
  constructor
  · intro h i hi
    refine h (List.range i) i ((List.range n).drop (i + 1)) ?_
    conv_lhs => rw [← List.take_append_drop i (List.range n)]
    rw [List.take_range, Nat.min_eq_left (Nat.le_of_lt hi),
      List.drop_eq_getElem_cons (by simpa using hi)]
    simp
  · intro h done i rest heq
    have hi : done.length < n := by
      have hlen := congrArg List.length heq
      simp at hlen
      omega
    have hdone : done = List.range done.length := by
      have htake := congrArg (List.take done.length) heq
      rw [List.take_range, Nat.min_eq_left (Nat.le_of_lt hi), List.take_left] at htake
      exact htake.symm
    have hidx : i = done.length := by
      have hget := congrArg (fun l : List Nat => l[done.length]?) heq
      simp [hi] at hget
      exact hget.symm
    rw [hdone, hidx]
    simpa using h done.length hi

/-- **Every access to the kernel copy is inside it, but for nested parents.**
For any sizes, bytes and offsets that get as far as the translation loop: the
three areas are computed without wrap, so is the room in the scatter-gather area in
every turn, and all accesses of the loop and of the release walk lie inside the copy if
and only if, in every turn the loop gets to, a nested buffer object with a listed
parent has it far enough in front of the copy's end. -/
theorem payload_accesses_inside_iff {env : Env} {s : Driver} {p : ProcId} {th : ThreadId}
    {tgt : Target} {tr : TransactionData} {extraSize : Nat} {oneway : Bool}
    (h : translationOf env s p th tgt tr extraSize oneway = some (c, ls)) :
    (offAreaOf tr = (tr.dataSize + 7) / 8 * 8 ∧
      sgAreaOf tr = offAreaOf tr + tr.offsetsSize ∧
      totalOf tr extraSize = sgAreaOf tr + (extraSize + 7) / 8 * 8 ∧
      ls.kdata.length = totalOf tr extraSize ∧ c.extraSize = extraSize) ∧
    (∀ i, i < c.count → RoomExact c (translateLoop c ls (List.range i)).1 i) ∧
    (Inside ls.kdata.length ((translateLoop c ls (List.range c.count)).1.touched ++
        releaseTouches (translateLoop c ls (List.range c.count)).1.kdata tr.dataSize
          tr.offsetsSize) ↔
      ∀ i, i < c.count → (translateLoop c ls (List.range i)).2 = none →
        ParentInside c ls.kdata.length (translateLoop c ls (List.range i)).1 i) := by
  obtain ⟨hl, hf, hsizes, hstart, hsize, harea, hcount, hextra⟩ := translationOf_layout h
  obtain ⟨h1, h2, h3⟩ := areas_exact hsizes
  refine ⟨⟨h1, h2, h3, hf.length, hextra⟩, ?_, ?_⟩
  · intro i hi
    have hloop := translateLoop_spec hl (List.range i)
      (fun j hj => Nat.lt_trans (List.mem_range.mp hj) hi) hf
    exact hloop.1.roomExact hl i
  obtain ⟨-, spans, hspans, hiff⟩ := translateLoop_spec hl (List.range c.count)
    (by simp) hf
  have hrelease : Inside (totalOf tr extraSize)
      (releaseTouches (translateLoop c ls (List.range c.count)).1.kdata tr.dataSize
        tr.offsetsSize) := by
    have hdata := hl.data_le
    have hoffsets := hl.offsets_le
    have hsg := hl.sg_eq
    rw [hsize] at hdata
    rw [harea, hcount] at hoffsets
    exact releaseTouches_inside (by omega) (by omega)
  rw [hf.length, ← parentsInside_range, hspans, hstart, List.nil_append, inside_append, hiff]
  exact ⟨fun h => h.1, fun h => ⟨h, hrelease⟩⟩

/-- Two buffers on their way to the manager, the second nested in the first and listed
before it: both words of the parent are loaded before its entry was looked at. -/
theorem payload_accesses_inside_nested :
    let m : Message :=
      { data := bufferBytes 0 0x1000 16 0 0 ++ bufferBytes 1 0x1008 8 0 8, offsets := [40, 0] }
    let tgt : Target := { proc := 1, thread := none, node := some 4, inReplyTo := none }
    ∃ c ls, translationOf m.env twoProcessesUp 5 6 tgt m.data64 24 false = some (c, ls) ∧
      (translateLoop c ls (List.range c.count)).2 = none ∧
      (16, 8) ∈ (translateLoop c ls (List.range 1)).1.touched ∧
      Inside ls.kdata.length ((translateLoop c ls (List.range c.count)).1.touched ++
          releaseTouches (translateLoop c ls (List.range c.count)).1.kdata m.data64.dataSize
            m.data64.offsetsSize) := by
  intro m tgt
  have h : (translationOf m.env twoProcessesUp 5 6 tgt m.data64 24 false).map
      (fun r => decide ((translateLoop r.1 r.2 (List.range r.1.count)).2 = none ∧
        (16, 8) ∈ (translateLoop r.1 r.2 (List.range 1)).1.touched ∧
        ∀ i, i < r.1.count → (translateLoop r.1 r.2 (List.range i)).2 = none →
          ParentInside r.1 r.2.kdata.length (translateLoop r.1 r.2 (List.range i)).1 i)) =
      some true := by
    decide +kernel
  obtain ⟨⟨c, ls⟩, hsome, hall⟩ := Option.map_eq_some_iff.mp h
  obtain ⟨haccepted, hloaded, hparents⟩ := of_decide_eq_true hall
  exact ⟨c, ls, hsome, haccepted, hloaded, (payload_accesses_inside_iff hsome).2.2.mpr hparents⟩

/-- A nested buffer object whose parent is an entry of the offsets array far
behind the copy: the containment check reads the parent there. -/
theorem nested_parent_read_outside :
    let m : Message := { data := bufferBytes 1 0 0 (2 ^ 63) 0, offsets := [0, 2 ^ 63] }
    let tgt : Target := { proc := 1, thread := none, node := some 4, inReplyTo := none }
    Reachable twoProcessesUp ∧
      ∃ c ls, translationOf m.env twoProcessesUp 5 6 tgt m.data64 0 false = some (c, ls) ∧
        ls.kdata.length = 56 ∧
        (2 ^ 63 + 8, 8) ∈ (translateLoop c ls (List.range c.count)).1.touched := by
  intro m tgt
  have h : (translationOf m.env twoProcessesUp 5 6 tgt m.data64 0 false).map
      (fun r => decide (r.2.kdata.length = 56 ∧
        (2 ^ 63 + 8, 8) ∈ (translateLoop r.1 r.2 (List.range r.1.count)).1.touched)) =
      some true := by
    decide +kernel
  obtain ⟨⟨c, ls⟩, hsome, hread⟩ := Option.map_eq_some_iff.mp h
  exact ⟨Reachable.run .init _, c, ls, hsome, of_decide_eq_true hread⟩

end Binder
