import DevfsBinder.CommandEffects
import DevfsBinder.PayloadBounds

/-!
# Parcels without weak objects

The translation loop rewrites objects in place and re-reads types from the
bytes it has rewritten, so objects that overlap can turn into one another.  A
parcel whose objects are strong and keep apart stays one: no turn of the loop
comes to a weak object, and none is left in the payload the receiver gets.
-/

namespace Binder

open LittleEndian

/-- The objects a parcel lists are not weak and do not overlap. -/
structure StrongParcel (c : Parcel) (kdata : Bytes) : Prop where
  strong : ∀ i < c.count, ¬ WeakObject kdata c.dataSize (offsetEntry kdata c.offArea i)
  apart : ∀ i < c.count, ∀ j < c.count,
    offsetEntry kdata c.offArea i < offsetEntry kdata c.offArea j →
    offsetEntry kdata c.offArea i + 24 ≤ offsetEntry kdata c.offArea j

instance (kdata : Bytes) (dataSize off : Nat) : Decidable (WeakObject kdata dataSize off) :=
  inferInstanceAs (Decidable (_ ∨ _))

instance (c : Parcel) (kdata : Bytes) : Decidable (StrongParcel c kdata) :=
  decidable_of_iff
    ((∀ i < c.count, ¬ WeakObject kdata c.dataSize (offsetEntry kdata c.offArea i)) ∧
      ∀ i < c.count, ∀ j < c.count,
        offsetEntry kdata c.offArea i < offsetEntry kdata c.offArea j →
        offsetEntry kdata c.offArea i + 24 ≤ offsetEntry kdata c.offArea j)
    ⟨fun h => ⟨h.1, h.2⟩, fun h => ⟨h.strong, h.apart⟩⟩

/-! ## Writing inside one object -/

/-- Below the scatter-gather area, only the object at `off` is written. -/
structure Rewrites (sgArea off : Nat) (kdata kdata' : Bytes) : Prop where
  length : kdata'.length = kdata.length
  frame : ∀ off' n, off' + n ≤ off ∨ off + 24 ≤ off' → off' + n ≤ sgArea →
    slice kdata' off' n = slice kdata off' n

variable {sgArea off : Nat} {kdata kdata' kdata'' : Bytes}

theorem Rewrites.refl (sgArea off : Nat) (kdata : Bytes) : Rewrites sgArea off kdata kdata :=
  ⟨rfl, fun _ _ _ _ => rfl⟩

theorem Rewrites.trans (h : Rewrites sgArea off kdata kdata')
    (h' : Rewrites sgArea off kdata' kdata'') : Rewrites sgArea off kdata kdata'' :=
  ⟨h'.length.trans h.length, fun off' n hapart hin =>
    (h'.frame off' n hapart hin).trans (h.frame off' n hapart hin)⟩

theorem Rewrites.field (h : Rewrites sgArea off kdata kdata') {off' n : Nat}
    (hapart : off' + n ≤ off ∨ off + 24 ≤ off') (hin : off' + n ≤ sgArea) :
    field kdata' off' n = field kdata off' n := by
  rw [LittleEndian.field, LittleEndian.field, h.frame off' n hapart hin]

/-- A store into the object. -/
theorem Rewrites.setField {k n : Nat} (v : Nat) (hlow : off ≤ k) (hhigh : k + n ≤ off + 24)
    (hlen : off + 24 ≤ kdata.length) : Rewrites sgArea off kdata (setField kdata k n v) := by
  refine ⟨setField_length rfl (by omega), fun off' n' hapart _ => ?_⟩
  exact slice_patch_frame _ _ _ _ _ (by rw [leBytes_length]; omega)
    (by rw [leBytes_length]; omega)

/-- A copy into the scatter-gather area. -/
theorem Rewrites.patch {k : Nat} {new : Bytes} (hlow : sgArea ≤ k)
    (hlen : k + new.length ≤ kdata.length) : Rewrites sgArea off kdata (patch kdata k new) :=
  ⟨patch_length _ _ _ hlen, fun _ _ _ hin =>
    slice_patch_frame _ _ _ _ _ hlen (.inl (Nat.le_trans hin hlow))⟩

/-- An object is rewritten: the type stays, or becomes a strong one. -/
structure Retypes (sgArea off : Nat) (kdata kdata' : Bytes) : Prop extends
    Rewrites sgArea off kdata kdata' where
  type : field kdata' off 4 = field kdata off 4 ∨
    field kdata' off 4 = ObjectType.handle.code ∨ field kdata' off 4 = ObjectType.binder.code

theorem Retypes.refl (sgArea off : Nat) (kdata : Bytes) : Retypes sgArea off kdata kdata :=
  ⟨.refl sgArea off kdata, .inl rfl⟩

/-- A store behind the header. -/
theorem Retypes.setField (h : Retypes sgArea off kdata kdata') {k n : Nat} (v : Nat)
    (hlow : off + 8 ≤ k) (hhigh : k + n ≤ off + 24) (hlen : off + 24 ≤ kdata.length) :
    Retypes sgArea off kdata (setField kdata' k n v) := by
  have hlen' : off + 24 ≤ kdata'.length := by rw [h.length]; exact hlen
  refine ⟨h.toRewrites.trans (.setField v (by omega) hhigh hlen'), ?_⟩
  rw [field_setField_frame _ _ _ _ _ _ (by omega) (by omega)]
  exact h.type

/-- A store of a strong type into the header. -/
theorem Retypes.header {type : ObjectType} (hlen : off + 24 ≤ kdata.length)
    (htype : type = .handle ∨ type = .binder) :
    Retypes sgArea off kdata (LittleEndian.setField kdata off 4 type.code) := by
  refine ⟨.setField _ (by omega) (by omega) hlen, .inr ?_⟩
  rw [field_setField_same _ _ _ _ (by omega)]
  rcases htype with rfl | rfl
  · exact .inl rfl
  · exact .inr rfl

theorem writeHandle_retypes (desc : Nat) (h : off + 24 ≤ kdata.length) :
    Retypes sgArea off kdata (Driver.writeHandle kdata off true desc) := by
  unfold Driver.writeHandle
  exact (((Retypes.header h (.inl rfl)).setField 0 (by omega) (by omega) h).setField desc
    (by omega) (by omega) h).setField 0 (by omega) (by omega) h

theorem writeBinder_retypes (nd : Node) (h : off + 24 ≤ kdata.length) :
    Retypes sgArea off kdata (Driver.writeBinder kdata off true nd) := by
  unfold Driver.writeBinder
  exact ((Retypes.header h (.inr rfl)).setField nd.ptr (by omega) (by omega) h).setField nd.cookie
    (by omega) (by omega) h

theorem translateBinder_retypes {env : Env} {s : Driver} {p : ProcId} {th : ThreadId}
    {tp : ProcId} (h : off + 24 ≤ kdata.length) :
    Retypes sgArea off kdata (Driver.translateBinder env s p th tp kdata off true).2.1 := by
  unfold Driver.translateBinder
  simp only
  split
  · exact .refl _ _ _
  · split
    · exact .refl _ _ _
    · split
      · exact .refl _ _ _
      · exact writeHandle_retypes _ h

theorem translateHandle_retypes {env : Env} {s : Driver} {p : ProcId} {th : ThreadId}
    {tp : ProcId} (h : off + 24 ≤ kdata.length) :
    Retypes sgArea off kdata (Driver.translateHandle env s p th tp kdata off true).2.1 := by
  unfold Driver.translateHandle
  split
  · exact .refl _ _ _
  · split
    · exact .refl _ _ _
    · split
      · exact writeBinder_retypes _ h
      · split
        · exact .refl _ _ _
        · exact (Retypes.refl _ _ _).setField _ (by omega) (by omega) h

theorem translateFd_retypes {s : Driver} {p : ProcId} {n : Option NodeId}
    (h : off + 24 ≤ kdata.length) :
    Retypes sgArea off kdata (s.translateFd p n kdata off).1 := by
  unfold Driver.translateFd
  split
  · split
    · exact (Retypes.refl _ _ _).setField _ (by omega) (by omega) h
    · exact .refl _ _ _
  · exact (Retypes.refl _ _ _).setField _ (by omega) (by omega) h

variable {c : Parcel} {total : Nat} {ls : LoopState}

/-- A copied buffer changes bytes of its own area, and its address. -/
theorem translatePtrCopy_retypes (hl : Layout c total) (hf : Fits c total ls)
    (hoff : off + 40 ≤ c.dataSize) :
    Retypes c.sgArea off ls.kdata (translatePtrCopy c ls off).1.kdata := by
  have hdata := hl.data_le
  have hoffsets := hl.offsets_le
  have hsg := hl.sg_eq
  have hsmall := hl.small
  have hused := hf.used
  have hlength := hf.length
  unfold translatePtrCopy
  simp only
  split
  · exact .refl _ _ _
  · rename_i hcheck
    rw [not_or, Nat.not_lt, Nat.not_lt] at hcheck
    obtain ⟨hlen, hroom⟩ := hcheck
    have hlensmall : field ls.kdata (off + 16) 8 ≤ 2 ^ 20 :=
      Nat.le_trans hlen hl.extra_small
    have hle := le_align hlensmall
    have hlt := align_lt hlensmall
    rw [Nat.mod_eq_of_lt (by omega)] at hroom
    split
    · exact .refl _ _ _
    · rename_i bytes hbytes
      have hbl := Env.copyin_length hbytes
      have hfits : c.sgArea + ls.sgUsed + bytes.length ≤ ls.kdata.length := by
        rw [hbl, hlength]
        omega
      have hpatch : Retypes c.sgArea off ls.kdata
          (LittleEndian.patch ls.kdata (c.sgArea + ls.sgUsed) bytes) := by
        refine ⟨.patch (by omega) hfits, .inl ?_⟩
        rw [LittleEndian.field, LittleEndian.field, slice_patch_frame _ _ _ _ _ hfits (by omega)]
      exact hpatch.setField _ (by omega) (by omega) (by omega)

/-- A buffer object is rewritten in place. -/
theorem translatePtr_retypes (hl : Layout c total) (hf : Fits c total ls)
    (hoff : off + 40 ≤ c.dataSize) :
    Retypes c.sgArea off ls.kdata (translatePtr c ls off).1.kdata := by
  -- Noting what is read leaves the bytes and the used area alone.
  have hcopy : ∀ ls' : LoopState, ls'.kdata = ls.kdata → ls'.sgUsed = ls.sgUsed →
      Retypes c.sgArea off ls.kdata (translatePtrCopy c ls' off).1.kdata := by
    intro ls' hkdata hused
    rw [← hkdata]
    exact translatePtrCopy_retypes hl ⟨by rw [hkdata]; exact hf.length,
      by rw [hused]; exact hf.used⟩ hoff
  unfold translatePtr
  simp only
  split
  · split
    · exact .refl _ _ _
    · split
      · exact hcopy _ rfl rfl
      · exact .refl _ _ _
  · exact hcopy _ rfl rfl

/-- **One turn.**  A strong object is rewritten in place, or nothing is. -/
theorem translateObject_retypes {i : Nat} (hl : Layout c total) (hf : Fits c total ls)
    (hoff : offsetEntry ls.kdata c.offArea i = off)
    (hstrong : ¬ WeakObject ls.kdata c.dataSize off) :
    (translateObject c ls i).1.kdata = ls.kdata ∨ off + 24 ≤ c.dataSize ∧
      Retypes c.sgArea off ls.kdata (translateObject c ls i).1.kdata := by
  have hdata := hl.data_le
  have hoffsets := hl.offsets_le
  have hsg := hl.sg_eq
  have hlength := hf.length
  unfold translateObject
  simp only [hoff, touch_kdata]
  cases hobj : objectAt ls.kdata c.dataSize off with
  | none => exact .inl rfl
  | some type =>
      have hbound := objectAt_bound hobj
      have hsize := objectSize_ge type
      have hlen : off + 24 ≤ ls.kdata.length := by omega
      cases type with
      | binder => exact .inr ⟨by omega, translateBinder_retypes hlen⟩
      | handle => exact .inr ⟨by omega, translateHandle_retypes hlen⟩
      | weakBinder => exact absurd (.inl hobj) hstrong
      | weakHandle => exact absurd (.inr hobj) hstrong
      | fd => exact .inr ⟨by omega, translateFd_retypes hlen⟩
      | ptr =>
          have hfits : Fits c total (ls.touch ((c.offArea + 8 * i, 8) ::
              objectAtTouches c.dataSize off)) := ⟨hf.length, hf.used⟩
          exact .inr ⟨by omega, translatePtr_retypes hl hfits hbound⟩
      | fda => exact .inl rfl

/-! ## The loop -/

/-- Only the type word decides what stands at an offset. -/
theorem objectAt_congr {dataSize : Nat}
    (h : off + 4 ≤ dataSize → field kdata' off 4 = field kdata off 4) :
    objectAt kdata' dataSize off = objectAt kdata dataSize off := by
  unfold objectAt
  split
  · rfl
  · split
    · rfl
    · rw [h (by omega)]

/-- A handle or binder type is not a weak one. -/
theorem not_weakObject {dataSize : Nat} {type : ObjectType}
    (htype : type = .handle ∨ type = .binder)
    (h : field kdata off 4 = type.code) : ¬ WeakObject kdata dataSize off := by
  have hcode : ObjectType.ofCode (field kdata off 4) = some type := by
    rw [h]
    rcases htype with rfl | rfl <;> decide
  have hobj : ∀ type', objectAt kdata dataSize off = some type' → type' = type := by
    intro type' hobj
    unfold objectAt at hobj
    rw [hcode] at hobj
    split at hobj
    · cases hobj
    · split at hobj
      · cases hobj
      · simp only at hobj
        split at hobj
        · cases hobj
        · exact (Option.some.inj hobj).symm
  rintro (hweak | hweak)
  · rcases htype with rfl | rfl <;> cases hobj _ hweak
  · rcases htype with rfl | rfl <;> cases hobj _ hweak

/-- Rewriting one of its objects keeps a parcel strong. -/
theorem StrongParcel.retypes (h : StrongParcel c kdata) (hl : Layout c total) {i : Nat}
    (hi : i < c.count) (hoff : offsetEntry kdata c.offArea i = off) (hin : off + 24 ≤ c.dataSize)
    (hre : Retypes c.sgArea off kdata kdata') : StrongParcel c kdata' := by
  have hdata := hl.data_le
  have hoffsets := hl.offsets_le
  -- the offsets array lies behind the objects
  have hentry : ∀ j < c.count, offsetEntry kdata' c.offArea j = offsetEntry kdata c.offArea j :=
    fun j hj => hre.field (.inr (by omega)) (by omega)
  constructor
  · intro j hj
    rw [hentry j hj]
    generalize hoff' : offsetEntry kdata c.offArea j = off'
    have hold : ¬ WeakObject kdata c.dataSize off' := hoff' ▸ h.strong j hj
    have hsame : (off' + 4 ≤ c.dataSize → field kdata' off' 4 = field kdata off' 4) →
        ¬ WeakObject kdata' c.dataSize off' := by
      intro hfield
      unfold WeakObject
      rw [objectAt_congr hfield]
      exact hold
    rcases Nat.lt_trichotomy off off' with hlt | heq | hgt
    · have hapart := h.apart i hi j hj (by omega)
      exact hsame fun hend => hre.field (.inr (by omega)) (by omega)
    · rw [heq] at hre
      rcases hre.type with htype | htype | htype
      · exact hsame fun _ => htype
      · exact not_weakObject (.inl rfl) htype
      · exact not_weakObject (.inr rfl) htype
    · have hapart := h.apart j hj i hi (by omega)
      exact hsame fun hend => hre.field (.inl (by omega)) (by omega)
  · intro j hj k hk hlt
    rw [hentry j hj, hentry k hk] at hlt ⊢
    exact h.apart j hj k hk hlt

theorem StrongParcel.translateObject {i : Nat} (h : StrongParcel c ls.kdata) (hl : Layout c total)
    (hf : Fits c total ls) (hi : i < c.count) :
    StrongParcel c (translateObject c ls i).1.kdata := by
  rcases translateObject_retypes hl hf rfl (h.strong i hi) with hsame | ⟨hin, hre⟩
  · rw [hsame]
    exact h
  · exact h.retypes hl hi rfl hin hre

/-- **The loop makes no weak object.** -/
theorem StrongParcel.translateLoop (h : StrongParcel c ls.kdata) (hl : Layout c total)
    (hf : Fits c total ls) (entries : List Nat) (hin : ∀ i ∈ entries, i < c.count) :
    StrongParcel c (translateLoop c ls entries).1.kdata := by
  induction entries generalizing ls with
  | nil => exact h
  | cons i rest ih =>
      have hi := hin i (by simp)
      have hkept := h.translateObject hl hf hi
      have hfits := (translateObject_spec hl hf hi).1
      rw [Binder.translateLoop]
      cases hturn : Binder.translateObject c ls i with
      | mk ls' error =>
          rw [hturn] at hkept hfits
          cases error with
          | some error => exact hkept
          | none => exact ih hkept hfits fun j hj => hin j (List.mem_cons_of_mem _ hj)

/-- **No weak object is met or left.**  A parcel of strong objects that keep
apart is translated into one. -/
theorem StrongParcel.not_carriesWeak {env : Env} {s : Driver} {p : ProcId} {th : ThreadId}
    {tr : TransactionData} {reply isSg : Bool}
    (h : ∀ c ls, Driver.sentParcel env s p th tr reply isSg = some (c, ls) →
      StrongParcel c ls.kdata) :
    ¬ Driver.CarriesWeak tr (Driver.sentParcel env s p th tr reply isSg) := by
  rintro ⟨c, ls, hparcel, hweak⟩
  have hstrong := h c ls hparcel
  obtain ⟨total, hl, hf, hsize, harea, hcount⟩ : ∃ total, Layout c total ∧ Fits c total ls ∧
      c.dataSize = tr.dataSize ∧ c.offArea = align tr.dataSize ∧ c.count = tr.offsetsSize / 8 := by
    unfold Driver.sentParcel at hparcel
    simp only at hparcel
    split at hparcel
    · cases hparcel
    · obtain ⟨hl, hf, -, -, hsize, harea, hcount, -⟩ := translationOf_layout hparcel
      exact ⟨_, hl, hf, hsize, harea, hcount⟩
  rcases hweak with ⟨done, i, rest, hentries, -, hmeet⟩ | ⟨i, hi, hlist⟩
  · have hrange : ∀ j ∈ done ++ i :: rest, j < c.count := by
      intro j hj
      rw [← hentries] at hj
      exact List.mem_range.mp hj
    have hdone := hstrong.translateLoop hl hf done
      fun j hj => hrange j (List.mem_append_left _ hj)
    exact hdone.strong i (hrange i (by simp)) hmeet
  · have hend := hstrong.translateLoop hl hf (List.range c.count) fun j hj => List.mem_range.mp hj
    rw [← harea, ← hsize] at hlist
    exact hend.strong i (by omega) hlist

end Binder
