import Mathlib.Algebra.Group.Nat.Defs
import Mathlib.Data.List.Basic

/-!
# Little-endian fields inside a byte list

A C structure laid over a byte buffer is read and written one field at a
time: a field is a run of bytes at a fixed distance from the start of the
structure, holding a number with its least significant byte first.  This file
gives the two accessors, `field` and `setField`, over an arbitrary byte list,
and the three laws everything else uses: a field reads back what was written
to it (`field_setField_same`), a write leaves every field it does not touch
alone (`slice_patch_frame`), and no write changes the length of the buffer.
-/

namespace LittleEndian

/-- A run of bytes. -/
abbrev Bytes := List UInt8

/-- The number whose little-endian digits are the given bytes. -/
def leNat : Bytes → Nat
  | [] => 0
  | b :: bs => b.toNat + 256 * leNat bs

/-- The `n` little-endian digits of `v`, high digits dropped. -/
def leBytes : Nat → Nat → Bytes
  | 0, _ => []
  | n+1, v => UInt8.ofNat (v % 256) :: leBytes n (v / 256)

/-- The `n` bytes starting at `off` (fewer where the list ends first). -/
def slice (bs : Bytes) (off n : Nat) : Bytes :=
  (bs.drop off).take n

/-- Overwrite the bytes starting at `off`. -/
def patch (bs : Bytes) (off : Nat) (new : Bytes) : Bytes :=
  bs.take off ++ new ++ bs.drop (off + new.length)

/-- The `n`-byte little-endian field at `off`. -/
def field (bs : Bytes) (off n : Nat) : Nat :=
  leNat (slice bs off n)

/-- Store `v` into the `n`-byte little-endian field at `off`. -/
def setField (bs : Bytes) (off n v : Nat) : Bytes :=
  patch bs off (leBytes n v)

@[simp] theorem leBytes_length (n v : Nat) : (leBytes n v).length = n := by
  induction n generalizing v with
  | zero => rfl
  | succ n ih => simp [leBytes, ih]

/-- Writing digits and reading them back reduces modulo the field width. -/
theorem leNat_leBytes (n v : Nat) : leNat (leBytes n v) = v % 256 ^ n := by
  induction n generalizing v with
  | zero => simp [leBytes, leNat, Nat.mod_one]
  | succ n ih =>
      have hdigit : (UInt8.ofNat (v % 256)).toNat = v % 256 := by
        simp
      rw [leBytes, leNat, ih, hdigit, Nat.pow_succ, Nat.mul_comm (256 ^ n) 256,
        Nat.mod_mul]

theorem leNat_lt (bs : Bytes) : leNat bs < 256 ^ bs.length := by
  induction bs with
  | nil => simp [leNat]
  | cons b bs ih =>
      have hb : b.toNat < 256 := b.toNat_lt
      rw [leNat, List.length_cons, Nat.pow_succ]
      omega

theorem slice_append {pre mid post : Bytes} (off : Nat) {n : Nat} (hn : off + n ≤ mid.length) :
    slice (pre ++ mid ++ post) (pre.length + off) n = slice mid off n := by
  have hoff : off ≤ mid.length := by omega
  have hleft : n ≤ (mid.drop off).length := by
    rw [List.length_drop]
    omega
  rw [slice, slice, List.append_assoc, List.drop_length_add_append,
    List.drop_append_of_le_length hoff, List.take_append_of_le_length hleft]

/-- A field written first is read back, reduced to its width. -/
theorem field_leBytes (n v : Nat) (bs : Bytes) : field (leBytes n v ++ bs) 0 n = v % 256 ^ n := by
  rw [field, slice, List.drop_zero, List.take_left' (leBytes_length n v), leNat_leBytes]

/-- A field written first whose value fits is read back as it is. -/
theorem field_leBytes_of_lt {n v : Nat} (bs : Bytes) (h : v < 256 ^ n) :
    field (leBytes n v ++ bs) 0 n = v :=
  (field_leBytes n v bs).trans (Nat.mod_eq_of_lt h)

/-- What is in front of a field is skipped. -/
theorem field_skip (bs bs' : Bytes) (off n : Nat) :
    field (bs ++ bs') (bs.length + off) n = field bs' off n := by
  rw [field, field, slice, slice, List.drop_length_add_append]

theorem field_lt (bs : Bytes) (off n : Nat) : field bs off n < 256 ^ n := by
  have hlen : (slice bs off n).length ≤ n := by
    simp only [slice, List.length_take]
    omega
  calc field bs off n < 256 ^ (slice bs off n).length := leNat_lt _
    _ ≤ 256 ^ n := Nat.pow_le_pow_right (by decide) hlen

/-- A write inside the buffer keeps its length. -/
theorem patch_length (bs : Bytes) (off : Nat) (new : Bytes)
    (h : off + new.length ≤ bs.length) :
    (patch bs off new).length = bs.length := by
  simp only [patch, List.length_append, List.length_take, List.length_drop]
  omega

/-- A store inside a buffer of `len` bytes leaves a buffer of `len` bytes. -/
theorem setField_length {bs : Bytes} {len off n v : Nat} (hlen : bs.length = len)
    (h : off + n ≤ len) : (setField bs off n v).length = len := by
  rw [setField, patch_length _ _ _ (by simpa [hlen] using h), hlen]

/-- The bytes just written are the bytes read back. -/
theorem slice_patch_same (bs : Bytes) (off : Nat) (new : Bytes)
    (h : off + new.length ≤ bs.length) :
    slice (patch bs off new) off new.length = new := by
  have htake : (bs.take off).length = off := by
    rw [List.length_take]
    omega
  have hdrop : (patch bs off new).drop off = new ++ bs.drop (off + new.length) := by
    rw [patch, List.append_assoc]
    exact List.drop_left' htake
  rw [slice, hdrop, List.take_left]

/-- **Frame law.**  A write leaves alone every run of bytes that lies wholly
before it or wholly behind it. -/
theorem slice_patch_frame (bs : Bytes) (off : Nat) (new : Bytes) (off' n : Nat)
    (h : off + new.length ≤ bs.length)
    (hdisj : off' + n ≤ off ∨ off + new.length ≤ off') :
    slice (patch bs off new) off' n = slice bs off' n := by
  apply List.ext_getElem?
  intro i
  simp only [slice, patch, List.getElem?_take, List.getElem?_drop]
  by_cases hi : i < n
  · simp only [hi, if_true]
    rcases hdisj with hbefore | hbehind
    · rw [List.append_assoc, List.getElem?_append_left (by
        rw [List.length_take]; omega), List.getElem?_take]
      simp [show off' + i < off by omega]
    · have hlen : (bs.take off ++ new).length = off + new.length := by
        rw [List.length_append, List.length_take]
        omega
      rw [List.getElem?_append_right (by omega), hlen, List.getElem?_drop]
      congr 1
      omega
  · simp [hi]

theorem field_setField_same (bs : Bytes) (off n v : Nat)
    (h : off + n ≤ bs.length) :
    field (setField bs off n v) off n = v % 256 ^ n := by
  have hread := slice_patch_same bs off (leBytes n v) (by simpa using h)
  rw [leBytes_length] at hread
  rw [field, setField, hread, leNat_leBytes]

theorem field_setField_frame (bs : Bytes) (off n v off' n' : Nat)
    (h : off + n ≤ bs.length)
    (hdisj : off' + n' ≤ off ∨ off + n ≤ off') :
    field (setField bs off n v) off' n' = field bs off' n' := by
  rw [field, field, setField,
    slice_patch_frame bs off _ off' n' (by simpa using h) (by simpa using hdisj)]

end LittleEndian
