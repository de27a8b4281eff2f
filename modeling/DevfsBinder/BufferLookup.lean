import DevfsBinder.RunRefinement

/-!
# Buffers and their addresses

A client returns a buffer by the address it was told.  The look-up walks the
buffer list and stops at the first buffer that starts behind the address, which
is right because the list tiles the arena in order, and it compares distances
from the arena's base, which do not wrap because a registered arena ends below
`2 ^ 64`.  So the look-up inverts the address exactly: it finds the live buffer
that starts there and nothing else.
-/

namespace Binder

/-- The walk finds the live buffer at an offset, and nothing else. -/
theorem Tiles.lookupIn_eq_some {lo hi offset : Nat} {l : List Buffer} (h : Tiles lo l hi)
    {buf : Buffer} : lookupIn offset l = some buf ↔
      buf ∈ l ∧ buf.free = false ∧ buf.offset = offset := by
  refine ⟨fun hfound => Driver.lookupIn_some hfound, ?_⟩
  rintro ⟨hmem, hlive, rfl⟩
  induction l generalizing lo with
  | nil => cases hmem
  | cons x rest ih =>
      obtain ⟨hoff, hpos, -, hrest⟩ := h
      rw [lookupIn]
      rcases List.mem_cons.mp hmem with rfl | hmem
      · rw [if_pos rfl, hlive]
        rfl
      · -- everything behind the head starts after it
        have hlow := (hrest.inside hmem).1
        rw [if_neg (by omega), if_neg (by omega)]
        exact ih hrest hmem

/-- The look-up finds the live buffer at an address, and nothing else. -/
theorem Tiled.bufferLookup_eq_some {s : Driver} {p : ProcId} (h : Tiled (s.arenas p)) {ptr : Nat}
    {buf : Buffer} : s.bufferLookup p ptr = some buf ↔
      buf ∈ (s.arenas p).buffers ∧ buf.free = false ∧ ptr = s.bufferUaddr p buf := by
  unfold Driver.bufferLookup
  simp only
  constructor
  · intro hfound
    split at hfound
    · cases hfound
    · split at hfound
      · cases hfound
      · obtain ⟨hmem, hlive, hoffset⟩ := h.tiles.lookupIn_eq_some.mp hfound
        refine ⟨hmem, hlive, ?_⟩
        rw [h.uaddr hmem]
        omega
  · rintro ⟨hmem, hlive, rfl⟩
    obtain ⟨-, hend, hpos, -⟩ := h.tiles.inside hmem
    rw [h.uaddr hmem, if_neg (by omega), if_neg (by omega), Nat.add_sub_cancel_left]
    exact h.tiles.lookupIn_eq_some.mpr ⟨hmem, hlive, rfl⟩

/-- The look-up of `p` inverts the addresses of its buffers. -/
structure Driver.LooksUpExactly (s : Driver) (p : ProcId) : Prop where
  inverse : ∀ ptr buf, s.bufferLookup p ptr = some buf ↔
    buf ∈ (s.arenas p).buffers ∧ buf.free = false ∧ ptr = s.bufferUaddr p buf
  interior : ∀ buf ∈ (s.arenas p).buffers, ∀ ptr, s.bufferUaddr p buf < ptr →
    ptr < s.bufferUaddr p buf + buf.size → s.bufferLookup p ptr = none
  free : ∀ buf ∈ (s.arenas p).buffers, buf.free = true →
    s.bufferLookup p (s.bufferUaddr p buf) = none
  outside : ∀ ptr, ptr < (s.arenas p).addr ∨ (s.arenas p).addr + (s.arenas p).size ≤ ptr →
    s.bufferLookup p ptr = none

/-- In a tiled arena the look-up inverts the addresses. -/
theorem Tiled.looksUpExactly {s : Driver} {p : ProcId} (h : Tiled (s.arenas p)) :
    s.LooksUpExactly p := by
  have hnone : ∀ ptr, (∀ buf ∈ (s.arenas p).buffers, buf.free = false →
      ptr ≠ s.bufferUaddr p buf) → s.bufferLookup p ptr = none := by
    intro ptr hno
    cases hfound : s.bufferLookup p ptr with
    | none => rfl
    | some buf =>
        obtain ⟨hmem, hlive, haddr⟩ := h.bufferLookup_eq_some.mp hfound
        exact absurd haddr (hno buf hmem hlive)
  refine ⟨fun ptr buf => h.bufferLookup_eq_some, ?_, ?_, ?_⟩
  · intro buf hmem ptr hlow hhigh
    refine hnone ptr fun other hother _ haddr => ?_
    have hne : buf ≠ other := by
      rintro rfl
      omega
    have hapart := h.tiles.disjoint hmem hother hne
    obtain ⟨-, -, hpos, -⟩ := h.tiles.inside hother
    rw [h.uaddr hmem] at hlow hhigh
    rw [h.uaddr hother] at haddr
    omega
  · intro buf hmem hfree
    refine hnone _ fun other hother hlive haddr => ?_
    have hne : buf ≠ other := by
      rintro rfl
      rw [hfree] at hlive
      cases hlive
    have hapart := h.tiles.disjoint hmem hother hne
    obtain ⟨-, -, hpos, -⟩ := h.tiles.inside hmem
    obtain ⟨-, -, hpos', -⟩ := h.tiles.inside hother
    rw [h.uaddr hmem, h.uaddr hother] at haddr
    omega
  · intro ptr hout
    refine hnone ptr fun buf hmem _ haddr => ?_
    obtain ⟨-, hend, hpos, -⟩ := h.tiles.inside hmem
    rw [h.uaddr hmem] at haddr
    omega

/-- **The look-up inverts the address**, in every state of the driver and after
every sequence of calls on an arena. -/
theorem bufferLookup_inverts_uaddr {s : Driver} {p : ProcId}
    (h : Driver.Reachable s ∨ ArenaRun (fun _ _ _ => True) p s) : s.LooksUpExactly p := by
  rcases h with hreach | hrun
  · exact ((Driver.Reachable.steady hreach).sound.tiled p).looksUpExactly
  · exact hrun.keeps.2.looksUpExactly

theorem bufferLookup_inverts_uaddr_freedBeforeUse :
    freedBeforeUse.bufferLookup 1 0x100028 = (freedBeforeUse.arenas 1).used 2 ∧
      freedBeforeUse.bufferLookup 1 0x100000 = none ∧ freedBeforeUse.LooksUpExactly 1 :=
  ⟨by decide +kernel, by decide +kernel, bufferLookup_inverts_uaddr (.inr freedBeforeUse_run)⟩

end Binder
