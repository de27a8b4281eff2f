import DevfsBinder.ArenaTiling

/-!
# The oneway half of the arena

An asynchronous allocation is charged the bytes it asked for.  What it gives
back is the size of its record, which is larger when the hole it was taken from
left a remainder below `BINDER_MIN_SPLIT`.  As long as no asynchronous
allocation keeps such a remainder the budget is conserved; one that does pays
back more than it was charged.
-/

namespace Binder

/-- What a live asynchronous allocation was charged. -/
def Buffer.charge (buf : Buffer) : Nat :=
  if buf.free = false ∧ buf.async = true then buf.need else 0

/-- What a live asynchronous allocation occupies. -/
def Buffer.occupied (buf : Buffer) : Nat :=
  if buf.free = false ∧ buf.async = true then buf.size else 0

/-! ## Sums over the buffer list -/

section Totals

variable {f : Buffer → Nat}

/-- An allocation adds what it counts for. -/
theorem total_place (hf : ∀ buf, buf.free = true → f buf = 0) {need c : Nat}
    {bufs : List Buffer} {hole : Buffer} (hfit : firstFit need bufs = some hole)
    (split : Option BufferId) {fill : Buffer → Buffer}
    (hfill : ∀ size, f (fill { hole with size := size }) = c) :
    total f (placeIn need split fill bufs) = total f bufs + c := by
  obtain ⟨l₁, l₂, rfl, hfree, -, hplace⟩ := firstFit_spec hfit
  have hhole := hf hole hfree
  rw [hplace]
  cases split with
  | none =>
      have hwhole : f (fill hole) = c := hfill hole.size
      simp only [placed, total_append, total]
      omega
  | some id =>
      have hrest := hf { id := id, offset := hole.offset + need, size := hole.size - need } rfl
      simp only [placed, total_append, total, hfill]
      omega

theorem total_absorbNext (hf : ∀ buf, buf.free = true → f buf = 0) (buf : Buffer)
    (l : List Buffer) : total f (absorbNext buf l) = total f l := by
  have hreleased := hf buf.released rfl
  cases l with
  | nil => simp [absorbNext, total, hreleased]
  | cons next rest =>
      simp only [absorbNext]
      split
      · rename_i hnext
        simp only [total]
        rw [hf _ rfl, hf next hnext]
      · simp only [total]
        omega

/-- Merging free buffers changes no total over those in use. -/
theorem total_mergePrev (hf : ∀ buf, buf.free = true → f buf = 0) {b : BufferId}
    {l : List Buffer} (hfree : ∀ buf ∈ l, buf.id = b → buf.free = true) :
    total f (mergePrev b l) = total f l := by
  induction l with
  | nil => rfl
  | cons prev rest ih =>
      cases rest with
      | nil => rfl
      | cons buf rest =>
          have hrest := ih fun x hx => hfree x (List.mem_cons_of_mem _ hx)
          unfold mergePrev
          split
          · rename_i hb
            split
            · rename_i hprev
              have hmerged := hf { prev with size := prev.size + buf.size } hprev
              have hnone := hf prev hprev
              have hbuf := hf buf (hfree buf (by simp) hb)
              simp only [total]
              omega
            · rfl
          · simp only [total] at hrest ⊢
            omega

/-- A release takes away what its allocation counted for. -/
theorem total_release (hf : ∀ buf, buf.free = true → f buf = 0) {a : Arena} {k : Nat}
    (hok : ArenaOk a k) {buf : Buffer} (hmem : buf ∈ a.buffers) :
    total f (mergePrev buf.id (markFree buf.id a.buffers)) + f buf = total f a.buffers := by
  obtain ⟨l₁, l₂, hbufs⟩ := List.append_of_mem hmem
  have hnodup := hok.nodup
  rw [hbufs] at hnodup
  simp only [List.map_append, List.map_cons, List.nodup_append, List.nodup_cons] at hnodup
  have hne₁ : ∀ y ∈ l₁, y.id ≠ buf.id := fun y hy =>
    hnodup.2.2 y.id (List.mem_map_of_mem hy) buf.id (by simp)
  have hne₂ : ∀ y ∈ l₂, y.id ≠ buf.id := fun y hy he =>
    hnodup.2.1.1 (he ▸ List.mem_map_of_mem hy)
  have hmark : markFree buf.id (l₁ ++ buf :: l₂) = l₁ ++ absorbNext buf l₂ :=
    markFree_eq rfl (by simpa using hne₁)
  have hfree : ∀ y ∈ l₁ ++ absorbNext buf l₂, y.id = buf.id → y.free = true := by
    intro y hy hid
    rcases List.mem_append.mp hy with hy | hy
    · exact absurd hid (hne₁ y hy)
    · cases l₂ with
      | nil =>
          simp only [absorbNext, List.mem_singleton] at hy
          rw [hy]
          rfl
      | cons next rest =>
          simp only [absorbNext] at hy
          split at hy
          · rcases List.mem_cons.mp hy with rfl | hy
            · rfl
            · exact absurd hid (hne₂ y (List.mem_cons_of_mem _ hy))
          · rcases List.mem_cons.mp hy with rfl | hy
            · rfl
            · exact absurd hid (hne₂ y hy)
  rw [hbufs, hmark, total_mergePrev hf hfree, total_append, total_append,
    total_absorbNext hf buf l₂]
  simp only [total]
  omega

theorem total_map {g : Buffer → Buffer} (hg : ∀ buf, f (g buf) = f buf) (l : List Buffer) :
    total f (l.map g) = total f l := by
  induction l with
  | nil => rfl
  | cons buf rest ih => simp [total, hg, ih]

theorem total_mono {g : Buffer → Nat} {l : List Buffer} (h : ∀ buf ∈ l, f buf ≤ g buf) :
    total f l ≤ total g l := by
  induction l with
  | nil => exact Nat.le_refl _
  | cons buf rest ih =>
      have hbuf := h buf (by simp)
      have hrest := ih fun x hx => h x (List.mem_cons_of_mem _ hx)
      simp only [total]
      omega

theorem total_eq_zero {l : List Buffer} (h : ∀ buf ∈ l, f buf = 0) : total f l = 0 := by
  induction l with
  | nil => rfl
  | cons buf rest ih =>
      have hbuf := h buf (by simp)
      have hrest := ih fun x hx => h x (List.mem_cons_of_mem _ hx)
      simp only [total]
      omega

end Totals

theorem charge_of_free (buf : Buffer) (h : buf.free = true) : buf.charge = 0 := by
  simp [Buffer.charge, h]

/-! ## The budget -/

/-- An asynchronous allocation that the budget allows leaves no slack: the hole it
will be taken from is exactly large enough, or large enough for the remainder to
be split off. -/
def SnugFit (p : ProcId) (s : Driver) (need : Nat) (isAsync : Bool) : Prop :=
  isAsync = true → 0 < need → need ≤ (s.arenas p).freeAsyncSpace →
    ∀ hole, firstFit need (s.arenas p).buffers = some hole →
      hole.size = need ∨ need + minSplit ≤ hole.size

/-- The budget and what is charged against it make up half the arena, and every
asynchronous allocation occupies what it was charged. -/
structure Budgeted (a : Arena) : Prop where
  conserved : a.freeAsyncSpace + total Buffer.charge a.buffers = a.size / asyncFraction
  snug : ∀ buf ∈ a.buffers, buf.free = false → buf.async = true → buf.size = buf.need

theorem Budgeted.empty : Budgeted {} :=
  ⟨rfl, by simp⟩

section Calls

variable {p : ProcId} {s s' : Driver}

/-- A fresh arena has its whole budget. -/
theorem arenaRegister_budget (hb : Budgeted (s.arenas p)) (env : Env) (addr size : Nat) :
    Budgeted ((s.arenaRegister env p addr size).1.arenas p) := by
  unfold Driver.arenaRegister
  split
  · exact hb
  split
  · exact hb
  split
  · exact hb
  split
  · exact hb
  unfold Driver.allocMem
  by_cases hal : env.allocOk s.nextId = true
  · simp only [hal, if_true, Driver.updArena, Driver.updStats, Driver.bumpId,
      Function.update_self]
    refine ⟨?_, by simp⟩
    simp [total, Buffer.charge]
  · simp only [hal]
    exact hb

/-- An allocation is charged what it will be refunded if it is a snug fit. -/
theorem TakenFrom.budgeted {d o e : Nat} {isAsync : Bool} {hole : Buffer}
    {split : Option BufferId} (h : TakenFrom s s' p d o e isAsync hole split)
    (hb : Budgeted (s.arenas p)) (hsnug : SnugFit p s (needOf d o e) isAsync) :
    Budgeted (s'.arenas p) := by
  rw [h.arena]
  refine ⟨?_, ?_⟩
  · have hfill : ∀ size, (Buffer.allocated d o e isAsync { hole with size := size }).charge =
        if isAsync then needOf d o e else 0 := by
      intro size
      cases isAsync <;> simp [Buffer.charge, Buffer.allocated, Buffer.need]
    have htotal := total_place charge_of_free h.fit split hfill
    have hconserved := hb.conserved
    simp only [htotal]
    split
    · rename_i hasync
      have hpay := h.budget hasync
      omega
    · exact hconserved
  · intro buf hbuf hfree hasync
    obtain ⟨l₁, l₂, hbufs, -, hneed, hplace⟩ := firstFit_spec h.fit
    rw [hplace] at hbuf
    simp only [List.mem_append] at hbuf
    rcases hbuf with (hbuf | hbuf) | hbuf
    · exact hb.snug buf (by simp [hbufs, hbuf]) hfree hasync
    · cases split with
      | none =>
          simp only [placed, List.mem_singleton] at hbuf
          subst hbuf
          have hslack := h.split_none rfl
          -- no remainder was split off, so there was none
          rcases hsnug hasync h.need_pos (h.budget hasync) hole h.fit with heq | hlarge
          · exact heq
          · omega
      | some id =>
          simp only [placed, List.mem_cons, List.not_mem_nil, or_false] at hbuf
          rcases hbuf with rfl | rfl
          · rfl
          · cases hfree
    · exact hb.snug buf (by simp [hbufs, hbuf]) hfree hasync

/-- A release refunds the size of the buffer. -/
theorem bufferFree_budget (hok : ArenaOk (s.arenas p) s.nextId) (hb : Budgeted (s.arenas p))
    (b : BufferId) : Budgeted ((s.bufferFree p b).arenas p) := by
  obtain ⟨-, harena | ⟨buf, hmem, -, hfree, harena⟩⟩ := bufferFree_arena hok b
  · rw [harena]
    exact hb
  · rw [harena]
    refine ⟨?_, ?_⟩
    · have htotal := total_release charge_of_free hok hmem
      have hconserved := hb.conserved
      have hrefund : (if buf.async then buf.size else 0) = buf.charge := by
        cases hasync : buf.async with
        | false => simp [Buffer.charge, hasync]
        | true => simp [Buffer.charge, hasync, hfree, hb.snug buf hmem hfree hasync]
      simp only [hrefund]
      omega
    · obtain ⟨l, r, x, hrel⟩ := hok.released hmem
      intro y hy hyfree hasync
      simp only [hrel.eq, List.mem_append, List.mem_cons] at hy
      rcases hy with hy | rfl | hy
      · exact hb.snug y (hrel.old y (.inl hy)).1 hyfree hasync
      · rw [hrel.blank.free] at hyfree
        cases hyfree
      · exact hb.snug y (hrel.old y (.inr hy)).1 hyfree hasync

/-- Storing a copy charges nothing. -/
theorem store_budget (hb : Budgeted (s.arenas p)) (b : BufferId) (kdata : LittleEndian.Bytes) :
    Budgeted ((s.updBuffer p b fun buf => { buf with kdata := some kdata }).arenas p) := by
  simp only [Driver.updBuffer, Driver.updArena, Function.update_self]
  refine ⟨?_, ?_⟩
  · have htotal := total_map (f := Buffer.charge)
      (g := fun buf => if buf.id = b then { buf with kdata := some kdata } else buf)
      (by intro buf; split <;> rfl) (s.arenas p).buffers
    simp only [htotal]
    exact hb.conserved
  · intro y hy hfree hasync
    obtain ⟨z, hz, rfl⟩ := List.mem_map.mp hy
    by_cases hid : z.id = b
    · rw [if_pos hid] at hfree hasync ⊢
      exact hb.snug z hz hfree hasync
    · rw [if_neg hid] at hfree hasync ⊢
      exact hb.snug z hz hfree hasync

/-- What one call keeps. -/
theorem ArenaCall.budget (h : ArenaCall (SnugFit p) p s s')
    (hok : ArenaOk (s.arenas p) s.nextId) (hb : Budgeted (s.arenas p)) :
    Budgeted (s'.arenas p) := by
  cases h with
  | register env addr size => exact arenaRegister_budget hb env addr size
  | alloc env d o e isAsync hsnug =>
      rcases bufferAlloc_arena env s p d o e isAsync with ⟨-, harena, -⟩ | ⟨hole, split, -, htaken⟩
      · rw [harena]
        exact hb
      · exact htaken.budgeted hb hsnug
  | store tr extraSize buf kdata _ _ _ _ _ => exact store_budget hb buf.id kdata
  | free b => exact bufferFree_budget hok hb b
  | elsewhere s' harena _ =>
      rw [harena]
      exact hb

theorem ArenaRun.budget (h : ArenaRun (SnugFit p) p s) : Budgeted (s.arenas p) := by
  induction h with
  | start s hempty =>
      rw [hempty]
      exact .empty
  | call hrun hcall ih => exact hcall.budget hrun.keeps.1 ih

end Calls

/-- Half the arena is for oneway payloads, no more and no less. -/
structure Driver.BudgetKept (s : Driver) (p : ProcId) : Prop where
  conserved : (s.arenas p).freeAsyncSpace + total Buffer.charge (s.arenas p).buffers =
    (s.arenas p).size / asyncFraction
  capped : (s.arenas p).freeAsyncSpace ≤ (s.arenas p).size / asyncFraction
  halved : total Buffer.occupied (s.arenas p).buffers ≤ (s.arenas p).size / asyncFraction
  restored : (∀ buf ∈ (s.arenas p).buffers, buf.free = true) →
    (s.arenas p).freeAsyncSpace = (s.arenas p).size / asyncFraction

/-- **The budget is conserved while allocations are snug.** -/
theorem budget_kept_of_snug {p : ProcId} {s : Driver} (h : ArenaRun (SnugFit p) p s) :
    s.BudgetKept p := by
  obtain ⟨hconserved, hsnug⟩ := h.budget
  refine ⟨hconserved, by omega, ?_, ?_⟩
  · have hle : total Buffer.occupied (s.arenas p).buffers ≤
        total Buffer.charge (s.arenas p).buffers := by
      refine total_mono ?_
      intro buf hmem
      unfold Buffer.occupied Buffer.charge
      split
      · rename_i hlive
        exact Nat.le_of_eq (hsnug buf hmem hlive.1 hlive.2)
      · exact Nat.le_refl _
    omega
  · intro hall
    have hzero : total Buffer.charge (s.arenas p).buffers = 0 :=
      total_eq_zero fun buf hmem => charge_of_free buf (hall buf hmem)
    omega

/-! ## Two histories of one arena -/

/-- A oneway payload of 16 bytes in a fresh arena. -/
def onewayInFreshArena : Driver :=
  let s := (Driver.init.arenaRegister {} 1 0x100000 0x20000).1
  (s.bufferAlloc {} 1 16 0 0 true).2

theorem budget_kept_in_fresh_arena :
    total Buffer.charge (onewayInFreshArena.arenas 1).buffers = 16 ∧
      onewayInFreshArena.BudgetKept 1 := by
  have h₀ : ArenaRun (SnugFit 1) 1 Driver.init := .start Driver.init rfl
  have h₁ := h₀.call (.register {} 0x100000 0x20000)
  have hhole : firstFit (needOf 16 0 0)
      ((Driver.init.arenaRegister {} 1 0x100000 0x20000).1.arenas 1).buffers =
        some { id := 1, offset := 0, size := 0x20000 } := by
    decide +kernel
  have hsnug : SnugFit 1 (Driver.init.arenaRegister {} 1 0x100000 0x20000).1 (needOf 16 0 0)
      true := by
    intro _ _ _ hole hfit
    rw [← Option.some.inj (hhole.symm.trans hfit)]
    exact .inr (by decide)
  exact ⟨by decide +kernel,
    budget_kept_of_snug (s := onewayInFreshArena) (h₁.call (.alloc {} 16 0 0 true hsnug))⟩

/-- A oneway payload of 16 bytes takes a hole of 40, whose remainder is too
small to split off, and everything is freed again. -/
def onewayInSmallHole : Driver :=
  let s := (Driver.init.arenaRegister {} 1 0x100000 0x20000).1
  let s := (s.bufferAlloc {} 1 40 0 0 false).2
  let s := (s.bufferAlloc {} 1 8 0 0 false).2
  let s := s.bufferFree 1 1
  let s := (s.bufferAlloc {} 1 16 0 0 true).2
  (s.bufferFree 1 1).bufferFree 1 2

/-- The refund of a slack allocation leaves more budget than half the arena. -/
theorem refund_exceeds_charge :
    ArenaRun (fun _ _ _ => True) 1 onewayInSmallHole ∧
      (∀ buf ∈ (onewayInSmallHole.arenas 1).buffers, buf.free = true) ∧
      (onewayInSmallHole.arenas 1).freeAsyncSpace =
        (onewayInSmallHole.arenas 1).size / asyncFraction + 24 := by
  have h₀ : ArenaRun (fun _ _ _ => True) 1 Driver.init := .start Driver.init rfl
  have h₁ := h₀.call (.register {} 0x100000 0x20000)
  have h₂ := h₁.call (.alloc {} 40 0 0 false trivial)
  have h₃ := h₂.call (.alloc {} 8 0 0 false trivial)
  have h₄ := h₃.call (.free 1)
  have h₅ := h₄.call (.alloc {} 16 0 0 true trivial)
  exact ⟨(h₅.call (.free 1)).call (.free 2), by decide +kernel, by decide +kernel⟩

end Binder
