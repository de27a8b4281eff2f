import DevfsBinder.ArenaLaws
import DevfsBinder.TransactionSend

/-!
# The arena is tiled, and its oneway budget

Whatever is registered, allocated and freed, in whatever order, the buffer list
covers the arena from its first byte to its last without gap or overlap.  The
budget for oneway payloads is another matter: an allocation is charged what it
asked for and refunded what its record covers, and the two differ when the
hole it came from left a remainder too small to split off.
-/

namespace Binder

open LittleEndian

/-! ## Tilings -/

/-- The buffers cover `[lo, hi)` one after the other, each a positive number
of eight-byte words. -/
def Tiles : Nat → List Buffer → Nat → Prop
  | lo, [], hi => lo = hi
  | lo, buf :: rest, hi =>
      buf.offset = lo ∧ 0 < buf.size ∧ 8 ∣ buf.size ∧ Tiles (lo + buf.size) rest hi

/-- The sum of a measure over a run of buffers. -/
def total (f : Buffer → Nat) : List Buffer → Nat
  | [] => 0
  | buf :: rest => f buf + total f rest

theorem total_append (f : Buffer → Nat) (l₁ l₂ : List Buffer) :
    total f (l₁ ++ l₂) = total f l₁ + total f l₂ := by
  induction l₁ with
  | nil => simp [total]
  | cons buf rest ih => simp [total, ih, Nat.add_assoc]

/-- How many bytes a run of buffers covers. -/
def coverage (l : List Buffer) : Nat := total Buffer.size l

theorem Tiles.hi_eq {lo hi : Nat} {l : List Buffer} (h : Tiles lo l hi) :
    hi = lo + coverage l := by
  induction l generalizing lo with
  | nil =>
      simp only [Tiles] at h
      simp only [coverage, total]
      omega
  | cons buf rest ih =>
      have hrest := ih h.2.2.2
      simp only [coverage, total] at hrest ⊢
      omega

theorem tiles_append {lo hi : Nat} {l₁ l₂ : List Buffer} :
    Tiles lo (l₁ ++ l₂) hi ↔
      Tiles lo l₁ (lo + coverage l₁) ∧ Tiles (lo + coverage l₁) l₂ hi := by
  induction l₁ generalizing lo with
  | nil => simp [Tiles, coverage, total]
  | cons buf rest ih =>
      have hcover : coverage (buf :: rest) = buf.size + coverage rest := rfl
      simp only [List.cons_append, Tiles, hcover, ih, Nat.add_assoc]
      constructor
      · intro h
        exact ⟨⟨h.1, h.2.1, h.2.2.1, h.2.2.2.1⟩, h.2.2.2.2⟩
      · intro h
        exact ⟨h.1.1, h.1.2.1, h.1.2.2.1, h.1.2.2.2, h.2⟩

/-- Every buffer of a tiling lies inside it. -/
theorem Tiles.inside {lo hi : Nat} {l : List Buffer} (h : Tiles lo l hi) {buf : Buffer}
    (hmem : buf ∈ l) :
    lo ≤ buf.offset ∧ buf.offset + buf.size ≤ hi ∧ 0 < buf.size ∧ 8 ∣ buf.size := by
  induction l generalizing lo with
  | nil => cases hmem
  | cons b rest ih =>
      obtain ⟨hoff, hpos, hdvd, hrest⟩ := h
      have hhi := hrest.hi_eq
      rcases List.mem_cons.mp hmem with heq | hmem
      · subst heq
        exact ⟨by omega, by omega, hpos, hdvd⟩
      · obtain ⟨hlo, hrest'⟩ := ih hrest hmem
        exact ⟨by omega, hrest'⟩

/-- Earlier buffers end before later ones begin. -/
theorem Tiles.pairwise {lo hi : Nat} {l : List Buffer} (h : Tiles lo l hi) :
    l.Pairwise fun x y => x.offset + x.size ≤ y.offset := by
  induction l generalizing lo with
  | nil => exact .nil
  | cons buf rest ih =>
      obtain ⟨hoff, -, -, hrest⟩ := h
      refine List.Pairwise.cons ?_ (ih hrest)
      intro y hy
      have hlo := (hrest.inside hy).1
      omega

/-- Each buffer of a tiling begins where its predecessor ends. -/
theorem Tiles.chain {lo hi : Nat} {l : List Buffer} (h : Tiles lo l hi) :
    l.IsChain fun x y => x.offset + x.size = y.offset := by
  induction l generalizing lo with
  | nil => exact .nil
  | cons buf rest ih =>
      obtain ⟨hoff, -, -, hrest⟩ := h
      refine List.isChain_cons.mpr ⟨?_, ih hrest⟩
      intro y hy
      cases rest with
      | nil => simp at hy
      | cons z rest =>
          have hyz : z = y := by simpa using hy
          have hz := hrest.1
          rw [← hyz, hoff, hz]

/-- Two buffers at different places of a tiling do not overlap. -/
theorem Tiles.disjoint {lo hi : Nat} {l : List Buffer} (h : Tiles lo l hi) {x y : Buffer}
    (hx : x ∈ l) (hy : y ∈ l) (hne : x ≠ y) :
    x.offset + x.size ≤ y.offset ∨ y.offset + y.size ≤ x.offset := by
  induction l generalizing lo with
  | nil => cases hx
  | cons b rest ih =>
      obtain ⟨hoff, -, -, hrest⟩ := h
      rcases List.mem_cons.mp hx with hxb | hx <;> rcases List.mem_cons.mp hy with hyb | hy
      · exact absurd (hxb.trans hyb.symm) hne
      · have hlo := (hrest.inside hy).1
        subst hxb
        omega
      · have hlo := (hrest.inside hx).1
        subst hyb
        omega
      · exact ih hrest hx hy

theorem Tiles.map {lo hi : Nat} {l : List Buffer} (h : Tiles lo l hi) {f : Buffer → Buffer}
    (hoff : ∀ buf, (f buf).offset = buf.offset) (hsize : ∀ buf, (f buf).size = buf.size) :
    Tiles lo (l.map f) hi := by
  induction l generalizing lo with
  | nil => exact h
  | cons buf rest ih =>
      simp only [List.map_cons, Tiles, hoff, hsize]
      exact ⟨h.1, h.2.1, h.2.2.1, ih h.2.2.2⟩

/-! ## Allocation and release -/

theorem dvd_align (x : Nat) : 8 ∣ align x :=
  Nat.dvd_mul_left 8 _

theorem dvd_needOf (d o e : Nat) : 8 ∣ needOf d o e := by
  have hd := dvd_align d
  have ho := dvd_align o
  have he := dvd_align e
  unfold needOf
  omega

/-- Taking a free buffer, with or without splitting it. -/
theorem Tiles.place {lo hi need : Nat} {l : List Buffer} (h : Tiles lo l hi) {buf : Buffer}
    (hfit : firstFit need l = some buf) (hpos : 0 < need) (hdvd : 8 ∣ need)
    {split : Option BufferId} (hsplit : split ≠ none → need < buf.size) {fill : Buffer → Buffer}
    (hoff : ∀ buf, (fill buf).offset = buf.offset) (hsize : ∀ buf, (fill buf).size = buf.size) :
    Tiles lo (placeIn need split fill l) hi := by
  obtain ⟨l₁, l₂, hl, -, hneed, hplace⟩ := firstFit_spec hfit
  rw [hplace, List.append_assoc]
  rw [hl] at h
  obtain ⟨h₁, h₂⟩ := tiles_append.mp h
  refine tiles_append.mpr ⟨h₁, ?_⟩
  obtain ⟨hbo, hbpos, hbdvd, hrest⟩ := h₂
  cases split with
  | none => exact ⟨(hoff buf).trans hbo, by rw [hsize]; exact hbpos, by rw [hsize]; exact hbdvd,
      by rw [hsize]; exact hrest⟩
  | some id =>
      have hlt := hsplit (by simp)
      have hend : lo + coverage l₁ + need + (buf.size - need) = lo + coverage l₁ + buf.size := by
        omega
      simp only [placed, List.cons_append, List.nil_append, Tiles, hoff, hsize, hend]
      exact ⟨hbo, hpos, hdvd, by omega, by omega, by omega, hrest⟩

/-- Marking a buffer free moves no boundary. -/
theorem Tiles.markFree {lo hi : Nat} {l : List Buffer} (h : Tiles lo l hi) (b : BufferId) :
    Tiles lo (markFree b l) hi := by
  induction l generalizing lo with
  | nil => exact h
  | cons buf rest ih =>
      obtain ⟨hoff, hpos, hdvd, hrest⟩ := h
      unfold Binder.markFree
      split
      · cases rest with
        | nil => exact ⟨hoff, hpos, hdvd, hrest⟩
        | cons next rest =>
            obtain ⟨-, hnpos, hndvd, hrest'⟩ := id hrest
            simp only
            split
            · refine ⟨hoff, ?_, ?_, ?_⟩
              · exact Nat.add_pos_left hpos _
              · exact Nat.dvd_add hdvd hndvd
              · simpa [Nat.add_assoc] using hrest'
            · exact ⟨hoff, hpos, hdvd, hrest⟩
      · exact ⟨hoff, hpos, hdvd, ih hrest⟩

/-- Merging joins two neighbours. -/
theorem Tiles.mergePrev {lo hi : Nat} {l : List Buffer} (h : Tiles lo l hi) (b : BufferId) :
    Tiles lo (mergePrev b l) hi := by
  induction l generalizing lo with
  | nil => exact h
  | cons prev rest ih =>
      obtain ⟨hoff, hpos, hdvd, hrest⟩ := h
      cases rest with
      | nil => exact ⟨hoff, hpos, hdvd, hrest⟩
      | cons buf rest =>
          unfold Binder.mergePrev
          split
          · split
            · obtain ⟨-, hbpos, hbdvd, hrest'⟩ := hrest
              refine ⟨hoff, Nat.add_pos_left hpos _, Nat.dvd_add hdvd hbdvd, ?_⟩
              simpa [Nat.add_assoc] using hrest'
            · exact ⟨hoff, hpos, hdvd, hrest⟩
          · exact ⟨hoff, hpos, hdvd, ih hrest⟩


/-! ## One allocation, as its process's arena sees it -/

/-- An allocation that succeeded: the hole it was taken from, and the record of
the remainder if that was split off. -/
structure TakenFrom (s s' : Driver) (p : ProcId) (d o e : Nat) (isAsync : Bool)
    (hole : Buffer) (split : Option BufferId) : Prop where
  fit : firstFit (needOf d o e) (s.arenas p).buffers = some hole
  need_pos : 0 < needOf d o e
  budget : isAsync = true → needOf d o e ≤ (s.arenas p).freeAsyncSpace
  split_some : ∀ id, split = some id →
    id = s.nextId ∧ s'.nextId = s.nextId + 1 ∧ minSplit ≤ hole.size - needOf d o e
  split_none : split = none → hole.size - needOf d o e < minSplit
  nextId_le : s.nextId ≤ s'.nextId
  arena : s'.arenas p =
    { s.arenas p with
      freeAsyncSpace :=
        (s.arenas p).freeAsyncSpace - if isAsync then needOf d o e else 0
      buffers :=
        placeIn (needOf d o e) split (Buffer.allocated d o e isAsync) (s.arenas p).buffers }

/-- What an allocation does to its arena. -/
theorem bufferAlloc_arena (env : Env) (s : Driver) (p : ProcId) (d o e : Nat) (isAsync : Bool) :
    ((s.bufferAlloc env p d o e isAsync).1 = none ∧
        (s.bufferAlloc env p d o e isAsync).2.arenas p = s.arenas p ∧
        s.nextId ≤ (s.bufferAlloc env p d o e isAsync).2.nextId) ∨
      ∃ hole split, (s.bufferAlloc env p d o e isAsync).1 = some hole.id ∧
        TakenFrom s (s.bufferAlloc env p d o e isAsync).2 p d o e isAsync hole split := by
  rcases s.bufferAlloc_ends env p d o e isAsync with heq | heq |
    ⟨hole, split, s₁, hfit, hpos, hpay, hsplit, heq⟩
  · rw [heq]
    exact .inl ⟨rfl, rfl, Nat.le_refl _⟩
  · rw [heq]
    exact .inl ⟨rfl, rfl, Nat.le_succ _⟩
  · rw [heq]
    refine .inr ⟨hole, split, rfl, ?_⟩
    rcases hsplit with ⟨rfl, rfl, hsmall⟩ | ⟨rfl, rfl, hlarge⟩
    · exact ⟨hfit, hpos, hpay, by simp, fun _ => hsmall, Nat.le_refl _, by simp [Driver.updArena]⟩
    · refine ⟨hfit, hpos, hpay, ?_, by simp, Nat.le_succ _,
        by simp [Driver.updArena, Driver.bumpId]⟩
      rintro id ⟨⟩
      exact ⟨rfl, rfl, hlarge⟩

/-- A release, as its process's arena sees it. -/
theorem bufferFree_arena {s : Driver} {p : ProcId} (hok : ArenaOk (s.arenas p) s.nextId)
    (b : BufferId) :
    (s.bufferFree p b).nextId = s.nextId ∧
      ((s.bufferFree p b).arenas p = s.arenas p ∨
        ∃ buf, buf ∈ (s.arenas p).buffers ∧ buf.id = b ∧ buf.free = false ∧
          (s.bufferFree p b).arenas p =
            { s.arenas p with
              freeAsyncSpace :=
                (s.arenas p).freeAsyncSpace + if buf.async then buf.size else 0
              buffers := mergePrev buf.id (markFree buf.id (s.arenas p).buffers) }) := by
  unfold Driver.bufferFree
  split
  · exact ⟨rfl, .inl rfl⟩
  · rename_i buf hfind
    split
    · exact ⟨rfl, .inl rfl⟩
    · rename_i hfree
      obtain ⟨hmem, rfl⟩ := hok.find_eq_some.mp hfind
      refine ⟨rfl, .inr ⟨buf, hmem, rfl, by simpa using hfree, ?_⟩⟩
      simp [Driver.updArena, Driver.updStats]

/-! ## Sequences of calls -/

/-- One call on the arena of `p`.  An allocation may be refused by `ok`;
`store` is the payload copy a send puts into the buffer it allocated, and
`elsewhere` whatever the driver does to other records in between. -/
inductive ArenaCall (ok : Driver → Nat → Bool → Prop) (p : ProcId) (s : Driver) : Driver → Prop
  | register (env : Env) (addr size : Nat) : ArenaCall ok p s (s.arenaRegister env p addr size).1
  | alloc (env : Env) (d o e : Nat) (isAsync : Bool) (hok : ok s (needOf d o e) isAsync) :
      ArenaCall ok p s (s.bufferAlloc env p d o e isAsync).2
  | store (tr : TransactionData) (extraSize : Nat) (buf : Buffer) (kdata : Bytes)
      (hused : (s.arenas p).used buf.id = some buf) (hdata : buf.dataSize = tr.dataSize)
      (hoffsets : buf.offsetsSize = tr.offsetsSize) (hextra : buf.extraBuffersSize = extraSize)
      (hlen : kdata.length = Driver.totalOf tr extraSize) :
      ArenaCall ok p s (s.updBuffer p buf.id fun buf => { buf with kdata := some kdata })
  | free (b : BufferId) : ArenaCall ok p s (s.bufferFree p b)
  | elsewhere (s' : Driver) (harena : s'.arenas p = s.arenas p) (hid : s.nextId ≤ s'.nextId) :
      ArenaCall ok p s s'

/-- Any number of calls, on an arena that was not registered before. -/
inductive ArenaRun (ok : Driver → Nat → Bool → Prop) (p : ProcId) : Driver → Prop
  | start (s : Driver) (h : s.arenas p = {}) : ArenaRun ok p s
  | call {s s' : Driver} (h : ArenaRun ok p s) (hcall : ArenaCall ok p s s') : ArenaRun ok p s'

/-- The bytes an allocation was charged for. -/
def Buffer.need (buf : Buffer) : Nat :=
  needOf buf.dataSize buf.offsetsSize buf.extraBuffersSize

/-- The buffers tile the arena, and each is large enough for its payload. -/
structure Tiled (a : Arena) : Prop where
  tiles : Tiles 0 a.buffers a.size
  bound : a.addr + a.size < 2 ^ 64
  fits : ∀ buf ∈ a.buffers, buf.free = false → buf.need ≤ buf.size
  holds : ∀ buf ∈ a.buffers, ∀ kdata, buf.kdata = some kdata → kdata.length = buf.need

theorem Tiled.empty : Tiled {} :=
  ⟨rfl, by decide, by simp, by simp⟩

/-- An arena as it is registered: one free buffer. -/
theorem Tiled.fresh {addr size space : Nat} (id : BufferId) (hpos : 0 < size) (hdvd : 8 ∣ size)
    (hbound : addr + size < 2 ^ 64) :
    Tiled { addr := addr, size := size, freeAsyncSpace := space,
            buffers := [{ id := id, offset := 0, size := size }] } :=
  ⟨⟨rfl, hpos, hdvd, by simp [Tiles]⟩, hbound, by simp, by simp⟩

/-- Two records of the same bytes. -/
structure Buffer.SameRoom (buf buf' : Buffer) : Prop where
  offset : buf'.offset = buf.offset
  size : buf'.size = buf.size
  free : buf'.free = buf.free
  need : buf'.need = buf.need

theorem Buffer.SameRoom.refl (buf : Buffer) : buf.SameRoom buf := ⟨rfl, rfl, rfl, rfl⟩

/-- Records may change as long as they stand for the same bytes and what they
carry fits. -/
theorem Tiled.map {a : Arena} (h : Tiled a) {f : Buffer → Buffer}
    (hroom : ∀ buf : Buffer, buf.SameRoom (f buf))
    (hkdata : ∀ buf ∈ a.buffers, ∀ kdata, (f buf).kdata = some kdata →
      buf.kdata = some kdata ∨ kdata.length = buf.need) :
    Tiled { a with buffers := a.buffers.map f } := by
  refine ⟨h.tiles.map (fun buf => (hroom buf).offset) fun buf => (hroom buf).size, h.bound, ?_, ?_⟩
  · intro y hy hfree
    obtain ⟨buf, hbuf, rfl⟩ := List.mem_map.mp hy
    rw [(hroom buf).free] at hfree
    rw [(hroom buf).need, (hroom buf).size]
    exact h.fits buf hbuf hfree
  · intro y hy kdata hk
    obtain ⟨buf, hbuf, rfl⟩ := List.mem_map.mp hy
    rw [(hroom buf).need]
    rcases hkdata buf hbuf kdata hk with hold | hlen
    · exact h.holds buf hbuf kdata hold
    · exact hlen

/-- An allocation. -/
theorem Tiled.place {a : Arena} (h : Tiled a) {d o e : Nat} {hole : Buffer}
    (split : Option BufferId) (hfit : firstFit (needOf d o e) a.buffers = some hole)
    (hpos : 0 < needOf d o e) (hsplit : split ≠ none → needOf d o e < hole.size) (space : Nat)
    (isAsync : Bool) :
    Tiled { a with
      freeAsyncSpace := space
      buffers := placeIn (needOf d o e) split (Buffer.allocated d o e isAsync) a.buffers } := by
  obtain ⟨l₁, l₂, hbufs, -, hneed, hplace⟩ := firstFit_spec hfit
  -- a buffer of the new list is an old one, the allocation, or the remainder
  have hcases : ∀ buf ∈ placeIn (needOf d o e) split (Buffer.allocated d o e isAsync) a.buffers,
      buf ∈ a.buffers ∨
        (buf.need = needOf d o e ∧ needOf d o e ≤ buf.size ∧ buf.kdata = none) ∨
        (buf.free = true ∧ buf.kdata = none) := by
    intro buf hbuf
    rw [hplace] at hbuf
    rw [hbufs]
    simp only [List.mem_append, List.mem_cons] at hbuf ⊢
    rcases hbuf with (hbuf | hbuf) | hbuf
    · exact .inl (.inl hbuf)
    · cases split with
      | none =>
          simp only [placed, List.mem_singleton] at hbuf
          subst hbuf
          exact .inr (.inl ⟨rfl, hneed, rfl⟩)
      | some id =>
          simp only [placed, List.mem_cons, List.not_mem_nil, or_false] at hbuf
          rcases hbuf with rfl | rfl
          · exact .inr (.inl ⟨rfl, Nat.le_refl _, rfl⟩)
          · exact .inr (.inr ⟨rfl, rfl⟩)
    · exact .inl (.inr (.inr hbuf))
  refine ⟨?_, h.bound, ?_, ?_⟩
  · exact h.tiles.place hfit hpos (dvd_needOf d o e) hsplit (fun _ => rfl) (fun _ => rfl)
  · intro buf hbuf hfree
    rcases hcases buf hbuf with hold | ⟨hneed', hsize, -⟩ | ⟨hfree', -⟩
    · exact h.fits buf hold hfree
    · omega
    · rw [hfree] at hfree'
      cases hfree'
  · intro buf hbuf kdata hkdata
    rcases hcases buf hbuf with hold | ⟨-, -, hnone⟩ | ⟨-, hnone⟩
    · exact h.holds buf hold kdata hkdata
    · rw [hnone] at hkdata
      cases hkdata
    · rw [hnone] at hkdata
      cases hkdata

/-- A release. -/
theorem Tiled.release {a : Arena} {k : Nat} (h : Tiled a) (hok : ArenaOk a k) {buf : Buffer}
    (hmem : buf ∈ a.buffers) (space : Nat) :
    Tiled { a with
      freeAsyncSpace := space
      buffers := Binder.mergePrev buf.id (Binder.markFree buf.id a.buffers) } := by
  obtain ⟨l, r, x, hrel⟩ := hok.released hmem
  have hold : ∀ y ∈ Binder.mergePrev buf.id (Binder.markFree buf.id a.buffers),
      y ∈ a.buffers ∨ y.IsBlank := by
    intro y hy
    rw [hrel.eq] at hy
    simp only [List.mem_append, List.mem_cons] at hy
    rcases hy with hy | rfl | hy
    · exact .inl (hrel.old y (.inl hy)).1
    · exact .inr hrel.blank
    · exact .inl (hrel.old y (.inr hy)).1
  refine ⟨(h.tiles.markFree _).mergePrev _, h.bound, ?_, ?_⟩
  · intro y hy hfree
    rcases hold y hy with hy | hblank
    · exact h.fits y hy hfree
    · rw [hblank.free] at hfree
      cases hfree
  · intro y hy kdata hkdata
    rcases hold y hy with hy | hblank
    · exact h.holds y hy kdata hkdata
    · rw [hblank] at hkdata
      cases hkdata

/-- The kernel copy of a payload is as long as its buffer was asked to be. -/
theorem totalOf_eq_needOf (tr : TransactionData) (extraSize : Nat) :
    Driver.totalOf tr extraSize = needOf tr.dataSize tr.offsetsSize extraSize := by
  simp only [Driver.totalOf, Driver.sgAreaOf, Driver.offAreaOf, needOf, Nat.mod_add_mod]

section Calls

variable {ok : Driver → Nat → Bool → Prop} {p : ProcId} {s s' : Driver}

/-- A fresh arena is one free buffer, which tiles it. -/
theorem arenaRegister_keeps (hok : ArenaOk (s.arenas p) s.nextId) (htiled : Tiled (s.arenas p))
    (env : Env) (addr size : Nat) :
    ArenaOk ((s.arenaRegister env p addr size).1.arenas p)
        (s.arenaRegister env p addr size).1.nextId ∧
      Tiled ((s.arenaRegister env p addr size).1.arenas p) := by
  unfold Driver.arenaRegister
  split
  · exact ⟨hok, htiled⟩
  split
  · exact ⟨hok, htiled⟩
  rename_i hsize
  split
  · exact ⟨hok, htiled⟩
  rename_i hpage
  split
  · exact ⟨hok, htiled⟩
  rename_i haddr
  unfold Driver.allocMem
  by_cases hal : env.allocOk s.nextId = true
  · simp only [hal, if_true, Driver.updArena, Driver.updStats, Driver.bumpId,
      Function.update_self]
    have hpos : 0 < size := by
      unfold arenaMin at hsize
      omega
    have hdvd : 8 ∣ size := by
      refine Nat.dvd_trans env.pageSize_dvd (Nat.dvd_of_mod_eq_zero ?_)
      omega
    have hwrap : size < 2 ^ 64 := by
      unfold arenaMax at hsize
      omega
    refine ⟨⟨by simp, by simp, ?_, ?_, by simp⟩, .fresh _ hpos hdvd (by omega)⟩
    · intro hzero
      exact absurd hzero (Nat.ne_of_gt hpos)
    · simp [Buffer.IsBlank]
  · simp only [hal]
    exact ⟨hok.mono (Nat.le_succ _), htiled⟩

/-- An allocation keeps the arena tiled. -/
theorem TakenFrom.keeps {d o e : Nat} {isAsync : Bool} {hole : Buffer} {split : Option BufferId}
    (h : TakenFrom s s' p d o e isAsync hole split) (hok : ArenaOk (s.arenas p) s.nextId)
    (htiled : Tiled (s.arenas p)) : ArenaOk (s'.arenas p) s'.nextId ∧ Tiled (s'.arenas p) := by
  have hfresh : ∀ id, split = some id →
      id < s'.nextId ∧ id ∉ (s.arenas p).buffers.map Buffer.id := by
    intro id hid
    obtain ⟨rfl, hnext, -⟩ := h.split_some id hid
    refine ⟨hnext ▸ Nat.lt_succ_self _, ?_⟩
    intro hmem
    obtain ⟨buf, hbuf, hbid⟩ := List.mem_map.mp hmem
    have hlt := hok.buffers_lt buf hbuf
    rw [hbid] at hlt
    exact Nat.lt_irrefl _ hlt
  have hsplit : split ≠ none → needOf d o e < hole.size := by
    intro hne
    obtain ⟨id, rfl⟩ := Option.ne_none_iff_exists'.mp hne
    have hmin := (h.split_some id rfl).2.2
    unfold minSplit at hmin
    omega
  rw [h.arena]
  exact ⟨(hok.mono h.nextId_le).place h.fit hfresh d o e _ isAsync,
    htiled.place split h.fit h.need_pos hsplit _ isAsync⟩

theorem bufferFree_keeps (hok : ArenaOk (s.arenas p) s.nextId) (htiled : Tiled (s.arenas p))
    (b : BufferId) :
    ArenaOk ((s.bufferFree p b).arenas p) (s.bufferFree p b).nextId ∧
      Tiled ((s.bufferFree p b).arenas p) := by
  obtain ⟨hid, harena | ⟨buf, hmem, -, -, harena⟩⟩ := bufferFree_arena hok b
  · rw [hid, harena]
    exact ⟨hok, htiled⟩
  · rw [hid, harena]
    exact ⟨hok.release hmem _, htiled.release hok hmem _⟩

/-- Storing a copy of the right length keeps the arena tiled. -/
theorem store_keeps (hok : ArenaOk (s.arenas p) s.nextId) (htiled : Tiled (s.arenas p))
    {buf : Buffer} {kdata : Bytes} (hused : (s.arenas p).used buf.id = some buf)
    (hlen : kdata.length = buf.need) :
    ArenaOk ((s.updBuffer p buf.id fun buf => { buf with kdata := some kdata }).arenas p)
        s.nextId ∧
      Tiled ((s.updBuffer p buf.id fun buf => { buf with kdata := some kdata }).arenas p) := by
  obtain ⟨⟨hmem, -⟩, hfree⟩ := hok.used_eq_some.mp hused
  have hsame : ∀ y ∈ (s.arenas p).buffers, y.id = buf.id → y = buf := fun y hy hid =>
    List.inj_on_of_nodup_map hok.nodup hy hmem hid
  simp only [Driver.updBuffer, Driver.updArena, Function.update_self]
  refine ⟨hok.map ?_ ?_ ?_, htiled.map ?_ ?_⟩
  · intro y _
    split <;> rfl
  · intro y _
    split <;> rfl
  · intro y hy hblank
    split
    · rename_i hid
      rw [hsame y hy hid] at hblank
      rw [hblank.free] at hfree
      cases hfree
    · rfl
  · intro y
    split
    · exact ⟨rfl, rfl, rfl, rfl⟩
    · exact .refl y
  · intro y hy k hk
    by_cases hid : y.id = buf.id
    · rw [if_pos hid] at hk
      have hkk : kdata = k := by simpa using hk
      rw [← hkk, hsame y hy hid]
      exact .inr hlen
    · rw [if_neg hid] at hk
      exact .inl hk

/-- What one call keeps. -/
theorem ArenaCall.keeps (h : ArenaCall ok p s s') (hok : ArenaOk (s.arenas p) s.nextId)
    (htiled : Tiled (s.arenas p)) : ArenaOk (s'.arenas p) s'.nextId ∧ Tiled (s'.arenas p) := by
  cases h with
  | register env addr size => exact arenaRegister_keeps hok htiled env addr size
  | alloc env d o e isAsync _ =>
      rcases bufferAlloc_arena env s p d o e isAsync with
        ⟨-, harena, hid⟩ | ⟨hole, split, -, htaken⟩
      · rw [harena]
        exact ⟨hok.mono hid, htiled⟩
      · exact htaken.keeps hok htiled
  | store tr extraSize buf kdata hused hdata hoffsets hextra hlen =>
      refine store_keeps hok htiled hused ?_
      rw [hlen, totalOf_eq_needOf, Buffer.need, hdata, hoffsets, hextra]
  | free b => exact bufferFree_keeps hok htiled b
  | elsewhere s' harena hid =>
      rw [harena]
      exact ⟨hok.mono hid, htiled⟩

/-- What every sequence of calls keeps. -/
theorem ArenaRun.keeps (h : ArenaRun ok p s) :
    ArenaOk (s.arenas p) s.nextId ∧ Tiled (s.arenas p) := by
  induction h with
  | start s hempty =>
      rw [hempty]
      exact ⟨.empty _, .empty⟩
  | call _ hcall ih => exact hcall.keeps ih.1 ih.2

end Calls

/-! ## The arena of a process -/

/-- The buffer list covers the registered arena, and its allocations keep to
themselves. -/
structure Driver.ArenaCovered (s : Driver) (p : ProcId) : Prop where
  ordered : (s.arenas p).buffers.Pairwise fun x y => x.offset < y.offset
  first : ∀ buf, (s.arenas p).buffers.head? = some buf → buf.offset = 0
  adjacent : (s.arenas p).buffers.IsChain fun x y => x.offset + x.size = y.offset
  last : ∀ buf, (s.arenas p).buffers.getLast? = some buf →
    buf.offset + buf.size = (s.arenas p).size
  nonempty : (s.arenas p).size ≠ 0 → (s.arenas p).buffers ≠ []
  words : ∀ buf ∈ (s.arenas p).buffers, 0 < buf.size ∧ buf.size % 8 = 0
  coalesced : (s.arenas p).buffers.IsChain fun x y => ¬ (x.free = true ∧ y.free = true)
  disjoint : ∀ x ∈ (s.arenas p).buffers, ∀ y ∈ (s.arenas p).buffers,
    x.free = false → y.free = false → x ≠ y →
      s.bufferUaddr p x + x.size ≤ s.bufferUaddr p y ∨
        s.bufferUaddr p y + y.size ≤ s.bufferUaddr p x
  inside : ∀ x ∈ (s.arenas p).buffers,
    (s.arenas p).addr ≤ s.bufferUaddr p x ∧
      s.bufferUaddr p x + x.size ≤ (s.arenas p).addr + (s.arenas p).size
  copyout : ∀ x ∈ (s.arenas p).buffers, ∀ kdata, x.kdata = some kdata →
    s.bufferUaddr p x + kdata.length ≤ s.bufferUaddr p x + x.size

theorem Tiled.uaddr {s : Driver} {p : ProcId} (h : Tiled (s.arenas p)) {buf : Buffer}
    (hmem : buf ∈ (s.arenas p).buffers) :
    s.bufferUaddr p buf = (s.arenas p).addr + buf.offset := by
  obtain ⟨-, hend, hpos, -⟩ := h.tiles.inside hmem
  have hbound := h.bound
  exact Nat.mod_eq_of_lt (by omega)

theorem Tiles.last {lo hi : Nat} {l : List Buffer} (h : Tiles lo l hi) {buf : Buffer}
    (hlast : l.getLast? = some buf) : buf.offset + buf.size = hi := by
  obtain ⟨l₀, rfl⟩ := List.getLast?_eq_some_iff.mp hlast
  obtain ⟨-, hbuf⟩ := tiles_append.mp h
  obtain ⟨hoff, -, -, hend⟩ := hbuf
  simp only [Tiles] at hend
  omega

/-- **The arena is tiled.**  After any sequence of registrations, allocations
and frees the buffer list covers the arena in order and without gap. -/
theorem arena_covered {p : ProcId} {s : Driver} (h : ArenaRun (fun _ _ _ => True) p s) :
    s.ArenaCovered p := by
  obtain ⟨hok, htiled⟩ := h.keeps
  have htiles := htiled.tiles
  constructor
  · refine htiles.pairwise.imp_of_mem ?_
    intro x y hx _ hxy
    have hpos := (htiles.inside hx).2.2.1
    omega
  · intro buf hhead
    cases hbufs : (s.arenas p).buffers with
    | nil => simp [hbufs] at hhead
    | cons x rest =>
        rw [hbufs] at htiles hhead
        have hx : x = buf := by simpa using hhead
        rw [← hx]
        exact htiles.1
  · exact htiles.chain
  · intro buf hlast
    exact htiles.last hlast
  · intro hsize hnil
    have hhi := htiles.hi_eq
    simp only [hnil, coverage, total] at hhi
    omega
  · intro buf hmem
    obtain ⟨-, -, hpos, hdvd⟩ := htiles.inside hmem
    exact ⟨hpos, Nat.mod_eq_zero_of_dvd hdvd⟩
  · exact hok.coalesced
  · intro x hx y hy _ _ hne
    rw [htiled.uaddr hx, htiled.uaddr hy]
    have hdisj := htiles.disjoint hx hy hne
    omega
  · intro x hx
    obtain ⟨-, hend, -, -⟩ := htiles.inside hx
    rw [htiled.uaddr hx]
    omega
  · intro x hx kdata hkdata
    have hused : x.free = false := by
      cases hfree : x.free with
      | false => rfl
      | true =>
          rw [hok.blank x hx hfree] at hkdata
          cases hkdata
    have hfits := htiled.fits x hx hused
    have hholds := htiled.holds x hx kdata hkdata
    omega

/-- An arena after two allocations, the first of which was freed again. -/
def freedBeforeUse : Driver :=
  let s := (Driver.init.arenaRegister {} 1 0x100000 0x20000).1
  let s := (s.bufferAlloc {} 1 40 0 0 false).2
  let s := (s.bufferAlloc {} 1 8 0 0 true).2
  s.bufferFree 1 1

theorem freedBeforeUse_run : ArenaRun (fun _ _ _ => True) 1 freedBeforeUse := by
  have h₀ : ArenaRun (fun _ _ _ => True) 1 Driver.init := .start Driver.init rfl
  have h₁ := h₀.call (.register {} 0x100000 0x20000)
  have h₂ := h₁.call (.alloc {} 40 0 0 false trivial)
  have h₃ := h₂.call (.alloc {} 8 0 0 true trivial)
  exact h₃.call (.free 1)

theorem arena_covered_freedBeforeUse :
    (freedBeforeUse.arenas 1).buffers.map (fun buf => (buf.offset, buf.size, buf.free)) =
        [(0, 40, true), (40, 8, false), (48, 0x20000 - 48, true)] ∧
      freedBeforeUse.ArenaCovered 1 :=
  ⟨by decide +kernel, arena_covered freedBeforeUse_run⟩

end Binder
