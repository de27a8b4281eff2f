import DevfsBinder.ArenaAllocator
import Mathlib.Data.List.Chain
import Mathlib.Data.List.Nodup

/-!
# What the arena's bookkeeping keeps

A buffer list is in order when its buffers have names of their own, a free
buffer remembers nothing of its last use, and no two free buffers stand side by
side.  Allocation and release keep it so, neither touches an allocation other
than the one it is about, and releasing what was just allocated gives back the
list it was taken from.
-/

namespace Binder

/-- A buffer that remembers nothing of its last use. -/
def Buffer.IsBlank (buf : Buffer) : Prop :=
  buf = { id := buf.id, offset := buf.offset, size := buf.size }

theorem Buffer.IsBlank.free {buf : Buffer} (h : buf.IsBlank) : buf.free = true := by
  rw [h]

theorem Buffer.IsBlank.resize {buf : Buffer} (h : buf.IsBlank) (size : Nat) :
    ({ buf with size := size } : Buffer).IsBlank := by
  unfold IsBlank at h ⊢
  rw [h]

/-- Two neighbours of which one is in use. -/
def Apart (buf next : Buffer) : Prop := ¬ (buf.free = true ∧ next.free = true)

structure ArenaOk (a : Arena) (bound : Nat) : Prop where
  nodup : (a.buffers.map Buffer.id).Nodup
  buffers_lt : ∀ buf ∈ a.buffers, buf.id < bound
  unregistered : a.size = 0 → a.buffers = []
  blank : ∀ buf ∈ a.buffers, buf.free = true → buf.IsBlank
  coalesced : a.buffers.IsChain Apart

theorem ArenaOk.mono {a : Arena} {k k' : Nat} (h : ArenaOk a k) (hk : k ≤ k') : ArenaOk a k' :=
  ⟨h.nodup, fun buf hbuf => Nat.lt_of_lt_of_le (h.buffers_lt buf hbuf) hk, h.unregistered,
    h.blank, h.coalesced⟩

theorem ArenaOk.empty (k : Nat) : ArenaOk {} k :=
  ⟨by simp, by simp, by simp, by simp, by simp⟩

/-- Changing buffers in use in place keeps the list in order. -/
theorem ArenaOk.map {a : Arena} {k : Nat} (h : ArenaOk a k) {f : Buffer → Buffer}
    (hid : ∀ buf ∈ a.buffers, (f buf).id = buf.id)
    (hfree : ∀ buf ∈ a.buffers, (f buf).free = buf.free)
    (hblank : ∀ buf ∈ a.buffers, buf.IsBlank → f buf = buf) :
    ArenaOk { a with buffers := a.buffers.map f } k := by
  refine ⟨?_, ?_, ?_, ?_, ?_⟩
  · have hids : (a.buffers.map f).map Buffer.id = a.buffers.map Buffer.id := by
      rw [List.map_map]
      exact List.map_congr_left hid
    rw [hids]
    exact h.nodup
  · intro buf hbuf
    obtain ⟨buf₀, hmem, rfl⟩ := List.mem_map.mp hbuf
    rw [hid buf₀ hmem]
    exact h.buffers_lt buf₀ hmem
  · intro hsize
    simp [h.unregistered hsize]
  · intro buf hbuf hf
    obtain ⟨buf₀, hmem, rfl⟩ := List.mem_map.mp hbuf
    have hb := h.blank buf₀ hmem (hfree buf₀ hmem ▸ hf)
    rw [hblank buf₀ hmem hb]
    exact hb
  · rw [List.isChain_map]
    refine h.coalesced.imp_of_mem_imp ?_
    intro buf next hbuf hnext hapart
    rw [Apart, hfree buf hbuf, hfree next hnext]
    exact hapart

/-! ## Buffers in use -/

/-- The allocation named `b`, if there is one. -/
def Arena.used (a : Arena) (b : BufferId) : Option Buffer :=
  (a.buffers.find? fun buf => buf.id = b).filter fun buf => !buf.free

/-- Ids are distinct, so the search finds the buffer of the id. -/
theorem ArenaOk.find_eq_some {a : Arena} {k : Nat} (h : ArenaOk a k) {b : BufferId}
    {buf : Buffer} :
    (a.buffers.find? fun buf => buf.id = b) = some buf ↔ buf ∈ a.buffers ∧ buf.id = b := by
  constructor
  · intro hfind
    exact ⟨List.mem_of_find?_eq_some hfind, by simpa using List.find?_some hfind⟩
  · rintro ⟨hmem, hid⟩
    cases hfind : a.buffers.find? fun buf => buf.id = b with
    | none =>
        have hno := List.find?_eq_none.mp hfind buf hmem
        simp [hid] at hno
    | some buf' =>
        have hid' : buf'.id = b := by simpa using List.find?_some hfind
        rw [List.inj_on_of_nodup_map h.nodup (List.mem_of_find?_eq_some hfind) hmem
          (hid'.trans hid.symm)]

theorem ArenaOk.used_eq_some {a : Arena} {k : Nat} (h : ArenaOk a k) {b : BufferId}
    {buf : Buffer} :
    a.used b = some buf ↔ (buf ∈ a.buffers ∧ buf.id = b) ∧ buf.free = false := by
  unfold Arena.used
  rw [Option.filter_eq_some_iff, h.find_eq_some]
  simp

/-- Changing buffers in place. -/
theorem used_map (a : Arena) {f : Buffer → Buffer} (hid : ∀ buf, (f buf).id = buf.id)
    (hfree : ∀ buf, (f buf).free = buf.free) (b : BufferId) :
    ({ a with buffers := a.buffers.map f } : Arena).used b = (a.used b).map f := by
  unfold Arena.used
  rw [List.find?_map]
  have hfun : ((fun buf => decide (buf.id = b)) ∘ f) = fun buf => decide (buf.id = b) := by
    funext buf
    simp [hid]
  rw [hfun]
  cases a.buffers.find? fun buf => decide (buf.id = b) with
  | none => rfl
  | some buf =>
      by_cases hf : buf.free = true <;> simp [Option.filter, hfree, hf]

/-! ## Allocation -/

/-- What stands in the place of a free buffer after an allocation from it. -/
def placed (need : Nat) (split : Option BufferId) (fill : Buffer → Buffer) (buf : Buffer) :
    List Buffer :=
  match split with
  | some id =>
      [fill { buf with size := need },
        { id := id, offset := buf.offset + need, size := buf.size - need }]
  | none => [fill buf]

/-- The first buffer that fits, and where the new ones go. -/
theorem firstFit_spec {need : Nat} {bufs : List Buffer} {buf : Buffer}
    (h : firstFit need bufs = some buf) :
    ∃ l₁ l₂, bufs = l₁ ++ buf :: l₂ ∧ buf.free = true ∧ need ≤ buf.size ∧
      ∀ split fill, placeIn need split fill bufs = l₁ ++ placed need split fill buf ++ l₂ := by
  induction bufs with
  | nil => simp [firstFit] at h
  | cons b bufs ih =>
      by_cases hfit : (b.free && decide (need ≤ b.size)) = true
      · have hb : b = buf := by simpa [firstFit, hfit] using h
        subst hb
        have hboth := hfit
        rw [Bool.and_eq_true, decide_eq_true_eq] at hboth
        refine ⟨[], bufs, rfl, hboth.1, hboth.2, ?_⟩
        intro split fill
        cases split <;> simp [placeIn, placed, hfit]
      · have hrest : firstFit need bufs = some buf := by simpa [firstFit, hfit] using h
        obtain ⟨l₁, l₂, rfl, hfree, hsize, hplace⟩ := ih hrest
        refine ⟨b :: l₁, l₂, rfl, hfree, hsize, ?_⟩
        intro split fill
        simp [placeIn, hfit, hplace]

/-- **An allocation keeps the laws**: what it writes over was free. -/
theorem ArenaOk.place {a : Arena} {k need : Nat} {buf : Buffer} (h : ArenaOk a k)
    (hfit : firstFit need a.buffers = some buf) {split : Option BufferId}
    (hsplit : ∀ id, split = some id → id < k ∧ id ∉ a.buffers.map Buffer.id)
    (d o e space : Nat) (isAsync : Bool) :
    ArenaOk { a with
      freeAsyncSpace := space
      buffers := placeIn need split (Buffer.allocated d o e isAsync) a.buffers } k := by
  obtain ⟨l₁, l₂, hbufs, hfree, -, hplace⟩ := firstFit_spec hfit
  have hnodup := h.nodup
  have hlt := h.buffers_lt
  have hblank := h.blank
  have hchain := h.coalesced
  rw [hplace]
  rw [hbufs] at hnodup hlt hblank hchain hsplit
  obtain ⟨hl₁, hl₂, hjoin⟩ := List.isChain_append.mp hchain
  obtain ⟨hhead, hl₂⟩ := List.isChain_cons.mp hl₂
  -- the neighbours of the free buffer are in use
  have hnext : ∀ y ∈ l₂.head?, y.free = false := by
    intro y hy
    have hapart := hhead y hy
    simpa [Apart, hfree] using hapart
  cases split with
  | none =>
      refine ⟨?_, ?_, ?_, ?_, ?_⟩
      · simpa [placed, Buffer.allocated] using hnodup
      · simp only [placed, Buffer.allocated, List.mem_append, List.mem_cons] at *
        grind
      · intro hsize
        have hnil := h.unregistered hsize
        simp [hbufs] at hnil
      · simp only [placed, List.mem_append, List.mem_singleton]
        rintro b ((hb | rfl) | hb) hbfree
        · exact hblank b (by simp [hb]) hbfree
        · simp [Buffer.allocated] at hbfree
        · exact hblank b (by simp [hb]) hbfree
      · simp only [placed, List.append_assoc, List.singleton_append]
        refine List.isChain_append.mpr ⟨hl₁, List.isChain_cons.mpr ⟨?_, hl₂⟩, ?_⟩ <;>
          simp [Apart, Buffer.allocated]
  | some id =>
      obtain ⟨hid, hnew⟩ := hsplit id rfl
      refine ⟨?_, ?_, ?_, ?_, ?_⟩
      · simp only [placed, Buffer.allocated, List.map_append, List.map_cons, List.map_nil] at *
        grind
      · simp only [placed, Buffer.allocated, List.mem_append, List.mem_cons] at *
        grind
      · intro hsize
        have hnil := h.unregistered hsize
        simp [hbufs] at hnil
      · simp only [placed, List.mem_append, List.mem_cons, List.not_mem_nil, or_false]
        rintro b ((hb | rfl | rfl) | hb) hbfree
        · exact hblank b (by simp [hb]) hbfree
        · simp [Buffer.allocated] at hbfree
        · rfl
        · exact hblank b (by simp [hb]) hbfree
      · simp only [placed, List.append_assoc, List.cons_append, List.nil_append]
        refine List.isChain_append.mpr ⟨hl₁, ?_, ?_⟩
        · refine List.isChain_cons_cons.mpr ⟨by simp [Apart, Buffer.allocated], ?_⟩
          refine List.isChain_cons.mpr ⟨?_, hl₂⟩
          intro y hy
          simp [Apart, hnext y hy]
        · simp [Apart, Buffer.allocated]

/-- An allocation takes a buffer that was free and leaves the others alone. -/
theorem ArenaOk.used_place {a : Arena} {k need : Nat} {buf : Buffer} (h : ArenaOk a k)
    (hfit : firstFit need a.buffers = some buf) {split : Option BufferId}
    (hsplit : ∀ id, split = some id → id < k ∧ id ∉ a.buffers.map Buffer.id)
    (d o e space : Nat) (isAsync : Bool) :
    a.used buf.id = none ∧
      ∃ size, ∀ b, ({ a with
        freeAsyncSpace := space
        buffers := placeIn need split (Buffer.allocated d o e isAsync) a.buffers } : Arena).used b =
          if b = buf.id then some (Buffer.allocated d o e isAsync { buf with size := size })
          else a.used b := by
  obtain ⟨l₁, l₂, hbufs, hfree, -, hplace⟩ := firstFit_spec hfit
  have hmem : buf ∈ a.buffers := by simp [hbufs]
  have hout : a.used buf.id = none := by
    cases hused : a.used buf.id with
    | none => rfl
    | some buf' =>
        obtain ⟨⟨hmem', hid'⟩, hfree'⟩ := h.used_eq_some.mp hused
        rw [List.inj_on_of_nodup_map h.nodup hmem' hmem hid', hfree] at hfree'
        cases hfree'
  have hne : ∀ y, y ∈ l₁ ∨ y ∈ l₂ → y.id ≠ buf.id := by
    have hnodup := h.nodup
    rw [hbufs] at hnodup
    simp only [List.map_append, List.map_cons, List.nodup_append, List.nodup_cons] at hnodup
    rintro y (hy | hy) he
    · exact hnodup.2.2 y.id (List.mem_map_of_mem hy) buf.id (by simp) he
    · exact hnodup.2.1.1 (he ▸ List.mem_map_of_mem hy)
  refine ⟨hout, if split.isSome then need else buf.size, ?_⟩
  intro b
  have hok := h.place hfit hsplit d o e space isAsync
  refine Option.ext fun y => ?_
  rw [hok.used_eq_some]
  simp only [hplace, List.mem_append]
  by_cases hb : b = buf.id
  · subst hb
    rw [if_pos rfl]
    cases split with
    | none =>
        simp only [placed, List.mem_singleton, Option.isSome_none, Bool.false_eq_true, if_false,
          Option.some.injEq]
        constructor
        · rintro ⟨⟨(hy | rfl) | hy, hyid⟩, hyfree⟩
          · exact absurd hyid (hne y (.inl hy))
          · rfl
          · exact absurd hyid (hne y (.inr hy))
        · rintro rfl
          exact ⟨⟨.inl (.inr rfl), rfl⟩, rfl⟩
    | some id =>
        simp only [placed, List.mem_cons, List.not_mem_nil, or_false, Option.isSome_some, if_true,
          Option.some.injEq]
        constructor
        · rintro ⟨⟨(hy | rfl | rfl) | hy, hyid⟩, hyfree⟩
          · exact absurd hyid (hne y (.inl hy))
          · rfl
          · cases hyfree
          · exact absurd hyid (hne y (.inr hy))
        · rintro rfl
          exact ⟨⟨.inl (.inr (.inl rfl)), rfl⟩, rfl⟩
  · rw [if_neg hb, h.used_eq_some, hbufs]
    simp only [List.mem_append, List.mem_cons]
    cases split with
    | none =>
        simp only [placed, List.mem_singleton]
        constructor
        · rintro ⟨⟨(hy | rfl) | hy, hyid⟩, hyfree⟩
          · exact ⟨⟨.inl hy, hyid⟩, hyfree⟩
          · exact absurd hyid.symm hb
          · exact ⟨⟨.inr (.inr hy), hyid⟩, hyfree⟩
        · rintro ⟨⟨hy | rfl | hy, hyid⟩, hyfree⟩
          · exact ⟨⟨.inl (.inl hy), hyid⟩, hyfree⟩
          · exact absurd hyid.symm hb
          · exact ⟨⟨.inr hy, hyid⟩, hyfree⟩
    | some id =>
        simp only [placed, List.mem_cons, List.not_mem_nil, or_false]
        constructor
        · rintro ⟨⟨(hy | rfl | rfl) | hy, hyid⟩, hyfree⟩
          · exact ⟨⟨.inl hy, hyid⟩, hyfree⟩
          · exact absurd hyid.symm hb
          · cases hyfree
          · exact ⟨⟨.inr (.inr hy), hyid⟩, hyfree⟩
        · rintro ⟨⟨hy | rfl | hy, hyid⟩, hyfree⟩
          · exact ⟨⟨.inl (.inl hy), hyid⟩, hyfree⟩
          · exact absurd hyid.symm hb
          · exact ⟨⟨.inr hy, hyid⟩, hyfree⟩

/-! ## Release -/

/-- The released buffer together with a free successor. -/
def absorbNext (buf : Buffer) : List Buffer → List Buffer
  | next :: rest =>
      if next.free then { buf.released with size := buf.size + next.size } :: rest
      else buf.released :: next :: rest
  | [] => [buf.released]

theorem markFree_eq {b : BufferId} {l₁ l₂ : List Buffer} {buf : Buffer} (hb : buf.id = b)
    (h₁ : b ∉ l₁.map Buffer.id) :
    markFree b (l₁ ++ buf :: l₂) = l₁ ++ absorbNext buf l₂ := by
  induction l₁ with
  | nil =>
      cases l₂ with
      | nil => simp [markFree, absorbNext, hb]
      | cons next rest => simp [markFree, absorbNext, hb]
  | cons x l₁ ih =>
      simp only [List.map_cons, List.mem_cons, not_or] at h₁
      simp [markFree, Ne.symm h₁.1, ih h₁.2]

theorem mergePrev_first {b : BufferId} {l : List Buffer} (x : Buffer)
    (h : b ∉ l.map Buffer.id) : mergePrev b (x :: l) = x :: l := by
  induction l generalizing x with
  | nil => rfl
  | cons y l ih =>
      simp only [List.map_cons, List.mem_cons, not_or] at h
      simp [mergePrev, Ne.symm h.1, ih y h.2]

/-- A free buffer is merged into its left neighbour if that is free. -/
theorem mergePrev_eq {b : BufferId} {l₀ : List Buffer} (l₂ : List Buffer) {prev x : Buffer}
    (h₀ : b ∉ l₀.map Buffer.id) (hprev : prev.id ≠ b) (hx : x.id = b) :
    mergePrev b (l₀ ++ prev :: x :: l₂) =
      if prev.free then l₀ ++ { prev with size := prev.size + x.size } :: l₂
      else l₀ ++ prev :: x :: l₂ := by
  induction l₀ with
  | nil =>
      simp only [List.nil_append, mergePrev, hx, if_true]
  | cons y l₀ ih =>
      simp only [List.map_cons, List.mem_cons, not_or] at h₀
      have hrest := ih h₀.2
      cases l₀ with
      | nil =>
          simp only [List.cons_append, List.nil_append, mergePrev, hprev, if_false] at hrest ⊢
          rw [hrest]
          split <;> rfl
      | cons z l₀ =>
          simp only [List.map_cons, List.mem_cons, not_or] at h₀
          simp only [List.cons_append, mergePrev, Ne.symm h₀.2.1, if_false] at hrest ⊢
          rw [hrest]
          split <;> rfl

/-- The released buffer swallows a free successor, and the one behind that is
in use. -/
theorem absorbNext_spec (buf : Buffer) {l : List Buffer} (hchain : l.IsChain Apart) :
    ∃ x rest, absorbNext buf l = x :: rest ∧ x.IsBlank ∧ x.id = buf.id ∧ rest.Sublist l ∧
      rest.IsChain Apart ∧ (∀ y ∈ rest.head?, y.free = false) ∧
      ∀ y ∈ l, y.free = false → y ∈ rest := by
  cases l with
  | nil => exact ⟨buf.released, [], rfl, rfl, rfl, .refl _, .nil, by simp, by simp⟩
  | cons next rest =>
      by_cases hnext : next.free = true
      · obtain ⟨hhead, hrest⟩ := List.isChain_cons.mp hchain
        refine ⟨{ buf.released with size := buf.size + next.size }, rest,
          by simp [absorbNext, hnext], rfl, rfl, .cons _ (.refl _), hrest, ?_, ?_⟩
        · intro y hy
          simpa [Apart, hnext] using hhead y hy
        · intro y hy hyf
          rcases List.mem_cons.mp hy with rfl | hy
          · rw [hnext] at hyf
            cases hyf
          · exact hy
      · exact ⟨buf.released, next :: rest, by simp [absorbNext, hnext], rfl, rfl, .refl _, hchain,
          by simpa using hnext, fun y hy _ => hy⟩

/-- A released buffer and the free ones around it become one blank buffer `x`;
everything else stays where it was. -/
structure Released (b : BufferId) (bufs l r : List Buffer) (x : Buffer) : Prop where
  eq : mergePrev b (markFree b bufs) = l ++ x :: r
  blank : x.IsBlank
  ids : ((l ++ x :: r).map Buffer.id).Sublist (bufs.map Buffer.id)
  old : ∀ y, y ∈ l ∨ y ∈ r → y ∈ bufs ∧ y.id ≠ b
  kept : ∀ y ∈ bufs, y.free = false → y.id ≠ b → y ∈ l ∨ y ∈ r
  chain_left : l.IsChain Apart
  chain_right : r.IsChain Apart
  last : ∀ y ∈ l.getLast?, y.free = false
  head : ∀ y ∈ r.head?, y.free = false

/-- What a release comes to, by which of the two neighbours are free. -/
theorem ArenaOk.released {a : Arena} {k : Nat} {buf : Buffer} (h : ArenaOk a k)
    (hmem : buf ∈ a.buffers) : ∃ l r x, Released buf.id a.buffers l r x := by
  obtain ⟨l₁, l₂, hbufs⟩ := List.append_of_mem hmem
  have hnodup := h.nodup
  have hchain := h.coalesced
  rw [hbufs] at hnodup hchain
  simp only [List.map_append, List.map_cons, List.nodup_append, List.nodup_cons] at hnodup
  have hne₁ : ∀ y ∈ l₁, y.id ≠ buf.id := fun y hy =>
    hnodup.2.2 y.id (List.mem_map_of_mem hy) buf.id (by simp)
  have hne₂ : ∀ y ∈ l₂, y.id ≠ buf.id := fun y hy he =>
    hnodup.2.1.1 (he ▸ List.mem_map_of_mem hy)
  obtain ⟨hc₁, hc₂, -⟩ := List.isChain_append.mp hchain
  obtain ⟨x, r, hx, hblank, hid, hsub, hcr, hhead, hkept⟩ :=
    absorbNext_spec buf (List.isChain_cons.mp hc₂).2
  have hner : buf.id ∉ r.map Buffer.id := by
    simp only [List.mem_map, not_exists, not_and]
    exact fun y hy => hne₂ y (hsub.subset hy)
  have hmark : markFree buf.id a.buffers = l₁ ++ x :: r := by
    rw [hbufs, markFree_eq rfl (by simpa using hne₁), hx]
  have holdr : ∀ y ∈ r, y ∈ a.buffers ∧ y.id ≠ buf.id := fun y hy =>
    ⟨by simp [hbufs, hsub.subset hy], hne₂ y (hsub.subset hy)⟩
  have hkeptr : ∀ y, y.free = false → y.id ≠ buf.id → y = buf ∨ y ∈ l₂ → y ∈ r := by
    rintro y hyf hyb (rfl | hy)
    · exact absurd rfl hyb
    · exact hkept y hy hyf
  rcases List.eq_nil_or_concat' l₁ with rfl | ⟨l₀, prev, rfl⟩
  · refine ⟨[], r, x, ?_, hblank, ?_, ?_, ?_, .nil, hcr, by simp, hhead⟩
    · rw [hmark, List.nil_append, mergePrev_first x hner]
    · simp only [hbufs, List.nil_append, List.map_cons, hid]
      exact (hsub.map _).cons_cons _
    · simpa using holdr
    · intro y hy hyf hyb
      exact .inr (hkeptr y hyf hyb (by simpa [hbufs] using hy))
  · have hne₀ : buf.id ∉ l₀.map Buffer.id := by
      simpa using fun y hy => hne₁ y (by simp [hy])
    have hmerge := mergePrev_eq r hne₀ (hne₁ prev (by simp)) hid
    rw [List.append_assoc, List.singleton_append] at hmark
    rw [← hmark] at hmerge
    by_cases hprev : prev.free = true
    · rw [if_pos hprev] at hmerge
      refine ⟨l₀, r, _, hmerge, ?_, ?_, ?_, ?_, ?_, hcr, ?_, hhead⟩
      · exact (h.blank prev (by simp [hbufs]) hprev).resize _
      · simp only [hbufs, List.map_append, List.map_cons, List.append_assoc,
          List.singleton_append]
        exact .append (.refl _) (((hsub.map _).cons _).cons_cons _)
      · rintro y (hy | hy)
        · exact ⟨by simp [hbufs, hy], hne₁ y (by simp [hy])⟩
        · exact holdr y hy
      · intro y hy hyf hyb
        have hyprev : y ≠ prev := fun he => by rw [he, hprev] at hyf; cases hyf
        have hy' : y ∈ l₀ ∨ y = buf ∨ y ∈ l₂ := by simpa [hbufs, hyprev] using hy
        exact hy'.imp_right (hkeptr y hyf hyb)
      · exact (List.isChain_append.mp hc₁).1
      · intro y hy
        have hapart := (List.isChain_append.mp hc₁).2.2 y hy prev (by simp)
        simpa [Apart, hprev] using hapart
    · rw [if_neg hprev] at hmerge
      refine ⟨l₀ ++ [prev], r, x, ?_, hblank, ?_, ?_, ?_, hc₁, hcr, ?_, hhead⟩
      · rw [hmerge, hmark, List.append_assoc, List.singleton_append]
      · simp only [hbufs, List.map_append, List.map_cons, List.map_nil, hid]
        exact .append (.refl _) ((hsub.map _).cons_cons _)
      · rintro y (hy | hy)
        · exact ⟨by rw [hbufs]; exact List.mem_append_left _ hy, hne₁ y hy⟩
        · exact holdr y hy
      · intro y hy hyf hyb
        rw [hbufs, List.mem_append, List.mem_cons] at hy
        exact hy.imp_right (hkeptr y hyf hyb)
      · simpa using hprev

/-- **A release keeps the laws.** -/
theorem ArenaOk.release {a : Arena} {k : Nat} {buf : Buffer} (h : ArenaOk a k)
    (hmem : buf ∈ a.buffers) (space : Nat) :
    ArenaOk { a with
      freeAsyncSpace := space
      buffers := mergePrev buf.id (markFree buf.id a.buffers) } k := by
  obtain ⟨l, r, x, hrel⟩ := h.released hmem
  rw [hrel.eq]
  refine ⟨hrel.ids.nodup h.nodup, ?_, ?_, ?_, ?_⟩
  · intro y hy
    obtain ⟨z, hz, hzid⟩ := List.mem_map.mp (hrel.ids.subset (List.mem_map_of_mem hy))
    rw [← hzid]
    exact h.buffers_lt z hz
  · intro hsize
    rw [h.unregistered hsize] at hmem
    cases hmem
  · intro y hy hyf
    simp only [List.mem_append, List.mem_cons] at hy
    rcases hy with hy | rfl | hy
    · exact h.blank y (hrel.old y (.inl hy)).1 hyf
    · exact hrel.blank
    · exact h.blank y (hrel.old y (.inr hy)).1 hyf
  · refine List.isChain_append.mpr
      ⟨hrel.chain_left, List.isChain_cons.mpr ⟨?_, hrel.chain_right⟩, ?_⟩
    · intro y hy
      simp [Apart, hrel.head y hy]
    · intro y hy z hz
      simp [Apart, hrel.last y hy]

/-- A release takes its own allocation and leaves the others alone. -/
theorem ArenaOk.used_release {a : Arena} {k : Nat} {buf : Buffer} (h : ArenaOk a k)
    (hmem : buf ∈ a.buffers) (space : Nat) (b : BufferId) :
    ({ a with
      freeAsyncSpace := space
      buffers := mergePrev buf.id (markFree buf.id a.buffers) } : Arena).used b =
        if b = buf.id then none else a.used b := by
  have hok := h.release hmem space
  obtain ⟨l, r, x, hrel⟩ := h.released hmem
  refine Option.ext fun y => ?_
  rw [hok.used_eq_some]
  simp only [hrel.eq, List.mem_append, List.mem_cons]
  split
  · rename_i hb
    simp only [reduceCtorEq, iff_false]
    rintro ⟨⟨hy | rfl | hy, hyid⟩, hyfree⟩
    · exact (hrel.old y (.inl hy)).2 (hyid.trans hb)
    · rw [hrel.blank.free] at hyfree
      cases hyfree
    · exact (hrel.old y (.inr hy)).2 (hyid.trans hb)
  · rename_i hb
    rw [h.used_eq_some]
    constructor
    · rintro ⟨⟨hy | rfl | hy, hyid⟩, hyfree⟩
      · exact ⟨⟨(hrel.old y (.inl hy)).1, hyid⟩, hyfree⟩
      · rw [hrel.blank.free] at hyfree
        cases hyfree
      · exact ⟨⟨(hrel.old y (.inr hy)).1, hyid⟩, hyfree⟩
    · rintro ⟨⟨hy, hyid⟩, hyfree⟩
      refine ⟨⟨?_, hyid⟩, hyfree⟩
      rcases hrel.kept y hy hyfree (fun he => hb (hyid.symm.trans he)) with hy | hy
      · exact .inl hy
      · exact .inr (.inr hy)

end Binder
