import DevfsBinder.ArenaTiling

/-!
# Free space is found and given back

The allocator looks at one free buffer at a time.  Because the buffers tile the
arena and no two free ones stand side by side, every run of bytes that nothing
uses lies inside a single free buffer: an allocation finds room exactly when
there is room, and takes the lowest.

A release merges with whichever neighbours are free at that moment.  Joining
adjacent free runs is associative, so what is left after several releases is the
normal form of the list in which all of them are marked free at once, whatever
the order.
-/

namespace Binder

/-! ## Runs of free bytes -/

/-- The `need` bytes from `lo` on lie in the arena and in no buffer in use. -/
structure FreeRun (a : Arena) (need lo : Nat) : Prop where
  inside : lo + need ≤ a.size
  clear : ∀ buf ∈ a.buffers, buf.free = false →
    lo + need ≤ buf.offset ∨ buf.offset + buf.size ≤ lo

/-- Every byte of the arena belongs to a buffer. -/
theorem Tiles.covering {lo hi : Nat} {l : List Buffer} (h : Tiles lo l hi) {x : Nat}
    (hlo : lo ≤ x) (hhi : x < hi) :
    ∃ l₁ buf l₂, l = l₁ ++ buf :: l₂ ∧ buf.offset ≤ x ∧ x < buf.offset + buf.size := by
  induction l generalizing lo with
  | nil =>
      simp only [Tiles] at h
      omega
  | cons b rest ih =>
      obtain ⟨hoff, -, -, hrest⟩ := h
      by_cases hx : x < lo + b.size
      · exact ⟨[], b, rest, rfl, by omega, by omega⟩
      · obtain ⟨l₁, buf, l₂, rfl, hle, hlt⟩ := ih hrest (by omega)
        exact ⟨b :: l₁, buf, l₂, rfl, hle, hlt⟩

/-- What follows a buffer starts where the buffer ends. -/
theorem Tiles.next {lo hi : Nat} {l₁ l₂ : List Buffer} {buf : Buffer}
    (h : Tiles lo (l₁ ++ buf :: l₂) hi) : Tiles (buf.offset + buf.size) l₂ hi := by
  obtain ⟨-, hbuf⟩ := tiles_append.mp h
  obtain ⟨hoff, -, -, hrest⟩ := hbuf
  rw [hoff]
  exact hrest

/-- A free run lies inside one free buffer. -/
theorem FreeRun.within {a : Arena} {k need lo : Nat} (hok : ArenaOk a k) (htiled : Tiled a)
    (h : FreeRun a need lo) (hpos : 0 < need) :
    ∃ buf ∈ a.buffers, buf.free = true ∧ need ≤ buf.size ∧ buf.offset ≤ lo := by
  have hend := h.inside
  obtain ⟨l₁, buf, l₂, hbufs, hle, hlt⟩ :=
    htiled.tiles.covering (Nat.zero_le lo) (show lo < a.size by omega)
  have hmem : buf ∈ a.buffers := by simp [hbufs]
  have hfree : buf.free = true := by
    by_contra hused
    have hclear := h.clear buf hmem (Bool.not_eq_true _ ▸ hused)
    omega
  refine ⟨buf, hmem, hfree, ?_, hle⟩
  by_contra hsmall
  -- the run goes on into the next buffer, which is in use
  have hnext : Tiles (buf.offset + buf.size) l₂ a.size := (hbufs ▸ htiled.tiles).next
  have hchain := hok.coalesced
  rw [hbufs] at hchain
  obtain ⟨-, hchain, -⟩ := List.isChain_append.mp hchain
  cases l₂ with
  | nil =>
      simp only [Tiles] at hnext
      omega
  | cons next rest =>
      obtain ⟨hoff, -⟩ := hnext
      have hapart : Apart buf next := (List.isChain_cons_cons.mp hchain).1
      have hused : next.free = false := by simpa [Apart, hfree] using hapart
      have hclear := h.clear next (by simp [hbufs]) hused
      omega

/-- A free buffer is a free run. -/
theorem Tiled.freeRun {a : Arena} (h : Tiled a) {buf : Buffer} (hmem : buf ∈ a.buffers)
    (hfree : buf.free = true) {need : Nat} (hneed : need ≤ buf.size) :
    FreeRun a need buf.offset := by
  obtain ⟨-, hend, -, -⟩ := h.tiles.inside hmem
  refine ⟨by omega, fun other hother hused => ?_⟩
  have hne : buf ≠ other := by
    rintro rfl
    rw [hfree] at hused
    cases hused
  have hdisj := h.tiles.disjoint hmem hother hne
  omega

/-! ## Allocation -/

/-- The buffer taken is the first one that fits. -/
theorem firstFit_least {lo hi need : Nat} {l : List Buffer} (h : Tiles lo l hi) {hole : Buffer}
    (hfit : firstFit need l = some hole) {buf : Buffer} (hmem : buf ∈ l)
    (hfree : buf.free = true) (hneed : need ≤ buf.size) : hole.offset ≤ buf.offset := by
  obtain ⟨-, l₁, l₂, rfl, hskipped⟩ := List.find?_eq_some_iff_append.mp hfit
  rcases List.mem_append.mp hmem with hbefore | hafter
  · have hskip := hskipped buf hbefore
    simp [hfree, hneed] at hskip
  · rcases List.mem_cons.mp hafter with rfl | hbehind
    · exact Nat.le_refl _
    · have hlo := (h.next.inside hbehind).1
      omega

/-- Buffer `b` of `a'` was taken from `a`: from the lowest run of `need` free
bytes, with every other buffer in use left as it was. -/
structure TakenLowest (a a' : Arena) (need : Nat) (b : BufferId) : Prop where
  fresh : a.used b = none
  record : ∃ buf, a'.used b = some buf ∧ need ≤ buf.size ∧ FreeRun a buf.size buf.offset ∧
    ∀ lo, FreeRun a need lo → buf.offset ≤ lo
  others : ∀ b', b' ≠ b → a'.used b' = a.used b'

section Alloc

variable {p : ProcId} {s : Driver} {env : Env} {d o e : Nat}

/-- A synchronous allocation with memory for a split record succeeds if some
free buffer fits. -/
theorem bufferAlloc_sync (hpos : 0 < needOf d o e) (hle : needOf d o e ≤ (s.arenas p).size)
    (hmem : env.allocOk s.nextId = true) :
    (s.bufferAlloc env p d o e false).1 =
      (firstFit (needOf d o e) (s.arenas p).buffers).map Buffer.id := by
  unfold Driver.bufferAlloc
  simp only
  rw [if_neg (by omega), if_neg (by omega), if_neg (by simp)]
  cases firstFit (needOf d o e) (s.arenas p).buffers with
  | none => rfl
  | some hole =>
      simp only [Driver.allocMem, hmem, if_true]
      split <;> rfl

/-- What was taken from a hole was the lowest there is. -/
theorem TakenFrom.lowest {s' : Driver} {hole : Buffer} {split : Option BufferId}
    (h : TakenFrom s s' p d o e false hole split) (hok : ArenaOk (s.arenas p) s.nextId)
    (htiled : Tiled (s.arenas p)) :
    TakenLowest (s.arenas p) (s'.arenas p) (needOf d o e) hole.id := by
  obtain ⟨hok', htiled'⟩ := h.keeps hok htiled
  have hfresh : ∀ id, split = some id →
      id < s'.nextId ∧ id ∉ (s.arenas p).buffers.map Buffer.id := by
    intro id hid
    obtain ⟨rfl, hnext, -⟩ := h.split_some id hid
    refine ⟨hnext ▸ Nat.lt_succ_self _, fun hmem => ?_⟩
    obtain ⟨buf, hbuf, hbid⟩ := List.mem_map.mp hmem
    exact absurd (hok.buffers_lt buf hbuf) (hbid ▸ Nat.lt_irrefl _)
  obtain ⟨hfree, size, hused⟩ := (hok.mono h.nextId_le).used_place h.fit hfresh d o e
    ((s.arenas p).freeAsyncSpace - if false = true then needOf d o e else 0) false
  rw [← h.arena] at hused
  have hself := hused hole.id
  rw [if_pos rfl] at hself
  have hothers : ∀ b', b' ≠ hole.id → (s'.arenas p).used b' = (s.arenas p).used b' :=
    fun b' hb' => by rw [hused b', if_neg hb']
  obtain ⟨⟨hmem', -⟩, hinuse⟩ := hok'.used_eq_some.mp hself
  have hfits := htiled'.fits _ hmem' hinuse
  have hneed : (Buffer.allocated d o e false { hole with size := size }).need = needOf d o e := rfl
  have hoffset : (Buffer.allocated d o e false { hole with size := size }).offset = hole.offset :=
    rfl
  have hid : (Buffer.allocated d o e false { hole with size := size }).id = hole.id := rfl
  generalize Buffer.allocated d o e false { hole with size := size } = taken
    at hself hmem' hinuse hfits hneed hoffset hid
  rw [hneed] at hfits
  refine ⟨hfree, ⟨taken, hself, hfits, ⟨?_, ?_⟩, ?_⟩, hothers⟩
  · have hsize : (s'.arenas p).size = (s.arenas p).size := by rw [h.arena]
    rw [← hsize]
    exact (htiled'.tiles.inside hmem').2.1
  · -- a buffer that was in use still is, beside the new one
    intro y hy hyused
    have hyold : (s.arenas p).used y.id = some y := hok.used_eq_some.mpr ⟨⟨hy, rfl⟩, hyused⟩
    have hne : y.id ≠ hole.id := by
      intro heq
      rw [heq, hfree] at hyold
      cases hyold
    have hynew := (hothers y.id hne).trans hyold
    obtain ⟨⟨hymem, -⟩, -⟩ := hok'.used_eq_some.mp hynew
    exact htiled'.tiles.disjoint hmem' hymem fun heq => hne (heq ▸ hid)
  · intro lo hrun
    rw [hoffset]
    obtain ⟨buf, hmem, hbfree, hneed, hle⟩ := hrun.within hok htiled h.need_pos
    exact Nat.le_trans (firstFit_least htiled.tiles h.fit hmem hbfree hneed) hle

/-- **Allocation is complete and first-fit.**  A synchronous request that could
fit an empty arena is met exactly when that many bytes in a row are free, and
then from the lowest. -/
theorem alloc_takes_lowest (h : ArenaRun (fun _ _ _ => True) p s)
    (hpos : 0 < needOf d o e) (hle : needOf d o e ≤ (s.arenas p).size)
    (hmem : env.allocOk s.nextId = true) :
    ((s.bufferAlloc env p d o e false).1.isSome ↔
        ∃ lo, FreeRun (s.arenas p) (needOf d o e) lo) ∧
      ∀ b, (s.bufferAlloc env p d o e false).1 = some b →
        TakenLowest (s.arenas p) ((s.bufferAlloc env p d o e false).2.arenas p) (needOf d o e)
          b := by
  obtain ⟨hok, htiled⟩ := h.keeps
  have hresult := bufferAlloc_sync hpos hle hmem
  constructor
  · rw [hresult, Option.isSome_map]
    constructor
    · intro hsome
      obtain ⟨hole, hfit⟩ := Option.isSome_iff_exists.mp hsome
      obtain ⟨l₁, l₂, hbufs, hfree, hneed, -⟩ := firstFit_spec hfit
      exact ⟨hole.offset, htiled.freeRun (by simp [hbufs]) hfree hneed⟩
    · rintro ⟨lo, hrun⟩
      obtain ⟨buf, hbuf, hfree, hneed, -⟩ := hrun.within hok htiled hpos
      exact List.find?_isSome.mpr ⟨buf, hbuf, by simp [hfree, hneed]⟩
  · intro b hb
    rcases bufferAlloc_arena env s p d o e false with ⟨hnone, -⟩ | ⟨hole, split, hsome, htaken⟩
    · rw [hnone] at hb
      cases hb
    · rw [hsome] at hb
      cases hb
      exact htaken.lowest hok htiled

end Alloc

/-- The hole in front of the one buffer in use is taken again. -/
theorem alloc_takes_lowest_reused :
    (freedBeforeUse.bufferAlloc {} 1 32 0 0 false).1 = some 1 ∧
      (∃ lo, FreeRun (freedBeforeUse.arenas 1) (needOf 32 0 0) lo) ∧
      TakenLowest (freedBeforeUse.arenas 1)
        ((freedBeforeUse.bufferAlloc {} 1 32 0 0 false).2.arenas 1) (needOf 32 0 0) 1 := by
  have hmem : ({} : Env).allocOk freedBeforeUse.nextId = true := rfl
  obtain ⟨hiff, htaken⟩ := alloc_takes_lowest (d := 32) (o := 0) (e := 0) freedBeforeUse_run
    (by decide) (by decide +kernel) hmem
  have hresult : (freedBeforeUse.bufferAlloc {} 1 32 0 0 false).1 = some 1 := by decide +kernel
  exact ⟨hresult, hiff.mp (by rw [hresult]; rfl), htaken 1 hresult⟩

/-! ## Adjacent free runs -/

/-- Put a run in front of others, joined with the first if both are free. -/
def joinFree : Nat × Nat × Bool → List (Nat × Nat × Bool) → List (Nat × Nat × Bool)
  | (o, n, true), (_, n', true) :: rest => (o, n + n', true) :: rest
  | r, rest => r :: rest

/-- Join all adjacent free runs. -/
def coalesce (l : List (Nat × Nat × Bool)) : List (Nat × Nat × Bool) := l.foldr joinFree []

theorem joinFree_joinFree (o n o' n' : Nat) (rest : List (Nat × Nat × Bool)) :
    joinFree (o, n, true) (joinFree (o', n', true) rest) = joinFree (o, n + n', true) rest := by
  cases rest with
  | nil => rfl
  | cons r rest =>
      obtain ⟨o'', n'', free⟩ := r
      cases free with
      | false => rfl
      | true => simp [joinFree, Nat.add_assoc]

/-- The buffers as runs, with those named in `bs` taken for free. -/
def freedRuns (bs : List BufferId) (l : List Buffer) : List (Nat × Nat × Bool) :=
  l.map fun buf => (buf.offset, buf.size, buf.free || decide (buf.id ∈ bs))

theorem coalesce_freedRuns_cons (bs : List BufferId) (buf : Buffer) (l : List Buffer) :
    coalesce (freedRuns bs (buf :: l)) =
      joinFree (buf.offset, buf.size, buf.free || decide (buf.id ∈ bs))
        (coalesce (freedRuns bs l)) := rfl

/-- Naming a buffer that is not in the list changes nothing. -/
theorem freedRuns_of_not_mem (bs : List BufferId) {b : BufferId} {l : List Buffer}
    (h : b ∉ l.map Buffer.id) : freedRuns (b :: bs) l = freedRuns bs l := by
  refine List.map_congr_left fun buf hbuf => ?_
  have hne : buf.id ≠ b := fun heq => h (heq ▸ List.mem_map_of_mem hbuf)
  simp [hne]

/-- Marking a buffer free, with its successor swallowed, is naming it. -/
theorem coalesce_markFree (bs : List BufferId) {b : BufferId} {l : List Buffer}
    (hnodup : (l.map Buffer.id).Nodup) (hmem : b ∈ l.map Buffer.id) :
    coalesce (freedRuns bs (markFree b l)) = coalesce (freedRuns (b :: bs) l) := by
  induction l with
  | nil => simp at hmem
  | cons buf rest ih =>
      simp only [List.map_cons, List.nodup_cons] at hnodup
      by_cases hb : buf.id = b
      · subst hb
        have hrest := freedRuns_of_not_mem bs hnodup.1
        rw [coalesce_freedRuns_cons, hrest]
        unfold markFree
        rw [if_pos rfl]
        cases rest with
        | nil => simp [freedRuns, coalesce, Buffer.released]
        | cons next rest =>
            simp only
            split
            · rename_i hfree
              rw [coalesce_freedRuns_cons, coalesce_freedRuns_cons, hfree]
              simp [Buffer.released, joinFree_joinFree]
            · rw [coalesce_freedRuns_cons]
              simp [Buffer.released]
      · have hskip : markFree b (buf :: rest) = buf :: markFree b rest := by
          cases rest <;> simp [markFree, hb]
        rw [hskip, coalesce_freedRuns_cons, coalesce_freedRuns_cons]
        have hrest : b ∈ rest.map Buffer.id := by
          rcases List.mem_cons.mp hmem with heq | hmem
          · exact absurd heq.symm hb
          · exact hmem
        rw [ih hnodup.2 hrest]
        simp [hb]

/-- Letting a free predecessor swallow a free buffer joins two runs. -/
theorem coalesce_mergePrev (bs : List BufferId) {b : BufferId} {l : List Buffer}
    (hfree : ∀ buf ∈ l, buf.id = b → buf.free = true) :
    coalesce (freedRuns bs (mergePrev b l)) = coalesce (freedRuns bs l) := by
  induction l with
  | nil => rfl
  | cons prev rest ih =>
      cases rest with
      | nil => rfl
      | cons buf rest =>
          unfold mergePrev
          split
          · rename_i hb
            split
            · rename_i hprev
              have hbuf := hfree buf (by simp) hb
              rw [coalesce_freedRuns_cons, coalesce_freedRuns_cons, coalesce_freedRuns_cons, hprev,
                hbuf]
              simp [joinFree_joinFree]
            · rfl
          · rw [coalesce_freedRuns_cons, coalesce_freedRuns_cons bs prev,
              ih fun y hy => hfree y (List.mem_cons_of_mem prev hy)]

/-- The buffer that was marked is free. -/
theorem markFree_free {b : BufferId} {l : List Buffer} (hnodup : (l.map Buffer.id).Nodup) :
    ∀ buf ∈ markFree b l, buf.id = b → buf.free = true := by
  induction l with
  | nil => simp [markFree]
  | cons x rest ih =>
      simp only [List.map_cons, List.nodup_cons] at hnodup
      intro buf hbuf hid
      unfold markFree at hbuf
      split at hbuf
      · rename_i hx
        have habsent : ∀ y ∈ rest, y.id ≠ b := fun y hy heq =>
          hnodup.1 (hx.trans heq.symm ▸ List.mem_map_of_mem hy)
        split at hbuf
        · split at hbuf
          · rcases List.mem_cons.mp hbuf with rfl | hbuf
            · rfl
            · exact absurd hid (habsent buf (List.mem_cons_of_mem _ hbuf))
          · rcases List.mem_cons.mp hbuf with rfl | hbuf
            · rfl
            · exact absurd hid (habsent buf hbuf)
        · rw [List.mem_singleton.mp hbuf]
          rfl
      · rename_i hx
        rcases List.mem_cons.mp hbuf with rfl | hbuf
        · exact absurd hid hx
        · exact ih hnodup.2 buf hbuf hid

/-- A list without adjacent free buffers is its own normal form. -/
theorem coalesce_of_chain {l : List Buffer} (h : l.IsChain Apart) :
    coalesce (freedRuns [] l) = freedRuns [] l := by
  induction l with
  | nil => rfl
  | cons buf rest ih =>
      obtain ⟨hhead, hrest⟩ := List.isChain_cons.mp h
      rw [coalesce_freedRuns_cons, ih hrest]
      cases rest with
      | nil => cases hf : buf.free <;> simp [freedRuns, joinFree, hf]
      | cons next rest =>
          have hapart := hhead next (by simp)
          cases hf : buf.free with
          | false => simp [freedRuns, joinFree, hf]
          | true =>
              have hnext : next.free = false := by simpa [Apart, hf] using hapart
              simp [freedRuns, joinFree, hf, hnext]

/-- Where every buffer is free there is one run. -/
theorem coalesce_all_free {bs : List BufferId} {lo hi : Nat} {l : List Buffer}
    (h : Tiles lo l hi) (hne : l ≠ [])
    (hfree : ∀ buf ∈ l, buf.free = true ∨ buf.id ∈ bs) :
    coalesce (freedRuns bs l) = [(lo, hi - lo, true)] := by
  induction l generalizing lo with
  | nil => exact absurd rfl hne
  | cons buf rest ih =>
      obtain ⟨hoff, hpos, -, hrest⟩ := h
      have hbuf : (buf.free || decide (buf.id ∈ bs)) = true := by
        simpa using hfree buf (by simp)
      rw [coalesce_freedRuns_cons, hbuf, hoff]
      cases rest with
      | nil =>
          simp only [Tiles] at hrest
          simp [freedRuns, coalesce, joinFree, ← hrest]
      | cons next rest =>
          have hle := hrest.hi_eq
          rw [ih hrest (by simp) fun y hy => hfree y (List.mem_cons_of_mem buf hy)]
          simp only [joinFree]
          rw [show buf.size + (hi - (lo + buf.size)) = hi - lo by omega]

/-! ## Releasing several buffers -/

namespace Driver

variable {p : ProcId} {s : Driver}

/-- Release the buffers in the order given. -/
def freeAll (s : Driver) (p : ProcId) (bs : List BufferId) : Driver :=
  bs.foldl (fun s b => s.bufferFree p b) s

/-- The records of an arena as places, sizes and states. -/
def arenaShape (s : Driver) (p : ProcId) : List (Nat × Nat × Bool) :=
  (s.arenas p).buffers.map fun buf => (buf.offset, buf.size, buf.free)

/-- What a release pays back to the asynchronous half. -/
def refundOf (s : Driver) (p : ProcId) (b : BufferId) : Nat :=
  (((s.arenas p).used b).map fun buf => if buf.async then buf.size else 0).getD 0

/-- **Step.**  A release changes the normal form as if the buffer had been
marked, pays its refund, and leaves the other allocations alone. -/
theorem bufferFree_normal (hok : ArenaOk (s.arenas p) s.nextId) {b : BufferId}
    (hused : ((s.arenas p).used b).isSome) :
    (∀ bs, coalesce (freedRuns bs ((s.bufferFree p b).arenas p).buffers) =
        coalesce (freedRuns (b :: bs) (s.arenas p).buffers)) ∧
      ((s.bufferFree p b).arenas p).freeAsyncSpace =
        (s.arenas p).freeAsyncSpace + s.refundOf p b ∧
      ∀ b', b' ≠ b → ((s.bufferFree p b).arenas p).used b' = (s.arenas p).used b' := by
  obtain ⟨buf, hbuf⟩ := Option.isSome_iff_exists.mp hused
  obtain ⟨⟨hmem, rfl⟩, hfree⟩ := hok.used_eq_some.mp hbuf
  have harena : (s.bufferFree p buf.id).arenas p =
      { s.arenas p with
        freeAsyncSpace := (s.arenas p).freeAsyncSpace + if buf.async then buf.size else 0
        buffers := mergePrev buf.id (markFree buf.id (s.arenas p).buffers) } := by
    have hfind : s.findBuffer p buf.id = some buf := hok.find_eq_some.mpr ⟨hmem, rfl⟩
    simp [bufferFree, hfind, hfree, updArena, updStats]
  refine ⟨fun bs => ?_, ?_, fun b' hb' => ?_⟩
  · rw [harena]
    exact (coalesce_mergePrev bs (markFree_free hok.nodup)).trans
      (coalesce_markFree bs hok.nodup (List.mem_map_of_mem hmem))
  · rw [harena, refundOf, hbuf]
    rfl
  · rw [harena, hok.used_release hmem, if_neg hb']

/-- **Run.**  After any number of releases the arena is in the normal form of
the list with all of them marked, and the refunds have been paid. -/
theorem freeAll_normal (hok : ArenaOk (s.arenas p) s.nextId) {bs : List BufferId}
    (hnodup : bs.Nodup) (hlive : ∀ b ∈ bs, ((s.arenas p).used b).isSome) :
    (s.freeAll p bs).arenaShape p = coalesce (freedRuns bs (s.arenas p).buffers) ∧
      ((s.freeAll p bs).arenas p).freeAsyncSpace =
        (s.arenas p).freeAsyncSpace + (bs.map (s.refundOf p)).foldr (· + ·) 0 := by
  induction bs generalizing s with
  | nil =>
      refine ⟨?_, by simp [freeAll]⟩
      rw [coalesce_of_chain hok.coalesced]
      simp [freeAll, arenaShape, freedRuns]
  | cons b bs ih =>
      obtain ⟨hb, hnodup⟩ := List.nodup_cons.mp hnodup
      obtain ⟨hnormal, hspace, hothers⟩ := bufferFree_normal hok (hlive b (by simp))
      have hother : ∀ b' ∈ bs, ((s.bufferFree p b).arenas p).used b' = (s.arenas p).used b' :=
        fun b' hb' => hothers b' fun heq => hb (heq ▸ hb')
      have hid := (bufferFree_arena hok b).1
      have hok' : ArenaOk ((s.bufferFree p b).arenas p) (s.bufferFree p b).nextId := by
        rcases (bufferFree_arena hok b).2 with harena | ⟨buf, hmem, -, -, harena⟩
        · rw [hid, harena]
          exact hok
        · rw [hid, harena]
          exact hok.release hmem _
      obtain ⟨hshape, hrefund⟩ := ih hok' hnodup fun b' hb' => by
        rw [hother b' hb']
        exact hlive b' (List.mem_cons_of_mem b hb')
      have hsame : bs.map ((s.bufferFree p b).refundOf p) = bs.map (s.refundOf p) := by
        refine List.map_congr_left fun b' hb' => ?_
        rw [refundOf, hother b' hb']
        rfl
      refine ⟨hshape.trans (hnormal bs), ?_⟩
      rw [List.map_cons, List.foldr_cons, ← Nat.add_assoc, ← hspace, ← hsame]
      exact hrefund

/-- **Releases commute.**  Whatever the order in which a set of allocations is
released, the records left are the same and so is the asynchronous half; once
nothing is in use, the arena is a single free buffer. -/
theorem free_order_irrelevant (h : ArenaRun (fun _ _ _ => True) p s) {bs bs' : List BufferId}
    (hnodup : bs.Nodup) (hlive : ∀ b ∈ bs, ((s.arenas p).used b).isSome) (hperm : bs.Perm bs') :
    (s.freeAll p bs).arenaShape p = (s.freeAll p bs').arenaShape p ∧
      ((s.freeAll p bs).arenas p).freeAsyncSpace = ((s.freeAll p bs').arenas p).freeAsyncSpace ∧
      ((s.arenas p).size ≠ 0 → (∀ b, ((s.arenas p).used b).isSome → b ∈ bs) →
        (s.freeAll p bs).arenaShape p = [(0, (s.arenas p).size, true)]) := by
  obtain ⟨hok, htiled⟩ := h.keeps
  obtain ⟨hshape, hspace⟩ := freeAll_normal hok hnodup hlive
  obtain ⟨hshape', hspace'⟩ := freeAll_normal hok (hperm.nodup_iff.mp hnodup)
    fun b hb => hlive b (hperm.mem_iff.mpr hb)
  have hruns : freedRuns bs (s.arenas p).buffers = freedRuns bs' (s.arenas p).buffers := by
    refine List.map_congr_left fun buf _ => ?_
    simp [hperm.mem_iff]
  refine ⟨by rw [hshape, hshape', hruns], ?_, fun hsize hall => ?_⟩
  · rw [hspace, hspace', (hperm.map (s.refundOf p)).foldr_eq' fun x _ y _ z => by omega]
  · have hne : (s.arenas p).buffers ≠ [] := by
      intro hnil
      have hhi := htiled.tiles.hi_eq
      simp only [hnil, coverage, total] at hhi
      exact hsize (by omega)
    rw [hshape, coalesce_all_free htiled.tiles hne, Nat.sub_zero]
    intro buf hmem
    cases hfree : buf.free with
    | true => exact .inl rfl
    | false =>
        have hused := hok.used_eq_some.mpr ⟨⟨hmem, rfl⟩, hfree⟩
        exact .inr (hall buf.id (by rw [hused]; rfl))

/-- Three allocations side by side. -/
def threeAllocated : Driver :=
  let s := (Driver.init.arenaRegister {} 1 0x100000 0x20000).1
  let s := (s.bufferAlloc {} 1 40 0 0 false).2
  let s := (s.bufferAlloc {} 1 8 0 0 true).2
  (s.bufferAlloc {} 1 64 0 0 false).2

/-- The middle one first, or last. -/
theorem free_order_irrelevant_three :
    (threeAllocated.freeAll 1 [2, 1, 3]).arenaShape 1 =
        (threeAllocated.freeAll 1 [1, 3, 2]).arenaShape 1 ∧
      (threeAllocated.freeAll 1 [2, 1, 3]).arenaShape 1 = [(0, 0x20000, true)] := by
  have h₀ : ArenaRun (fun _ _ _ => True) 1 Driver.init := .start Driver.init rfl
  have h₁ := h₀.call (.register {} 0x100000 0x20000)
  have h₂ := h₁.call (.alloc {} 40 0 0 false trivial)
  have h₃ := h₂.call (.alloc {} 8 0 0 true trivial)
  have hrun : ArenaRun (fun _ _ _ => True) 1 threeAllocated :=
    h₃.call (.alloc {} 64 0 0 false trivial)
  have hperm : [2, 1, 3].Perm [1, 3, 2] := by decide
  obtain ⟨hsame, -, hone⟩ := free_order_irrelevant hrun (by decide) (by decide +kernel) hperm
  refine ⟨hsame, hone (by decide +kernel) fun b hb => ?_⟩
  obtain ⟨hok, -⟩ := hrun.keeps
  obtain ⟨buf, hbuf⟩ := Option.isSome_iff_exists.mp hb
  obtain ⟨⟨hmem, rfl⟩, hfree⟩ := hok.used_eq_some.mp hbuf
  have hall : ∀ buf ∈ (threeAllocated.arenas 1).buffers, buf.free = false →
      buf.id ∈ [2, 1, 3] := by decide +kernel
  exact hall buf hmem hfree

end Driver

end Binder
