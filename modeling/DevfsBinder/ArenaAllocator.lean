import DevfsBinder.DriverState
import Mathlib.Algebra.Ring.Int.Defs

/-!
# The transaction arena

`binder_alloc.c`: the bookkeeping of the region a client registers for its
incoming payloads.  The buffer list covers the arena in order of offset;
allocation takes the first free buffer that is large enough and splits off
what is worth tracking, and freeing merges with both neighbours.
-/

namespace Binder

open LittleEndian

/-- `BINDER_MIN_SPLIT`: less than this is left as slack on the allocation. -/
def minSplit : Nat := 32

/-- `BINDER_ASYNC_FRACTION` -/
def asyncFraction : Nat := 2

def arenaMin : Nat := 128 * 1024

def arenaMax : Nat := 4 * 1024 * 1024

/-- The bytes an allocation of the three sizes takes. -/
def needOf (dataSize offsetsSize extraSize : Nat) : Nat :=
  (align dataSize + align offsetsSize + align extraSize) % 2 ^ 64

/-- The first free buffer of at least `need` bytes. -/
def firstFit (need : Nat) (bufs : List Buffer) : Option Buffer :=
  bufs.find? fun buf => buf.free && need ≤ buf.size

/-- Replace the first fitting buffer by `fill` of it, cut down to `need` with
the remainder behind it when a split record is given. -/
def placeIn (need : Nat) (split : Option BufferId) (fill : Buffer → Buffer) :
    List Buffer → List Buffer
  | [] => []
  | buf :: rest =>
      if buf.free && need ≤ buf.size then
        match split with
        | some id =>
            fill { buf with size := need } ::
              { id := id, offset := buf.offset + need, size := buf.size - need } :: rest
        | none => fill buf :: rest
      else buf :: placeIn need split fill rest

/-- The record of a fresh allocation. -/
def Buffer.allocated (dataSize offsetsSize extraSize : Nat) (isAsync : Bool)
    (buf : Buffer) : Buffer :=
  { buf with
    free := false
    async := isAsync
    allowUserFree := false
    dataSize := dataSize
    offsetsSize := offsetsSize
    extraBuffersSize := extraSize
    transaction := none
    targetNode := none
    kdata := none }

/-- The record of a freed allocation, before it is merged. -/
def Buffer.released (buf : Buffer) : Buffer :=
  { buf with
    free := true
    async := false
    allowUserFree := false
    dataSize := 0
    offsetsSize := 0
    extraBuffersSize := 0
    transaction := none
    targetNode := none
    kdata := none }

/-- Mark the buffer free and swallow the next one if that is free too. -/
def markFree (b : BufferId) : List Buffer → List Buffer
  | [] => []
  | buf :: rest =>
      if buf.id = b then
        match rest with
        | next :: rest' =>
            if next.free then { buf.released with size := buf.size + next.size } :: rest'
            else buf.released :: rest
        | [] => [buf.released]
      else buf :: markFree b rest

/-- Let a free predecessor swallow the buffer. -/
def mergePrev (b : BufferId) : List Buffer → List Buffer
  | [] => []
  | [buf] => [buf]
  | prev :: buf :: rest =>
      if buf.id = b then
        if prev.free then { prev with size := prev.size + buf.size } :: rest
        else prev :: buf :: rest
      else prev :: mergePrev b (buf :: rest)

namespace Driver

variable (s : Driver)

/-- `binder_arena_register` -/
def arenaRegister (env : Env) (p : ProcId) (addr size : Nat) : Driver × Option Errno :=
  if (s.arenas p).size ≠ 0 then (s, some .ebusy)
  else if size < arenaMin ∨ arenaMax < size then (s, some .einval)
  else if size % env.pageSize ≠ 0 ∨ addr % env.pageSize ≠ 0 then (s, some .einval)
  else if addr = 0 ∨ (addr + size) % 2 ^ 64 < addr then (s, some .einval)
  else
    match s.allocMem env with
    | (none, s) => (s, some .enomem)
    | (some buf, s) =>
        ((s.updArena p fun _ =>
            { addr := addr
              size := size
              freeAsyncSpace := size / asyncFraction
              buffers := [{ id := buf, offset := 0, size := size }] }).updStats
          fun st => { st with arenaBytes := st.arenaBytes + size }, none)

/-- The payload bytes held by an arena's buffers. -/
def kdataBytes (bufs : List Buffer) : Int :=
  (bufs.map fun buf => ((buf.kdata.getD []).length : Int)).sum

/-- `binder_arena_teardown` -/
def arenaTeardown (p : ProcId) : Driver :=
  (s.updArena p fun _ => {}).updStats fun st =>
    { st with
      kdataBytes := st.kdataBytes - kdataBytes (s.arenas p).buffers
      arenaBytes := st.arenaBytes - (s.arenas p).size }

/-- `binder_buffer_uaddr` -/
def bufferUaddr (p : ProcId) (buf : Buffer) : Nat :=
  ((s.arenas p).addr + buf.offset) % 2 ^ 64

/-- `binder_buffer_alloc` -/
def bufferAlloc (env : Env) (p : ProcId) (dataSize offsetsSize extraSize : Nat)
    (isAsync : Bool) : Option BufferId × Driver :=
  let arena := s.arenas p
  let need := needOf dataSize offsetsSize extraSize
  if arena.size = 0 then (none, s)
  else if need = 0 ∨ arena.size < need then (none, s)
  else if isAsync ∧ arena.freeAsyncSpace < need then (none, s)
  else
    match firstFit need arena.buffers with
    | none => (none, s)
    | some buf =>
        let fill := Buffer.allocated dataSize offsetsSize extraSize isAsync
        let charge := if isAsync then need else 0
        if minSplit ≤ buf.size - need then
          match s.allocMem env with
          | (none, s) => (none, s)
          | (some split, s) =>
              (some buf.id, s.updArena p fun a =>
                { a with
                  freeAsyncSpace := a.freeAsyncSpace - charge
                  buffers := placeIn need (some split) fill a.buffers })
        else
          (some buf.id, s.updArena p fun a =>
            { a with
              freeAsyncSpace := a.freeAsyncSpace - charge
              buffers := placeIn need none fill a.buffers })

/-- The ends of an allocation: nothing fits, there is no memory for the record of
a remainder, or the first buffer that fits is taken, with a remainder split off if
that is worth it. -/
theorem bufferAlloc_ends (env : Env) (p : ProcId) (d o e : Nat) (isAsync : Bool) :
    s.bufferAlloc env p d o e isAsync = (none, s) ∨
    s.bufferAlloc env p d o e isAsync = (none, s.bumpId) ∨
    ∃ hole split s₁, firstFit (needOf d o e) (s.arenas p).buffers = some hole ∧
      0 < needOf d o e ∧ (isAsync = true → needOf d o e ≤ (s.arenas p).freeAsyncSpace) ∧
      (split = none ∧ s₁ = s ∧ hole.size - needOf d o e < minSplit ∨
        split = some s.nextId ∧ s₁ = s.bumpId ∧ minSplit ≤ hole.size - needOf d o e) ∧
      s.bufferAlloc env p d o e isAsync = (some hole.id, s₁.updArena p fun a =>
        { a with
          freeAsyncSpace := a.freeAsyncSpace - if isAsync then needOf d o e else 0
          buffers :=
            placeIn (needOf d o e) split (Buffer.allocated d o e isAsync) a.buffers }) := by
  unfold bufferAlloc
  simp only
  split
  · exact .inl rfl
  split
  · exact .inl rfl
  rename_i hneed
  split
  · exact .inl rfl
  rename_i hbudget
  have hpay : isAsync = true → needOf d o e ≤ (s.arenas p).freeAsyncSpace :=
    fun hasync => Nat.le_of_not_lt fun hlt => hbudget ⟨hasync, hlt⟩
  split
  · exact .inl rfl
  rename_i hole hfit
  split
  · rename_i hsplit
    unfold allocMem
    cases env.allocOk s.nextId with
    | false => exact .inr (.inl rfl)
    | true =>
        exact .inr (.inr ⟨hole, some s.nextId, s.bumpId, hfit, by omega, hpay,
          .inr ⟨rfl, rfl, hsplit⟩, rfl⟩)
  · rename_i hsplit
    exact .inr (.inr ⟨hole, none, s, hfit, by omega, hpay,
      .inl ⟨rfl, rfl, Nat.lt_of_not_le hsplit⟩, rfl⟩)

/-- `binder_buffer_free`.  The refund of an asynchronous buffer is its whole
size, whatever was charged for it. -/
def bufferFree (p : ProcId) (b : BufferId) : Driver :=
  match s.findBuffer p b with
  | none => s
  | some buf =>
      if buf.free then s
      else
        (s.updArena p fun a =>
            { a with
              freeAsyncSpace := a.freeAsyncSpace + if buf.async then buf.size else 0
              buffers := mergePrev b (markFree b a.buffers) }).updStats
          fun st => { st with kdataBytes := st.kdataBytes - (buf.kdata.getD []).length }

end Driver

/-- The walk of `binder_buffer_lookup`, which trusts the list's order. -/
def lookupIn (offset : Nat) : List Buffer → Option Buffer
  | [] => none
  | buf :: rest =>
      if buf.offset = offset then
        if buf.free then none else some buf
      else if offset < buf.offset then none
      else lookupIn offset rest

/-- `binder_buffer_lookup` -/
def Driver.bufferLookup (s : Driver) (p : ProcId) (userPtr : Nat) : Option Buffer :=
  let arena := s.arenas p
  if arena.size = 0 ∨ userPtr < arena.addr then none
  else if arena.size ≤ userPtr - arena.addr then none
  else lookupIn (userPtr - arena.addr) arena.buffers

end Binder
