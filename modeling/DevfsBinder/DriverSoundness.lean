import DevfsBinder.AccountingSteps

/-!
# The tables stay in agreement

`Sound` is kept by everything the driver does to transactions, threads,
processes and arenas.  One lemma for each elementary change; the functions of
the driver are put together from these in `CallRefinement`.
-/

namespace Binder

namespace Driver

variable {s s' : Driver}

/-! ## Changes `Sound` does not look at -/

/-- The part of the state `Sound` speaks of. -/
def core (s : Driver) : Objects × Queues Queue Work × Table Txn × (ProcId → Arena) ×
    Table Thread × (ProcId → List ThreadId) × Nat :=
  (s.objects, s.queues, s.txns, s.arenas, s.threads, s.procThreads, s.nextId)

theorem Sound.same (h : Sound s) (hcore : s'.core = s.core) : Sound s' := by
  simp only [core, Prod.mk.injEq] at hcore
  obtain ⟨hobj, hqueues, htxns, harenas, hthreads, hlists, hid⟩ := hcore
  exact h.congr hobj (h.queues.congr hqueues htxns (Nat.le_of_eq hid.symm)) harenas
    (h.threads.congr hthreads hlists) (Nat.le_of_eq hid.symm)

theorem Sound.wakeupThread (h : Sound s) (th : ThreadId) : Sound (s.wakeupThread th) := by
  unfold Driver.wakeupThread
  split <;> exact h.same rfl

/-! ## Threads -/

theorem Sound.updThread (h : Sound s) (th : ThreadId) {f : Thread → Thread}
    (hf : ∀ thread, (f thread).proc = thread.proc) : Sound (s.updThread th f) :=
  h.congr rfl (h.queues.congr rfl rfl (Nat.le_refl _)) rfl
    (Indexes.modify h.threads th (by simp [hf])) (Nat.le_refl _)

theorem Sound.setStack (h : Sound s) (th : ThreadId) (top : Option TxnId) :
    Sound (s.setStack th top) :=
  h.updThread th fun _ => rfl

theorem Sound.popFrom (h : Sound s) (th : Option ThreadId) (t : TxnId) (parent : Option TxnId) :
    Sound (s.popFrom th t parent) := by
  cases th with
  | none => exact h
  | some th =>
      refine h.updThread th fun thread => ?_
      split <;> rfl

/-! ## Queues -/

theorem Sound.enqueue (h : Sound s) {q : Queue} (w : Work) (head : Bool)
    (hw : ∀ t, w = .transaction t → t < s.nextId) (hq : ∀ n, q ≠ .node n) :
    Sound { s with queues := s.queues.insert q w head } :=
  h.congr rfl (h.queues.enqueue w head hw hq) rfl h.threads (Nat.le_refl _)

theorem Sound.dequeue (h : Sound s) (w : Work) : Sound (s.dequeueWork w) :=
  h.congr rfl (h.queues.dequeue w) rfl h.threads (Nat.le_refl _)

/-- The hand-made insertion behind a node is an insertion. -/
theorem Sound.linkBehindNode (h : Sound s) {n : NodeId} {t : TxnId} {x : Txn}
    (hx : s.txns t = some x) (ho : x.Oneway) (ht : t < s.nextId)
    (hloc : s.queues.loc (.transaction t) = none) : Sound (s.linkBehindNode n t) := by
  have hins := Queues.link_eq_insert hloc (.node n)
  refine h.congr rfl ⟨?_, ?_, ?_⟩ rfl h.threads (Nat.le_refl _)
  · simp only [Driver.linkBehindNode, hins]
    exact Queues.insert_consistent h.queues.consistent _ _ _
  · intro u q hu
    simp only [Driver.linkBehindNode, hins, Queues.insert_loc] at hu
    split at hu
    · rename_i hnew
      cases hnew.1
      exact ht
    · exact h.queues.queued_lt u q hu
  · intro w n' hw
    simp only [Driver.linkBehindNode, hins, Queues.insert_loc] at hw
    split at hw
    · rename_i hnew
      exact ⟨t, x, hnew.1, hx, ho⟩
    · exact h.queues.behindNode w n' hw

/-! ## Transactions -/

/-- A record changes that waits behind no node, or stays a oneway one. -/
theorem Sound.setTxn (h : Sound s) {t : TxnId} {y : Option Txn}
    (hy : ∀ n x, s.queues.loc (.transaction t) = some (.node n) → s.txns t = some x → x.Oneway →
      ∃ z, y = some z ∧ z.Oneway) :
    Sound { s with txns := Function.update s.txns t y } := by
  refine h.congr rfl ⟨h.queues.consistent, h.queues.queued_lt, ?_⟩ rfl h.threads (Nat.le_refl _)
  intro w n hw
  obtain ⟨u, x, rfl, hx, ho⟩ := h.queues.behindNode w n hw
  by_cases hut : u = t
  · subst hut
    obtain ⟨z, rfl, hz⟩ := hy n x hw hx ho
    exact ⟨u, z, rfl, by simp, hz⟩
  · exact ⟨u, x, rfl, by simp [hut, hx], ho⟩

theorem Sound.updTxn (h : Sound s) (t : TxnId) {f : Txn → Txn}
    (hf : ∀ x, x.Oneway → (f x).Oneway) : Sound (s.updTxn t f) := by
  refine h.setTxn ?_
  intro n x _ hx ho
  exact ⟨f x, by simp [hx], hf x ho⟩

/-- A record that waits nowhere may change in any way, or go. -/
theorem Sound.setUnqueued (h : Sound s) {t : TxnId} (y : Option Txn)
    (hloc : s.queues.loc (.transaction t) = none) :
    Sound { s with txns := Function.update s.txns t y } := by
  refine h.setTxn ?_
  intro n x hn
  rw [hloc] at hn
  cases hn

/-! ## Buffers -/

theorem Sound.setArena (h : Sound s) {p : ProcId} {a : Arena} (ha : ArenaOk a s.nextId)
    (htiled : Tiled a) : Sound { s with arenas := Function.update s.arenas p a } := by
  refine ⟨h.graph.congr rfl (Nat.le_refl _), h.queues.congr rfl rfl (Nat.le_refl _), ?_, h.threads,
    ?_⟩
  · intro q
    by_cases hq : q = p
    · subst hq
      simpa using ha
    · simpa [hq] using h.arenas q
  · intro q
    by_cases hq : q = p
    · subst hq
      simpa using htiled
    · simpa [hq] using h.tiled q

/-- A buffer changes in place, and a copy stored in it has the right length. -/
theorem Sound.updBuffer (h : Sound s) {p : ProcId} {b : BufferId} {f : Buffer → Buffer}
    (hid : ∀ buf, (f buf).id = buf.id) (hroom : ∀ buf : Buffer, buf.SameRoom (f buf))
    (hkdata : ∀ buf ∈ (s.arenas p).buffers, buf.id = b → ∀ kdata, (f buf).kdata = some kdata →
      buf.kdata = some kdata ∨ kdata.length = buf.need)
    (hblank : ∀ buf ∈ (s.arenas p).buffers, buf.id = b → buf.IsBlank → f buf = buf) :
    Sound (s.updBuffer p b f) := by
  refine h.setArena ((h.arenas p).map ?_ ?_ ?_) ((h.tiled p).map ?_ ?_)
  · intro buf _
    split <;> simp [hid]
  · intro buf _
    split <;> simp [(hroom _).free]
  · intro buf hmem hb
    split
    · rename_i hbid
      exact hblank buf hmem hbid hb
    · rfl
  · intro buf
    split
    · exact hroom buf
    · exact .refl buf
  · intro buf hmem kdata hk
    split at hk
    · rename_i hbid
      exact hkdata buf hmem hbid kdata hk
    · exact .inl hk

/-- A buffer in use may change, and be filled with what it was reserved for. -/
theorem Sound.fillUsed (h : Sound s) {p : ProcId} {b : BufferId} {f : Buffer → Buffer}
    (hused : ((s.arenas p).used b).isSome) (hid : ∀ buf, (f buf).id = buf.id)
    (hroom : ∀ buf : Buffer, buf.SameRoom (f buf))
    (hkdata : ∀ buf ∈ (s.arenas p).buffers, buf.id = b → ∀ kdata, (f buf).kdata = some kdata →
      buf.kdata = some kdata ∨ kdata.length = buf.need) : Sound (s.updBuffer p b f) := by
  refine h.updBuffer hid hroom hkdata ?_
  intro buf hmem hb hblank
  obtain ⟨buf', hused⟩ := Option.isSome_iff_exists.mp hused
  obtain ⟨⟨hmem', hid'⟩, hfree'⟩ := (h.arenas p).used_eq_some.mp hused
  rw [List.inj_on_of_nodup_map (h.arenas p).nodup hmem' hmem (hid'.trans hb.symm),
    hblank.free] at hfree'
  cases hfree'

theorem Sound.updUsed (h : Sound s) {p : ProcId} {b : BufferId} {f : Buffer → Buffer}
    (hused : ((s.arenas p).used b).isSome) (hid : ∀ buf, (f buf).id = buf.id)
    (hroom : ∀ buf : Buffer, buf.SameRoom (f buf)) (hkdata : ∀ buf, (f buf).kdata = buf.kdata) :
    Sound (s.updBuffer p b f) :=
  h.fillUsed hused hid hroom fun buf _ _ _ hk => .inl ((hkdata buf).symm.trans hk)

theorem Sound.detachBuffer (h : Sound s) (p : ProcId) (b : Option BufferId) :
    Sound (s.detachBuffer p b) := by
  cases b with
  | none => exact h
  | some b =>
      refine h.updBuffer (fun _ => rfl) (fun _ => ⟨rfl, rfl, rfl, rfl⟩)
        (fun _ _ _ _ hk => .inl hk) ?_
      intro buf _ _ hblank
      rw [hblank]

theorem Sound.bufferFree (h : Sound s) (p : ProcId) (b : BufferId) : Sound (s.bufferFree p b) := by
  unfold Driver.bufferFree
  split
  · exact h
  · rename_i buf hfind
    split
    · exact h
    · obtain ⟨hmem, rfl⟩ := (h.arenas p).find_eq_some.mp hfind
      exact Sound.same (h.setArena (p := p) ((h.arenas p).release hmem _)
        ((h.tiled p).release (h.arenas p) hmem _)) rfl

theorem Sound.bumpId (h : Sound s) : Sound s.bumpId :=
  h.congr rfl (h.queues.congr rfl rfl (Nat.le_succ _)) rfl h.threads (Nat.le_succ _)

theorem Sound.used_fresh (h : Sound s) (p : ProcId) :
    s.nextId ∉ (s.arenas p).buffers.map Buffer.id := by
  intro hmem
  obtain ⟨buf, hbuf, hid⟩ := List.mem_map.mp hmem
  exact absurd ((h.arenas p).buffers_lt buf hbuf) (by rw [hid]; exact Nat.lt_irrefl _)

/-- What an allocation of `need` bytes comes to: nothing but a used-up address, or
a buffer that was free is taken and blank. -/
def Allocated (s : Driver) (p : ProcId) (need : Nat) : Option BufferId × Driver → Prop
  | (none, s') => s'.view = s.view ∨ s'.view = s.view.bump
  | (some b, s') => s.view.buffers p b = none ∧
      ∃ load : Load, load.need = need ∧
        (s'.view = s.view.setBuffer p b (some { load := load }) ∨
          s'.view = s.view.bump.setBuffer p b (some { load := load }))

/-- **An allocation**: it fails, at the price of an address perhaps, or the call
machine sees one buffer more, with the sizes asked for. -/
theorem bufferAlloc_cases (h : Sound s) (env : Env) (p : ProcId) (d o e : Nat) (isAsync : Bool) :
    Sound (s.bufferAlloc env p d o e isAsync).2 ∧
      Allocated s p (needOf d o e) (s.bufferAlloc env p d o e isAsync) := by
  have hok := h.arenas p
  have hokb := hok.mono (Nat.le_succ s.nextId)
  rcases s.bufferAlloc_ends env p d o e isAsync with heq | heq |
    ⟨buf, split, s₁, hfit, hpos, -, hsplit, heq⟩ <;> rw [heq]
  · exact ⟨h, .inl rfl⟩
  · exact ⟨h.bumpId, .inr rfl⟩
  have hview : ∀ (v : Calls) (split : Option BufferId) (space k : Nat),
      v.buffers = s.view.buffers → ArenaOk (s.arenas p) k →
      (∀ id, split = some id → id < k ∧ id ∉ (s.arenas p).buffers.map Buffer.id) →
      ∀ arenas, arenas = Function.update s.arenas p
        { s.arenas p with
          freeAsyncSpace := space
          buffers := placeIn (needOf d o e) split (Buffer.allocated d o e isAsync)
            (s.arenas p).buffers } →
      ∃ load : Load, load.need = needOf d o e ∧
        ({ v with buffers := (fun p' b' =>
          ((arenas p').used b').map (Buffer.view (arenas p').addr)) } : Calls) =
          v.setBuffer p buf.id (some { load := load }) := by
    rintro v split space k hv hk hsplit _ rfl
    obtain ⟨-, size, hplace⟩ := hk.used_place hfit hsplit d o e space isAsync
    let load := Buffer.load (s.arenas p).addr
      (Buffer.allocated d o e isAsync { buf with size := size })
    refine ⟨load, rfl,
      congrArg (fun buffers => { v with buffers := buffers }) ?_⟩
    funext p' b'
    have hset := Calls.buffers_setBuffer v p p' buf.id b'
      (some { load := load })
    simp only [Calls.setBuffer] at hset
    rw [hset]
    by_cases hp : p' = p
    · subst hp
      rw [Function.update_self, hplace b']
      by_cases hb : b' = buf.id
      · simp [hb, load, Buffer.allocated, Buffer.view]
      · simp [hb, hv, view_buffers]
    · simp [hp, hv, view_buffers]
  have hfree : s.view.buffers p buf.id = none := by
    have hsplit : ∀ id, (none : Option BufferId) = some id →
        id < s.nextId ∧ id ∉ (s.arenas p).buffers.map Buffer.id := by simp
    obtain ⟨hnone, -⟩ := hok.used_place hfit hsplit d o e 0 isAsync
    simp [view_buffers, hnone]
  rcases hsplit with ⟨rfl, rfl, -⟩ | ⟨rfl, rfl, hlarge⟩
  · obtain ⟨load, hsized, hload⟩ := hview s₁.view none
      ((s₁.arenas p).freeAsyncSpace - if isAsync = true then needOf d o e else 0) _ rfl hok
      (by simp) _ rfl
    have htiled := (h.tiled p).place none hfit hpos (fun hne => absurd rfl hne)
      ((s₁.arenas p).freeAsyncSpace - if isAsync = true then needOf d o e else 0) isAsync
    exact ⟨h.setArena (hok.place hfit (by simp) d o e _ isAsync) htiled, hfree, load, hsized,
      .inl hload⟩
  · -- the remainder is worth a record of its own
    have hfresh : ∀ id, some s.nextId = some id → id < s.nextId + 1 ∧
        id ∉ (s.arenas p).buffers.map Buffer.id := by
      rintro id ⟨⟩
      exact ⟨Nat.lt_succ_self _, h.used_fresh p⟩
    obtain ⟨load, hsized, hload⟩ := hview s.view.bump (some s.nextId)
      ((s.arenas p).freeAsyncSpace - if isAsync = true then needOf d o e else 0) _ rfl hokb hfresh
      _ rfl
    have htiled := (h.tiled p).place (some s.nextId) hfit hpos (fun _ => by
      unfold minSplit at hlarge
      omega) ((s.arenas p).freeAsyncSpace - if isAsync = true then needOf d o e else 0) isAsync
    exact ⟨h.bumpId.setArena (hokb.place hfit hfresh d o e _ isAsync) htiled, hfree, load, hsized,
      .inr hload⟩

/-! ## Releasing a transaction -/

theorem queues_popFrom (s : Driver) (th : Option ThreadId) (t : TxnId) (parent : Option TxnId) :
    (s.popFrom th t parent).queues = s.queues := by
  cases th <;> rfl

theorem queues_detachBuffer (s : Driver) (p : ProcId) (b : Option BufferId) :
    (s.detachBuffer p b).queues = s.queues := by
  cases b <;> rfl

theorem Sound.freeTransaction (h : Sound s) (t : TxnId) : Sound (s.freeTransaction t) := by
  unfold Driver.freeTransaction
  split
  · exact h
  · rename_i x hx
    refine Sound.same (((((h.dequeue (.transaction t)).popFrom _ t _).popFrom _ t _).detachBuffer
      _ _).setUnqueued (t := t) none ?_) rfl
    rw [queues_detachBuffer, queues_popFrom, queues_popFrom]
    simp [dequeueWork, Queues.remove_loc]

/-! ## Errors -/

theorem Sound.queueError (h : Sound s) (th : ThreadId) (br : BR) : Sound (s.queueError th br) := by
  have hset : Sound (s.updThread th fun thread => { thread with returnError := br }) :=
    h.updThread th fun _ => rfl
  exact hset.enqueue (q := .thread th) (.returnError th) false (by simp) (by simp)

theorem Sound.txnError (h : Sound s) (th : ThreadId) (br : BR) : Sound (s.txnError th br) :=
  Sound.same (Sound.queueError (s := s.updStats _) (h.same rfl) th br) rfl

theorem Sound.failCaller (h : Sound s) (sender : Option ThreadId) (t : TxnId) (br : BR) :
    Sound (s.failCaller sender t br) := by
  unfold Driver.failCaller
  split
  · exact h
  · split
    · exact h
    · split
      · exact h
      · exact ((h.queueError _ br).wakeupThread _).same rfl

theorem Sound.failUndelivered (h : Sound s) (t : TxnId) (br : BR) :
    Sound (s.failUndelivered t br) := by
  unfold Driver.failUndelivered
  split
  · exact h.failCaller _ t br
  · exact h.same rfl

end Driver

end Binder
