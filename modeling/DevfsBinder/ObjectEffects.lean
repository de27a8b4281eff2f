import DevfsBinder.ArenaTiling
import DevfsBinder.DeathSteps
import DevfsBinder.SendRefinement

/-!
# What an action does to objects

Seen from the nodes and references, an action of the driver is a sequence of
calls of the accounting functions, with stretches in between that leave every
object alone.  `Effect` lists the calls.  It is coarser than `ObjectStep`: each
of its steps leaves the counts of handles and nodes in agreement, and what the
owner of a node is owed queued.

Some effects matter only to some properties: taking or giving back a weak
reference, throwing a notification away, telling the owner, hearing back from
it, aiming a buffer at a node, making a handle, closing the device.  They are
labelled with a `Kind`, and a sequence `Moves A` has only kinds that `A` admits.
With each effect goes what it does to death notices.
-/

namespace Binder

open LittleEndian

/-- What an effect is, where that matters. -/
inductive Kind
  | weak
  | birth
  | discard (n : NodeId)
  | news (env : Env) (s : Driver) (n : NodeId) (rc : ReadCall)
  | aim (p : ProcId) (n : NodeId)
  | manager (n : NodeId)
  | done (n : NodeId) (strong : Bool)
  | close (p : ProcId)
  | handle (s : Driver) (p : ProcId) (n : NodeId)
  | weakTake (s : Driver) (n : NodeId)
  | weakGive (s : Driver) (r : RefId)
  | notice (k : Notice)
  | complete (c : Nat)
  | make (p : ProcId)

/-- A payload with a weak object in it. -/
def ListsWeak (kdata : Bytes) (dataSize offsetsSize : Nat) : Prop :=
  ∃ i, i < offsetsSize / 8 ∧
    (objectAt kdata dataSize (offsetEntry kdata (align dataSize) i) = some .weakBinder ∨
      objectAt kdata dataSize (offsetEntry kdata (align dataSize) i) = some .weakHandle)

namespace Driver

/-! ## Payloads in use -/

/-- `buf` is an allocation in the arena of `p`. -/
structure Uses (s : Driver) (p : ProcId) (buf : Buffer) : Prop where
  mem : buf ∈ (s.arenas p).buffers
  used : buf.free = false

/-- Some payload that waits or was delivered has a weak object in it. -/
def StoresWeak (s : Driver) : Prop :=
  ∃ p buf kdata, s.Uses p buf ∧ buf.kdata = some kdata ∧
    ListsWeak kdata buf.dataSize buf.offsetsSize

/-- An allocation in the arena of `p` carries a transaction to node `n`. -/
def Names (s : Driver) (p : ProcId) (n : NodeId) : Prop :=
  ∃ buf, s.Uses p buf ∧ buf.targetNode = some n

/-- What may be new in the arenas. -/
structure Loads (A : Kind → Prop) (s s' : Driver) : Prop where
  weak : s'.StoresWeak → A .weak ∨ s.StoresWeak
  names : ∀ p n, s'.Names p n → A (.aim p n) ∨ s.Names p n

variable {A : Kind → Prop} {s s' s'' : Driver}

theorem Loads.trans (h : Loads A s s') (h' : Loads A s' s'') : Loads A s s'' where
  weak hw := (h'.weak hw).elim .inl h.weak
  names p n hn := (h'.names p n hn).elim .inl (h.names p n)

/-- The same allocation, as far as its payload and target go. -/
structure SameLoad (buf buf' : Buffer) : Prop where
  id : buf.id = buf'.id
  kdata : buf.kdata = buf'.kdata
  dataSize : buf.dataSize = buf'.dataSize
  offsetsSize : buf.offsetsSize = buf'.offsetsSize
  targetNode : buf.targetNode = buf'.targetNode

theorem SameLoad.refl (buf : Buffer) : SameLoad buf buf := ⟨rfl, rfl, rfl, rfl, rfl⟩

theorem SameLoad.trans {buf buf' buf'' : Buffer} (h : SameLoad buf buf')
    (h' : SameLoad buf' buf'') : SameLoad buf buf'' :=
  ⟨h.id.trans h'.id, h.kdata.trans h'.kdata, h.dataSize.trans h'.dataSize,
    h.offsetsSize.trans h'.offsetsSize, h.targetNode.trans h'.targetNode⟩

/-- Every allocation was there before. -/
def Kept (s s' : Driver) : Prop :=
  ∀ p buf', s'.Uses p buf' → ∃ buf, s.Uses p buf ∧ SameLoad buf buf'

theorem Kept.trans (h : Kept s s') (h' : Kept s' s'') : Kept s s'' := by
  intro p buf'' huses
  obtain ⟨buf', huses', hsame'⟩ := h' p buf'' huses
  obtain ⟨buf, huses, hsame⟩ := h p buf' huses'
  exact ⟨buf, huses, hsame.trans hsame'⟩

theorem Kept.same (h : s'.arenas = s.arenas) : Kept s s' :=
  fun _ buf huses => ⟨buf, ⟨h ▸ huses.mem, huses.used⟩, .refl buf⟩

theorem Kept.loads (h : Kept s s') : Loads A s s' where
  weak := by
    rintro ⟨p, buf', kdata, huses, hkdata, hweak⟩
    obtain ⟨buf, hbuf, hsame⟩ := h p buf' huses
    refine .inr ⟨p, buf, kdata, hbuf, hsame.kdata.trans hkdata, ?_⟩
    rw [hsame.dataSize, hsame.offsetsSize]
    exact hweak
  names := by
    rintro p n ⟨buf', huses, hn⟩
    obtain ⟨buf, hbuf, hsame⟩ := h p buf' huses
    exact .inr ⟨buf, hbuf, hsame.targetNode.trans hn⟩

theorem Loads.same (h : s'.arenas = s.arenas) : Loads A s s' := (Kept.same h).loads

theorem Loads.refl (s : Driver) : Loads A s s := .same rfl

/-- A buffer changes in place, in nothing that matters here. -/
theorem Kept.updBuffer (s : Driver) (p : ProcId) (b : BufferId) {f : Buffer → Buffer}
    (hfree : ∀ buf, (f buf).free = buf.free) (hf : ∀ buf, SameLoad buf (f buf)) :
    Kept s (s.updBuffer p b f) := by
  intro p' buf' huses
  by_cases hp : p' = p
  · subst hp
    have hmem := huses.mem
    have hused := huses.used
    simp only [Driver.updBuffer, Driver.updArena, Function.update_self, List.mem_map] at hmem
    obtain ⟨buf, hbuf, rfl⟩ := hmem
    refine ⟨buf, ⟨hbuf, ?_⟩, ?_⟩
    · split at hused
      · rw [← hfree]
        exact hused
      · exact hused
    · split
      · exact hf buf
      · exact .refl buf
  · refine ⟨buf', ⟨?_, huses.used⟩, .refl buf'⟩
    simpa [Driver.updBuffer, Driver.updArena, hp] using huses.mem

theorem Kept.detachBuffer (s : Driver) (p : ProcId) (b : Option BufferId) :
    Kept s (s.detachBuffer p b) := by
  cases b with
  | none => exact .same rfl
  | some b => exact .updBuffer s p b (fun _ => rfl) fun _ => ⟨rfl, rfl, rfl, rfl, rfl⟩

/-- Freeing a buffer makes no allocation. -/
theorem Kept.bufferFree (hs : Sound s) (p : ProcId) (b : BufferId) :
    Kept s (s.bufferFree p b) := by
  obtain ⟨-, harena⟩ := bufferFree_arena (hs.arenas p) b
  intro p' buf' huses
  refine ⟨buf', ⟨?_, huses.used⟩, .refl buf'⟩
  by_cases hp : p' = p
  · subst hp
    have hmem := huses.mem
    rcases harena with harena | ⟨buf, hbuf, -, -, harena⟩
    · rw [harena] at hmem
      exact hmem
    · obtain ⟨l, r, x, hrel⟩ := (hs.arenas p').released hbuf
      rw [harena] at hmem
      simp only [hrel.eq, List.mem_append, List.mem_cons] at hmem
      rcases hmem with hmem | rfl | hmem
      · exact (hrel.old _ (.inl hmem)).1
      · have hused := huses.used
        rw [hrel.blank.free] at hused
        cases hused
      · exact (hrel.old _ (.inr hmem)).1
  · have hmem := huses.mem
    unfold Driver.bufferFree at hmem
    split at hmem
    · exact hmem
    · split at hmem
      · exact hmem
      · simpa [updArena, updStats, hp] using hmem

/-- Releasing a transaction, spelled out for the arenas. -/
theorem freeTransaction_arenas (s : Driver) (t : TxnId) :
    (s.freeTransaction t).arenas = s.arenas ∨
      ∃ p b, (s.freeTransaction t).arenas = (s.detachBuffer p b).arenas := by
  unfold freeTransaction
  split
  · exact .inl rfl
  · rename_i x _
    refine .inr ⟨x.toProc, x.buffer, ?_⟩
    have hpop : ∀ (s : Driver) th parent, (s.popFrom th t parent).arenas = s.arenas := by
      intro s th parent
      cases th <;> rfl
    cases hb : x.buffer with
    | none =>
        simp only [detachBuffer, forgetTxn, hpop]
        rfl
    | some b =>
        simp only [detachBuffer, forgetTxn, Driver.updBuffer, updArena, hpop]
        rfl

theorem Kept.freeTransaction (s : Driver) (t : TxnId) : Kept s (s.freeTransaction t) := by
  rcases freeTransaction_arenas s t with h | ⟨p, b, h⟩
  · exact .same h
  · exact (Kept.detachBuffer s p b).trans (.same h)

/-- The accounting leaves payloads alone. -/
theorem ObjectStep.kept {O : ProcId → Prop} (h : ObjectStep O s s') : Kept s s' := by
  cases h with
  | drop n t _ =>
      have hkept : Kept s ((s.dequeueWork (.transaction t)).freeTransaction t) :=
        (Kept.same rfl : Kept s (s.dequeueWork (.transaction t))).trans (.freeTransaction _ t)
      exact hkept.trans (.same rfl)
  | removeNode n nd _ _ _ => cases nd.proc <;> exact .same rfl
  | _ => exact .same rfl

theorem ObjectSteps.kept {O : ProcId → Prop} (h : ObjectSteps O s s') : Kept s s' := by
  induction h with
  | refl => exact .same rfl
  | tail _ hstep ih => exact ih.trans hstep.kept

/-! ## Leaving objects alone -/

/-- What the owners were told about a node, newest first. -/
def toldAbout (s : Driver) (n : NodeId) : List BR :=
  s.told.filterMap fun e => if e.2.2 = .node n then some e.2.1 else none

/-- A stretch that leaves the objects alone, the news about them where they
wait, and processes and threads as alive as they were, with no new manager. -/
structure Aside (s s' : Driver) : Prop where
  objects : s'.objects = s.objects
  news : ∀ n, s'.queues.loc (.node n) = s.queues.loc (.node n)
  alive : ∀ p, s'.procAlive p = s.procAlive p
  context : ∀ p, (s'.procs p).map (·.context) = (s.procs p).map (·.context)
  managers : ∀ c n, (s'.contexts c).mgrNode = some n → (s.contexts c).mgrNode = some n
  honours : Honours s s'
  home : ∀ th, (s'.threads th).map (·.proc) = (s.threads th).map (·.proc)
  told : ∀ n, s'.toldAbout n = s.toldAbout n
  nextId : s.nextId ≤ s'.nextId

theorem Aside.refl (s : Driver) : Aside s s :=
  ⟨rfl, fun _ => rfl, fun _ => rfl, fun _ => rfl, fun _ _ h => h, .same rfl, fun _ => rfl,
    fun _ => rfl, Nat.le_refl _⟩

theorem Aside.trans (h : Aside s s') (h' : Aside s' s'') : Aside s s'' where
  objects := h'.objects.trans h.objects
  news n := (h'.news n).trans (h.news n)
  alive p := (h'.alive p).trans (h.alive p)
  context p := (h'.context p).trans (h.context p)
  managers c n hc := h.managers c n (h'.managers c n hc)
  honours := h.honours.trans h'.honours
  home th := (h'.home th).trans (h.home th)
  told n := (h'.told n).trans (h.told n)
  nextId := Nat.le_trans h.nextId h'.nextId

theorem Aside.procs (h : Aside s s') (p : ProcId) : (s'.procs p).isSome = (s.procs p).isSome := by
  have hctx := congrArg Option.isSome (h.context p)
  rwa [Option.isSome_map, Option.isSome_map] at hctx

/-! ## Effects -/

/-- The read of a node's news: what does not fit goes back to the head of the
queue it came from. -/
def readNews (env : Env) (s : Driver) (th : ThreadId) (n : NodeId) (rc : ReadCall) (q : Queue) :
    Driver :=
  let h := readNodeWork env (s.dequeueWork (.node n)) th n rc
  if h.error = some .enomem then h.drv.putBack q (.node n) else h.drv

/-- The changes of a node that becomes a context's manager. -/
def Node.managed (nd : Node) : Node :=
  { nd with
    localStrongRefs := nd.localStrongRefs + 1
    localWeakRefs := nd.localWeakRefs + 1
    hasStrongRef := true
    hasWeakRef := true }

/-- No manager belongs to `p`. -/
def Resigned (s : Driver) (p : ProcId) : Prop :=
  ∀ c n, (s.contexts c).mgrNode = some n → (s.nodes n).bind (·.proc) ≠ some p

/-- `p` owns the node or holds a handle to it. -/
def Knows (s : Driver) (p : ProcId) (n : NodeId) : Prop :=
  (s.nodes n).bind (·.proc) = some p ∨
    ∃ r ref, s.refs r = some ref ∧ ref.proc = p ∧ ref.node = n

/-- One of the calls an action is made of. -/
inductive Effect (A : Kind → Prop) (s : Driver) : Driver → Prop
  | aside {s' : Driver} (h : Aside s s') : Effect A s s'
  | birth (env : Env) (pid ctx : Nat) (h : A .birth) : Effect A s (procNew env s pid ctx).2
  | dying (p : ProcId) (hclose : A (.close p)) :
      Effect A s (s.updProc p fun proc => { proc with isDead := true })
  | unmanage (p : ProcId) (h : s.procAlive p = false) (hclose : A (.close p)) :
      Effect A s (s.releaseManager p)
  | enter (env : Env) (p : ProcId) (tid : Nat) : Effect A s (threadGet env s p tid).2
  | exit (p : ProcId) (th : ThreadId)
      (h : ∀ n, s.queues.loc (.node n) ≠ some (.thread th)) : Effect A s (s.forgetThread p th)
  | discard (n : NodeId) (h : A (.discard n) ∨
      ∀ nd p, s.nodes n = some nd → nd.proc = some p → s.procAlive p = false) :
      Effect A s (s.dequeueWork (.node n))
  | localRef (n : NodeId) (strong increment : Bool) (thread : Option ThreadId)
      (h : strong = false → A .weak) :
      Effect A s (s.nodeUpdateRefs n strong increment false thread).1
  | takeRef (env : Env) (p : ProcId) (n : NodeId) (strong : Bool) (thread : Option ThreadId)
      (r : RefId) (s₁ : Driver) (hA : A (.handle s p n)) (hn : (s.nodes n).isSome)
      (hp : (s.procs p).isSome) (hget : s.refGetForNode env p n = (some r, s₁))
      (h : strong = false → A .weak ∨ A (.weakTake s n)) :
      Effect A s (s₁.refUpdate r strong true thread).1
  | holdRef (r : RefId) (strong : Bool) (thread : Option ThreadId) :
      Effect A s (s.refUpdate r strong true thread).1
  | giveRef (r : RefId) (strong : Bool) (thread : Option ThreadId)
      (h : strong = false → A .weak ∨ A (.weakGive s r)) :
      Effect A s (s.refUpdate r strong false thread).1
  | markRef {s' : Driver} (r : RefId) (death : Option DeathId)
      (h : Aside (s.updRef r fun ref => { ref with death := death }) s') : Effect A s s'
  | deleteRef (r : RefId) (h : ∀ ref, s.refs r = some ref → A (.close ref.proc)) :
      Effect A s (s.refDelete r)
  | makeNode (n : NodeId) (p : ProcId) (ptr cookie flags : Nat)
      (hnew : s.nodeFind p ptr = none) (hn : n = s.nextId) (hp : p < s.nextId)
      (hmake : A (.make p)) : Effect A s (s.bumpId.insertNode n p ptr cookie flags)
  | hold (n : NodeId) : Effect A s (s.nodeIncTmpref n)
  | unhold (n : NodeId) : Effect A s (s.nodeDecTmpref n)
  | async (n : NodeId) (b : Bool) :
      Effect A s (s.updNode n fun nd => { nd with hasAsyncTransaction := b })
  | done (n : NodeId) (strong : Bool) (h : A (.done n strong)) :
      Effect A s (s.updNode n fun nd =>
        if strong then { nd with pendingStrongRef := false }
        else { nd with pendingWeakRef := false })
  | manager (c : Nat) (n : NodeId) (h : A (.manager n))
      (hown : ∃ nd p proc, s.nodes n = some nd ∧ nd.proc = some p ∧ s.procs p = some proc ∧
        proc.context = c) :
      Effect A s ((s.updContext c fun ctx => { ctx with mgrNode := some n }).updNode n
        Node.managed)
  | orphan (p : ProcId) (n : NodeId) (hmem : n ∈ s.procNodes p) (h : s.procAlive p = false)
      (hmgr : s.Resigned p) : Effect A s (s.releaseNode p n)
  | bury (p : ProcId) (h : s.procAlive p = false)
      (hnodes : ∀ n nd, s.nodes n = some nd → nd.proc ≠ some p) : Effect A s (s.forgetProc p)
  | news (env : Env) (th : ThreadId) (n : NodeId) (rc : ReadCall) (q : Queue)
      (hq : s.queues.loc (.node n) = some q) (h : A (.news env s n rc)) :
      Effect A s (readNews env s th n rc q)

/-- An effect between sound states. -/
structure Move (A : Kind → Prop) (s s' : Driver) : Prop where
  effect : Effect A s s'
  sound : Sound s'
  loads : Loads A s s'
  honours : Honours s s'
  notices : Notices (fun k => A (.notice k)) s s'
  concludes : Concludes (fun c => A (.complete c) ∧ c < s'.nextId) s s'

/-- A sequence of effects. -/
def Moves (A : Kind → Prop) : Driver → Driver → Prop := Relation.ReflTransGen (Move A)

theorem Moves.refl (s : Driver) : Moves A s s := Relation.ReflTransGen.refl

theorem Moves.trans (h : Moves A s s') (h' : Moves A s' s'') : Moves A s s'' :=
  Relation.ReflTransGen.trans h h'

theorem Move.moves (h : Move A s s') : Moves A s s' := Relation.ReflTransGen.single h

theorem Moves.sound (h : Moves A s s') (hs : Sound s) : Sound s' := by
  induction h with
  | refl => exact hs
  | tail _ hmove _ => exact hmove.sound

theorem Moves.loads (h : Moves A s s') : Loads A s s' := by
  induction h with
  | refl => exact .refl s
  | tail _ hmove ih => exact ih.trans hmove.loads

theorem Moves.honours (h : Moves A s s') : Honours s s' := by
  induction h with
  | refl => exact .same rfl
  | tail _ hmove ih => exact ih.trans hmove.honours

theorem Moves.concludes (h : Moves A s s') : Concludes (fun c => A (.complete c)) s s' := by
  induction h with
  | refl => exact .same rfl
  | tail _ hmove ih => exact ih.trans (hmove.concludes.mono fun _ => And.left)

/-- Weak payloads stay accounted for. -/
theorem Moves.weak (h : Moves A s s') (hw : s.StoresWeak → A .weak) :
    s'.StoresWeak → A .weak :=
  fun hs' => (h.loads.weak hs').elim id hw

/-- **Invariant rule.**  What every effect keeps, a sequence keeps. -/
theorem Moves.invariant {P : Driver → Prop}
    (hstep : ∀ s s', Sound s → Move A s s' → P s → P s') (h : Moves A s s') (hs : Sound s)
    (hP : P s) : P s' := by
  induction h with
  | refl => exact hP
  | tail hmoves hmove ih => exact hstep _ _ (Moves.sound hmoves hs) hmove ih

theorem Aside.calm (h : Aside s s') (hu : Undisturbed s s') : Calm s s' := by
  obtain ⟨hnodes, -, hrefs, -⟩ := Objects.mk.inj h.objects
  exact .same hu hrefs hnodes (fun p _ hp => h.alive p ▸ hp) (fun th p hth => h.home th ▸ hth)
    h.nextId

theorem Aside.moves (h : Aside s s') (hs : Sound s') (hl : Loads A s s')
    (hu : Undisturbed s s') (hc : Concludes (fun c => A (.complete c) ∧ c < s'.nextId) s s') :
    Moves A s s' :=
  Move.moves ⟨.aside h, hs, hl, h.honours, (h.calm hu).notices, hc⟩

/-- An effect that is a sequence of elementary changes. -/
theorem Effect.moves {O : ProcId → Prop} (h : Effect A s s') (hs : Sound s)
    (hsteps : ObjectSteps O s s') (hn : Notices (fun k => A (.notice k)) s s') : Moves A s s' :=
  Move.moves ⟨h, ObjectSteps.sound hs hsteps, hsteps.kept.loads, ObjectSteps.honours hs hsteps, hn,
    ObjectSteps.concludes hs hsteps⟩

/-! ## Where news wait -/

/-- Addresses in use have been handed out, news about a node wait for its
owner, on its queue or on that of one of its threads, and managers are nodes of
their context. -/
structure Settled (s : Driver) : Prop where
  procs_lt : ∀ p, (s.procs p).isSome → p < s.nextId
  threads_lt : ∀ th, (s.threads th).isSome → th < s.nextId
  owner_lt : ∀ n nd p, s.nodes n = some nd → nd.proc = some p → p < s.nextId
  news_lt : ∀ n q, s.queues.loc (.node n) = some q → n < s.nextId
  news : ∀ n q nd p, s.queues.loc (.node n) = some q → s.nodes n = some nd →
    nd.proc = some p → q = .proc p ∨ ∃ th, q = .thread th ∧ (s.threads th).map (·.proc) = some p
  managed : Managed s

/-- What is accounted for unsettles nothing. -/
theorem Settled.accounted {thread : Option ThreadId} (hs : Sound s) (h : Settled s)
    (hacc : Accounted thread s s') : Settled s' where
  procs_lt p hp := Nat.lt_of_lt_of_le (h.procs_lt p (hacc.procs ▸ hp)) hacc.nextId
  threads_lt th hth := Nat.lt_of_lt_of_le (h.threads_lt th (hacc.threads ▸ hth)) hacc.nextId
  owner_lt n nd' p hn' hp := by
    obtain ⟨nd, hn, hsame⟩ := hacc.back n nd' hn'
    exact Nat.lt_of_lt_of_le (h.owner_lt n nd p hn (hsame.proc ▸ hp)) hacc.nextId
  news_lt n q hq := by
    rcases hacc.news n q hq with hq | ⟨nd, p, hn, hp, -⟩
    · exact Nat.lt_of_lt_of_le (h.news_lt n q hq) hacc.nextId
    · exact Nat.lt_of_lt_of_le (hs.graph.nodes_lt n nd hn) hacc.nextId
  news n q nd' p hq hn' hp := by
    obtain ⟨nd, hn, hsame⟩ := hacc.back n nd' hn'
    rw [hsame.proc] at hp
    rw [hacc.threads]
    rcases hacc.news n q hq with hq | ⟨nd₀, p₀, hn₀, hp₀, hplace⟩
    · exact h.news n q nd p hq hn hp
    · rw [hn] at hn₀
      cases hn₀
      rw [hp] at hp₀
      cases hp₀
      rcases hplace with hq' | ⟨th, -, hq', hhome⟩
      · exact .inl hq'
      · exact .inr ⟨th, hq', hhome⟩
  managed := hacc.managed h.managed

/-- Owners are only forgotten, news only dropped, and nothing happens to
processes and threads. -/
theorem Settled.shrink (h : Settled s) (hprocs : ∀ p, (s'.procs p).isSome → (s.procs p).isSome)
    (hthreads : ∀ th, (s'.threads th).map (·.proc) = (s.threads th).map (·.proc))
    (hid : s.nextId ≤ s'.nextId)
    (hnode : ∀ n nd' p, s'.nodes n = some nd' → nd'.proc = some p →
      ∃ nd, s.nodes n = some nd ∧ nd.proc = some p)
    (hnews : ∀ n q, s'.queues.loc (.node n) = some q → s.queues.loc (.node n) = some q)
    (hmanaged : Managed s') : Settled s' where
  procs_lt p hp := Nat.lt_of_lt_of_le (h.procs_lt p (hprocs p hp)) hid
  threads_lt th hth := by
    have hmap := hthreads th
    refine Nat.lt_of_lt_of_le (h.threads_lt th ?_) hid
    cases hold : s.threads th with
    | some thread => rfl
    | none =>
        rw [hold] at hmap
        cases hnew : s'.threads th with
        | none => simp [hnew] at hth
        | some thread => simp [hnew] at hmap
  owner_lt n nd' p hn' hp := by
    obtain ⟨nd, hn, hp⟩ := hnode n nd' p hn' hp
    exact Nat.lt_of_lt_of_le (h.owner_lt n nd p hn hp) hid
  news_lt n q hq := Nat.lt_of_lt_of_le (h.news_lt n q (hnews n q hq)) hid
  news n q nd' p hq hn' hp := by
    obtain ⟨nd, hn, hp⟩ := hnode n nd' p hn' hp
    simp only [hthreads]
    exact h.news n q nd p (hnews n q hq) hn hp
  managed := hmanaged

theorem Managed.updNode (h : Managed s) (n : NodeId) {f : Node → Node}
    (hf : ∀ nd, (f nd).proc = nd.proc) : Managed (s.updNode n f) := by
  refine h.keep (fun _ _ hc => hc) ?_ (fun _ _ _ _ proc _ _ _ hproc => ⟨proc, hproc, rfl⟩)
  intro c m nd p _ hm hp
  by_cases hmn : m = n
  · subst hmn
    exact ⟨f nd, by simp [Driver.updNode, hm], (hf nd).trans hp⟩
  · exact ⟨nd, by simp [Driver.updNode, hmn, hm], hp⟩

theorem Settled.updNode (h : Settled s) (n : NodeId) {f : Node → Node}
    (hf : ∀ nd, (f nd).proc = nd.proc) : Settled (s.updNode n f) := by
  refine h.shrink (fun _ hp => hp) (fun _ => rfl) (Nat.le_refl _) ?_ (fun _ _ hq => hq)
    (h.managed.updNode n hf)
  intro m nd' p hm hp
  by_cases hmn : m = n
  · subst hmn
    simp only [Driver.updNode, Function.update_self, Option.map_eq_some_iff] at hm
    obtain ⟨nd, hm, rfl⟩ := hm
    exact ⟨nd, hm, hf nd ▸ hp⟩
  · exact ⟨nd', by simpa [Driver.updNode, hmn] using hm, hp⟩

theorem Settled.congr (h : Settled s) (hprocs : s'.procs = s.procs)
    (hthreads : s'.threads = s.threads) (hnodes : s'.nodes = s.nodes)
    (hnews : ∀ n, s'.queues.loc (.node n) = s.queues.loc (.node n))
    (hmgr : ∀ c n, (s'.contexts c).mgrNode = some n → (s.contexts c).mgrNode = some n)
    (hid : s.nextId ≤ s'.nextId) : Settled s' :=
  h.shrink (fun p hp => hprocs ▸ hp) (fun th => by rw [hthreads]) hid
    (fun _ nd' _ hn hp => ⟨nd', hnodes ▸ hn, hp⟩) (fun n _ hq => hnews n ▸ hq)
    (h.managed.keep hmgr (fun _ _ nd _ _ hn hp => ⟨nd, hnodes ▸ hn, hp⟩)
      fun _ _ _ _ proc _ _ _ hproc => ⟨proc, hprocs ▸ hproc, rfl⟩)

theorem Settled.bumpId (h : Settled s) : Settled s.bumpId :=
  h.congr rfl rfl rfl (fun _ => rfl) (fun _ _ hc => hc) (Nat.le_succ _)

theorem Settled.procNew (h : Settled s) (env : Env) (pid ctx : Nat) :
    Settled (procNew env s pid ctx).2 := by
  have hbump := h.bumpId
  refine procNew_rule env pid ctx hbump { hbump with procs_lt := ?_, managed := ?_ }
  · intro p hp
    by_cases hps : p = s.nextId
    · rw [hps]
      exact Nat.lt_succ_self _
    · exact hbump.procs_lt p (by simpa [insertProc, Driver.bumpId, hps] using hp)
  · refine h.managed.keep (fun _ _ hc => hc) (fun _ _ nd _ _ hn hp => ⟨nd, hn, hp⟩) ?_
    intro c n nd p proc _ _ _ hproc
    have hps : p ≠ s.nextId := Nat.ne_of_lt (h.procs_lt p (by simp [hproc]))
    exact ⟨proc, by simpa [insertProc, Driver.bumpId, hps] using hproc, rfl⟩

/-- A new thread is settled. -/
theorem Settled.threadGet (h : Settled s) (env : Env) (p : ProcId) (tid : Nat) :
    Settled (threadGet env s p tid).2 := by
  have hbump := h.bumpId
  refine threadGet_rule env p tid h hbump { hbump with threads_lt := ?_, news := ?_ }
  · intro th hth
    by_cases hths : th = s.nextId
    · rw [hths]
      exact Nat.lt_succ_self _
    · exact hbump.threads_lt th (by simpa [insertThread, Driver.bumpId, hths] using hth)
  · intro n q nd p' hq hn hp
    rcases h.news n q nd p' hq hn hp with hq' | ⟨th, hq', hhome⟩
    · exact .inl hq'
    · refine .inr ⟨th, hq', ?_⟩
      -- a thread that news wait for is known, so it is not the new one
      have hths : th ≠ s.nextId := by
        intro he
        have hlt := h.threads_lt th (by
          cases hth : s.threads th with
          | none => simp [hth] at hhome
          | some thread => rfl)
        rw [he] at hlt
        exact Nat.lt_irrefl _ hlt
      simpa [insertThread, Driver.bumpId, hths] using hhome

/-- A thread with no news on its queue may go. -/
theorem Settled.forgetThread (h : Settled s) (p : ProcId) (th : ThreadId)
    (hnews : ∀ n, s.queues.loc (.node n) ≠ some (.thread th)) : Settled (s.forgetThread p th) := by
  refine { h with threads_lt := ?_, news := ?_ }
  · intro th' hth'
    by_cases he : th' = th
    · simp [Driver.forgetThread, he] at hth'
    · exact h.threads_lt th' (by simpa [Driver.forgetThread, he] using hth')
  · intro n q nd p' hq hn hp
    rcases h.news n q nd p' hq hn hp with hq' | ⟨th', hq', hhome⟩
    · exact .inl hq'
    · refine .inr ⟨th', hq', ?_⟩
      have hne : th' ≠ th := by
        rintro rfl
        exact hnews n (hq' ▸ hq)
      simpa [Driver.forgetThread, hne] using hhome

/-- News go back where their owner reads them. -/
theorem Settled.putBack (h : Settled s) {n : NodeId} {q : Queue} (hlt : n < s.nextId)
    (hplace : ∀ nd p, s.nodes n = some nd → nd.proc = some p →
      q = .proc p ∨ ∃ th, q = .thread th ∧ (s.threads th).map (·.proc) = some p) :
    Settled (s.putBack q (.node n)) := by
  refine { h with news_lt := ?_, news := ?_ }
  · intro m q' hm
    simp only [Driver.putBack, Queues.insert_loc, Work.node.injEq] at hm
    split at hm
    · rename_i hmn
      rw [hmn.1]
      exact hlt
    · exact h.news_lt m q' hm
  · intro m q' nd p hm hn hp
    simp only [Driver.putBack, Queues.insert_loc, Work.node.injEq] at hm
    split at hm
    · rename_i hmn
      cases hm
      exact hplace nd p (hmn.1 ▸ hn) hp
    · exact h.news m q' nd p hm hn hp

theorem Settled.dequeue (h : Settled s) (w : Work) : Settled (s.dequeueWork w) := by
  refine h.shrink (fun _ hp => hp) (fun _ => rfl) (Nat.le_refl _)
    (fun _ nd' _ hn hp => ⟨nd', hn, hp⟩) ?_ h.managed
  intro m q hm
  simp only [dequeueWork, Queues.remove_loc] at hm
  split at hm
  · cases hm
  · exact hm

/-- A report unsettles nothing. -/
theorem Settled.reported (h : Settled s) {n : NodeId} (hrep : Reported n s s') : Settled s' := by
  refine h.shrink (fun p hp => hrep.procs ▸ hp) (fun th => by rw [hrep.threads])
    (Nat.le_of_eq hrep.nextId.symm) ?_ (fun m q hm => hrep.queues ▸ hm) ?_
  · intro m nd' p hm hp
    by_cases hmn : m = n
    · subst hmn
      obtain ⟨nd, hn, hproc, -⟩ := hrep.node nd' hm
      exact ⟨nd, hn, hproc ▸ hp⟩
    · exact ⟨nd', hrep.other m hmn ▸ hm, hp⟩
  · refine h.managed.keep (fun _ _ hc => hrep.contexts ▸ hc) ?_
      fun _ _ _ _ proc _ _ _ hproc => ⟨proc, hrep.procs ▸ hproc, rfl⟩
    intro c m nd p _ hm hp
    by_cases hmn : m = n
    · subst hmn
      obtain ⟨nd', hm'⟩ := Option.isSome_iff_exists.mp (hrep.kept nd hm)
      obtain ⟨nd₀, hm₀, hproc, -⟩ := hrep.node nd' hm'
      rw [hm] at hm₀
      cases hm₀
      exact ⟨nd', hm', hproc.trans hp⟩
    · exact ⟨nd, (hrep.other m hmn).trans hm, hp⟩

/-- What a read of node news comes to, before what did not fit is put back. -/
theorem readNodeWork_reported (hs : Sound s) (env : Env) (th : ThreadId) (n : NodeId)
    (rc : ReadCall) : ∃ s₁, Reported n s s₁ ∧ Sound s₁ ∧
      ((readNodeWork env s th n rc).drv = s₁ ∨
        (readNodeWork env s th n rc).error = none ∧
          (readNodeWork env s th n rc).drv = s₁.nodeMaybeFree n) := by
  rcases readNodeWork_cases env s th n rc with ⟨heq, -⟩ | heq | ⟨nd, hn, -, heq⟩
  · exact ⟨s, .refl n s, hs, .inl (by rw [heq])⟩
  · exact ⟨s, .refl n s, hs, .inl (by rw [heq])⟩
  · refine ⟨(reportNews env s th n nd rc).drv, reportNews_reported env s th n nd rc,
      ObjectSteps.sound hs (reportNews_steps (O := fun _ => True) env s th n nd rc), ?_⟩
    rw [heq]
    split
    · rename_i hdue
      rw [Bool.and_eq_true, Option.isNone_iff_eq_none] at hdue
      exact .inr ⟨hdue.2, rfl⟩
    · exact .inl rfl

/-- News are read, or put back. -/
theorem Settled.readNews (hs : Sound s) (h : Settled s) (env : Env) (th : ThreadId) (n : NodeId)
    (rc : ReadCall) {q : Queue} (hq : s.queues.loc (.node n) = some q) :
    Settled (readNews env s th n rc q) := by
  obtain ⟨s₁, hrep, hs₁, hcase⟩ := readNodeWork_reported (hs.dequeue (.node n)) env th n rc
  have h₁ := (h.dequeue (.node n)).reported hrep
  unfold Driver.readNews
  simp only
  rcases hcase with hdrv | ⟨herr, hdrv⟩
  · rw [hdrv]
    split
    · refine h₁.putBack (hrep.nextId ▸ h.news_lt n q hq) ?_
      intro nd' p hn' hp
      obtain ⟨nd, hn, hproc, -⟩ := hrep.node nd' hn'
      rw [hrep.threads]
      exact h.news n q nd p hq hn (hproc ▸ hp)
    · exact h₁
  · have hacc : Accounted none s₁ _ := nodeMaybeFree_accounted hs₁ n
    rw [hdrv, if_neg (by simp [herr])]
    exact h₁.accounted hs₁ hacc

theorem Settled.aside (h : Settled s) (ha : Aside s s') : Settled s' := by
  obtain ⟨hnodes, -⟩ := Objects.mk.inj ha.objects
  refine h.shrink (fun p hp => ha.procs p ▸ hp) ha.home ha.nextId
    (fun _ nd' _ hn hp => ⟨nd', hnodes ▸ hn, hp⟩) (fun n _ hq => ha.news n ▸ hq)
    (h.managed.keep ha.managers (fun _ _ nd _ _ hn hp => ⟨nd, hnodes ▸ hn, hp⟩) ?_)
  intro c n nd p proc _ _ _ hproc
  have hctx := ha.context p
  rw [hproc, Option.map_some, Option.map_eq_some_iff] at hctx
  exact hctx

theorem Settled.releaseManager (h : Settled s) (p : ProcId) : Settled (s.releaseManager p) := by
  apply releaseManager_rule p h
  intro proc m _ _ _
  refine Settled.updNode (s := s.updContext _ _) ?_ _ fun _ => rfl
  refine h.congr rfl rfl rfl (fun _ => rfl) ?_ (Nat.le_refl _)
  intro c m hc
  by_cases he : c = proc.context
  · simp [updContext, he] at hc
  · simpa [updContext, he] using hc

/-- A node whose process closes is orphaned or freed. -/
theorem Settled.releaseNode (hs : Sound s) (h : Settled s) {p : ProcId} {n : NodeId}
    (hmem : n ∈ s.procNodes p) (hmgr : s.Resigned p) : Settled (s.releaseNode p n) := by
  obtain ⟨s₁, hs₁, hframe, hobj, heq⟩ := releaseNode_cases hs hmem
  obtain ⟨hnodes, -⟩ := Objects.mk.inj hobj
  have h₁ : Settled s₁ := by
    refine h.shrink (fun p hp => hframe.procs ▸ hp) (fun th => by rw [hframe.threads])
      (Nat.le_of_eq hframe.nextId.symm) ?_ (fun m _ hq => hframe.news m ▸ hq) ?_
    · intro m nd' p' hm hp'
      rw [hnodes] at hm
      by_cases hmn : m = n
      · subst hmn
        simp only [Driver.updNode, Function.update_self, Option.map_eq_some_iff] at hm
        obtain ⟨nd, -, rfl⟩ := hm
        cases hp'
      · exact ⟨nd', by simpa [Driver.updNode, unlistNode, hmn] using hm, hp'⟩
    · refine h.managed.keep hframe.managers ?_
        fun _ _ _ _ proc _ _ _ hproc => ⟨proc, hframe.procs ▸ hproc, rfl⟩
      intro c m nd p' hc hm hp'
      have hmn : m ≠ n := by
        rintro rfl
        obtain ⟨nd₀, hn₀, hp₀⟩ := (hs.graph.procNodes.mem_iff p m).mp hmem
        exact hmgr c m (hframe.managers c m hc) (by simp [hn₀, hp₀])
      refine ⟨nd, ?_, hp'⟩
      rw [hnodes]
      simpa [Driver.updNode, unlistNode, hmn] using hm
  have hacc : Accounted none s₁ _ := nodeMaybeFree_accounted hs₁ n
  rw [heq]
  exact h₁.accounted hs₁ hacc

theorem Settled.forgetProc (h : Settled s) {p : ProcId}
    (hnodes : ∀ n nd, s.nodes n = some nd → nd.proc ≠ some p) : Settled (s.forgetProc p) := by
  refine h.shrink ?_ (fun _ => rfl) (Nat.le_refl _) (fun _ nd' _ hn hp => ⟨nd', hn, hp⟩)
    (fun _ _ hq => hq) (h.managed.keep (fun _ _ hc => hc) (fun _ _ nd _ _ hn hp => ⟨nd, hn, hp⟩) ?_)
  · intro p' hp'
    by_cases hpp : p' = p
    · simp [Driver.forgetProc, hpp] at hp'
    · simpa [Driver.forgetProc, hpp] using hp'
  · intro c n nd p' proc _ hn hp hproc
    have hpp : p' ≠ p := fun he => hnodes n nd hn (he ▸ hp)
    exact ⟨proc, by simpa [Driver.forgetProc, hpp] using hproc, rfl⟩

/-- **News stay where their owner will find them.** -/
theorem Effect.settled (hs : Sound s) (h : Settled s) (he : Effect A s s') : Settled s' := by
  cases he with
  | aside ha =>
      exact h.aside ha
  | birth env pid ctx _ => exact h.procNew env pid ctx
  | dying p _ =>
      have hctx : ∀ p', ((s.updProc p fun proc => { proc with isDead := true }).procs p').map
          (·.context) = (s.procs p').map (·.context) := by
        intro p'
        by_cases hp : p' = p
        · subst hp
          cases hproc : s.procs p' <;> simp [updProc, hproc]
        · simp [updProc, hp]
      refine h.shrink ?_ (fun _ => rfl) (Nat.le_refl _) (fun _ nd' _ hn hp => ⟨nd', hn, hp⟩)
        (fun _ _ hq => hq)
        (h.managed.keep (fun _ _ hc => hc) (fun _ _ nd _ _ hn hp => ⟨nd, hn, hp⟩) ?_)
      · intro p' hp'
        have hsome := congrArg Option.isSome (hctx p')
        rw [Option.isSome_map, Option.isSome_map] at hsome
        exact hsome ▸ hp'
      · intro c n nd p' proc _ _ _ hproc
        have hp' := hctx p'
        rw [hproc, Option.map_some, Option.map_eq_some_iff] at hp'
        exact hp'
  | unmanage p _ _ => exact h.releaseManager p
  | enter env p tid => exact h.threadGet env p tid
  | exit p th hnews => exact h.forgetThread p th hnews
  | discard n _ => exact h.dequeue (.node n)
  | localRef n strong increment thread _ =>
      exact h.accounted hs (nodeUpdateRefs_accounted hs n strong increment false thread)
  | takeRef env p n strong thread r s₁ _ hn _ hget _ =>
      exact h.accounted hs (takeRef_accounted hs hget strong thread)
  | holdRef r strong thread =>
      exact h.accounted hs (refUpdate_accounted hs r strong true thread)
  | giveRef r strong thread _ =>
      exact h.accounted hs (refUpdate_accounted hs r strong false thread)
  | markRef r death ha =>
      have hacc : Accounted none s (s.updRef r fun ref => { ref with death := death }) :=
        updRef_accounted s r _
      exact (h.accounted hs hacc).aside ha
  | deleteRef r _ =>
      have hacc : Accounted none s _ := refDelete_accounted hs r
      exact h.accounted hs hacc
  | makeNode n p ptr cookie flags hnew hn hp _ =>
      subst hn
      have hbump := h.bumpId
      refine { hbump with owner_lt := ?_, news := ?_, managed := ?_ }
      · intro m nd p' hm hp'
        by_cases hmn : m = s.nextId
        · simp only [insertNode, bumpId, hmn, Function.update_self, Option.some.injEq] at hm
          rw [← hm] at hp'
          cases hp'
          exact Nat.lt_succ_of_lt hp
        · exact hbump.owner_lt m nd p' (by simpa [insertNode, bumpId, hmn] using hm) hp'
      · intro m q nd p' hq hm hp'
        have hmn : m ≠ s.nextId := Nat.ne_of_lt (h.news_lt m q hq)
        exact hbump.news m q nd p' hq (by simpa [insertNode, bumpId, hmn] using hm) hp'
      · refine h.managed.keep (fun _ _ hc => hc) ?_
          fun _ _ _ _ proc _ _ _ hproc => ⟨proc, hproc, rfl⟩
        intro c m nd p' _ hm hp'
        have hmn : m ≠ s.nextId := Nat.ne_of_lt (hs.graph.nodes_lt m nd hm)
        exact ⟨nd, by simpa [insertNode, bumpId, hmn] using hm, hp'⟩
  | hold n => exact h.updNode n fun _ => rfl
  | unhold n =>
      have hacc : Accounted none s _ := nodeDecTmpref_accounted hs n
      exact h.accounted hs hacc
  | async n b => exact h.updNode n fun _ => rfl
  | done n strong _ =>
      refine h.updNode n fun nd => ?_
      split <;> rfl
  | manager c n _ hown =>
      refine Settled.updNode (s := s.updContext c _) ?_ n fun _ => rfl
      refine { h with managed := ?_ }
      intro c' m hc
      by_cases he : c' = c
      · subst he
        have hm : m = n := by simpa [updContext, eq_comm] using hc
        rw [hm]
        exact hown
      · exact h.managed c' m (by simpa [updContext, he] using hc)
  | orphan p n hmem _ hmgr => exact h.releaseNode hs hmem hmgr
  | bury p _ hnodes => exact h.forgetProc hnodes
  | news env th n rc q hq _ => exact h.readNews hs env th n rc hq

/-- Every process belongs to its context and is as alive as it was. -/
def SameProcs (s s' : Driver) : Prop :=
  ∀ p, (s'.procs p).map (·.context) = (s.procs p).map (·.context) ∧
    s'.procAlive p = s.procAlive p

theorem SameProcs.same (h : s'.procs = s.procs) : SameProcs s s' := by
  intro p
  rw [procAlive, procAlive, h]
  exact ⟨rfl, rfl⟩

/-- What an effect does to the processes. -/
theorem Effect.procs_cases (hs : Sound s) (he : Effect A s s') :
    SameProcs s s' ∨ (∃ env pid ctx, A .birth ∧ s' = (procNew env s pid ctx).2) ∨
      (∃ p, A (.close p) ∧ s' = s.updProc p fun proc => { proc with isDead := true }) ∨
      ∃ p, s.procAlive p = false ∧ s' = s.forgetProc p := by
  cases he with
  | aside ha => exact .inl fun p => ⟨ha.context p, ha.alive p⟩
  | birth env pid ctx hA => exact .inr (.inl ⟨env, pid, ctx, hA, rfl⟩)
  | dying p hclose => exact .inr (.inr (.inl ⟨p, hclose, rfl⟩))
  | bury p hdead _ => exact .inr (.inr (.inr ⟨p, hdead, rfl⟩))
  | unmanage p _ _ =>
      have hsteps := releaseManager_steps (O := fun _ => True) (s := s) p
      exact .inl (.same (ObjectSteps.threads hs hsteps).2.2)
  | enter env p tid =>
      exact .inl (.same (threadGet_rule (P := fun s' => s'.procs = s.procs) env p tid rfl rfl rfl))
  | localRef n strong increment thread _ =>
      exact .inl (.same (nodeUpdateRefs_accounted hs n strong increment false thread).procs)
  | takeRef env p n strong thread r s₁ _ _ _ hget _ =>
      exact .inl (.same (takeRef_accounted hs hget strong thread).procs)
  | holdRef r strong thread =>
      exact .inl (.same (refUpdate_accounted hs r strong true thread).procs)
  | giveRef r strong thread _ =>
      exact .inl (.same (refUpdate_accounted hs r strong false thread).procs)
  | markRef r death ha => exact .inl fun p => ⟨ha.context p, ha.alive p⟩
  | deleteRef r _ =>
      have hacc : Accounted none s (s.refDelete r) := refDelete_accounted hs r
      exact .inl (.same hacc.procs)
  | unhold n =>
      have hacc : Accounted none s (s.nodeDecTmpref n) := nodeDecTmpref_accounted hs n
      exact .inl (.same hacc.procs)
  | orphan p n hmem _ _ =>
      have hsteps := releaseNode_steps (O := fun _ => True) hs hmem
      exact .inl (.same (ObjectSteps.threads hs hsteps).2.2)
  | news env th n rc q hq _ =>
      have hsteps := readNodeWork_steps (O := fun _ => True) (hs.dequeue (.node n)) env th n rc
      have hprocs := (ObjectSteps.threads (hs.dequeue (.node n)) hsteps).2.2
      refine .inl (.same ?_)
      unfold readNews
      simp only
      split <;> exact hprocs
  | _ => exact .inl (.same rfl)

theorem Moves.settled (h : Moves A s s') (hs : Sound s) (hset : Settled s) : Settled s' :=
  h.invariant (fun _ _ hs hmove hset => hmove.effect.settled hs hset) hs hset

end Driver

end Binder
