import DevfsBinder.ArenaTiling
import DevfsBinder.CallView
import DevfsBinder.DriverRun
import DevfsBinder.IndexedTable

/-!
# What the object accounting can do

Every function of `binder_node.c` is a sequence of a dozen elementary changes
to the tables of nodes and references.  `ObjectStep` lists them once, each with
what is known when it happens, and the lemmas of this file say that a function
is such a sequence.  Facts about the accounting are then proved one elementary
change at a time, and no later proof unfolds these functions again.

A step is labelled with the processes `O` whose references may lose counts
in it: giving a reference back, or deleting it, is done only on behalf of its
holder.

The accounting shares the driver's queues with the transactions, and releasing
a node drops the oneway transactions queued behind it.  To the call machine all
of it is quiet.
-/

namespace Binder

/-- Once a context has let somebody manage it, nobody else may. -/
def Context.Honours (ctx ctx' : Context) : Prop :=
  ctx.mgrUidValid = true → ctx'.mgrUidValid = true ∧ ctx'.mgrUid = ctx.mgrUid

namespace Driver

/-! ## The tables of objects -/

/-- The tables of nodes and references. -/
structure Objects where
  nodes : Table Node
  nodeRefs : NodeId → List RefId
  refs : Table Ref
  procRefs : ProcId → List RefId
  procNodes : ProcId → List NodeId

def objects (s : Driver) : Objects where
  nodes := s.nodes
  nodeRefs := s.nodeRefs
  refs := s.refs
  procRefs := s.procRefs
  procNodes := s.procNodes

/-! ## Elementary changes -/

/-- A change of a node's counts and flags leaves alone what the node is. -/
structure NodeKept (f : Node → Node) : Prop where
  proc : ∀ nd, (f nd).proc = nd.proc
  ptr : ∀ nd, (f nd).ptr = nd.ptr
  cookie : ∀ nd, (f nd).cookie = nd.cookie
  flags : ∀ nd, (f nd).flags = nd.flags

/-- A change of a reference's counts leaves alone what it names. -/
structure RefKept (f : Ref → Ref) : Prop where
  proc : ∀ ref, (f ref).proc = ref.proc
  node : ∀ ref, (f ref).node = ref.node
  desc : ∀ ref, (f ref).desc = ref.desc

/-- A change of a reference that takes nothing away. -/
structure RefRaised (f : Ref → Ref) : Prop extends RefKept f where
  strong : ∀ ref, ref.strong ≤ (f ref).strong
  weak : ∀ ref, ref.weak ≤ (f ref).weak

/-- Take a node out of its owner's list, if it has an owner. -/
def unlistOwned (s : Driver) (n : NodeId) (owner : Option ProcId) : Driver :=
  match owner with
  | some p => s.unlistNode p n
  | none => s

/-- One elementary change, in which references of the processes `O` may lose
counts. -/
inductive ObjectStep (O : ProcId → Prop) (s : Driver) : Driver → Prop
  | bump : ObjectStep O s s.bumpId
  | stats (f : Stats → Stats) : ObjectStep O s (s.updStats f)
  | wake (c : Channel) : ObjectStep O s (s.wake c)
  | sel (p : ProcId) : ObjectStep O s (s.selWakeup p)
  | context (c : Nat) (f : Context → Context)
      (hf : (s.contexts c).Honours (f (s.contexts c))) : ObjectStep O s (s.updContext c f)
  | deaths (deaths : Table Death) (freed : List DeathId) :
      ObjectStep O s { s with deaths := deaths, freed := freed }
  | tell (th : ThreadId) (cmd : BR) (w : Work) : ObjectStep O s (s.tell th cmd w)
  | queueNode (n : NodeId) (p : ProcId) (q : Queue)
      (hn : (s.nodes n).bind (·.proc) = some p)
      (hq : q = .proc p ∨ ∃ th, q = .thread th ∧ (s.threads th).map (·.proc) = some p) :
      ObjectStep O s { s with queues := s.queues.insert q (.node n) false }
  | queueDeath (q : Queue) (d : DeathId) (hq : ∀ n, q ≠ .node n) :
      ObjectStep O s { s with queues := s.queues.insert q (.death d) false }
  | dequeueDeath (d : DeathId) : ObjectStep O s (s.dequeueWork (.death d))
  | drop (n : NodeId) (t : TxnId) (h : s.queues.loc (.transaction t) = some (.node n)) :
      ObjectStep O s (s.dropAsync (.transaction t))
  | count (n : NodeId) (f : Node → Node) (hf : NodeKept f) :
      ObjectStep O s (s.updNode n f)
  | orphan (p : ProcId) (n : NodeId) (h : n ∈ s.procNodes p) :
      ObjectStep O s ((s.unlistNode p n).updNode n fun nd =>
        { nd with isDead := true, proc := none })
  | addNode (p : ProcId) (ptr cookie flags : Nat) (h : s.nodeFind p ptr = none) :
      ObjectStep O s (s.bumpId.insertNode s.nextId p ptr cookie flags)
  | removeNode (n : NodeId) (nd : Node) (hn : s.nodes n = some nd)
      (hrefs : s.nodeRefs n = []) (hitems : s.queues.items (.node n) = []) :
      ObjectStep O s ((s.unlistOwned n nd.proc).forgetNode n)
  | addRef (p : ProcId) (n : NodeId) (h : s.refFindForNode p n = none) :
      ObjectStep O s (s.bumpId.insertRef s.nextId p n)
  | raise (r : RefId) (f : Ref → Ref) (hf : RefRaised f) : ObjectStep O s (s.updRef r f)
  | lower (r : RefId) (f : Ref → Ref) (hf : RefKept f)
      (hown : ∀ ref, s.refs r = some ref → O ref.proc) : ObjectStep O s (s.updRef r f)
  | removeRef (r : RefId) (ref : Ref) (hr : s.refs r = some ref) (hown : O ref.proc) :
      ObjectStep O s (s.forgetRef r ref)

/-- A sequence of elementary changes. -/
def ObjectSteps (O : ProcId → Prop) : Driver → Driver → Prop :=
  Relation.ReflTransGen (ObjectStep O)

variable {O : ProcId → Prop} {s s' s'' : Driver}

theorem ObjectSteps.refl (s : Driver) : ObjectSteps O s s := Relation.ReflTransGen.refl

theorem ObjectSteps.trans (h : ObjectSteps O s s') (h' : ObjectSteps O s' s'') :
    ObjectSteps O s s'' :=
  Relation.ReflTransGen.trans h h'

theorem ObjectStep.steps (h : ObjectStep O s s') : ObjectSteps O s s' :=
  Relation.ReflTransGen.single h

/-- What every elementary change keeps, a sequence keeps. -/
theorem ObjectSteps.invariant {P : Driver → Prop}
    (hstep : ∀ s s', P s → ObjectStep O s s' → P s') (h : ObjectSteps O s s')
    (hs : P s) : P s' := by
  induction h with
  | refl => exact hs
  | tail _ hstep' ih => exact hstep _ _ ih hstep'

/-! ## The tables agree -/

/-- The lists of nodes and references describe the tables: a reference is on
its holder's list and on its node's list, a node on its owner's, each once, and
a process has at most one node for a pointer. -/
structure Graph (s : Driver) : Prop where
  refs_lt : ∀ r ref, s.refs r = some ref → r < s.nextId
  nodes_lt : ∀ n nd, s.nodes n = some nd → n < s.nextId
  procRefs : Indexes s.refs (fun ref => some ref.proc) s.procRefs
  nodeRefs : Indexes s.refs (fun ref => some ref.node) s.nodeRefs
  procNodes : Indexes s.nodes (fun nd => nd.proc) s.procNodes
  ptr_inj : ∀ n n' nd nd' p, s.nodes n = some nd → s.nodes n' = some nd' →
    nd.proc = some p → nd'.proc = some p → nd.ptr = nd'.ptr → n = n'

/-- The back pointers of work items are right, and behind a node wait only
oneway transactions. -/
structure QueuesOk (s : Driver) : Prop where
  consistent : s.queues.Consistent
  queued_lt : ∀ t q, s.queues.loc (.transaction t) = some q → t < s.nextId
  behindNode : ∀ w n, s.queues.loc w = some (.node n) →
    ∃ t x, w = .transaction t ∧ s.txns t = some x ∧ x.Oneway

/-- The lists of threads describe the table of threads. -/
def ThreadsOk (s : Driver) : Prop :=
  Indexes s.threads (fun thread => some thread.proc) s.procThreads

structure Sound (s : Driver) : Prop where
  graph : Graph s
  queues : QueuesOk s
  arenas : ∀ p, ArenaOk (s.arenas p) s.nextId
  threads : ThreadsOk s
  tiled : ∀ p, Tiled (s.arenas p)

theorem Graph.congr (h : Graph s) (hobj : s'.objects = s.objects)
    (hid : s.nextId ≤ s'.nextId) : Graph s' := by
  obtain ⟨hn, hnr, hr, hpr, hpn⟩ := Objects.mk.inj hobj
  constructor
  · intro r ref hr'
    exact Nat.lt_of_lt_of_le (h.refs_lt r ref (hr ▸ hr')) hid
  · intro n nd hn'
    exact Nat.lt_of_lt_of_le (h.nodes_lt n nd (hn ▸ hn')) hid
  · rw [hpr, hr]; exact h.procRefs
  · rw [hnr, hr]; exact h.nodeRefs
  · rw [hpn, hn]; exact h.procNodes
  · rw [hn]; exact h.ptr_inj

/-- A node of a state whose node table was changed in place. -/
private theorem node_of_updNode {n m : NodeId} {f : Node → Node} {nd : Node}
    (h : (s.updNode n f).nodes m = some nd) :
    ∃ nd₀, s.nodes m = some nd₀ ∧ (nd = nd₀ ∨ nd = f nd₀) := by
  by_cases hmn : m = n
  · subst hmn
    simp only [Driver.updNode, Function.update_self, Option.map_eq_some_iff] at h
    obtain ⟨nd₀, h₀, rfl⟩ := h
    exact ⟨nd₀, h₀, .inr rfl⟩
  · simp only [Driver.updNode, Function.update_of_ne hmn] at h
    exact ⟨nd, h, .inl rfl⟩

/-- A node changes in place. -/
theorem Graph.updNode (h : Graph s) (n : NodeId) {f : Node → Node} (hf : NodeKept f) :
    Graph (s.updNode n f) := by
  have hback : ∀ m nd, (s.updNode n f).nodes m = some nd →
      ∃ nd₀, s.nodes m = some nd₀ ∧ nd.proc = nd₀.proc ∧ nd.ptr = nd₀.ptr := by
    intro m nd hm
    obtain ⟨nd₀, h₀, rfl | rfl⟩ := node_of_updNode hm
    · exact ⟨nd, h₀, rfl, rfl⟩
    · exact ⟨nd₀, h₀, hf.proc _, hf.ptr _⟩
  refine ⟨h.refs_lt, ?_, h.procRefs, h.nodeRefs, h.procNodes.modify n hf.proc, ?_⟩
  · intro m nd hm
    obtain ⟨nd₀, h₀, -⟩ := hback m nd hm
    exact h.nodes_lt m nd₀ h₀
  · intro m m' nd nd' p hm hm' hp hp' hptr
    obtain ⟨nd₀, h₀, hproc, hptr₀⟩ := hback m nd hm
    obtain ⟨nd₀', h₀', hproc', hptr₀'⟩ := hback m' nd' hm'
    exact h.ptr_inj m m' nd₀ nd₀' p h₀ h₀' (by rw [← hproc, hp]) (by rw [← hproc', hp'])
      (by rw [← hptr₀, ← hptr₀', hptr])

theorem Graph.updRef (h : Graph s) (r : RefId) {f : Ref → Ref} (hf : RefKept f) :
    Graph (s.updRef r f) := by
  refine ⟨?_, h.nodes_lt, h.procRefs.modify r (by simp [hf.proc]),
    h.nodeRefs.modify r (by simp [hf.node]), h.procNodes, h.ptr_inj⟩
  intro q ref hq
  by_cases hqr : q = r
  · subst hqr
    simp only [Driver.updRef, Function.update_self, Option.map_eq_some_iff] at hq
    obtain ⟨ref₀, h₀, -⟩ := hq
    exact h.refs_lt q ref₀ h₀
  · exact h.refs_lt q ref (by simpa [Driver.updRef, hqr] using hq)

/-- Addresses that have not been handed out name no record. -/
theorem Graph.refs_fresh (h : Graph s) : s.refs s.nextId = none := by
  cases hr : s.refs s.nextId with
  | none => rfl
  | some ref => exact absurd (h.refs_lt _ _ hr) (Nat.lt_irrefl _)

theorem Graph.nodes_fresh (h : Graph s) : s.nodes s.nextId = none := by
  cases hn : s.nodes s.nextId with
  | none => rfl
  | some nd => exact absurd (h.nodes_lt _ _ hn) (Nat.lt_irrefl _)

/-- `binder_node_find` finds the one node of the process at that address. -/
theorem Graph.nodeFind_eq_some (h : Graph s) {p : ProcId} {ptr : Nat} {n : NodeId} :
    s.nodeFind p ptr = some n ↔
      ∃ nd, s.nodes n = some nd ∧ nd.proc = some p ∧ nd.ptr = ptr := by
  constructor
  · intro hfind
    obtain ⟨nd, hn, hp⟩ := (h.procNodes.mem_iff p n).mp (List.mem_of_find?_eq_some hfind)
    have hptr := List.find?_some hfind
    simp only [hn, decide_eq_true_eq] at hptr
    exact ⟨nd, hn, hp, hptr⟩
  · rintro ⟨nd, hn, hp, hptr⟩
    have hmem : n ∈ s.procNodes p := (h.procNodes.mem_iff p n).mpr ⟨nd, hn, hp⟩
    cases hfind : s.nodeFind p ptr with
    | none =>
        have hno := List.find?_eq_none.mp hfind n hmem
        simp [hn, hptr] at hno
    | some n' =>
        obtain ⟨nd', hn', hp'⟩ :=
          (h.procNodes.mem_iff p n').mp (List.mem_of_find?_eq_some hfind)
        have hptr' := List.find?_some hfind
        simp only [hn', decide_eq_true_eq] at hptr'
        rw [h.ptr_inj n' n nd' nd p hn' hn hp' hp (by rw [hptr', hptr])]

/-- A new node, listed with its owner. -/
theorem Graph.addNode (h : Graph s) {p : ProcId} {ptr cookie flags : Nat}
    (hfind : s.nodeFind p ptr = none) :
    Graph (s.bumpId.insertNode s.nextId p ptr cookie flags) := by
  have hcase : ∀ m nd, (s.bumpId.insertNode s.nextId p ptr cookie flags).nodes m = some nd →
      (m = s.nextId ∧ nd.proc = some p ∧ nd.ptr = ptr) ∨ s.nodes m = some nd := by
    intro m nd hm
    by_cases hmn : m = s.nextId
    · subst hmn
      simp only [bumpId, insertNode, Function.update_self, Option.some.injEq] at hm
      subst hm
      exact .inl ⟨rfl, rfl, rfl⟩
    · exact .inr (by simpa [bumpId, insertNode, hmn] using hm)
  have hnew : ∀ m nd, s.nodes m = some nd → nd.proc = some p → nd.ptr ≠ ptr := by
    intro m nd hm hp hptr
    have hsome := h.nodeFind_eq_some.mpr ⟨nd, hm, hp, hptr⟩
    rw [hfind] at hsome
    cases hsome
  refine ⟨?_, ?_, h.procRefs, h.nodeRefs, h.procNodes.insert h.nodes_fresh rfl, ?_⟩
  · intro r ref hr
    exact Nat.lt_succ_of_lt (h.refs_lt r ref hr)
  · intro m nd hm
    rcases hcase m nd hm with ⟨rfl, -⟩ | hm
    · exact Nat.lt_succ_self _
    · exact Nat.lt_succ_of_lt (h.nodes_lt m nd hm)
  · intro m m' nd nd' q hm hm' hq hq' hptr
    rcases hcase m nd hm with ⟨rfl, hp, hptr₀⟩ | hold <;>
      rcases hcase m' nd' hm' with ⟨rfl, hp', hptr₀'⟩ | hold'
    · rfl
    · rw [hp] at hq
      exact absurd (hptr.symm.trans hptr₀) (hnew m' nd' hold' (hq'.trans hq.symm))
    · rw [hp'] at hq'
      exact absurd (hptr.trans hptr₀') (hnew m nd hold (hq.trans hq'.symm))
    · exact h.ptr_inj m m' nd nd' q hold hold' hq hq' hptr

theorem Graph.addRef (h : Graph s) (p : ProcId) (n : NodeId) :
    Graph (s.bumpId.insertRef s.nextId p n) := by
  refine ⟨?_, ?_, h.procRefs.insert h.refs_fresh rfl, h.nodeRefs.insert h.refs_fresh rfl,
    h.procNodes, h.ptr_inj⟩
  · intro r ref hr
    by_cases hrn : r = s.nextId
    · rw [hrn]
      exact Nat.lt_succ_self _
    · exact Nat.lt_succ_of_lt (h.refs_lt r ref (by simpa [bumpId, insertRef, hrn] using hr))
  · intro m nd hm
    exact Nat.lt_succ_of_lt (h.nodes_lt m nd hm)

theorem forgetRef_back {r r' : RefId} {ref ref' : Ref}
    (h : (s.forgetRef r ref).refs r' = some ref') : r' ≠ r ∧ s.refs r' = some ref' := by
  by_cases he : r' = r
  · simp [forgetRef, he] at h
  · exact ⟨he, by simpa [forgetRef, he] using h⟩

theorem Graph.removeRef (h : Graph s) {r : RefId} {ref : Ref} (hr : s.refs r = some ref) :
    Graph (s.forgetRef r ref) := by
  refine ⟨?_, h.nodes_lt, h.procRefs.unlist hr rfl (by simp), h.nodeRefs.unlist hr rfl (by simp),
    h.procNodes, h.ptr_inj⟩
  exact fun q ref' hq => h.refs_lt q ref' (forgetRef_back hq).2

/-- A node leaves its owner's list, and is forgotten. -/
theorem Graph.removeNode (h : Graph s) {n : NodeId} {nd : Node} (hn : s.nodes n = some nd) :
    Graph ((s.unlistOwned n nd.proc).forgetNode n) := by
  have hkeep : ∀ m nd', ((s.unlistOwned n nd.proc).forgetNode n).nodes m = some nd' →
      s.nodes m = some nd' := by
    intro m nd' hm
    have hnodes : (s.unlistOwned n nd.proc).nodes = s.nodes := by
      cases nd.proc <;> rfl
    by_cases hmn : m = n
    · simp [forgetNode, hmn] at hm
    · simpa [forgetNode, hmn, hnodes] using hm
  have hinj := fun m m' nd₁ nd₂ p h₁ h₂ =>
    h.ptr_inj m m' nd₁ nd₂ p (hkeep _ _ h₁) (hkeep _ _ h₂)
  have hlt := fun m nd' hm => h.nodes_lt m nd' (hkeep m nd' hm)
  cases hp : nd.proc with
  | some p =>
      rw [hp] at hlt hinj
      exact ⟨h.refs_lt, hlt, h.procRefs, h.nodeRefs, h.procNodes.unlist hn hp (by simp), hinj⟩
  | none =>
      rw [hp] at hlt hinj
      refine ⟨h.refs_lt, hlt, h.procRefs, h.nodeRefs, h.procNodes.untracked ?_ (by simp), hinj⟩
      intro b hb
      rw [hn] at hb
      cases hb
      exact hp

/-- A node loses its owner. -/
theorem Graph.orphanNode (h : Graph s) {p : ProcId} {n : NodeId} (hmem : n ∈ s.procNodes p) :
    Graph ((s.unlistNode p n).updNode n fun nd =>
      { nd with isDead := true, proc := none }) := by
  obtain ⟨nd, hn, hp⟩ := (h.procNodes.mem_iff p n).mp hmem
  have hcase : ∀ m nd', ((s.unlistNode p n).updNode n fun nd =>
      { nd with isDead := true, proc := none }).nodes m = some nd' →
      (m = n ∧ nd'.proc = none) ∨ s.nodes m = some nd' := by
    intro m nd' hm
    by_cases hmn : m = n
    · subst hmn
      simp only [Driver.updNode, unlistNode, Function.update_self, hn, Option.map_some,
        Option.some.injEq] at hm
      subst hm
      exact .inl ⟨rfl, rfl⟩
    · exact .inr (by simpa [Driver.updNode, unlistNode, hmn] using hm)
  refine ⟨h.refs_lt, ?_, h.procRefs, h.nodeRefs, ?_, ?_⟩
  · intro m nd' hm
    rcases hcase m nd' hm with ⟨rfl, -⟩ | hm
    · exact h.nodes_lt m nd hn
    · exact h.nodes_lt m nd' hm
  · refine h.procNodes.unlist hn hp ?_
    intro b hb
    obtain ⟨nd', -, rfl⟩ := Option.map_eq_some_iff.mp hb
    rfl
  · intro m m' nd₁ nd₂ q h₁ h₂ hq hq' hptr
    rcases hcase m nd₁ h₁ with ⟨-, hnone⟩ | h₁
    · rw [hnone] at hq; cases hq
    · rcases hcase m' nd₂ h₂ with ⟨-, hnone⟩ | h₂
      · rw [hnone] at hq'; cases hq'
      · exact h.ptr_inj m m' nd₁ nd₂ q h₁ h₂ hq hq' hptr

/-! ## What transactions see of it -/

/-- Dropping a oneway transaction, spelled out. -/
theorem dropAsync_oneway {t : TxnId} {x : Txn} (hx : s.txns t = some x) (ho : x.Oneway) :
    s.dropAsync (.transaction t) =
      { s with
        queues := s.queues.remove (.transaction t)
        arenas := match x.buffer with
          | some b => Function.update s.arenas x.toProc
              { s.arenas x.toProc with
                buffers := (s.arenas x.toProc).buffers.map fun buf =>
                  if buf.id = b then { buf with transaction := none } else buf }
          | none => s.arenas
        txns := Function.update s.txns t none
        stats := { s.stats with transactions := s.stats.transactions - 1 }
        trace := .discard t :: s.trace } := by
  have hqueues : (s.queues.remove (.transaction t)).remove (.transaction t) =
      s.queues.remove (.transaction t) := Queues.remove_remove _ _
  simp only [dropAsync, freeTransaction, dequeueWork, hx, ho.fromThread, ho.toThread, hqueues,
    popFrom]
  cases x.buffer <;> rfl

theorem view_dropAsync {t : TxnId} {x : Txn} (hx : s.txns t = some x) :
    (s.dropAsync (.transaction t)).view = (s.view.freeTransaction t).note (.discard t) := by
  simp only [dropAsync, view_note, view_freeTransaction, view_dequeue]
  have hidem : (s.view.dequeue (.transaction t)).dequeue (.transaction t) =
      s.view.dequeue (.transaction t) := by
    simp [Calls.dequeue]
  have hx' : s.view.txns t = some x := hx
  rw [Calls.freeTransaction_of_some (v := s.view.dequeue (.transaction t)) hx, hidem,
    Calls.freeTransaction_of_some hx']

/-- The owners of nodes after a change of one node. -/
theorem view_owner (s : Driver) (n : NodeId) (nd : Option Node) :
    (fun m => ((Function.update s.nodes n nd) m).bind (·.proc)) =
      Function.update s.view.owner n (nd.bind (·.proc)) := by
  funext m
  by_cases hm : m = n
  · subst hm
    simp
  · simp [hm, view]

theorem view_updNode (s : Driver) (n : NodeId) {f : Node → Node}
    (hf : ∀ nd, (f nd).proc = nd.proc) : (s.updNode n f).view = s.view := by
  have howner := view_owner s n ((s.nodes n).map f)
  have hsame : ((s.nodes n).map f).bind (·.proc) = s.view.owner n := by
    cases hn : s.nodes n <;> simp [view, hn, hf]
  rw [hsame, Function.update_eq_self] at howner
  exact congrArg (fun owner => { s.view with owner := owner }) howner

/-- **To the call machine the accounting is quiet.** -/
theorem ObjectStep.quiet (hq : QueuesOk s) (h : ObjectStep O s s') :
    Calls.Quiet s.view s'.view := by
  cases h with
  | bump => exact (Calls.QuietMove.bump (v := s.view)).quiet
  | queueNode n p q _ _ =>
      rw [view_insert_other s q false rfl]
      exact .refl _
  | queueDeath q d _ =>
      rw [view_insert_other s q false rfl]
      exact .refl _
  | dequeueDeath d =>
      rw [view_dequeue_other s rfl]
      exact .refl _
  | drop n t hloc =>
      obtain ⟨t', x, ht, hx, ho⟩ := hq.behindNode _ n hloc
      cases ht
      rw [view_dropAsync hx]
      exact (Calls.QuietMove.drop n t x hx ho hloc).quiet
  | count n f hf =>
      rw [view_updNode s n hf.proc]
      exact .refl _
  | orphan p n hmem =>
      have hview : ((s.unlistNode p n).updNode n fun nd =>
          { nd with isDead := true, proc := none }).view = s.view.setOwner n none := by
        have howner := view_owner s n ((s.nodes n).map fun nd =>
          { nd with isDead := true, proc := none })
        have hnone : ((s.nodes n).map fun nd => { nd with isDead := true, proc := none }).bind
            (·.proc) = none := by
          cases s.nodes n <;> rfl
        rw [hnone] at howner
        exact congrArg (fun owner => { s.view with owner := owner }) howner
      rw [hview]
      exact (Calls.QuietMove.disown n).quiet
  | addNode p ptr cookie flags hfind =>
      have hview : (s.bumpId.insertNode s.nextId p ptr cookie flags).view =
          s.view.bump.setOwner s.nextId (some p) :=
        congrArg (fun owner => { s.view.bump with owner := owner }) (view_owner s s.nextId _)
      rw [hview]
      exact (Calls.QuietMove.own (v := s.view) p).quiet
  | removeNode n nd hn _ _ =>
      have hview : ((s.unlistOwned n nd.proc).forgetNode n).view = s.view.setOwner n none := by
        have howner := view_owner s n none
        cases nd.proc with
        | none => exact congrArg (fun owner => { s.view with owner := owner }) howner
        | some p => exact congrArg (fun owner => { s.view with owner := owner }) howner
      rw [hview]
      exact (Calls.QuietMove.disown n).quiet
  | addRef p n _ => exact (Calls.QuietMove.bump (v := s.view)).quiet
  | _ => exact .refl _

/-! ## Every elementary change keeps the tables in agreement -/

theorem QueuesOk.congr (h : QueuesOk s) (hqueues : s'.queues = s.queues)
    (htxns : s'.txns = s.txns) (hid : s.nextId ≤ s'.nextId) : QueuesOk s' := by
  refine ⟨hqueues ▸ h.consistent, ?_, by rw [hqueues, htxns]; exact h.behindNode⟩
  intro t q hloc
  exact Nat.lt_of_lt_of_le (h.queued_lt t q (hqueues ▸ hloc)) hid

theorem ThreadsOk.congr (h : ThreadsOk s) (hthreads : s'.threads = s.threads)
    (hlists : s'.procThreads = s.procThreads) : ThreadsOk s' := by
  unfold ThreadsOk
  rw [hthreads, hlists]
  exact h

/-- Nothing but queues, records and history changes. -/
theorem Sound.congr (h : Sound s) (hobj : s'.objects = s.objects) (hq : QueuesOk s')
    (harenas : s'.arenas = s.arenas) (hthreads : ThreadsOk s') (hid : s.nextId ≤ s'.nextId) :
    Sound s' :=
  ⟨h.graph.congr hobj hid, hq, fun p => harenas ▸ (h.arenas p).mono hid, hthreads,
    fun p => harenas ▸ h.tiled p⟩

/-- A known item is put on a queue of a process or thread. -/
theorem QueuesOk.enqueue (h : QueuesOk s) {q : Queue} (w : Work) (head : Bool)
    (hw : ∀ t, w = .transaction t → t < s.nextId) (hq : ∀ n, q ≠ .node n) :
    QueuesOk { s with queues := s.queues.insert q w head } := by
  refine ⟨Queues.insert_consistent h.consistent q w head, ?_, ?_⟩
  · intro t q' hloc
    rw [Queues.insert_loc] at hloc
    split at hloc
    · rename_i hnew
      exact hw t hnew.1.symm
    · exact h.queued_lt t q' hloc
  · intro w' n hloc
    rw [Queues.insert_loc] at hloc
    split at hloc
    · exact absurd (Option.some.inj hloc) (hq n)
    · exact h.behindNode w' n hloc

theorem QueuesOk.dequeue (h : QueuesOk s) (w : Work) : QueuesOk (s.dequeueWork w) := by
  refine ⟨Queues.remove_consistent h.consistent w, ?_, ?_⟩
  · intro t q hloc
    simp only [dequeueWork, Queues.remove_loc] at hloc
    split at hloc
    · cases hloc
    · exact h.queued_lt t q hloc
  · intro w' n hloc
    simp only [dequeueWork, Queues.remove_loc] at hloc
    split at hloc
    · cases hloc
    · exact h.behindNode w' n hloc

/-- A oneway call is dropped from behind its node. -/
theorem QueuesOk.drop (h : QueuesOk s) {n : NodeId} {t : TxnId}
    (hloc : s.queues.loc (.transaction t) = some (.node n)) :
    QueuesOk (s.dropAsync (.transaction t)) := by
  obtain ⟨t', x, ht, hx, ho⟩ := h.behindNode _ n hloc
  cases ht
  rw [dropAsync_oneway hx ho]
  refine ⟨Queues.remove_consistent h.consistent _, (h.dequeue (.transaction t)).queued_lt, ?_⟩
  intro w n' hw
  simp only [Queues.remove_loc] at hw
  split at hw
  · cases hw
  · rename_i hne
    obtain ⟨u, y, rfl, hy, hoy⟩ := h.behindNode w n' hw
    have hut : u ≠ t := fun e => hne (by rw [e])
    exact ⟨u, y, rfl, by simpa [hut] using hy, hoy⟩

theorem objects_popFrom (s : Driver) (th : Option ThreadId) (t : TxnId)
    (parent : Option TxnId) : (s.popFrom th t parent).objects = s.objects := by
  cases th <;> rfl

theorem nextId_popFrom (s : Driver) (th : Option ThreadId) (t : TxnId)
    (parent : Option TxnId) : (s.popFrom th t parent).nextId = s.nextId := by
  cases th <;> rfl

theorem objects_detachBuffer (s : Driver) (p : ProcId) (b : Option BufferId) :
    (s.detachBuffer p b).objects = s.objects := by
  cases b <;> rfl

theorem nextId_detachBuffer (s : Driver) (p : ProcId) (b : Option BufferId) :
    (s.detachBuffer p b).nextId = s.nextId := by
  cases b <;> rfl

theorem objects_forgetTxn (s : Driver) (t : TxnId) : (s.forgetTxn t).objects = s.objects := rfl

theorem nextId_forgetTxn (s : Driver) (t : TxnId) : (s.forgetTxn t).nextId = s.nextId := rfl

/-- Releasing a transaction touches no node and no reference. -/
theorem freeTransaction_objects (s : Driver) (t : TxnId) :
    (s.freeTransaction t).objects = s.objects ∧ (s.freeTransaction t).nextId = s.nextId := by
  unfold freeTransaction
  split
  · exact ⟨rfl, rfl⟩
  · simp only [objects_forgetTxn, nextId_forgetTxn, objects_detachBuffer, nextId_detachBuffer,
      objects_popFrom, nextId_popFrom]
    exact ⟨rfl, rfl⟩

theorem dropAsync_objects (s : Driver) (t : TxnId) :
    (s.dropAsync (.transaction t)).objects = s.objects ∧
      (s.dropAsync (.transaction t)).nextId = s.nextId :=
  freeTransaction_objects (s.dequeueWork (.transaction t)) t

/-- Dropping a oneway transaction keeps the buffers where they are. -/
theorem dropAsync_arenas (h : QueuesOk s) {n : NodeId} {t : TxnId}
    (hloc : s.queues.loc (.transaction t) = some (.node n)) {k : Nat}
    (harenas : ∀ p, ArenaOk (s.arenas p) k) (htiled : ∀ p, Tiled (s.arenas p)) (p : ProcId) :
    ArenaOk ((s.dropAsync (.transaction t)).arenas p) k ∧
      Tiled ((s.dropAsync (.transaction t)).arenas p) := by
  obtain ⟨t', x, ht, hx, ho⟩ := h.behindNode _ n hloc
  cases ht
  rw [dropAsync_oneway hx ho]
  cases x.buffer with
  | none => exact ⟨harenas p, htiled p⟩
  | some b =>
      by_cases hp : p = x.toProc
      · subst hp
        simp only [Function.update_self]
        refine ⟨(harenas _).map ?_ ?_ ?_, (htiled _).map ?_ ?_⟩
        · intro buf _
          split <;> rfl
        · intro buf _
          split <;> rfl
        · intro buf _ hblank
          split
          · rw [hblank]
          · rfl
        · intro buf
          split
          · exact ⟨rfl, rfl, rfl, rfl⟩
          · exact .refl buf
        · intro buf _ kdata hkdata
          split at hkdata <;> exact .inl hkdata
      · simp only [Function.update_of_ne hp]
        exact ⟨harenas p, htiled p⟩

/-- The accounting touches no thread. -/
theorem ObjectStep.threads (hq : QueuesOk s) (h : ObjectStep O s s') :
    s'.threads = s.threads ∧ s'.procThreads = s.procThreads ∧ s'.procs = s.procs := by
  cases h with
  | drop n t hloc =>
      obtain ⟨t', x, ht, hx, ho⟩ := hq.behindNode _ n hloc
      cases ht
      rw [dropAsync_oneway hx ho]
      exact ⟨rfl, rfl, rfl⟩
  | removeNode n nd _ _ _ => cases nd.proc <;> exact ⟨rfl, rfl, rfl⟩
  | _ => exact ⟨rfl, rfl, rfl⟩

/-- **Every step of the objects keeps the driver sound.** -/
theorem ObjectStep.sound (h : Sound s) (hstep : ObjectStep O s s') : Sound s' := by
  have hg := h.graph
  have hq := h.queues
  have hrefl := Nat.le_refl s.nextId
  have hsucc := Nat.le_succ s.nextId
  obtain ⟨hth, hlists, -⟩ := hstep.threads hq
  have ht := h.threads.congr hth hlists
  cases hstep with
  | bump => exact h.congr rfl (hq.congr rfl rfl hsucc) rfl ht hsucc
  | stats f => exact h.congr rfl (hq.congr rfl rfl hrefl) rfl ht hrefl
  | wake c => exact h.congr rfl (hq.congr rfl rfl hrefl) rfl ht hrefl
  | sel p => exact h.congr rfl (hq.congr rfl rfl hrefl) rfl ht hrefl
  | context c f _ => exact h.congr rfl (hq.congr rfl rfl hrefl) rfl ht hrefl
  | deaths d _ => exact h.congr rfl (hq.congr rfl rfl hrefl) rfl ht hrefl
  | tell th cmd w => exact h.congr rfl (hq.congr rfl rfl hrefl) rfl ht hrefl
  | queueNode n p q _ hplace =>
      refine h.congr rfl (hq.enqueue (.node n) false (by simp) ?_) rfl ht hrefl
      rintro m rfl
      rcases hplace with he | ⟨th, he, -⟩ <;> cases he
  | queueDeath q d hnode =>
      exact h.congr rfl (hq.enqueue (.death d) false (by simp) hnode) rfl ht hrefl
  | dequeueDeath d => exact h.congr rfl (hq.dequeue _) rfl ht hrefl
  | drop n t hloc =>
      obtain ⟨hobj, hid⟩ := dropAsync_objects s t
      exact ⟨hg.congr hobj (Nat.le_of_eq hid.symm), hq.drop hloc,
        fun p => hid.symm ▸ (dropAsync_arenas hq hloc h.arenas h.tiled p).1, ht,
        fun p => (dropAsync_arenas hq hloc h.arenas h.tiled p).2⟩
  | count n f hf => exact ⟨hg.updNode n hf, hq.congr rfl rfl hrefl, h.arenas, ht, h.tiled⟩
  | orphan p n hmem => exact ⟨hg.orphanNode hmem, hq.congr rfl rfl hrefl, h.arenas, ht, h.tiled⟩
  | addNode p ptr cookie flags hfind =>
      exact ⟨hg.addNode hfind, hq.congr rfl rfl hsucc, fun q => (h.arenas q).mono hsucc, ht,
        h.tiled⟩
  | removeNode n nd hn _ _ =>
      have hgraph := hg.removeNode hn
      cases hp : nd.proc with
      | none => exact ⟨hp ▸ hgraph, hq.congr rfl rfl hrefl, h.arenas, h.threads, h.tiled⟩
      | some p => exact ⟨hp ▸ hgraph, hq.congr rfl rfl hrefl, h.arenas, h.threads, h.tiled⟩
  | addRef p n _ =>
      exact ⟨hg.addRef p n, hq.congr rfl rfl hsucc, fun q => (h.arenas q).mono hsucc, ht,
        h.tiled⟩
  | raise r f hf =>
      exact ⟨hg.updRef r hf.toRefKept, hq.congr rfl rfl hrefl, h.arenas, ht, h.tiled⟩
  | lower r f hf _ => exact ⟨hg.updRef r hf, hq.congr rfl rfl hrefl, h.arenas, ht, h.tiled⟩
  | removeRef r ref hr _ =>
      exact ⟨hg.removeRef hr, hq.congr rfl rfl hrefl, h.arenas, ht, h.tiled⟩

theorem ObjectSteps.sound (h : Sound s) (hsteps : ObjectSteps O s s') : Sound s' :=
  hsteps.invariant (fun _ _ => ObjectStep.sound) h

theorem ObjectSteps.threads (h : Sound s) (hsteps : ObjectSteps O s s') :
    s'.threads = s.threads ∧ s'.procThreads = s.procThreads ∧ s'.procs = s.procs := by
  induction hsteps with
  | refl => exact ⟨rfl, rfl, rfl⟩
  | tail hsteps hstep ih =>
      obtain ⟨h₁, h₂, h₃⟩ := hstep.threads (ObjectSteps.sound h hsteps).queues
      exact ⟨h₁.trans ih.1, h₂.trans ih.2.1, h₃.trans ih.2.2⟩

/-- Every context honours its choice of manager. -/
def Honours (s s' : Driver) : Prop := ∀ c, (s.contexts c).Honours (s'.contexts c)

theorem Honours.same (h : s'.contexts = s.contexts) : Honours s s' := by
  intro c hvalid
  rw [h]
  exact ⟨hvalid, rfl⟩

theorem Honours.trans (h : Honours s s') (h' : Honours s' s'') : Honours s s'' := by
  intro c hvalid
  obtain ⟨hvalid', huid⟩ := h c hvalid
  obtain ⟨hvalid'', huid'⟩ := h' c hvalid'
  exact ⟨hvalid'', huid'.trans huid⟩

theorem Honours.updContext {c : Nat} {f : Context → Context}
    (hf : (s.contexts c).Honours (f (s.contexts c))) : Honours s (s.updContext c f) := by
  intro c'
  by_cases hc : c' = c
  · subst hc
    simpa [Driver.updContext] using hf
  · intro hvalid
    simpa [Driver.updContext, hc] using hvalid

theorem ObjectStep.honours (hq : QueuesOk s) (h : ObjectStep O s s') : Honours s s' := by
  cases h with
  | context c f hf => exact .updContext hf
  | drop n t hloc =>
      obtain ⟨t', x, ht, hx, ho⟩ := hq.behindNode _ n hloc
      cases ht
      rw [dropAsync_oneway hx ho]
      exact .same rfl
  | removeNode n nd _ _ _ => cases nd.proc <;> exact .same rfl
  | _ => exact .same rfl

theorem ObjectSteps.honours (h : Sound s) (hsteps : ObjectSteps O s s') : Honours s s' := by
  induction hsteps with
  | refl => exact .same rfl
  | tail hsteps hstep ih =>
      exact ih.trans (hstep.honours (ObjectSteps.sound h hsteps).queues)

/-- No completion is queued that was not queued there before, save those of
`N`. -/
def Concludes (N : Nat → Prop) (s s' : Driver) : Prop :=
  ∀ c q, s'.queues.loc (.complete c) = some q → s.queues.loc (.complete c) = some q ∨ N c

section Concludes

variable {N N' : Nat → Prop}

theorem Concludes.same (h : s'.queues = s.queues) : Concludes N s s' :=
  fun _ _ hq => .inl (h ▸ hq)

theorem Concludes.trans (h : Concludes N s s') (h' : Concludes N s' s'') : Concludes N s s'' :=
  fun c q hq => (h' c q hq).elim (h c q) .inr

theorem Concludes.mono (h : Concludes N s s') (himp : ∀ c, N c → N' c) : Concludes N' s s' :=
  fun c q hq => (h c q hq).imp_right (himp c)

theorem Concludes.dequeue (s : Driver) (w : Work) : Concludes N s (s.dequeueWork w) := by
  intro c q hq
  rw [dequeueWork, Queues.remove_loc] at hq
  split at hq
  · cases hq
  · exact .inl hq

theorem Concludes.enqueue (s : Driver) (q : Queue) {w : Work} (head : Bool)
    (hw : ∀ c, w ≠ .complete c) :
    Concludes N s { s with queues := s.queues.insert q w head } :=
  fun c _ hq => .inl (Queues.insert_loc_of_ne s.queues q head (hw c).symm ▸ hq)

/-- A completion of `N` is queued. -/
theorem Concludes.complete (s : Driver) (q : Queue) (c : Nat) (head : Bool) (hc : N c) :
    Concludes N s { s with queues := s.queues.insert q (.complete c) head } := by
  intro c' q' hq
  by_cases he : c' = c
  · exact .inr (he ▸ hc)
  · have hne : Work.complete c' ≠ .complete c := by simpa using he
    exact .inl (Queues.insert_loc_of_ne s.queues q head hne ▸ hq)

theorem ObjectStep.concludes (hq : QueuesOk s) (h : ObjectStep O s s') : Concludes N s s' := by
  cases h with
  | queueNode n p q _ _ => exact .enqueue s q false (by simp)
  | queueDeath q d _ => exact .enqueue s q false (by simp)
  | dequeueDeath d => exact .dequeue s _
  | drop n t hloc =>
      obtain ⟨t', x, ht, hx, ho⟩ := hq.behindNode _ n hloc
      cases ht
      rw [dropAsync_oneway hx ho]
      exact Concludes.dequeue s (.transaction t)
  | removeNode n nd _ _ _ => cases nd.proc <;> exact .same rfl
  | _ => exact .same rfl

theorem ObjectSteps.concludes (h : Sound s) (hsteps : ObjectSteps O s s') : Concludes N s s' := by
  induction hsteps with
  | refl => exact .same rfl
  | tail hsteps hstep ih =>
      exact ih.trans (hstep.concludes (ObjectSteps.sound h hsteps).queues)

end Concludes

theorem ObjectSteps.quiet (h : Sound s) (hsteps : ObjectSteps O s s') :
    Calls.Quiet s.view s'.view := by
  induction hsteps with
  | refl => exact .refl _
  | tail hsteps hstep ih => exact ih.trans (hstep.quiet (ObjectSteps.sound h hsteps).queues)

end Driver

end Binder
