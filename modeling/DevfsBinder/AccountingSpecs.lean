import DevfsBinder.AccountingSteps
import DevfsBinder.ReadLoop

/-!
# What the accounting functions do, exactly

`AccountingSteps` says of which elementary changes each function is made; here
is what it comes to, for the tables of objects and for the news that wait.  The
two functions every other one is made of are `binder_node_notify_owner`, which
queues the node or does nothing, and `binder_node_maybe_free`, which releases
the node or does nothing.
-/

namespace Binder

namespace Driver

variable {s s' s'' : Driver}

/-- The manager of a context is a node of one of the context's processes. -/
def Managed (s : Driver) : Prop :=
  ∀ c n, (s.contexts c).mgrNode = some n → ∃ nd p proc, s.nodes n = some nd ∧
    nd.proc = some p ∧ s.procs p = some proc ∧ proc.context = c

/-- No new managers, and owned nodes stay with their owners. -/
theorem Managed.keep (h : Managed s)
    (hmgr : ∀ c n, (s'.contexts c).mgrNode = some n → (s.contexts c).mgrNode = some n)
    (hnode : ∀ c n nd p, (s'.contexts c).mgrNode = some n → s.nodes n = some nd →
      nd.proc = some p → ∃ nd', s'.nodes n = some nd' ∧ nd'.proc = some p)
    (hproc : ∀ c n nd p proc, (s'.contexts c).mgrNode = some n → s.nodes n = some nd →
      nd.proc = some p → s.procs p = some proc →
      ∃ proc', s'.procs p = some proc' ∧ proc'.context = proc.context) : Managed s' := by
  intro c n hc
  obtain ⟨nd, p, proc, hn, hp, hproc₀, hctx⟩ := h c n (hmgr c n hc)
  obtain ⟨nd', hn', hp'⟩ := hnode c n nd p hc hn hp
  obtain ⟨proc', hproc', hctx'⟩ := hproc c n nd p proc hc hn hp hproc₀
  exact ⟨nd', p, proc', hn', hp', hproc', hctx'.trans hctx⟩

/-- News wait where they waited, processes, threads and what owners were told
are what they were, and no context has a new manager. -/
structure Frame (s s' : Driver) : Prop where
  news : ∀ n, s'.queues.loc (.node n) = s.queues.loc (.node n)
  procs : s'.procs = s.procs
  threads : s'.threads = s.threads
  told : s'.told = s.told
  nextId : s'.nextId = s.nextId
  managers : ∀ c n, (s'.contexts c).mgrNode = some n → (s.contexts c).mgrNode = some n

theorem Frame.refl (s : Driver) : Frame s s :=
  ⟨fun _ => rfl, rfl, rfl, rfl, rfl, fun _ _ h => h⟩

theorem Frame.trans (h : Frame s s') (h' : Frame s' s'') : Frame s s'' where
  news n := (h'.news n).trans (h.news n)
  procs := h'.procs.trans h.procs
  threads := h'.threads.trans h.threads
  told := h'.told.trans h.told
  nextId := h'.nextId.trans h.nextId
  managers c n hc := h.managers c n (h'.managers c n hc)

/-! ## Queueing a node -/

/-- Where news about a node of `p` may be queued. -/
def NewsPlace (s : Driver) (thread : Option ThreadId) (p : ProcId) (q : Queue) : Prop :=
  q = .proc p ∨ ∃ th, thread = some th ∧ q = .thread th ∧ (s.threads th).map (·.proc) = some p

/-- The news of a node is queued once, and only for an owner that is alive. -/
theorem nodeNotifyOwner_cases (s : Driver) (n : NodeId) (thread : Option ThreadId) :
    (s.nodeNotifyOwner n thread = s ∧
        (∀ p, (s.nodes n).bind (·.proc) = some p → s.procAlive p = true →
          (s.queues.loc (.node n)).isSome)) ∨
      ∃ p q, (s.nodes n).bind (·.proc) = some p ∧ s.procAlive p = true ∧
        s.queues.loc (.node n) = none ∧ s.NewsPlace thread p q ∧
        s.nodeNotifyOwner n thread = { s with queues := s.queues.insert q (.node n) false } := by
  unfold nodeNotifyOwner
  split
  · rename_i hnone
    refine .inl ⟨rfl, ?_⟩
    intro p hp
    rw [hnone] at hp
    cases hp
  · rename_i p hp
    split
    · rename_i hproc
      refine .inl ⟨rfl, ?_⟩
      intro p' hp' halive
      rw [hp] at hp'
      cases hp'
      simp [procAlive, hproc] at halive
    · rename_i proc hproc
      split
      · rename_i hdead
        refine .inl ⟨rfl, ?_⟩
        intro p' hp' halive
        rw [hp] at hp'
        cases hp'
        simp [procAlive, hproc, hdead] at halive
      · rename_i hdead
        split
        · rename_i hqueued
          exact .inl ⟨rfl, fun _ _ _ => hqueued⟩
        · rename_i hqueued
          have hnone : s.queues.loc (.node n) = none := by
            simpa [workQueued] using hqueued
          have halive : s.procAlive p = true := by simp [procAlive, hproc, hdead]
          split
          · rename_i th
            split
            · rename_i hhome
              exact .inr ⟨p, .thread th, hp, halive, hnone, .inr ⟨th, rfl, rfl, hhome⟩, rfl⟩
            · exact .inr ⟨p, .proc p, hp, halive, hnone, .inl rfl, rfl⟩
          · exact .inr ⟨p, .proc p, hp, halive, hnone, .inl rfl, rfl⟩

/-! ## Releasing a node -/

/-- A record that is freed leaves its queue, if it was on one. -/
theorem freeTransaction_queues (s : Driver) (t : TxnId) :
    (s.freeTransaction t).queues = s.queues ∨
      (s.freeTransaction t).queues = s.queues.remove (.transaction t) := by
  unfold freeTransaction
  split
  · exact .inl rfl
  · rename_i x _
    have hpop : ∀ (s : Driver) th parent, (s.popFrom th t parent).queues = s.queues := by
      intro s th parent
      cases th <;> rfl
    have hdetach : ∀ (s : Driver) p b, (s.detachBuffer p b).queues = s.queues := by
      intro s p b
      cases b <;> rfl
    refine .inr ?_
    simp only [forgetTxn, hdetach, hpop]
    rfl

/-- Dropping a oneway transaction from behind a node. -/
theorem dropAsync_frame (hq : QueuesOk s) {n : NodeId} {t : TxnId}
    (hloc : s.queues.loc (.transaction t) = some (.node n)) :
    Frame s (s.dropAsync (.transaction t)) := by
  obtain ⟨t', x, ht, hx, ho⟩ := hq.behindNode _ n hloc
  cases ht
  rw [dropAsync_oneway hx ho]
  exact ⟨fun m => by simp [Queues.remove_loc], rfl, rfl, rfl, rfl, fun _ _ h => h⟩

/-- Dropping the oneway calls of a node touches no object. -/
theorem drain_frame (hs : Sound s) (n : NodeId) (l : List Work)
    (hl : ∀ w ∈ l, s.queues.loc w = some (.node n)) (hnodup : l.Nodup) :
    Frame s (l.foldl dropAsync s) := by
  induction l generalizing s with
  | nil => exact .refl s
  | cons w l ih =>
      obtain ⟨t, x, rfl, hx, ho⟩ := hs.queues.behindNode w n (hl w (by simp))
      have hloc := hl (.transaction t) (by simp)
      obtain ⟨hnot, hnodup'⟩ := List.nodup_cons.mp hnodup
      have hstep : ObjectStep (fun _ => False) s (s.dropAsync (.transaction t)) := .drop n t hloc
      refine (dropAsync_frame hs.queues hloc).trans (ih (ObjectStep.sound hs hstep) ?_ hnodup')
      intro v hv
      have hne : v ≠ .transaction t := fun e => hnot (e ▸ hv)
      rw [dropAsync_oneway hx ho]
      simp only [Queues.remove_loc, hne, if_false]
      exact hl v (List.mem_cons_of_mem _ hv)

/-- The node is gone, and with it its place on its owner's list; it had no
reference left and its owner nothing left to hear. -/
structure NodeGone (s s' : Driver) (n : NodeId) (nd : Node) : Prop where
  node : s.nodes n = some nd
  tmpRefs : nd.tmpRefs = 0
  unreferenced : s.nodeHasWeak n nd = false
  strongTold : nd.hasStrongRef = false
  weakTold : nd.hasWeakRef = false
  idle : s.queues.loc (.node n) = none
  nodes : s'.nodes = Function.update s.nodes n none
  nodeRefs : s'.nodeRefs = s.nodeRefs
  refs : s'.refs = s.refs
  procRefs : s'.procRefs = s.procRefs
  frame : Frame s s'
  unmanaged : ∀ c p proc, (s'.contexts c).mgrNode = some n → nd.proc = some p →
    s.procs p = some proc → proc.context ≠ c

theorem NodeGone.refs_nil {n : NodeId} {nd : Node} (h : NodeGone s s' n nd) :
    s.nodeRefs n = [] := by
  have hnone : (nd.hasStrong = false ∧ nd.localWeakRefs = 0) ∧ s.nodeRefs n = [] := by
    simpa [nodeHasWeak] using h.unreferenced
  exact hnone.2

/-- Afterwards the node does not manage the context of the process. -/
theorem clearManager_frame (s : Driver) (p : ProcId) (n : NodeId) :
    (s.clearManager p n).objects = s.objects ∧ Frame s (s.clearManager p n) ∧
      ∀ c proc, ((s.clearManager p n).contexts c).mgrNode = some n → s.procs p = some proc →
        proc.context ≠ c := by
  unfold clearManager
  split
  · rename_i hnone
    refine ⟨rfl, .refl s, ?_⟩
    intro c proc _ hp
    rw [hnone] at hp
    cases hp
  · rename_i proc₀ hp₀
    have hsame : ∀ proc, s.procs p = some proc → proc = proc₀ := by
      intro proc hp
      rw [hp₀] at hp
      exact (Option.some.inj hp).symm
    split
    · refine ⟨rfl, ⟨fun _ => rfl, rfl, rfl, rfl, rfl, ?_⟩, ?_⟩
      · intro c m hc
        by_cases he : c = proc₀.context
        · simp [updContext, he] at hc
        · simpa [updContext, he] using hc
      · intro c proc hc hp he
        rw [hsame proc hp] at he
        simp [updContext, he] at hc
    · rename_i hno
      refine ⟨rfl, .refl s, ?_⟩
      intro c proc hc hp he
      rw [hsame proc hp] at he
      exact hno (he ▸ hc)

/-- A node with no counts, no news and nothing told to its owner can go. -/
theorem nodeFree_gone (hs : Sound s) {n : NodeId} {nd : Node} (hn : s.nodes n = some nd)
    (htmp : nd.tmpRefs = 0) (hweak : s.nodeHasWeak n nd = false)
    (hst : nd.hasStrongRef = false) (hwt : nd.hasWeakRef = false)
    (hidle : s.queues.loc (.node n) = none) : NodeGone s (s.nodeFree n nd) n nd := by
  have hcons := hs.queues.consistent
  have hl : ∀ w ∈ s.items (.node n), s.queues.loc w = some (.node n) := fun w hw =>
    (hcons.mem_iff w _).mp hw
  have hdrain := drain_frame hs n (s.items (.node n)) hl (hcons.nodup _)
  obtain ⟨-, hobj, -⟩ := drain_steps (O := fun _ => False) hs n (s.items (.node n)) hl
    (hcons.nodup _)
  obtain ⟨hnodes, hnodeRefs, hrefs, hprocRefs, -⟩ := Objects.mk.inj hobj
  unfold nodeFree
  simp only
  generalize (s.items (.node n)).foldl dropAsync s = s₁ at hdrain hnodes hnodeRefs hrefs hprocRefs ⊢
  cases hp : nd.proc with
  | none =>
      refine ⟨hn, htmp, hweak, hst, hwt, hidle, ?_, hnodeRefs, hrefs, hprocRefs, ?_, ?_⟩
      · simp [forgetNode, hnodes]
      · exact hdrain.trans ⟨fun _ => rfl, rfl, rfl, rfl, rfl, fun _ _ h => h⟩
      · intro c p proc _ hp'
        rw [hp] at hp'
        cases hp'
  | some p =>
      obtain ⟨hobj₂, hframe₂, hclear⟩ := clearManager_frame (s₁.unlistNode p n) p n
      obtain ⟨hnodes₂, hnodeRefs₂, hrefs₂, hprocRefs₂, -⟩ := Objects.mk.inj hobj₂
      refine ⟨hn, htmp, hweak, hst, hwt, hidle, ?_, hnodeRefs₂.trans hnodeRefs,
        hrefs₂.trans hrefs, hprocRefs₂.trans hprocRefs, ?_, ?_⟩
      · have hkeep : ((s₁.unlistNode p n).clearManager p n).nodes = s.nodes :=
          hnodes₂.trans hnodes
        simp [forgetNode, hkeep]
      · have hunlist : Frame s₁ (s₁.unlistNode p n) :=
          ⟨fun _ => rfl, rfl, rfl, rfl, rfl, fun _ _ h => h⟩
        exact ((hdrain.trans hunlist).trans hframe₂).trans
          ⟨fun _ => rfl, rfl, rfl, rfl, rfl, fun _ _ h => h⟩
      · intro c p' proc hc hp' hproc
        rw [hp] at hp'
        cases hp'
        exact hclear c proc hc (hdrain.procs ▸ hproc)

/-- `nodeMaybeFree` does nothing, or the node goes. -/
theorem nodeMaybeFree_cases (hs : Sound s) (n : NodeId) :
    s.nodeMaybeFree n = s ∨ ∃ nd, NodeGone s (s.nodeMaybeFree n) n nd := by
  unfold nodeMaybeFree
  split
  · exact .inl rfl
  · rename_i nd hn
    split
    · exact .inl rfl
    · rename_i hheld
      split
      · exact .inl rfl
      · rename_i htold
        split
        · exact .inl rfl
        · rename_i hqueued
          rw [not_or] at hheld
          have htold' : nd.hasStrongRef = false ∧ nd.hasWeakRef = false := by simpa using htold
          refine .inr ⟨nd, nodeFree_gone hs hn (by simpa using hheld.1) (by simpa using hheld.2)
            htold'.1 htold'.2 ?_⟩
          simpa [workQueued] using hqueued

/-! ## Changing the counts of a node -/

/-- `nd` becomes `nd'`, the owner is queued if what it should know changed, and
nothing else happens to objects. -/
structure Recounted (s s' : Driver) (n : NodeId) (nd nd' : Node) (thread : Option ThreadId) :
    Prop where
  node : s.nodes n = some nd
  nodes : s'.nodes = Function.update s.nodes n (some nd')
  nodeRefs : s'.nodeRefs = s.nodeRefs
  refs : s'.refs = s.refs
  procRefs : s'.procRefs = s.procRefs
  procNodes : s'.procNodes = s.procNodes
  procs : s'.procs = s.procs
  threads : s'.threads = s.threads
  told : s'.told = s.told
  nextId : s'.nextId = s.nextId
  contexts : s'.contexts = s.contexts
  other : ∀ m, m ≠ n → s'.queues.loc (.node m) = s.queues.loc (.node m)
  queued : s'.queues.loc (.node n) = s.queues.loc (.node n) ∨
    ∃ p q, nd.proc = some p ∧ s.queues.loc (.node n) = none ∧
      s'.queues.loc (.node n) = some q ∧ s.NewsPlace thread p q
  crossing : nd'.hasStrong ≠ nd.hasStrong ∨ s.nodeHasWeak n nd' ≠ s.nodeHasWeak n nd →
    ∀ p, nd.proc = some p → s.procAlive p = true → (s'.queues.loc (.node n)).isSome

/-- A change of the counts, with news for the owner when it crosses zero. -/
theorem recount (s : Driver) {n : NodeId} {nd nd' : Node} (hn : s.nodes n = some nd)
    (hproc : nd'.proc = nd.proc) (thread : Option ThreadId) :
    Recounted s
      (if nd'.hasStrong ≠ nd.hasStrong ∨
          (s.updNode n fun _ => nd').nodeHasWeak n nd' ≠ s.nodeHasWeak n nd then
        (s.updNode n fun _ => nd').nodeNotifyOwner n thread
      else s.updNode n fun _ => nd') n nd nd' thread := by
  have hnodes : (s.updNode n fun _ => nd').nodes = Function.update s.nodes n (some nd') := by
    simp [updNode, hn]
  have hself : (s.updNode n fun _ => nd').nodes n = some nd' := by simp [hnodes]
  have hweak : (s.updNode n fun _ => nd').nodeHasWeak n nd' = s.nodeHasWeak n nd' := rfl
  have halive : ∀ p, (s.updNode n fun _ => nd').procAlive p = s.procAlive p := fun _ => rfl
  split
  · rcases nodeNotifyOwner_cases (s.updNode n fun _ => nd') n thread with
      ⟨hsame, hqueued⟩ | ⟨p, q, hp, hal, hnone, hplace, heq⟩
    · rw [hsame]
      refine ⟨hn, hnodes, rfl, rfl, rfl, rfl, rfl, rfl, rfl, rfl, rfl, fun _ _ => rfl, .inl rfl,
        ?_⟩
      intro _ p hp hal
      exact hqueued p (by simp [hself, hproc, hp]) hal
    · rw [heq]
      have hp' : nd.proc = some p := by simpa [hself, hproc] using hp
      refine ⟨hn, hnodes, rfl, rfl, rfl, rfl, rfl, rfl, rfl, rfl, rfl, ?_,
        .inr ⟨p, q, hp', hnone, ?_, hplace⟩, ?_⟩
      · intro m hm
        exact Queues.insert_loc_of_ne _ _ _ (by simpa using hm)
      · simp only [Queues.insert_loc, hnone, and_self, if_true]
      · intro _ p' _ _
        simp only [Queues.insert_loc, hnone, and_self, if_true, Option.isSome_some]
  · rename_i hno
    refine ⟨hn, hnodes, rfl, rfl, rfl, rfl, rfl, rfl, rfl, rfl, rfl, fun _ _ => rfl, .inl rfl,
        ?_⟩
    intro hcross
    exact absurd (hweak ▸ hcross) hno

theorem recount_sound (hs : Sound s) {n : NodeId} {nd nd' : Node} {strong increment internal : Bool}
    (hn : s.nodes n = some nd) (hcount : Node.count nd strong increment internal = some nd')
    (thread : Option ThreadId) :
    Sound (if nd'.hasStrong ≠ nd.hasStrong ∨
        (s.updNode n fun _ => nd').nodeHasWeak n nd' ≠ s.nodeHasWeak n nd then
      (s.updNode n fun _ => nd').nodeNotifyOwner n thread
    else s.updNode n fun _ => nd') := by
  have hs₁ := ObjectStep.sound hs (recount_step (O := fun _ => False) hn hcount)
  split
  · exact ObjectSteps.sound hs₁ (nodeNotifyOwner_steps (O := fun _ => False) n thread)
  · exact hs₁

/-- `binder_node_update_refs`: nothing, or a new count, after which the node may
be released. -/
theorem nodeUpdateRefs_cases (hs : Sound s) (n : NodeId) (strong increment internal : Bool)
    (thread : Option ThreadId) :
    (s.nodeUpdateRefs n strong increment internal thread).1 = s ∧
        (∀ nd, s.nodes n = some nd → Node.count nd strong increment internal = none) ∨
      ∃ nd nd' s₁, Node.count nd strong increment internal = some nd' ∧
        Recounted s s₁ n nd nd' thread ∧ Sound s₁ ∧
        (s.nodeUpdateRefs n strong increment internal thread).1 = s₁.nodeMaybeFree n := by
  unfold nodeUpdateRefs
  split
  · rename_i hnone
    refine .inl ⟨rfl, ?_⟩
    intro nd hn
    rw [hnone] at hn
    cases hn
  · rename_i nd hn
    split
    · rename_i hnone
      refine .inl ⟨rfl, ?_⟩
      intro nd' hn'
      rw [hn] at hn'
      cases hn'
      exact hnone
    · rename_i nd' hcount
      have hproc := (count_kept hcount).1
      exact .inr ⟨nd, nd', _, hcount, recount s hn hproc thread, recount_sound hs hn hcount thread,
        rfl⟩

/-! ## What accounting leaves of a node -/

/-- The same node but for its counts: who owns it, what the owner was told and
what it has acknowledged. -/
structure SameStanding (nd nd' : Node) : Prop where
  proc : nd'.proc = nd.proc
  ptr : nd'.ptr = nd.ptr
  cookie : nd'.cookie = nd.cookie
  flags : nd'.flags = nd.flags
  hasStrongRef : nd'.hasStrongRef = nd.hasStrongRef
  hasWeakRef : nd'.hasWeakRef = nd.hasWeakRef
  pendingStrongRef : nd'.pendingStrongRef = nd.pendingStrongRef
  pendingWeakRef : nd'.pendingWeakRef = nd.pendingWeakRef
  hasAsyncTransaction : nd'.hasAsyncTransaction = nd.hasAsyncTransaction
  isDead : nd'.isDead = nd.isDead

theorem SameStanding.refl (nd : Node) : SameStanding nd nd :=
  ⟨rfl, rfl, rfl, rfl, rfl, rfl, rfl, rfl, rfl, rfl⟩

theorem SameStanding.trans {nd nd' nd'' : Node} (h : SameStanding nd nd')
    (h' : SameStanding nd' nd'') : SameStanding nd nd'' where
  proc := h'.proc.trans h.proc
  ptr := h'.ptr.trans h.ptr
  cookie := h'.cookie.trans h.cookie
  flags := h'.flags.trans h.flags
  hasStrongRef := h'.hasStrongRef.trans h.hasStrongRef
  hasWeakRef := h'.hasWeakRef.trans h.hasWeakRef
  pendingStrongRef := h'.pendingStrongRef.trans h.pendingStrongRef
  pendingWeakRef := h'.pendingWeakRef.trans h.pendingWeakRef
  hasAsyncTransaction := h'.hasAsyncTransaction.trans h.hasAsyncTransaction
  isDead := h'.isDead.trans h.isDead

theorem count_standing {nd nd' : Node} {strong increment internal : Bool}
    (h : Node.count nd strong increment internal = some nd') : SameStanding nd nd' := by
  unfold Node.count at h
  split at h <;> first
    | (cases h; exact ⟨rfl, rfl, rfl, rfl, rfl, rfl, rfl, rfl, rfl, rfl⟩)
    | (split at h
       · cases h
       · cases h; exact ⟨rfl, rfl, rfl, rfl, rfl, rfl, rfl, rfl, rfl, rfl⟩)

/-- Counts change, nodes nobody needs go, and owners are queued, directly for
`thread` if that is one of theirs. -/
structure Accounted (thread : Option ThreadId) (s s' : Driver) : Prop where
  procs : s'.procs = s.procs
  threads : s'.threads = s.threads
  told : s'.told = s.told
  nextId : s.nextId ≤ s'.nextId
  node : ∀ n nd, s.nodes n = some nd →
    (∃ nd', s'.nodes n = some nd' ∧ SameStanding nd nd') ∨
      (s'.nodes n = none ∧ nd.hasStrongRef = false ∧ nd.hasWeakRef = false)
  back : ∀ n nd', s'.nodes n = some nd' → ∃ nd, s.nodes n = some nd ∧ SameStanding nd nd'
  news : ∀ n q, s'.queues.loc (.node n) = some q → s.queues.loc (.node n) = some q ∨
    ∃ nd p, s.nodes n = some nd ∧ nd.proc = some p ∧ s.NewsPlace thread p q
  managed : Managed s → Managed s'
  managers : ∀ c n, (s'.contexts c).mgrNode = some n → (s.contexts c).mgrNode = some n
  queued : ∀ n, (s.queues.loc (.node n)).isSome → (s'.queues.loc (.node n)).isSome
  idle : ∀ n nd, s.nodes n = some nd → s'.nodes n = none → s.queues.loc (.node n) = none
  gone : ∀ n nd, s.nodes n = some nd → s'.nodes n = none → s'.queues.loc (.node n) = none

variable {thread : Option ThreadId}

/-- Whatever leaves the nodes and their news alone is accounted for. -/
theorem Accounted.same (hnodes : s'.nodes = s.nodes) (hprocs : s'.procs = s.procs)
    (hthreads : s'.threads = s.threads) (htold : s'.told = s.told)
    (hcontexts : s'.contexts = s.contexts) (hid : s.nextId ≤ s'.nextId)
    (hnews : ∀ n, s'.queues.loc (.node n) = s.queues.loc (.node n)) :
    Accounted thread s s' where
  procs := hprocs
  threads := hthreads
  told := htold
  nextId := hid
  node _ nd hn := .inl ⟨nd, hnodes ▸ hn, .refl nd⟩
  back _ nd hn := ⟨nd, hnodes ▸ hn, .refl nd⟩
  news n _ hq := .inl (hnews n ▸ hq)
  managed hm := hm.keep (fun _ _ hc => hcontexts ▸ hc)
    (fun _ _ nd _ _ hn hp => ⟨nd, hnodes ▸ hn, hp⟩)
    (fun _ _ _ _ proc _ _ _ hproc => ⟨proc, hprocs ▸ hproc, rfl⟩)
  managers _ _ hc := hcontexts ▸ hc
  queued n hq := hnews n ▸ hq
  idle n nd hn hnone := by
    rw [hnodes, hn] at hnone
    cases hnone
  gone n nd hn hnone := by
    rw [hnodes, hn] at hnone
    cases hnone

theorem Accounted.refl (s : Driver) : Accounted thread s s :=
  .same rfl rfl rfl rfl rfl (Nat.le_refl _) fun _ => rfl

/-- The accounts of two stretches add up. -/
theorem Accounted.trans (h : Accounted thread s s') (h' : Accounted thread s' s'') :
    Accounted thread s s'' where
  procs := h'.procs.trans h.procs
  threads := h'.threads.trans h.threads
  told := h'.told.trans h.told
  nextId := Nat.le_trans h.nextId h'.nextId
  node n nd hn := by
    rcases h.node n nd hn with ⟨nd', hn', hsame⟩ | ⟨hnone, hs, hw⟩
    · rcases h'.node n nd' hn' with ⟨nd'', hn'', hsame'⟩ | ⟨hnone, hs, hw⟩
      · exact .inl ⟨nd'', hn'', hsame.trans hsame'⟩
      · exact .inr ⟨hnone, hsame.hasStrongRef ▸ hs, hsame.hasWeakRef ▸ hw⟩
    · refine .inr ⟨?_, hs, hw⟩
      cases hn'' : s''.nodes n with
      | none => rfl
      | some nd'' =>
          obtain ⟨nd', hn', -⟩ := h'.back n nd'' hn''
          rw [hnone] at hn'
          cases hn'
  back n nd'' hn'' := by
    obtain ⟨nd', hn', hsame'⟩ := h'.back n nd'' hn''
    obtain ⟨nd, hn, hsame⟩ := h.back n nd' hn'
    exact ⟨nd, hn, hsame.trans hsame'⟩
  news n q hq := by
    rcases h'.news n q hq with hq | ⟨nd', p, hn', hp, hplace⟩
    · exact h.news n q hq
    · obtain ⟨nd, hn, hsame⟩ := h.back n nd' hn'
      refine .inr ⟨nd, p, hn, hsame.proc ▸ hp, ?_⟩
      unfold NewsPlace at hplace ⊢
      rw [h.threads] at hplace
      exact hplace
  managed hm := h'.managed (h.managed hm)
  managers c n hc := h.managers c n (h'.managers c n hc)
  queued n hq := h'.queued n (h.queued n hq)
  idle n nd hn hnone := by
    cases hn' : s'.nodes n with
    | none => exact h.idle n nd hn hn'
    | some nd' =>
        cases hq : s.queues.loc (.node n) with
        | none => rfl
        | some q =>
            have hstays := h.queued n (by rw [hq]; rfl)
            rw [h'.idle n nd' hn' hnone] at hstays
            cases hstays
  gone n nd hn hnone := by
    cases hn' : s'.nodes n with
    | some nd' => exact h'.gone n nd' hn' hnone
    | none =>
        cases hq : s''.queues.loc (.node n) with
        | none => rfl
        | some q =>
            rcases h'.news n q hq with hq' | ⟨nd', _, hn'', -⟩
            · rw [h.gone n nd hn hn'] at hq'
              cases hq'
            · rw [hn'] at hn''
              cases hn''

/-- A change of one node's counts is accounted for. -/
theorem Recounted.accounted {n : NodeId} {nd nd' : Node} (h : Recounted s s' n nd nd' thread)
    (hsame : SameStanding nd nd') : Accounted thread s s' where
  procs := h.procs
  threads := h.threads
  told := h.told
  nextId := Nat.le_of_eq h.nextId.symm
  node m md hm := by
    refine .inl ?_
    by_cases hmn : m = n
    · subst hmn
      rw [h.node] at hm
      cases hm
      exact ⟨nd', by simp [h.nodes], hsame⟩
    · exact ⟨md, by simp [h.nodes, hmn, hm], .refl md⟩
  back m md hm := by
    by_cases hmn : m = n
    · subst hmn
      rw [h.nodes] at hm
      have hmd : nd' = md := by simpa using hm
      exact ⟨nd, h.node, hmd ▸ hsame⟩
    · exact ⟨md, by simpa [h.nodes, hmn] using hm, .refl md⟩
  news m q hq := by
    by_cases hmn : m = n
    · subst hmn
      rcases h.queued with hsameq | ⟨p, q', hp, -, hq', hplace⟩
      · exact .inl (hsameq ▸ hq)
      · rw [hq'] at hq
        cases hq
        exact .inr ⟨nd, p, h.node, hp, hplace⟩
    · exact .inl (h.other m hmn ▸ hq)
  managed hm := by
    refine hm.keep (fun _ _ hc => h.contexts ▸ hc) ?_
      (fun _ _ _ _ proc _ _ _ hproc => ⟨proc, h.procs ▸ hproc, rfl⟩)
    intro c m md p _ hmd hp
    by_cases hmn : m = n
    · subst hmn
      rw [h.node] at hmd
      cases hmd
      exact ⟨nd', by simp [h.nodes], hsame.proc.trans hp⟩
    · exact ⟨md, by simp [h.nodes, hmn, hmd], hp⟩
  managers _ _ hc := h.contexts ▸ hc
  queued m hq := by
    by_cases hmn : m = n
    · subst hmn
      rcases h.queued with hsameq | ⟨_, _, -, hnone, -⟩
      · exact hsameq ▸ hq
      · rw [hnone] at hq
        cases hq
    · exact h.other m hmn ▸ hq
  idle m md hm hnone := by
    by_cases hmn : m = n
    · simp [h.nodes, hmn] at hnone
    · simp [h.nodes, hmn, hm] at hnone
  gone m md hm hnone := by
    by_cases hmn : m = n
    · simp [h.nodes, hmn] at hnone
    · simp [h.nodes, hmn, hm] at hnone

/-- A node that goes takes nothing from the others. -/
theorem NodeGone.accounted {n : NodeId} {nd : Node} (h : NodeGone s s' n nd) :
    Accounted thread s s' where
  procs := h.frame.procs
  threads := h.frame.threads
  told := h.frame.told
  nextId := Nat.le_of_eq h.frame.nextId.symm
  node m md hm := by
    by_cases hmn : m = n
    · subst hmn
      rw [h.node] at hm
      cases hm
      exact .inr ⟨by simp [h.nodes], h.strongTold, h.weakTold⟩
    · exact .inl ⟨md, by simp [h.nodes, hmn, hm], .refl md⟩
  back m md hm := by
    by_cases hmn : m = n
    · subst hmn
      simp [h.nodes] at hm
    · exact ⟨md, by simpa [h.nodes, hmn] using hm, .refl md⟩
  news m q hq := .inl (h.frame.news m ▸ hq)
  managed hm := by
    intro c m hc
    obtain ⟨md, p, proc, hmd, hp, hproc, hctx⟩ := hm c m (h.frame.managers c m hc)
    have hmn : m ≠ n := by
      rintro rfl
      rw [h.node] at hmd
      cases hmd
      exact h.unmanaged c p proc hc hp hproc hctx
    exact ⟨md, p, proc, by simp [h.nodes, hmn, hmd], hp, h.frame.procs ▸ hproc, hctx⟩
  managers := h.frame.managers
  queued m hq := h.frame.news m ▸ hq
  idle m md hm hnone := by
    by_cases hmn : m = n
    · exact hmn ▸ h.idle
    · simp [h.nodes, hmn, hm] at hnone
  gone m md hm hnone := by
    by_cases hmn : m = n
    · exact (h.frame.news m).trans (hmn ▸ h.idle)
    · simp [h.nodes, hmn, hm] at hnone

theorem nodeMaybeFree_accounted (hs : Sound s) (n : NodeId) :
    Accounted thread s (s.nodeMaybeFree n) := by
  rcases nodeMaybeFree_cases hs n with hsame | ⟨nd, hgone⟩
  · rw [hsame]
    exact .refl s
  · exact hgone.accounted

theorem nodeUpdateRefs_accounted (hs : Sound s) (n : NodeId) (strong increment internal : Bool)
    (thread : Option ThreadId) :
    Accounted thread s (s.nodeUpdateRefs n strong increment internal thread).1 := by
  rcases nodeUpdateRefs_cases hs n strong increment internal thread with
    ⟨hsame, -⟩ | ⟨nd, nd', s₁, hcount, hrecount, hs₁, heq⟩
  · rw [hsame]
    exact .refl s
  · rw [heq]
    exact (hrecount.accounted (count_standing hcount)).trans (nodeMaybeFree_accounted hs₁ n)

/-- Without a thread to aim at, news go to the process. -/
theorem Accounted.of_none (h : Accounted none s s') : Accounted thread s s' :=
  { h with
    news := by
      intro n q hq
      rcases h.news n q hq with hq | ⟨nd, p, hn, hp, hplace | ⟨th, hth, -⟩⟩
      · exact .inl hq
      · exact .inr ⟨nd, p, hn, hp, .inl hplace⟩
      · cases hth }

theorem updRef_accounted (s : Driver) (r : RefId) (f : Ref → Ref) :
    Accounted thread s (s.updRef r f) :=
  .same rfl rfl rfl rfl rfl (Nat.le_refl _) fun _ => rfl

theorem releaseDeath_accounted (s : Driver) (death : Option DeathId) :
    Accounted thread s (s.releaseDeath death) := by
  cases death with
  | none => exact .refl s
  | some d =>
      refine .same rfl rfl rfl rfl rfl (Nat.le_refl _) ?_
      intro n
      simp [releaseDeath, forgetDeath, dequeueWork, Queues.remove_loc]

theorem refDelete_accounted (hs : Sound s) (r : RefId) : Accounted thread s (s.refDelete r) := by
  unfold refDelete
  split
  · exact .refl s
  · rename_i ref hr
    have hs₁ := hs.forgetRef hr
    have hforget : Accounted thread (s.releaseDeath ref.death)
        ((s.releaseDeath ref.death).forgetRef r ref) :=
      .same rfl rfl rfl rfl rfl (Nat.le_refl _) fun _ => rfl
    exact ((releaseDeath_accounted s ref.death).trans hforget).trans
      (nodeUpdateRefs_accounted hs₁ ref.node _ false true none).of_none

theorem refReap_accounted (hs : Sound s) (r : RefId) : Accounted thread s (s.refReap r) := by
  exact refReap_rule r (.refl s) (refDelete_accounted hs r)

/-- A change of a handle's counts keeps the tables in agreement. -/
theorem Sound.updRef (hs : Sound s) (r : RefId) {f : Ref → Ref} (hf : RefKept f) :
    Sound (s.updRef r f) :=
  ObjectStep.sound hs (ObjectStep.lower (O := fun _ => True) r f hf fun _ _ => trivial)

theorem refUpdate_accounted (hs : Sound s) (r : RefId) (strong increment : Bool)
    (thread : Option ThreadId) :
    Accounted thread s (s.refUpdate r strong increment thread).1 := by
  apply refUpdate_rel hs r strong increment thread (.refl s) fun _ _ => .trans
  · exact fun s₁ n hs₁ => nodeUpdateRefs_accounted hs₁ n true increment true thread
  · exact fun _ s₁ _ => updRef_accounted s₁ r _
  · exact fun _ s₁ _ => updRef_accounted s₁ r _
  · exact fun _ hs₁ => refReap_accounted hs₁ r

theorem refGetForNode_accounted (s : Driver) (env : Env) (p : ProcId) (n : NodeId) :
    Accounted thread s (s.refGetForNode env p n).2 := by
  rcases s.refGetForNode_ends env p n with ⟨r, -, heq⟩ | ⟨-, heq⟩ | heq <;> rw [heq]
  · exact .refl s
  · exact .same rfl rfl rfl rfl rfl (Nat.le_succ _) fun _ => rfl
  · exact .same rfl rfl rfl rfl rfl (Nat.le_succ _) fun _ => rfl

theorem refGetForNode_sound (hs : Sound s) {env : Env} {p : ProcId} {n : NodeId} {r : RefId}
    {s₁ : Driver} (hget : s.refGetForNode env p n = (some r, s₁)) : Sound s₁ := by
  have hsteps := refGetForNode_steps (O := fun _ => True) (s := s) env p n
  rw [hget] at hsteps
  exact ObjectSteps.sound hs hsteps

/-- A handle is found or made, and counted. -/
theorem takeRef_accounted (hs : Sound s) {env : Env} {p : ProcId} {n : NodeId} {r : RefId}
    {s₁ : Driver} (hget : s.refGetForNode env p n = (some r, s₁)) (strong : Bool)
    (thread : Option ThreadId) : Accounted thread s (s₁.refUpdate r strong true thread).1 := by
  have hacc : Accounted thread s _ := refGetForNode_accounted s env p n
  rw [hget] at hacc
  exact hacc.trans (refUpdate_accounted (refGetForNode_sound hs hget) r strong true thread)

/-- A node changes in place, in nothing but its counts. -/
theorem updNode_accounted (s : Driver) (n : NodeId) {f : Node → Node}
    (hf : ∀ nd, SameStanding nd (f nd)) : Accounted thread s (s.updNode n f) where
  procs := rfl
  threads := rfl
  told := rfl
  nextId := Nat.le_refl _
  node m nd hm := by
    refine .inl ?_
    by_cases hmn : m = n
    · subst hmn
      exact ⟨f nd, by simp [updNode, hm], hf nd⟩
    · exact ⟨nd, by simp [updNode, hmn, hm], .refl nd⟩
  back m nd' hm := by
    by_cases hmn : m = n
    · subst hmn
      simp only [updNode, Function.update_self, Option.map_eq_some_iff] at hm
      obtain ⟨nd, hm, rfl⟩ := hm
      exact ⟨nd, hm, hf nd⟩
    · exact ⟨nd', by simpa [updNode, hmn] using hm, .refl nd'⟩
  news m q hq := .inl hq
  managed hm := by
    refine hm.keep (fun _ _ hc => hc) ?_ (fun _ _ _ _ proc _ _ _ hproc => ⟨proc, hproc, rfl⟩)
    intro c m nd p _ hm hp
    by_cases hmn : m = n
    · subst hmn
      exact ⟨f nd, by simp [updNode, hm], (hf nd).proc.trans hp⟩
    · exact ⟨nd, by simp [updNode, hmn, hm], hp⟩
  managers _ _ hc := hc
  queued _ hq := hq
  idle m nd hm hnone := by
    by_cases hmn : m = n
    · subst hmn
      simp [updNode, hm] at hnone
    · simp [updNode, hmn, hm] at hnone
  gone m nd hm hnone := by
    by_cases hmn : m = n
    · subst hmn
      simp [updNode, hm] at hnone
    · simp [updNode, hmn, hm] at hnone

theorem nodeDecTmpref_accounted (hs : Sound s) (n : NodeId) :
    Accounted thread s (s.nodeDecTmpref n) := by
  have hstep : ObjectStep (fun _ => True) s
      (s.updNode n fun nd => { nd with tmpRefs := nd.tmpRefs - 1 }) :=
    .count n _ ⟨by simp, by simp, by simp, by simp⟩
  have hcount : Accounted thread s
      (s.updNode n fun nd => { nd with tmpRefs := nd.tmpRefs - 1 }) :=
    updNode_accounted s n fun _ => ⟨rfl, rfl, rfl, rfl, rfl, rfl, rfl, rfl, rfl, rfl⟩
  exact hcount.trans (nodeMaybeFree_accounted (ObjectStep.sound hs hstep) n)

/-! ## The owner goes away -/

theorem notifyDeath_frame (s : Driver) (r : RefId) :
    Frame s (s.notifyDeath r) ∧ (s.notifyDeath r).objects = s.objects := by
  unfold notifyDeath
  split
  · exact ⟨.refl s, rfl⟩
  · split
    · exact ⟨.refl s, rfl⟩
    · split
      · exact ⟨.refl s, rfl⟩
      · rename_i ref _ _ d _ _
        have hrecord : ∀ s : Driver, Frame s (s.updDeath d fun death =>
            { death with type := .deadBinder }) := fun _ =>
          ⟨fun _ => rfl, rfl, rfl, rfl, rfl, fun _ _ h => h⟩
        have hqueue : ∀ s : Driver, Frame s (s.enqueueWork ref.proc (.death d)) := fun s =>
          ⟨fun n => Queues.insert_loc_of_ne s.queues _ false (by simp), rfl, rfl, rfl, rfl,
            fun _ _ h => h⟩
        have hwake : ∀ s : Driver, Frame s (s.wakeupProc ref.proc) := fun _ =>
          ⟨fun _ => rfl, rfl, rfl, rfl, rfl, fun _ _ h => h⟩
        exact ⟨((hrecord s).trans (hqueue _)).trans (hwake _), rfl⟩

theorem notifyDeaths_frame (s : Driver) (rs : List RefId) :
    Frame s (rs.foldl notifyDeath s) ∧ (rs.foldl notifyDeath s).objects = s.objects := by
  induction rs generalizing s with
  | nil => exact ⟨.refl s, rfl⟩
  | cons r rs ih =>
      obtain ⟨hframe, hobj⟩ := notifyDeath_frame s r
      obtain ⟨hframe', hobj'⟩ := ih (s.notifyDeath r)
      exact ⟨hframe.trans hframe', hobj'.trans hobj⟩

theorem nodeDied_sound (hs : Sound s) {p : ProcId} {n : NodeId} (hmem : n ∈ s.procNodes p) :
    Sound ((s.unlistNode p n).nodeDied n) := by
  have hstep : ObjectStep (fun _ => True) s ((s.unlistNode p n).updNode n fun nd =>
      { nd with isDead := true, proc := none }) := .orphan p n hmem
  exact ObjectSteps.sound (ObjectStep.sound hs hstep)
    (foldl_steps (O := fun _ => True) (f := notifyDeath) (fun s r _ => notifyDeath_steps r)
      (ObjectStep.sound hs hstep) ((s.unlistNode p n).nodeRefs n))

/-- A node whose owner goes away loses it, and may be released. -/
theorem releaseNode_cases (hs : Sound s) {p : ProcId} {n : NodeId} (hmem : n ∈ s.procNodes p) :
    ∃ s₁, Sound s₁ ∧ Frame s s₁ ∧
      s₁.objects = ((s.unlistNode p n).updNode n fun nd =>
        { nd with isDead := true, proc := none }).objects ∧
      s.releaseNode p n = s₁.nodeMaybeFree n := by
  obtain ⟨hframe, hobj⟩ := notifyDeaths_frame ((s.unlistNode p n).updNode n fun nd =>
    { nd with isDead := true, proc := none }) ((s.unlistNode p n).nodeRefs n)
  have hfirst : Frame s ((s.unlistNode p n).updNode n fun nd =>
      { nd with isDead := true, proc := none }) :=
    ⟨fun _ => rfl, rfl, rfl, rfl, rfl, fun _ _ h => h⟩
  exact ⟨(s.unlistNode p n).nodeDied n, nodeDied_sound hs hmem, hfirst.trans hframe, hobj, rfl⟩

/-! ## Reporting to the owner -/

/-- The flags of node `n` change, its owner hears of it, and nothing else
happens to objects. -/
structure Reported (n : NodeId) (s s' : Driver) : Prop where
  nodeRefs : s'.nodeRefs = s.nodeRefs
  refs : s'.refs = s.refs
  procRefs : s'.procRefs = s.procRefs
  procs : s'.procs = s.procs
  threads : s'.threads = s.threads
  queues : s'.queues = s.queues
  nextId : s'.nextId = s.nextId
  contexts : s'.contexts = s.contexts
  other : ∀ m, m ≠ n → s'.nodes m = s.nodes m
  node : ∀ nd', s'.nodes n = some nd' → ∃ nd, s.nodes n = some nd ∧ nd'.proc = nd.proc ∧
    nd'.internalStrongRefs = nd.internalStrongRefs ∧ nd'.localStrongRefs = nd.localStrongRefs ∧
    nd'.localWeakRefs = nd.localWeakRefs
  kept : ∀ nd, s.nodes n = some nd → (s'.nodes n).isSome
  told : ∀ e ∈ s'.told, e ∈ s.told ∨ e.2.2 = .node n

theorem Reported.refl (n : NodeId) (s : Driver) : Reported n s s :=
  ⟨rfl, rfl, rfl, rfl, rfl, rfl, rfl, rfl, fun _ _ => rfl,
    fun nd hn => ⟨nd, hn, rfl, rfl, rfl, rfl⟩, fun nd hn => by simp [hn], fun _ he => .inl he⟩

/-- Two reports are one. -/
theorem Reported.trans {n : NodeId} (h : Reported n s s') (h' : Reported n s' s'') :
    Reported n s s'' where
  nodeRefs := h'.nodeRefs.trans h.nodeRefs
  refs := h'.refs.trans h.refs
  procRefs := h'.procRefs.trans h.procRefs
  procs := h'.procs.trans h.procs
  threads := h'.threads.trans h.threads
  queues := h'.queues.trans h.queues
  nextId := h'.nextId.trans h.nextId
  contexts := h'.contexts.trans h.contexts
  other m hm := (h'.other m hm).trans (h.other m hm)
  node nd'' hn'' := by
    obtain ⟨nd', hn', hp', hi', hl', hw'⟩ := h'.node nd'' hn''
    obtain ⟨nd, hn, hp, hi, hl, hw⟩ := h.node nd' hn'
    exact ⟨nd, hn, hp'.trans hp, hi'.trans hi, hl'.trans hl, hw'.trans hw⟩
  kept nd hn := by
    obtain ⟨nd', hn'⟩ := Option.isSome_iff_exists.mp (h.kept nd hn)
    exact h'.kept nd' hn'
  told e he := (h'.told e he).elim (h.told e) .inr

/-- A report changes what was told of one node, and none of its counts. -/
theorem updNode_reported (s : Driver) (n : NodeId) {f : Node → Node}
    (hproc : ∀ nd, (f nd).proc = nd.proc)
    (hi : ∀ nd, (f nd).internalStrongRefs = nd.internalStrongRefs)
    (hl : ∀ nd, (f nd).localStrongRefs = nd.localStrongRefs)
    (hw : ∀ nd, (f nd).localWeakRefs = nd.localWeakRefs) : Reported n s (s.updNode n f) where
  nodeRefs := rfl
  refs := rfl
  procRefs := rfl
  procs := rfl
  threads := rfl
  queues := rfl
  nextId := rfl
  contexts := rfl
  other m hm := by simp [updNode, hm]
  node nd' hn' := by
    simp only [updNode, Function.update_self, Option.map_eq_some_iff] at hn'
    obtain ⟨nd, hn, rfl⟩ := hn'
    exact ⟨nd, hn, hproc nd, hi nd, hl nd, hw nd⟩
  kept nd hn := by simp [updNode, hn]
  told _ he := .inl he

theorem tell_reported (s : Driver) (th : ThreadId) (cmd : BR) (n : NodeId) :
    Reported n s (s.tell th cmd (.node n)) :=
  { Reported.refl n s with
    told := by
      intro e he
      rcases List.mem_cons.mp he with rfl | he
      · exact .inr rfl
      · exact .inl he }

theorem reportNews_reported (env : Env) (s : Driver) (th : ThreadId) (n : NodeId) (nd : Node)
    (rc : ReadCall) : Reported n s (reportNews env s th n nd rc).drv := by
  apply reportNews_rule (P := fun h => Reported n s h.drv) (.refl n s)
  · intro h cmd _ _ _ _ hreported
    apply hreported.trans (updNode_reported _ n ..)
    all_goals
      intro nd
      cases cmd <;> rfl
  · exact fun h cmd hreported => hreported.trans (tell_reported _ th cmd n)

/-- What a read of node news comes to: nothing to report, no room to report it,
or a report, after which an owner told to let go may see the node released. -/
theorem readNodeWork_cases (env : Env) (s : Driver) (th : ThreadId) (n : NodeId)
    (rc : ReadCall) :
    (readNodeWork env s th n rc = ⟨s, rc, none⟩ ∧
        ∀ nd, s.nodes n = some nd → s.nodeNews n nd = (false, false, false, false)) ∨
      readNodeWork env s th n rc = ⟨s, rc, some .enomem⟩ ∨
      ∃ nd, s.nodes n = some nd ∧
        ((s.nodeNews n nd).1.toNat + (s.nodeNews n nd).2.1.toNat +
          (s.nodeNews n nd).2.2.1.toNat + (s.nodeNews n nd).2.2.2.toNat) * 20 ≤ rc.room ∧
        readNodeWork env s th n rc =
          if (s.nodeNews n nd).2.2.2 && (reportNews env s th n nd rc).error.isNone then
            { reportNews env s th n nd rc with
              drv := (reportNews env s th n nd rc).drv.nodeMaybeFree n }
          else reportNews env s th n nd rc := by
  unfold readNodeWork
  split
  · rename_i hnone
    refine .inl ⟨rfl, ?_⟩
    intro nd hn
    rw [hnone] at hn
    cases hn
  · rename_i nd hn
    simp only
    split
    · rename_i hneeded
      refine .inl ⟨rfl, ?_⟩
      intro nd' hn'
      rw [hn] at hn'
      cases hn'
      generalize s.nodeNews n nd = news at hneeded ⊢
      obtain ⟨a, b, c, d⟩ := news
      cases a <;> cases b <;> cases c <;> cases d <;> simp at hneeded ⊢
    · split
      · exact .inr (.inl rfl)
      · rename_i hroom
        exact .inr (.inr ⟨nd, hn, Nat.le_of_not_lt hroom, rfl⟩)

end Driver

end Binder
