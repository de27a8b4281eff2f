import DevfsBinder.DeathRecords
import DevfsBinder.OwnerConversation

/-!
# Queue integrity

A work item carries the queue it is on, and that field is what every removal
goes by.  In every state of every run it is right: an item with no queue is in no
list, an item with a queue is in that list once and in no other
(`QueuesOk.consistent`).  And nothing is left in a list after the record around
it was released: transactions and thread errors by `Base`, death records by
`Notified`, nodes by `NewsOfNodes` below, which says that a node with news is not
released.  A completion has nothing but its place; once it has left its list it
is never linked again, since only a send links one and only its own.
-/

namespace Binder

namespace Driver

variable {A : Kind → Prop} {s s' : Driver}

/-- Queued news are those of a node that exists. -/
def NewsOfNodes (s : Driver) : Prop :=
  ∀ n, (s.queues.loc (.node n)).isSome → (s.nodes n).isSome

namespace NewsOfNodes

/-- No news arrive and no node goes. -/
theorem keep (h : NewsOfNodes s)
    (hnews : ∀ n, (s'.queues.loc (.node n)).isSome → (s.queues.loc (.node n)).isSome)
    (hnodes : ∀ n, (s.nodes n).isSome → (s'.nodes n).isSome) : NewsOfNodes s' :=
  fun n hq => hnodes n (h n (hnews n hq))

theorem same (h : NewsOfNodes s) (hqueues : s'.queues = s.queues) (hnodes : s'.nodes = s.nodes) :
    NewsOfNodes s' :=
  h.keep (fun _ hq => hqueues ▸ hq) fun _ hn => hnodes ▸ hn

theorem updNode (h : NewsOfNodes s) (n : NodeId) (f : Node → Node) :
    NewsOfNodes (s.updNode n f) := by
  refine h.keep (fun _ hq => hq) fun m hm => ?_
  by_cases he : m = n
  · subst he
    simpa [Driver.updNode] using hm
  · simpa [Driver.updNode, he] using hm

theorem dequeue (h : NewsOfNodes s) (w : Work) : NewsOfNodes (s.dequeueWork w) := by
  refine h.keep (fun n hq => ?_) fun _ hn => hn
  rw [dequeueWork, Queues.remove_loc] at hq
  split at hq
  · cases hq
  · exact hq

/-- The accounting releases a node only when it has no news, and gives news only
to nodes that exist. -/
theorem accounted (h : NewsOfNodes s) {thread : Option ThreadId} (hacc : Accounted thread s s') :
    NewsOfNodes s' := by
  intro n hq'
  have hsome : (s.nodes n).isSome := by
    obtain ⟨q, hq'⟩ := Option.isSome_iff_exists.mp hq'
    rcases hacc.news n q hq' with hq | ⟨nd, -, hn, -⟩
    · exact h n (by simp [hq])
    · simp [hn]
  obtain ⟨nd, hn⟩ := Option.isSome_iff_exists.mp hsome
  cases hn' : s'.nodes n with
  | some nd' => rfl
  | none =>
      rw [hacc.gone n nd hn hn'] at hq'
      cases hq'

theorem aside (h : NewsOfNodes s) (ha : Aside s s') : NewsOfNodes s' := by
  obtain ⟨hnodes, -⟩ := Objects.mk.inj ha.objects
  exact h.keep (fun n hq => ha.news n ▸ hq) fun _ hn => hnodes ▸ hn

theorem procNew (h : NewsOfNodes s) (env : Env) (pid ctx : Nat) :
    NewsOfNodes (procNew env s pid ctx).2 := by
  exact procNew_rule env pid ctx (h.same rfl rfl) (h.same rfl rfl)

theorem threadGet (h : NewsOfNodes s) (env : Env) (p : ProcId) (tid : Nat) :
    NewsOfNodes (threadGet env s p tid).2 := by
  exact threadGet_rule env p tid h (h.same rfl rfl) (h.same rfl rfl)

theorem releaseManager (h : NewsOfNodes s) (p : ProcId) : NewsOfNodes (s.releaseManager p) := by
  apply releaseManager_rule p h
  intro proc m _ _ _
  exact NewsOfNodes.updNode (s := s.updContext _ _) h _ _

theorem insertNode (h : NewsOfNodes s) (n : NodeId) (p : ProcId) (ptr cookie flags : Nat) :
    NewsOfNodes (s.bumpId.insertNode n p ptr cookie flags) := by
  refine h.keep (fun _ hq => hq) fun m hm => ?_
  by_cases he : m = n
  · simp [Driver.insertNode, he]
  · simpa [Driver.insertNode, bumpId, he] using hm

theorem releaseNode (h : NewsOfNodes s) (hs : Sound s) {p : ProcId} {n : NodeId}
    (hmem : n ∈ s.procNodes p) : NewsOfNodes (s.releaseNode p n) := by
  obtain ⟨s₁, hs₁, hframe, hobj, heq⟩ := releaseNode_cases hs hmem
  obtain ⟨hnodes, -⟩ := Objects.mk.inj hobj
  have hmarked := NewsOfNodes.updNode (s := s.unlistNode p n) h n fun nd =>
    { nd with isDead := true, proc := none }
  have h₁ : NewsOfNodes s₁ :=
    hmarked.keep (fun m hq => hframe.news m ▸ hq) fun m hm => hnodes ▸ hm
  have hacc : Accounted none s₁ _ := nodeMaybeFree_accounted hs₁ n
  rw [heq]
  exact h₁.accounted hacc

/-- The owner reads of a node: the news go, or stay with the node they are of. -/
theorem readNews (h : NewsOfNodes s) (hs : Sound s) (env : Env) (th : ThreadId) {n : NodeId}
    (rc : ReadCall) {q : Queue} (hq : s.queues.loc (.node n) = some q) :
    NewsOfNodes (readNews env s th n rc q) := by
  have hout := h.dequeue (.node n)
  have htold : ∀ cmds, NewsOfNodes (announced th n cmds (s.dequeueWork (.node n))) := by
    intro cmds
    refine hout.keep (fun m hm => ?_) fun m hm => ?_
    · rwa [(announced_frame th n cmds _).1] at hm
    · rw [announced_nodes]
      by_cases he : m = n
      · subst he
        simpa using hm
      · simpa [he] using hm
  have hreads := readNews_reads env s th n rc q
  generalize Driver.readNews env s th n rc q = s' at hreads ⊢
  cases hreads with
  | nothing _ => exact hout
  | full =>
      intro m hm
      by_cases he : m = n
      · subst he
        exact h m (by simp [hq])
      · rw [putBack, Queues.insert_loc_of_ne _ _ _ fun hw => he (Work.node.inj hw)] at hm
        exact hout m hm
  | told nd _ _ => exact htold _
  | released nd _ _ =>
      have hs₁ := announced_sound (hs.dequeue (.node n)) th n (dueCmds (s.nodeNews n nd))
      have hacc : Accounted none _ _ := nodeMaybeFree_accounted hs₁ n
      exact (htold _).accounted hacc
  | faulted nd _ written cmd rest _ _ _ => exact (htold written).updNode n _

end NewsOfNodes

/-- **A node with news is not released.** -/
theorem Effect.newsOfNodes (hs : Sound s) (h : NewsOfNodes s) (he : Effect A s s') :
    NewsOfNodes s' := by
  cases he with
  | aside ha => exact h.aside ha
  | birth env pid ctx _ => exact h.procNew env pid ctx
  | dying p _ => exact h.same rfl rfl
  | unmanage p _ _ => exact h.releaseManager p
  | enter env p tid => exact h.threadGet env p tid
  | exit p th _ => exact h.same rfl rfl
  | discard n _ => exact h.dequeue (.node n)
  | localRef n strong increment thread _ =>
      exact h.accounted (nodeUpdateRefs_accounted hs n strong increment false thread)
  | takeRef env p n strong thread r s₁ _ _ _ hget _ =>
      exact h.accounted (takeRef_accounted hs hget strong thread)
  | holdRef r strong thread => exact h.accounted (refUpdate_accounted hs r strong true thread)
  | giveRef r strong thread _ => exact h.accounted (refUpdate_accounted hs r strong false thread)
  | markRef r death ha => exact NewsOfNodes.aside (s := s.updRef r _) h ha
  | deleteRef r _ =>
      have hacc : Accounted none s _ := refDelete_accounted hs r
      exact h.accounted hacc
  | makeNode n p ptr cookie flags _ _ _ _ => exact h.insertNode n p ptr cookie flags
  | hold n => exact h.updNode n _
  | unhold n =>
      have hacc : Accounted none s _ := nodeDecTmpref_accounted hs n
      exact h.accounted hacc
  | async n b => exact h.updNode n _
  | done n strong _ => exact h.updNode n _
  | manager c n _ _ => exact NewsOfNodes.updNode (s := s.updContext c _) h n _
  | orphan p n hmem _ _ => exact h.releaseNode hs hmem
  | bury p _ _ => exact h.same rfl rfl
  | news env th n rc q hq _ => exact h.readNews hs env th rc hq

theorem Reachable.newsOfNodes (h : Reachable s) : NewsOfNodes s :=
  Reaches.effects (fun _ hq => by simp [Driver.init, Queues.empty] at hq)
    (fun _ _ _ _ _ _ _ hs _ hmove hP => hmove.effect.newsOfNodes hs hP) h

/-! ## Completions -/

/-- An action queues a completion only under a new name. -/
theorem Reachable.act_complete (h : Reachable s) (a : Action) {c : Nat} {q : Queue}
    (hlt : c < s.nextId) (hq : (s.act a).queues.loc (.complete c) = some q) :
    s.queues.loc (.complete c) = some q := by
  have hst := h.steady
  rcases (hst.moves a).concludes c q hq with hq | hnew
  · exact hq
  · cases hnew with
    | complete env th reply isSg tr c hc => exact absurd hlt (Nat.not_lt.mpr hc)

/-- Queued completions have a name that was handed out. -/
theorem Reachable.complete_lt (h : Reachable s) {c : Nat} {q : Queue}
    (hq : s.queues.loc (.complete c) = some q) : c < s.nextId := by
  refine Reaches.effects (P := fun s => ∀ c q, s.queues.loc (.complete c) = some q → c < s.nextId)
    (fun c q hq => by simp [Driver.init, Queues.empty] at hq) ?_ h c q hq
  intro _ _ _ _ _ s₁ s₂ hs₁ _ hmove hP c q hq
  rcases hmove.concludes c q hq with hq | ⟨-, hlt⟩
  · exact Nat.lt_of_lt_of_le (hP c q hq) (hmove.moves.onward hs₁).nextId
  · exact hlt

/-- A completion that is linked after a run was linked there before it. -/
theorem Reachable.run_complete (h : Reachable s) (as : List Action) {c : Nat} {q : Queue}
    (hlt : c < s.nextId) (hq : (s.run as).queues.loc (.complete c) = some q) :
    s.queues.loc (.complete c) = some q := by
  induction as generalizing s with
  | nil => exact hq
  | cons a as ih =>
      have hst := h.steady
      have hid := hst.nextId_le a
      exact h.act_complete a hlt (ih (.step a h trivial) (Nat.lt_of_lt_of_le hlt hid) hq)

/-! ## The whole -/

/-- The record that a work item is part of has been made and not been released.
A completion is a record of its own, of which the model keeps only the name. -/
def Exists (s : Driver) : Work → Prop
  | .transaction t => (s.txns t).isSome
  | .returnError th => (s.threads th).isSome
  | .node n => (s.nodes n).isSome
  | .death d => (s.deaths d).isSome
  | .complete c => c < s.nextId

/-- What is queued exists. -/
theorem Reachable.exists_of_mem (h : Reachable s) {w : Work} {q : Queue} (hw : w ∈ s.items q) :
    s.Exists w := by
  have hst := h.steady
  have hq : s.queues.loc w = some q := (hst.sound.queues.consistent.mem_iff w q).mp hw
  cases w with
  | transaction t =>
      obtain ⟨x, hx, -⟩ := hst.base.waiting t q hq
      exact Option.isSome_of_eq_some hx
  | returnError th =>
      have hsome := (hst.base.errors th q hq).2
      rw [view_procOf, Option.isSome_map] at hsome
      exact hsome
  | node n => exact h.newsOfNodes n (by simp [hq])
  | death d =>
      have hrecord := h.notified.record d
      rw [hq] at hrecord
      exact hrecord.isSome_of_queued
  | complete c => exact h.complete_lt hq

/-- **Queue integrity.**  In every state of every run a work item without a queue
is in no list; one with a queue is in that list, once, and in no other; every
item in a list is part of a record that exists.  A completion in a list has been
in that list since it was made: none that was read or dropped is linked again. -/
theorem queue_integrity (h : Reachable s) :
    (∀ w, s.queues.loc w = none ↔ ∀ q, w ∉ s.items q) ∧
    (∀ w q, s.queues.loc w = some q → (s.items q).count w = 1 ∧ ∀ q', w ∈ s.items q' → q' = q) ∧
    (∀ q, ∀ w ∈ s.items q, s.Exists w) ∧
    ∀ as c q, c < s.nextId → .complete c ∈ (s.run as).items q → .complete c ∈ s.items q := by
  have hc := h.steady.sound.queues.consistent
  refine ⟨?_, ?_, fun q w hw => h.exists_of_mem hw, ?_⟩
  · intro w
    constructor
    · intro hnone q hmem
      cases hnone.symm.trans ((hc.mem_iff w q).mp hmem)
    · intro hall
      cases hq : s.queues.loc w with
      | none => rfl
      | some q => exact absurd ((hc.mem_iff w q).mpr hq) (hall q)
  · intro w q hq
    refine ⟨List.count_eq_one_of_mem (hc.nodup q) ((hc.mem_iff w q).mpr hq), ?_⟩
    intro q' hmem
    exact Option.some.inj (((hc.mem_iff w q').mp hmem).symm.trans hq)
  · intro as c q hlt hmem
    have hc' := (h.run as).steady.sound.queues.consistent
    exact (hc.mem_iff _ q).mpr (h.run_complete as hlt ((hc'.mem_iff _ q).mp hmem))

/-- Process 5 has sent the manager an object: on its thread's list are the news
of node 10 and the completion, and both exist. -/
theorem queue_integrity_share :
    (twoProcessesUp.run [shareObject]).items (.thread 6) = [.node 10, .complete 13] ∧
      ∀ w ∈ (twoProcessesUp.run [shareObject]).items (.thread 6),
        (twoProcessesUp.run [shareObject]).Exists w :=
  ⟨by decide +kernel,
    (queue_integrity ((Reachable.run .init twoProcesses).run [shareObject])).2.2.1 (.thread 6)⟩

end Driver

end Binder
