import DevfsBinder.OwnerConversation

/-!
# Buffers and the nodes they name

A buffer keeps the node its transaction was sent to until the receiver frees
it, and no count of the node stands for the buffer.  The node is safe as long
as its owner has been told of it, or the news that will tell it wait: then
nothing releases it.  That state is lost when the owner reads that the last
reference is gone, or when the thread the news wait for exits.
-/

namespace Binder

namespace Driver

variable {s s' : Driver} {A : Kind → Prop} {p : ProcId} {n : NodeId}

instance (s : Driver) (p : ProcId) (n : NodeId) : Decidable (s.Names p n) :=
  decidable_of_iff (∃ buf ∈ (s.arenas p).buffers, buf.free = false ∧ buf.targetNode = some n) (by
    constructor
    · rintro ⟨buf, hmem, hused, htarget⟩
      exact ⟨buf, ⟨hmem, hused⟩, htarget⟩
    · rintro ⟨buf, ⟨hmem, hused⟩, htarget⟩
      exact ⟨buf, hmem, hused, htarget⟩)

/-- The owner `p` of node `n` has been told of it, or is about to be. -/
def Anchored (p : ProcId) (n : NodeId) (s : Driver) : Prop :=
  ∃ nd, s.nodes n = some nd ∧ nd.proc = some p ∧
    (nd.hasWeakRef = true ∨ (s.queues.loc (.node n)).isSome)

/-- Told of a reference, or told now, and of no end of it. -/
theorem records_weak {cmds : List BR} {nd : Node} (hno : BR.decrefs ∉ cmds)
    (h : nd.hasWeakRef = true ∨ ∃ rest, cmds = .increfs :: rest) :
    (cmds.foldl Node.record nd).hasWeakRef = true := by
  induction cmds generalizing nd with
  | nil =>
      rcases h with h | ⟨rest, hrest⟩
      · exact h
      · cases hrest
  | cons cmd cmds ih =>
      rw [List.mem_cons, not_or] at hno
      refine ih hno.2 (.inl ?_)
      rcases h with h | ⟨rest, hrest⟩
      · cases cmd <;> first | exact h | rfl | exact absurd rfl hno.1
      · cases hrest
        rfl

/-- A referenced node: its owner has been told, or `BR_INCREFS` is first. -/
theorem due_weak {nd : Node} (hweak : s.nodeHasWeak n nd = true) :
    BR.decrefs ∉ dueCmds (s.nodeNews n nd) ∧
      (nd.hasWeakRef = true ∨ ∃ rest, dueCmds (s.nodeNews n nd) = .increfs :: rest) := by
  rw [nodeNews_eq, hweak]
  cases nd.hasStrong <;> cases nd.hasWeakRef <;> cases nd.hasStrongRef <;> simp [dueCmds]

/-- Reading the news about a referenced node leaves it anchored. -/
theorem Anchored.readNews {nd : Node} (hn : s.nodes n = some nd) (hp : nd.proc = some p)
    (env : Env) (th : ThreadId) (rc : ReadCall) (q : Queue)
    (hweak : 20 * (dueCmds (s.nodeNews n nd)).length ≤ rc.room → s.nodeHasWeak n nd = true) :
    Anchored p n (readNews env s th n rc q) := by
  have hdue := fun hroom => due_weak (hweak hroom)
  have hreads := readNews_reads env s th n rc q
  generalize Driver.readNews env s th n rc q = s' at hreads ⊢
  cases hreads with
  | nothing hnone =>
      refine ⟨nd, hn, hp, .inl ?_⟩
      have hfirst := (hdue (by rw [hnone nd hn]; exact Nat.zero_le _)).2
      rcases hfirst with htold | ⟨rest, hrest⟩
      · exact htold
      · rw [hnone nd hn] at hrest
        cases hrest
  | full =>
      refine ⟨nd, hn, hp, .inr ?_⟩
      simp [putBack, dequeueWork, Queues.insert_loc, Queues.remove_loc]
  | told nd' hn' _ hroom =>
      rw [hn] at hn'
      cases hn'
      obtain ⟨hno, hfirst⟩ := hdue hroom
      exact ⟨_, announced_node (s := s.dequeueWork (.node n)) th _ hn,
        (nd.records_proc _).trans hp, .inl (records_weak hno hfirst)⟩
  | released nd' hn' hdecrefs hroom =>
      rw [hn] at hn'
      cases hn'
      simp [nodeNews_eq, hweak hroom] at hdecrefs
  | faulted nd' hn' written cmd rest heq hroom _ =>
      rw [hn] at hn'
      cases hn'
      obtain ⟨hno, hfirst⟩ := hdue hroom
      have hprefix : ((written ++ [cmd]).foldl Node.record nd).hasWeakRef = true := by
        refine records_weak ?_ (hfirst.imp_right ?_)
        · intro hmem
          refine hno ?_
          rw [heq, List.append_cons]
          exact List.mem_append_left _ hmem
        · rintro ⟨rest', hrest⟩
          rw [heq] at hrest
          cases written with
          | nil => exact ⟨[], by rw [List.cons.inj hrest |>.1]; rfl⟩
          | cons c written => exact ⟨written ++ [cmd], by rw [List.cons.inj hrest |>.1]; rfl⟩
      rw [List.foldl_append, List.foldl_cons, List.foldl_nil] at hprefix
      refine ⟨_, ?_, ?_, .inl hprefix⟩
      · rw [updNode_self, announced_node (s := s.dequeueWork (.node n)) th written hn,
          Option.map_some]
      · rw [Node.record_proc, Node.records_proc, hp]

/-- **Step.**  An anchored node of a live process stays so, unless its news are
thrown away or read when nothing refers to it. -/
theorem Anchored.effect (hs : Sound s) (halive : s.procAlive p = true) (h : Anchored p n s)
    (he : Effect A s s') (hdiscard : ¬ A (.discard n))
    (hnews : ∀ env s₀ rc nd, A (.news env s₀ n rc) → s₀.nodes n = some nd →
      20 * (dueCmds (s₀.nodeNews n nd)).length ≤ rc.room → s₀.nodeHasWeak n nd = true) :
    Anchored p n s' := by
  obtain ⟨nd, hn, hp, hanchor⟩ := h
  cases he.touch hs n with
  | still hstill =>
      have hsome : (s'.nodes n).isSome := by
        rcases hstill.kept nd hn with hsome | ⟨-, hw, hidle⟩
        · exact hsome
        · rcases hanchor with htold | hqueued
          · rw [hw] at htold
            cases htold
          · rw [hidle] at hqueued
            cases hqueued
      obtain ⟨nd', hn'⟩ := Option.isSome_iff_exists.mp hsome
      obtain ⟨nd₀, hn₀, hsame, hhome⟩ := hstill.back nd' hn'
      rw [hn] at hn₀
      cases hn₀
      exact ⟨nd', hn', hhome p hp halive, hanchor.imp (hsame.hasWeakRef.trans ·) hstill.queued⟩
  | made p ptr cookie flags hnew _ heq =>
      exact absurd (hs.graph.nodes_lt n nd hn) (hnew ▸ Nat.lt_irrefl _)
  | done st _ =>
      refine ⟨_, by rw [updNode_self, hn, Option.map_some], ?_, hanchor.imp_left fun htold => ?_⟩
      · cases st <;> exact hp
      · cases st <;> exact htold
  | discarded hA =>
      rcases hA with hA | hgone
      · exact absurd hA hdiscard
      · rw [hgone nd p hn hp] at halive
        cases halive
  | managed c _ =>
      refine ⟨Node.managed nd, ?_, hp, .inl rfl⟩
      rw [updNode_self]
      exact congrArg (Option.map Node.managed) hn
  | unmanaged p' hdead _ hproc c _ _ _ =>
      rw [hn, Option.bind_some, hp] at hproc
      cases hproc
      rw [hdead] at halive
      cases halive
  | news env th rc q hq hA =>
      exact .readNews hn hp env th rc q (hnews env s rc nd hA hn)

/-- What keeps the targets of buffers: a transaction is sent to a node its
owner has been told of or is about to be, the news about the target of a buffer
are read, where what is due fits, only while something refers to it, and a thread
they wait for does not exit. -/
structure KeepsTargets (s : Driver) (a : Action) : Prop where
  send : ∀ env th thread isSg tr n nd, a = .command env th (.transaction false isSg tr) →
    s.threads th = some thread → s.targetNodeOf thread.proc tr.handle = .ok n →
    s.nodes n = some nd → nd.hasWeakRef = true ∨ (s.queues.loc (.node n)).isSome
  news : s.OnNews a fun _ n rc nd => 20 * (dueCmds (s.nodeNews n nd)).length ≤ rc.room →
    ∀ p ∈ nd.proc, s.Names p n → s.nodeHasWeak n nd = true
  exit : ∀ th n p, a = .threadExit th → s.queues.loc (.node n) = some (.thread th) →
    ¬ s.Names p n

/-- Buffers are in the arenas of processes, and a live process's buffers name
anchored nodes. -/
structure TargetsKept (s : Driver) : Prop where
  lt : ∀ p n, s.Names p n → p < s.nextId
  anchored : ∀ p n, s.procAlive p = true → s.Names p n → Anchored p n s

/-- The same in the middle of a step from `s`: the targets are those of before,
and the one the step sends to. -/
structure TargetsHeld (s : Driver) (a : Action) (s₁ : Driver) : Prop where
  nextId : s.nextId ≤ s₁.nextId
  alive : ∀ p, p < s.nextId → s₁.procAlive p = true → s.procAlive p = true
  names : ∀ p n, s₁.Names p n → s.Occurs a (.aim p n) ∨ s.Names p n
  anchored : ∀ p n, s.procAlive p = true → s₁.procAlive p = true →
    s.Occurs a (.aim p n) ∨ s.Names p n → Anchored p n s₁

/-- The target of a step that is allowed. -/
theorem KeepsTargets.aimed {a : Action} (h : KeepsTargets s a) (haim : s.Occurs a (.aim p n)) :
    s.procAlive p = true ∧ Anchored p n s := by
  cases haim with
  | aim env th thread isSg tr _ _ hth htarget howner =>
      obtain ⟨hproc, howned⟩ := nodeOwner_eq_some howner
      obtain ⟨nd, hn, hp⟩ := Option.bind_eq_some_iff.mp howned
      exact ⟨(procAlive_iff s p).mpr hproc, nd, hn, hp,
        h.send env th thread isSg tr n nd rfl hth htarget hn⟩

/-- **Step.**  An allowed step keeps every target. -/
theorem TargetsKept.act (hst : Steady s) (h : TargetsKept s) {a : Action}
    (hok : KeepsTargets s a) : TargetsKept (s.act a) := by
  have hheld : TargetsHeld s a (s.act a) := by
    refine (hst.moves a).invariant (P := TargetsHeld s a) ?_
      hst.sound ?_
    · intro s₁ s₂ hs₁ hmove h₁
      have ho := hmove.effect.onward hs₁
      have halive : ∀ p, p < s.nextId → s₂.procAlive p = true → s₁.procAlive p = true := by
        intro p hlt hp
        rcases ho.alive p hp with hlive | hle
        · exact hlive
        · exact absurd (Nat.lt_of_lt_of_le hlt h₁.nextId) (Nat.not_lt_of_le hle)
      refine ⟨Nat.le_trans h₁.nextId ho.nextId, fun p hlt hp => h₁.alive p hlt (halive p hlt hp),
        fun p n hnames => (hmove.loads.names p n hnames).elim .inl (h₁.names p n), ?_⟩
      intro p n hlive hp htarget
      have hlive₁ := halive p (hst.settled.alive_lt hlive) hp
      refine (h₁.anchored p n hlive hlive₁ htarget).effect hs₁ hlive₁ hmove.effect ?_ ?_
      · intro hdiscard
        cases hdiscard with
        | discard th _ hloc =>
            rcases htarget with haim | hold
            · cases haim
            · exact hok.exit th n p rfl hloc hold
      · intro env s₀ rc nd hnews hn hroom
        obtain ⟨rfl, htaken⟩ := hnews.newsTaken
        rcases htarget with haim | hold
        · cases haim
          cases hnews
        · obtain ⟨nd', hn', hproc, -⟩ := h.anchored p n hlive hold
          rw [hn] at hn'
          cases hn'
          exact hok.news env n rc nd htaken hn hroom p hproc hold
    · exact ⟨Nat.le_refl _, fun _ _ hp => hp, fun _ _ hnames => .inr hnames,
        fun p n hlive _ htarget => htarget.elim (fun haim => (hok.aimed haim).2)
          (h.anchored p n hlive)⟩
  refine ⟨fun p n hnames => ?_, fun p n hp hnames => ?_⟩
  · refine Nat.lt_of_lt_of_le ?_ hheld.nextId
    rcases hheld.names p n hnames with haim | hold
    · exact hst.settled.alive_lt (hok.aimed haim).1
    · exact h.lt p n hold
  · have htarget := hheld.names p n hnames
    have hlive : s.procAlive p = true := by
      rcases htarget with haim | hold
      · exact (hok.aimed haim).1
      · exact hheld.alive p (h.lt p n hold) hp
    exact hheld.anchored p n hlive hp htarget

theorem Reaches.targetsKept (h : Reaches KeepsTargets s) : TargetsKept s := by
  refine Reaches.invariant ?_ ?_ h
  · constructor <;> rintro p n
    · rintro ⟨buf, ⟨hmem, -⟩, -⟩
      cases hmem
    · rintro - ⟨buf, ⟨hmem, -⟩, -⟩
      cases hmem
  · exact fun s a hreach hkept hok => hkept.act (Reachable.steady hreach.reachable) hok

/-- **No buffer outlives its target** in a run that keeps targets: what a
buffer in use of a live process names is there. -/
theorem buffer_target_exists (h : Reaches KeepsTargets s) (hp : s.procAlive p = true)
    {buf : Buffer} (hmem : buf ∈ (s.arenas p).buffers) (hused : buf.free = false) :
    buf.targetNode = none ∨ ∃ n nd, buf.targetNode = some n ∧ s.nodes n = some nd := by
  cases htarget : buf.targetNode with
  | none => exact .inl rfl
  | some n =>
      obtain ⟨nd, hn, -⟩ := h.targetsKept.anchored p n hp ⟨buf, ⟨hmem, hused⟩, htarget⟩
      exact .inr ⟨n, nd, rfl, hn⟩

/-- A check of a step that keeps targets: nobody exits. -/
def keepsCheck (s : Driver) (a : Action) : Bool :=
  decide (s.OnNews a fun _ n _ nd => ∀ p ∈ nd.proc, s.Names p n → s.nodeHasWeak n nd = true) &&
  match a with
  | .threadExit _ => false
  | .command _ th (.transaction false _ tr) =>
      (s.threads th).all fun thread =>
        match s.targetNodeOf thread.proc tr.handle with
        | .ok n => (s.nodes n).all fun nd =>
            nd.hasWeakRef || (s.queues.loc (.node n)).isSome
        | .error _ => true
  | _ => true

theorem keepsTargets_of_check {a : Action} (h : s.keepsCheck a = true) : KeepsTargets s a := by
  unfold keepsCheck at h
  rw [Bool.and_eq_true, decide_eq_true_eq] at h
  refine ⟨?_, fun env n rc nd htaken hn _ => h.1 env n rc nd htaken hn, ?_⟩
  · rintro env th thread isSg tr n nd rfl hth htarget hn
    simpa [hth, htarget, hn] using h.2
  · rintro th n p rfl
    cases h.2

/-- The oneway transaction has been delivered, and the node its buffer names is
there. -/
theorem buffer_target_exists_delivered :
    (twoProcessesUp.run tellAndDeliver).Names 5 10 ∧
      ∀ buf ∈ ((twoProcessesUp.run tellAndDeliver).arenas 5).buffers, buf.free = false →
        buf.targetNode = none ∨ ∃ n nd, buf.targetNode = some n ∧
          (twoProcessesUp.run tellAndDeliver).nodes n = some nd := by
  have himp : ∀ (s : Driver) (a : Action), Reachable s → s.keepsCheck a = true →
      KeepsTargets s a := fun _ _ _ h => keepsTargets_of_check h
  have hup := Reaches.run himp .init twoProcesses (by decide +kernel)
  have hrun := Reaches.run himp hup tellAndDeliver (by decide +kernel)
  exact ⟨by decide +kernel, fun buf hmem hused =>
    buffer_target_exists hrun (by decide +kernel) hmem hused⟩

/-- The manager gives process 5's object back while process 5 still has the
buffer of a transaction to it, and process 5 reads of it. -/
def giveBackTarget : List Action :=
  tellAndDeliver ++ [.command {} 2 (.reference true false 1), .readStart {} 6 0x9000 256 0,
    .readTurn {} 6]

/-- **A buffer outlives its target.** -/
theorem buffer_outlives_target :
    Reachable (twoProcessesUp.run giveBackTarget) ∧
      (twoProcessesUp.run giveBackTarget).procAlive 5 = true ∧
      (∃ buf ∈ ((twoProcessesUp.run giveBackTarget).arenas 5).buffers,
        buf.free = false ∧ buf.targetNode = some 10) ∧
      (twoProcessesUp.run giveBackTarget).nodes 10 = none :=
  ⟨(Reachable.run .init twoProcesses).run _, by decide +kernel, by decide +kernel,
    by decide +kernel⟩

end Driver

end Binder
