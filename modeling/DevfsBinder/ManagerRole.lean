import DevfsBinder.OwnerConversation

/-!
# The context manager

Each context has at most one manager, a node of one of its processes.  A
process that is open is not dying (`Reachable.open_alive`), so between two
actions the manager's owner is alive; it stays the owner until its device is
closed, and `binder_proc_release` gives the role up before it cuts the owner
link (`Reachable.procRelease_vacates`).  The uid of the first registration is
kept for good (`Moves.honours`), and every later one has to match it
(`Registers.uid_eq`).
-/

namespace Binder

namespace Driver

variable {A : Kind → Prop} {s s' : Driver}

/-! ## Open processes -/

/-- Process `p` has an open device and is marked dead. -/
def Defunct (s : Driver) (p : ProcId) : Prop := (s.procs p).isSome ∧ s.procAlive p = false

/-- An effect marks no process dead but one that is closed. -/
theorem Effect.defunct (hs : Sound s) (he : Effect A s s') {p : ProcId} (h : s'.Defunct p) :
    s.Defunct p ∨ A (.close p) := by
  obtain ⟨hsome, hdead⟩ := h
  rcases he.procs_cases hs with hsame | ⟨env, pid, ctx, -, rfl⟩ | ⟨q, hclose, rfl⟩ | ⟨q, -, rfl⟩
  · obtain ⟨hctx, halive⟩ := hsame p
    have hisSome := congrArg Option.isSome hctx
    rw [Option.isSome_map, Option.isSome_map] at hisSome
    exact .inl ⟨hisSome ▸ hsome, halive ▸ hdead⟩
  · unfold procNew allocMem at hsome hdead
    cases hal : env.allocOk s.nextId with
    | false =>
        simp only [hal] at hsome hdead
        exact .inl ⟨hsome, hdead⟩
    | true =>
        simp only [hal, if_true] at hsome hdead
        by_cases hp : p = s.nextId
        · simp [procAlive, insertProc, bumpId, hp] at hdead
        · refine .inl ⟨by simpa [insertProc, bumpId, hp] using hsome, ?_⟩
          simpa [procAlive, insertProc, bumpId, hp] using hdead
  · by_cases hp : p = q
    · exact .inr (hp ▸ hclose)
    · refine .inl ⟨by simpa [updProc, hp] using hsome, ?_⟩
      simpa [procAlive, updProc, hp] using hdead
  · by_cases hp : p = q
    · simp [forgetProc, hp] at hsome
    · refine .inl ⟨by simpa [forgetProc, hp] using hsome, ?_⟩
      simpa [procAlive, forgetProc, hp] using hdead

theorem procRelease_procs (s : Driver) (p : ProcId) : (s.procRelease p).procs p = none := by
  simp [procRelease, forgetProc]

/-- **An open process is alive**, between two actions. -/
theorem Reachable.open_alive (h : Reachable s) {p : ProcId} (hp : (s.procs p).isSome) :
    s.procAlive p = true := by
  suffices hnone : ∀ p, ¬ s.Defunct p by
    cases halive : s.procAlive p with
    | true => rfl
    | false => exact absurd ⟨hp, halive⟩ (hnone p)
  refine Reaches.invariant (P := fun s => ∀ p, ¬ s.Defunct p) ?_ ?_ h
  · simp [Defunct, Driver.init]
  · intro s a hreach hopen _ p hdefunct
    have hst := Reachable.steady hreach
    have hmoves := hst.moves a
    have hclosing : ∀ p, (s.act a).Defunct p → s.Occurs a (.close p) := by
      refine hmoves.invariant (P := fun s₁ => ∀ p, s₁.Defunct p → s.Occurs a (.close p)) ?_
        hst.sound fun p hp => absurd hp (hopen p)
      intro s₁ s₂ hs₁ hmove hinv p hp
      exact (hmove.effect.defunct hs₁ hp).elim (hinv p) id
    -- The process that is closed is gone, unless nothing was done.
    cases hclosing p hdefunct with
    | close =>
        rw [act] at hdefunct
        split at hdefunct
        · simp [Defunct, procRelease_procs] at hdefunct
        · exact hopen p hdefunct

/-! ## The role -/

/-- The manager of a context is a node of an open process of the context. -/
theorem Reachable.manager_owner (h : Reachable s) {c : Nat} {n : NodeId}
    (hc : (s.contexts c).mgrNode = some n) :
    ∃ nd p proc, s.nodes n = some nd ∧ nd.proc = some p ∧ n ∈ s.procNodes p ∧
      s.procs p = some proc ∧ proc.isDead = false ∧ proc.context = c := by
  have hst := h.steady
  obtain ⟨nd, p, proc, hn, hown, hproc, hctx⟩ := hst.settled.managed c n hc
  have halive := h.open_alive (p := p) (by simp [hproc])
  refine ⟨nd, p, proc, hn, hown, (hst.sound.graph.procNodes.mem_iff p n).mpr ⟨nd, hn, hown⟩,
    hproc, ?_, hctx⟩
  simpa [procAlive, hproc] using halive

/-- While there is a manager nobody becomes one. -/
theorem contextMgrSet_busy (s : Driver) (env : Env) {p : ProcId} {proc : Proc}
    (ptr cookie flags : Nat) (hp : s.procs p = some proc)
    (hmgr : (s.contexts proc.context).mgrNode ≠ none) :
    s.contextMgrSet env p ptr cookie flags = (s, some .ebusy) := by
  unfold contextMgrSet
  rw [hp]
  simp only
  rw [if_pos hmgr]

/-- **Closing the manager's process frees the role.** -/
theorem Reachable.procRelease_vacates (h : Reachable s) {c : Nat} {n : NodeId} {p : ProcId}
    (hc : (s.contexts c).mgrNode = some n) (hown : (s.nodes n).bind (·.proc) = some p) :
    ((s.procRelease p).contexts c).mgrNode = none := by
  have hst := h.steady
  obtain ⟨nd, p', proc, hn, hown', -, hproc, -, -⟩ := h.manager_owner hc
  rw [hn, Option.bind_some, hown', Option.some.injEq] at hown
  subst hown
  have hmoves := procRelease_moves (A := fun k => ∀ m, k ≠ .manager m) hst.sound hst.settled p'
    (by simp) (by simp)
  have hclose := procRelease_refines hst.sound hst.base (p := p') (by simp [view, hproc])
  cases hmgr : ((s.procRelease p').contexts c).mgrNode with
  | none => rfl
  | some m =>
      -- A manager after the release was the manager before, and keeps its owner.
      have hbefore : (s.contexts c).mgrNode = some m :=
        ((hmoves.onward hst.sound).managers c m hmgr).resolve_right fun hm => hm m rfl
      obtain rfl : n = m := Option.some.inj (hc.symm.trans hbefore)
      obtain ⟨nd₁, p₁, proc₁, hn₁, hown₁, hproc₁, -⟩ :=
        (hmoves.settled hst.sound hst.settled).managed c n hmgr
      have hbefore : s.view.owner n = some p' := by simp [view, hn, hown']
      have hafter : (s.procRelease p').view.owner n = some p₁ := by simp [view, hn₁, hown₁]
      have hkept := hclose.shrinks.owner n (hst.sound.graph.nodes_lt n nd hn)
      rw [hafter, hbefore] at hkept
      rcases hkept with hsame | hnone
      · cases hsame
        rw [procRelease_procs] at hproc₁
        cases hproc₁
      · cases hnone

/-- Action `a` is an accepted registration in context `c` by a caller with this
uid. -/
inductive Registers (s : Driver) : Action → Nat → Nat → Prop
  | mk (env : Env) (th : ThreadId) (thread : Thread) (proc : Proc) (ptr cookie flags : Nat)
      (hidle : s.idleThread th = some thread) (hproc : s.procs thread.proc = some proc)
      (hok : (s.contextMgrSet env thread.proc ptr cookie flags).2 = none) :
      Registers s (.setContextMgr env th ptr cookie flags) proc.context env.uid

/-- An accepted registration finds no uid on record or its own, and leaves its
own. -/
theorem contextMgrSet_accepted {env : Env} {p : ProcId} {proc : Proc} {ptr cookie flags : Nat}
    (hp : s.procs p = some proc) (hok : (s.contextMgrSet env p ptr cookie flags).2 = none) :
    ((s.contexts proc.context).mgrUidValid = true →
        (s.contexts proc.context).mgrUid = env.uid) ∧
      ((s.contextMgrSet env p ptr cookie flags).1.contexts proc.context).mgrUidValid = true ∧
      ((s.contextMgrSet env p ptr cookie flags).1.contexts proc.context).mgrUid = env.uid := by
  unfold contextMgrSet at hok ⊢
  rw [hp] at hok ⊢
  simp only at hok ⊢
  split at hok
  · cases hok
  · rename_i hfree
    rw [if_neg hfree]
    split at hok
    · cases hok
    · rename_i huid
      rw [if_neg huid]
      refine ⟨fun hvalid => Decidable.not_not.mp fun hne => huid ⟨hvalid, hne⟩, ?_⟩
      have hctx := ((s.updContext proc.context fun ctx => { ctx with
        mgrUid := env.uid, mgrUidValid := true }).nodeNew_kept env p ptr cookie flags).2.2
      generalize (s.updContext proc.context fun ctx =>
        { ctx with mgrUid := env.uid, mgrUidValid := true }).nodeNew env p ptr cookie flags = r
        at hok hctx ⊢
      obtain ⟨_ | n, s₁⟩ := r
      · cases hok
      · simp only at hctx
        simp [updNode, updContext, hctx]

theorem Reachable.run_honours (h : Reachable s) (as : List Action) : Honours s (s.run as) := by
  induction as generalizing s with
  | nil => exact .same rfl
  | cons a as ih =>
      have hst := h.steady
      have hmoves := hst.moves a
      exact hmoves.honours.trans (ih (.step a h trivial))

/-- **All registrations in a context are made with one uid.** -/
theorem Registers.uid_eq (hreach : Reachable s) {a a' : Action} {c uid uid' : Nat}
    {as : List Action} (h : s.Registers a c uid) (h' : ((s.act a).run as).Registers a' c uid') :
    uid' = uid := by
  have hafter : ((s.act a).contexts c).mgrUidValid = true ∧
      ((s.act a).contexts c).mgrUid = uid := by
    cases h with
    | mk env th thread proc ptr cookie flags hidle hproc hok =>
        rw [act, withIdle, hidle]
        exact (contextMgrSet_accepted hproc hok).2
  have hreach₁ : Reachable (s.act a) := .step a hreach trivial
  obtain ⟨hvalid, hsame⟩ := hreach₁.run_honours as c hafter.1
  cases h' with
  | mk env th thread proc ptr cookie flags hidle hproc hok =>
      rw [← (contextMgrSet_accepted hproc hok).1 hvalid, hsame]
      exact hafter.2

/-- **The context manager role.**  In every state of every run the manager of a
context, if there is one, is a node on the list of an open, living process of
that context; nobody becomes manager while there is one; closing the manager's
process leaves the role free; and any two accepted registrations in one context,
however far apart, are made with the same uid. -/
theorem context_manager_role (h : Reachable s) :
    (∀ c n, (s.contexts c).mgrNode = some n →
      ∃ nd p proc, s.nodes n = some nd ∧ nd.proc = some p ∧ n ∈ s.procNodes p ∧
        s.procs p = some proc ∧ proc.isDead = false ∧ proc.context = c) ∧
    (∀ env p proc ptr cookie flags, s.procs p = some proc →
      (s.contexts proc.context).mgrNode ≠ none →
      s.contextMgrSet env p ptr cookie flags = (s, some .ebusy)) ∧
    (∀ c n p, (s.contexts c).mgrNode = some n → (s.nodes n).bind (·.proc) = some p →
      ((s.procRelease p).contexts c).mgrNode = none) ∧
    (∀ a as a' c uid uid', s.Registers a c uid → ((s.act a).run as).Registers a' c uid' →
      uid = uid') :=
  ⟨fun _ _ hc => h.manager_owner hc,
    fun env _ _ ptr cookie flags hp hmgr => contextMgrSet_busy s env ptr cookie flags hp hmgr,
    fun _ _ _ hc hown => h.procRelease_vacates hc hown,
    fun _ _ _ _ _ _ hreg hreg' => (hreg.uid_eq h hreg').symm⟩

/-- The manager of context 0 after the two processes have started is node 4 of
process 1. -/
theorem twoProcesses_manager :
    (twoProcessesUp.contexts 0).mgrNode = some 4 ∧
      ((twoProcessesUp.procRelease 1).contexts 0).mgrNode = none :=
  ⟨by decide +kernel,
    (context_manager_role (Reachable.run .init twoProcesses)).2.2.1 0 4 1 (by decide +kernel)
      (by decide +kernel)⟩

end Driver

end Binder
