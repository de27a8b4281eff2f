import DevfsBinder.ContextIsolation

/-!
# Authority spreads along messages

A handle is the right to call an object.  Nobody can make one up: a process comes to
hold a handle because the object is the manager of its context, or because a process
that knew the object sent it a transaction.  So the processes that know an object are
closed in: as long as none of them sends anything to a process outside, and the
object does not become a context manager, nobody else ever gets a handle to it, no
matter what the others do (`authority_confined`).  The address of a released node is never
handed out again, so a stale buffer target cannot turn into another object here as it
could in reused memory.
-/

namespace Binder

namespace Driver

variable {s s₀ s' : Driver} {A : Kind → Prop} {C : ProcId → Prop} {n : NodeId}

/-- Whoever owns the node or holds a handle to it is in `C`. -/
def KnownWithin (s : Driver) (C : ProcId → Prop) (n : NodeId) : Prop := ∀ p, s.Knows p n → C p

/-- An action by which nobody in `C` sends to a process outside, in a state in which
the node is not a context manager. -/
structure Confines (C : ProcId → Prop) (n : NodeId) (s : Driver) (a : Action) : Prop where
  sends : ∀ env th thread reply isSg tr tp, a = .command env th (.transaction reply isSg tr) →
    s.threads th = some thread → C thread.proc →
      s.SendsTo thread.proc th tr.handle reply tp → C tp
  unmanaged : ∀ c, (s.contexts c).mgrNode ≠ some n

/-- An effect lets nobody outside know the node, if the handles it makes do not. -/
theorem Effect.knownWithin (hs : Sound s) (he : Effect A s s') (hn : n < s.nextId)
    (h : s.KnownWithin C n) (hhandle : ∀ p, A (.handle s p n) → C p) : s'.KnownWithin C n := by
  intro p hknows
  rcases hknows with howner | ⟨r, ref', hr', hproc', hnode'⟩
  · obtain ⟨nd', hnd', hp⟩ := Option.bind_eq_some_iff.mp howner
    rcases he.node_back hs hnd' with ⟨hnew, -⟩ | ⟨nd, hnd, howned, -⟩
    · exact absurd hn (Nat.not_lt.mpr hnew.ge)
    · apply h
      exact .inl (Option.bind_eq_some_iff.mpr ⟨nd, hnd, howned p hp⟩)
  · rcases he.handle_back hs hr' with hA | ⟨ref, hr, hproc, hnode⟩
    · rw [hproc', hnode'] at hA
      exact hhandle p hA
    · apply h
      exact .inr ⟨r, ref, hr, hproc.symm.trans hproc', hnode.symm.trans hnode'⟩

/-- **Step.**  Knowledge of the node stays inside. -/
theorem KnownWithin.act (hst : Steady s) (hn : n < s.nextId) (h : s.KnownWithin C n)
    {a : Action} (hok : Confines C n s a) :
    n < (s.act a).nextId ∧ (s.act a).KnownWithin C n := by
  have hmoves := hst.moves a
  refine hmoves.invariant (P := fun s₁ => n < s₁.nextId ∧ s₁.KnownWithin C n) ?_ hst.sound ⟨hn, h⟩
  intro s₁ s₂ hs₁ hmove hbefore
  obtain ⟨hlt, hknown⟩ := hbefore
  refine ⟨Nat.lt_of_lt_of_le hlt (hmove.effect.onward hs₁).nextId, ?_⟩
  apply hmove.effect.knownWithin hs₁ hlt hknown
  intro p hA
  cases hA with
  | reference env th thread strong increment desc _ hth hmgr =>
      obtain ⟨proc, -, hcontext⟩ := Option.bind_eq_some_iff.mp hmgr
      exact absurd hcontext (hok.unmanaged proc.context)
  | parcel env th thread reply isSg tr _ tp _ hth hto hknows =>
      exact hok.sends env th thread reply isSg tr p rfl hth (hknown thread.proc hknows) hto

/-- **Confinement.**  If, at some point of a run, all processes that know a node are in
`C`, then this stays so while nobody in `C` sends to a process outside and the node is
not a context manager. -/
theorem authority_confined (h₀ : Reachable s₀) (hn : n < s₀.nextId) (hknown : s₀.KnownWithin C n)
    (h : RunsFrom (Confines C n) s₀ s) : s.KnownWithin C n := by
  have hall : n < s.nextId ∧ s.KnownWithin C n := by
    induction h with
    | start => exact ⟨hn, hknown⟩
    | step a hrun hok ih => exact ih.2.act (Reachable.steady (hrun.reachable h₀)) ih.1 hok
  exact hall.2

/-! ## A newcomer

The conditions in a form that can be evaluated, and a run: two processes share an
object, and a third one arrives in their context. -/

/-- The owner of the node and the holders of its handles are among `ps`. -/
def knownCheck (s : Driver) (ps : List ProcId) (n : NodeId) : Bool :=
  ((s.nodes n).bind (·.proc)).all (fun p => decide (p ∈ ps)) &&
    decide (∀ r < s.nextId, (s.refs r).all (fun ref => ref.node ≠ n || ref.proc ∈ ps) = true)

theorem knownWithin_of_check (hs : Sound s) {ps : List ProcId} (h : s.knownCheck ps n = true) :
    s.KnownWithin (· ∈ ps) n := by
  unfold knownCheck at h
  rw [Bool.and_eq_true, decide_eq_true_eq] at h
  obtain ⟨howner, hrefs⟩ := h
  intro p hknows
  rcases hknows with hp | ⟨r, ref, hr, hproc, hnode⟩
  · simpa [hp] using howner
  · have hall := hrefs r (hs.graph.refs_lt r ref hr)
    simpa [hr, hnode, hproc] using hall

/-- The action sends nothing, and the node's owner is in a context whose manager is
another node. -/
def confinesCheck (n : NodeId) (s : Driver) (a : Action) : Bool :=
  (((s.nodes n).bind (·.proc)).bind s.procs).any
      (fun proc => (s.contexts proc.context).mgrNode ≠ some n) &&
  match a with
  | .command _ _ (.transaction _ _ _) => false
  | _ => true

theorem confines_of_check {a : Action} (hm : Managed s) (h : confinesCheck n s a = true) :
    Confines C n s a := by
  unfold confinesCheck at h
  rw [Bool.and_eq_true] at h
  obtain ⟨hmanager, hsilent⟩ := h
  constructor
  · intro env th thread reply isSg tr tp ha
    rw [ha] at hsilent
    exact absurd hsilent Bool.false_ne_true
  · -- a node can only be the manager of its owner's context
    intro c hc
    obtain ⟨nd, p, proc, hn, hp, hproc, hctx⟩ := hm c n hc
    simp [hn, hp, hproc, hctx, hc] at hmanager

/-- A third process opens the device and takes a handle to the manager. -/
def newcomer : List Action :=
  [.devOpen {} 12 0, .enter {} 14 300, .command {} 15 (.reference true true 0)]

theorem authority_confined_newcomer :
    ((twoProcessesUp.act shareObject).run newcomer).Knows 14 4 ∧
      ((twoProcessesUp.act shareObject).run newcomer).KnownWithin (· ∈ [1, 5]) 10 := by
  have h₀ : Reachable (twoProcessesUp.act shareObject) :=
    (Reachable.run .init twoProcesses).run [shareObject]
  have himp : ∀ s a, Reachable s → confinesCheck 10 s a = true → Confines (· ∈ [1, 5]) 10 s a :=
    fun s a hreach h => confines_of_check (Reachable.steady hreach).settled.managed h
  have hshared : (twoProcessesUp.act shareObject).KnownWithin (· ∈ [1, 5]) 10 :=
    knownWithin_of_check (Reachable.steady h₀).sound (by decide +kernel)
  constructor
  · exact .inr ⟨16, { proc := 14, node := 4, desc := 0, strong := 1 }, by decide +kernel⟩
  · apply authority_confined h₀ (by decide +kernel) hshared
    exact RunsFrom.run himp h₀ .start newcomer (by decide +kernel)

end Driver

end Binder
