import DevfsBinder.ContextIsolation
import DevfsBinder.ManagerRole

/-!
# What a closed process leaves behind

A process that is closed may own objects others hold handles to, hold handles to
objects of others, and have threads with open calls.  `binder_proc_release` takes
each of these away, in an order in which later parts could still put back what an
earlier part has removed.  They do not, and nobody makes anything for a process that
is gone: in every state between two actions all nodes, handles, threads and waiting
transactions are those of open processes (`closed_process_departed`).
-/

namespace Binder

namespace Driver

variable {s s' : Driver} {A : Kind → Prop} {E : ProcId → Prop} {p : ProcId}

/-! ## One effect -/

/-- Every owner of a node and every holder of a handle is alive, those in `E` apart. -/
structure Housed (E : ProcId → Prop) (s : Driver) : Prop where
  owner : ∀ n nd p, s.nodes n = some nd → nd.proc = some p → E p ∨ s.procAlive p = true
  holder : ∀ r ref, s.refs r = some ref → E ref.proc ∨ s.procAlive ref.proc = true

/-- An effect that closes only processes in `E` and makes nodes and handles only for
the living. -/
theorem Housed.effect (h : Housed E s) (hs : Sound s) (hset : Settled s) (he : Effect A s s')
    (hclose : ∀ q, A (.close q) → E q)
    (hmake : ∀ q, A (.make q) → E q ∨ s.procAlive q = true)
    (hhandle : ∀ q n, A (.handle s q n) → E q ∨ s.procAlive q = true) : Housed E s' := by
  have hkept : ∀ q, E q ∨ s.procAlive q = true → E q ∨ s'.procAlive q = true := by
    intro q hq
    by_cases hE : E q
    · exact .inl hE
    · exact .inr (he.alive_kept hs hset (hq.resolve_left hE) fun hA => hE (hclose q hA))
  constructor
  · intro n nd' q hn' hq
    apply hkept
    rcases he.node_back hs hn' with ⟨-, q', hq', hA⟩ | ⟨nd, hn, howned, -⟩
    · obtain rfl : q = q' := Option.some.inj (hq.symm.trans hq')
      exact hmake q hA
    · exact h.owner n nd q hn (howned q hq)
  · intro r ref' hr'
    apply hkept
    rcases he.handle_back hs hr' with hA | ⟨ref, hr, hproc, -⟩
    · exact hhandle ref'.proc ref'.node hA
    · rw [hproc]
      exact h.holder r ref hr

/-- Run of `Housed.effect`: those who are made something for are alive at the start. -/
theorem Housed.moves (h : Housed E s) (hs : Sound s) (hset : Settled s) (hm : Moves A s s')
    (hclose : ∀ q, A (.close q) → E q)
    (hmake : ∀ q, A (.make q) → s.procAlive q = true)
    (hhandle : ∀ s₁ q n, A (.handle s₁ q n) → s.procAlive q = true) : Housed E s' := by
  have hall : Settled s' ∧ (∀ q, s.procAlive q = true → E q ∨ s'.procAlive q = true) ∧
      Housed E s' := by
    refine hm.invariant (P := fun s₁ => Settled s₁ ∧
      (∀ q, s.procAlive q = true → E q ∨ s₁.procAlive q = true) ∧ Housed E s₁) ?_ hs
      ⟨hset, fun _ hq => .inr hq, h⟩
    intro s₁ s₂ hs₁ hmove hbefore
    obtain ⟨hset₁, halive, hhoused⟩ := hbefore
    refine ⟨hmove.moves.settled hs₁ hset₁, ?_, ?_⟩
    · intro q hq
      by_cases hE : E q
      · exact .inl hE
      · exact .inr (hmove.effect.alive_kept hs₁ hset₁ ((halive q hq).resolve_left hE)
          fun hA => hE (hclose q hA))
    · exact hhoused.effect hs₁ hset₁ hmove.effect hclose (fun q hA => halive q (hmake q hA))
        fun q n hA => halive q (hhandle s₁ q n hA)
  exact hall.2.2

/-! ## A close -/

theorem Moves.fewerHandles (hm : Moves A s s') (hs : Sound s)
    (hnone : ∀ s₁ q n, ¬ A (.handle s₁ q n)) : FewerHandles s s' := by
  refine hm.invariant (P := fun s₁ => FewerHandles s s₁) ?_ hs (.same rfl)
  intro s₁ s₂ hs₁ hmove hbefore
  rcases hmove.effect.handles hs₁ with ⟨q, n, hA, -⟩ | hfewer
  · exact absurd hA (hnone s₁ q n)
  · exact hbefore.trans hfewer

theorem FewerHandles.none (h : FewerHandles s s') {r : RefId} (hr : s.refs r = none) :
    s'.refs r = none := by
  cases hr' : s'.refs r with
  | none => rfl
  | some ref' =>
      obtain ⟨ref, hsome, -⟩ := h r ref' hr'
      rw [hr] at hsome
      cases hsome

theorem refDelete_gone (hs : Sound s) (r : RefId) : (s.refDelete r).refs r = none := by
  unfold refDelete
  split
  · assumption
  · rename_i ref hr
    have hs₁ := hs.forgetRef hr
    have hfewer := (nodeUpdateRefs_steps (O := fun _ => True) hs₁ ref.node
      (decide (0 < ref.strong)) false true none).fewer hs₁ (nodeUpdateRefs_nextId ..)
    exact hfewer.none (by simp [forgetRef])

theorem refDeletes_gone (hs : Sound s) (l : List RefId) {r : RefId} (hr : r ∈ l) :
    (l.foldl refDelete s).refs r = none := by
  induction l generalizing s with
  | nil => cases hr
  | cons r' l ih =>
      have hfirst := refDeletes_quits (A := fun k => ∀ s₁ q n, k ≠ .handle s₁ q n) hs [r']
        (by simp)
      have hs₁ : Sound (s.refDelete r') := hfirst.moves.sound hs
      rcases List.mem_cons.mp hr with rfl | hmem
      · have hrest := refDeletes_quits (A := fun k => ∀ s₁ q n, k ≠ .handle s₁ q n) hs₁ l
          (by simp)
        exact (hrest.moves.fewerHandles hs₁ fun s₁ q n hA => hA s₁ q n rfl).none
          (refDelete_gone hs r)
      · exact ih hs₁ hmem

/-- The process that is closed owns no node and holds no handle afterwards. -/
theorem procRelease_empties (hs : Sound s) (hset : Settled s) (p : ProcId) :
    (∀ n nd, (s.procRelease p).nodes n = some nd → nd.proc ≠ some p) ∧
      ∀ r ref, (s.procRelease p).refs r = some ref → ref.proc ≠ p := by
  obtain ⟨s₁, s₂, hfirst, hrest, hlast, heq⟩ := procRelease_stages
    (A := fun k => ∀ s₁ q n, k ≠ .handle s₁ q n) hs hset p (by simp) (by simp)
  have hs₁ := hfirst.sound hs
  have hdeletes :=
    procRefs_quits (A := fun k => ∀ s₁ q n, k ≠ .handle s₁ q n) (p := p) hs₁ (by simp)
  have hfewer := hdeletes.moves.fewerHandles hs₁ fun _ q n hA => hA _ q n rfl
  have hlater := hrest.fewerHandles (hdeletes.moves.sound hs₁) fun _ q n hA => hA _ q n rfl
  rw [heq]
  refine ⟨hlast.homeless, ?_⟩
  intro r ref hr hproc
  -- the handle was there before the deletions, which took it
  obtain ⟨ref₁, hr₁, hproc₁, -⟩ := (hfewer.trans hlater) r ref hr
  have hmem : r ∈ s₁.procRefs p :=
    (hs₁.graph.procRefs.mem_iff p r).mpr ⟨ref₁, hr₁, congrArg some (hproc₁.symm.trans hproc)⟩
  have hgone := hlater.none (refDeletes_gone hs₁ _ hmem)
  rw [show s₂.refs r = some ref from hr] at hgone
  cases hgone

/-! ## One action -/

theorem Reachable.thread_alive (h : Reachable s) {th : ThreadId} {thread : Thread}
    (hth : s.threads th = some thread) : s.procAlive thread.proc = true := by
  have hopen := (Reachable.steady h).base.threadProc th thread.proc (view_procOf_some hth)
  exact h.open_alive (by simpa [view] using hopen)

theorem Reachable.sendsTo_alive (h : Reachable s) {th : ThreadId} {handle : Nat} {reply : Bool}
    {tp : ProcId} (hto : s.SendsTo p th handle reply tp) : s.procAlive tp = true := by
  cases hto with
  | reply t target thread htop hfrom hthread => exact h.thread_alive hthread
  | call n _ htarget howner => exact h.open_alive (procs_isSome_of_nodeOwner howner)

theorem Occurs.make_alive {a : Action} (hA : s.Occurs a (.make p)) :
    s.procAlive p = true := by
  cases hA with
  | make env th thread reply isSg tr hidle => exact (idleThread_eq_some hidle).2
  | makeManager env th thread ptr cookie flags hidle => exact (idleThread_eq_some hidle).2

theorem Occurs.handle_alive (h : Reachable s) {a : Action} {s₁ : Driver} {n : NodeId}
    (hA : s.Occurs a (.handle s₁ p n)) : s.procAlive p = true := by
  cases hA with
  | reference env th thread strong increment desc _ hth hmgr => exact h.thread_alive hth
  | parcel env th thread reply isSg tr _ tp _ hth hto hknows => exact h.sendsTo_alive hto

/-- **Step.**  Between two actions nobody is exempt. -/
theorem Housed.act (hreach : Reachable s) (h : Housed (fun _ => False) s) (a : Action) :
    Housed (fun _ => False) (s.act a) := by
  have hst := Reachable.steady hreach
  have hmoves := hst.moves a
  have hbut : Housed (fun q => a = .devClose q) (s.act a) := by
    refine Housed.moves (A := s.Occurs a) ?_ hst.sound hst.settled hmoves ?_ ?_ ?_
    · exact ⟨fun n nd q hn hq => (h.owner n nd q hn hq).imp False.elim id,
        fun r ref hr => (h.holder r ref hr).imp False.elim id⟩
    · intro q hA
      cases hA
      rfl
    · intro q hA
      exact hA.make_alive
    · intro s₁ q n hA
      exact hA.handle_alive hreach
  cases a with
  | devClose p =>
      rw [Driver.act] at hbut ⊢
      split
      · rename_i hdone
        rw [if_pos hdone] at hbut
        obtain ⟨hnodes, hrefs⟩ := procRelease_empties hst.sound hst.settled p
        constructor
        · intro n nd q hn hq
          rcases hbut.owner n nd q hn hq with he | halive
          · cases he
            exact absurd hq (hnodes n nd hn)
          · exact .inr halive
        · intro r ref hr
          rcases hbut.holder r ref hr with he | halive
          · exact absurd (Action.devClose.inj he).symm (hrefs r ref hr)
          · exact .inr halive
      · exact h
  | _ =>
      exact ⟨fun n nd q hn hq => (hbut.owner n nd q hn hq).imp (by simp) id,
        fun r ref hr => (hbut.holder r ref hr).imp (by simp) id⟩

/-! ## Every run -/

/-- Nothing is left of the process. -/
structure Departed (s : Driver) (p : ProcId) : Prop where
  threads : ∀ th thread, s.threads th = some thread → thread.proc ≠ p
  nodes : ∀ n nd, s.nodes n = some nd → nd.proc ≠ some p
  handles : ∀ r ref, s.refs r = some ref → ref.proc ≠ p
  waiting : ∀ t, s.queues.loc (.transaction t) ≠ some (.proc p)

/-- **A closed process is gone.**  Whatever it had open when it was closed, no thread,
node, handle or waiting transaction of it is left, then or later. -/
theorem closed_process_departed (h : Reachable s) (hp : s.procs p = none) : Departed s p := by
  have hdead : ¬ s.procAlive p = true := by simp [procAlive, hp]
  have hhoused : Housed (fun _ => False) s := by
    refine Reaches.invariant (P := Housed fun _ => False) ?_ ?_ h
    · exact ⟨by simp [Driver.init], by simp [Driver.init]⟩
    · intro s₁ a hreach hhoused _
      exact hhoused.act hreach a
  constructor
  · intro th thread hth hproc
    exact hdead (hproc ▸ h.thread_alive hth)
  · intro n nd hn hproc
    exact hdead ((hhoused.owner n nd p hn hproc).resolve_left id)
  · intro r ref hr hproc
    exact hdead (hproc ▸ (hhoused.holder r ref hr).resolve_left id)
  · intro t ht
    obtain ⟨x, -, hhome⟩ := (Reachable.steady h).base.waiting t (.proc p) ht
    exact absurd hhome.2 (by simp [view, hp])

/-- Process 5 is closed after it has sent the manager an object. -/
theorem closed_process_departed_sharer :
    (twoProcessesUp.run [shareObject]).procAlive 5 = true ∧
      Departed (twoProcessesUp.run [shareObject, .devClose 5]) 5 :=
  ⟨by decide +kernel,
    closed_process_departed ((Reachable.run .init twoProcesses).run _) (by decide +kernel)⟩

end Driver

end Binder
