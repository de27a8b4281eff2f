import DevfsBinder.TeardownRefinement

/-!
# Runs of the driver are runs of the call machine

Every action is one step of the call machine, or a quiet stretch of it
(`act_refines`).  What both levels keep is collected in `Steady`, which holds in
every state of every run (`Reachable.steady`).
-/

namespace Binder

namespace Driver

open Calls

variable {s s' : Driver}

/-- What an action may come to, as the call machine sees it. -/
inductive Acts (s : Driver) : Action → Calls → Prop
  | quiet {v' : Calls} (a : Action) (h : Quiet s.view v') : Acts s a v'
  | openProc (env : Env) (pid ctx : Nat) :
      Acts s (.devOpen env pid ctx) (s.view.bump.setProc s.nextId (some false))
  | enter (env : Env) (p : ProcId) (tid : Nat) (hp : (s.view.procs p).isSome) :
      Acts s (.enter env p tid) (s.view.bump.setThread s.nextId (some ⟨p, false, none, .ok⟩))
  | send {v' : Calls} (env : Env) (th : ThreadId) (p : ProcId) (reply isSg : Bool)
      (tr : TransactionData) (hth : s.view.procOf th = some p)
      (h : Send (s.Aims p th tr.handle (isOneWay tr.flags)) th reply s.view v') :
      Acts s (.command env th (.transaction reply isSg tr)) v'
  | free {v' : Calls} (env : Env) (th : ThreadId) (ptr : Nat) (p : ProcId)
      (hth : s.view.procOf th = some p) (hp : (s.view.procs p).isSome)
      (h : FreeBuffer p ptr s.view v') : Acts s (.command env th (.freeBuffer ptr)) v'
  | read {v' : Calls} (env : Env) (th : ThreadId) (rc : ReadCall) (hrc : s.calls th = some rc)
      (h : Read (¬ rc.Writable env) (s.secctxNext th = true ∧ rc.CutsShort env) th s.view v') :
      Acts s (.readTurn env th) v'
  | depart {v' : Calls} (th : ThreadId) (p : ProcId) (hth : s.view.procOf th = some p)
      (hp : s.view.procs p = some false) (h : Depart p th s.view v') : Acts s (.threadExit th) v'
  | close {v' : Calls} (p : ProcId) (hp : (s.view.procs p).isSome) (h : Close p s.view v') :
      Acts s (.devClose p) v'

theorem Acts.same {a : Action} {v' : Calls} (h : v' = s.view) : Acts s a v' :=
  .quiet a (h ▸ .refl _)

theorem view_insertProc (s : Driver) (p : ProcId) (pid ctx : Nat) :
    (s.insertProc p pid ctx).view = s.view.setProc p (some false) := by
  have hprocs : (s.insertProc p pid ctx).view.procs = (s.view.setProc p (some false)).procs := by
    funext p'
    by_cases hp : p' = p <;> simp [view, insertProc, Calls.setProc, hp]
  exact congrArg (fun procs => { s.view with procs := procs }) hprocs

theorem view_insertThread (s : Driver) (th : ThreadId) (p : ProcId) (tid : Nat) :
    (s.insertThread th p tid).view = s.view.setThread th (some ⟨p, false, none, .ok⟩) := by
  have hthreads : (s.insertThread th p tid).view.threads =
      (s.view.setThread th (some ⟨p, false, none, .ok⟩)).threads := by
    funext th'
    by_cases hth : th' = th
    · simp [view, insertThread, Calls.setThread, Thread.view, hth]
    · simp [view, insertThread, Calls.setThread, hth]
  exact congrArg (fun threads => { s.view with threads := threads }) hthreads

theorem procs_isSome_of_alive {p : ProcId} (h : s.procAlive p = true) :
    (s.view.procs p).isSome := by
  rw [(procAlive_iff s p).mp h]
  rfl

theorem view_registerLooper (s : Driver) (p : ProcId) (th : ThreadId) :
    (s.registerLooper p th).view = s.view := by
  unfold registerLooper
  refine Eq.trans (view_updThread_same _ th fun _ => rfl) ?_
  refine view_updProc_same s p fun proc => ?_
  split <;> rfl

theorem view_enterLooper (s : Driver) (th : ThreadId) : (s.enterLooper th).view = s.view := by
  unfold enterLooper
  exact view_updThread_same s th fun _ => rfl

theorem view_exitLooper (s : Driver) (th : ThreadId) : (s.exitLooper th).view = s.view := by
  unfold exitLooper
  exact view_updThread_same s th fun _ => rfl

theorem view_readStart (env : Env) (s : Driver) (th : ThreadId) (buffer size consumed : Nat) :
    (readStart env s th buffer size consumed).view = s.view :=
  readStart_rule (P := fun s => s.view = _) fun _ _ _ => rfl

theorem view_resume (s : Driver) (th : ThreadId) (thread : Thread) (rc : ReadCall)
    (chan : Channel) (signal : Bool) : (s.resume th thread rc chan signal).view = s.view := by
  have hback : ((s.setLock (some th)).updThread th fun thread =>
      { thread with looper := { thread.looper with waiting := false } }).view = s.view :=
    view_updThread_same (s.setLock (some th)) th fun _ => rfl
  refine resume_rule (P := fun s => s.view = _) fun rc' _ _ => ?_
  cases chan with
  | proc p =>
      exact (view_updProc_same _ p (f := fun proc =>
        { proc with readyThreads := proc.readyThreads - 1 }) fun _ => rfl).trans hback
  | thread th' => exact hback

theorem view_leaveRead (s : Driver) (th : ThreadId) (thread : Thread) :
    (s.leaveRead th thread).view = s.view := by
  unfold leaveRead
  simp only
  split <;> rfl

/-- A new arena has no buffer in use, and the one before it had none. -/
theorem arenaRegister_view (hs : Sound s) (env : Env) (p : ProcId) (addr size : Nat) :
    (s.arenaRegister env p addr size).1.view = s.view ∨
      (s.arenaRegister env p addr size).1.view = s.view.bump := by
  unfold arenaRegister
  split
  · exact .inl rfl
  rename_i hnone
  have hempty : (s.arenas p).buffers = [] :=
    (hs.arenas p).unregistered (Decidable.not_not.mp hnone)
  split
  · exact .inl rfl
  split
  · exact .inl rfl
  split
  · exact .inl rfl
  right
  unfold allocMem
  cases env.allocOk s.nextId with
  | false => rfl
  | true =>
      simp only [if_true]
      have hbuffers : ((s.bumpId.updArena p fun _ =>
          { addr := addr
            size := size
            freeAsyncSpace := size / asyncFraction
            buffers := [{ id := s.nextId, offset := 0, size := size }] }).view.buffers) =
          s.view.buffers := by
        funext p' b
        by_cases hp : p' = p
        · subst hp
          by_cases hb : s.nextId = b <;>
            simp [view, updArena, bumpId, Arena.used, hempty, hb, Option.filter]
        · simp [view, updArena, bumpId, hp]
      exact congrArg (fun buffers => { s.view.bump with buffers := buffers }) hbuffers

/-- **A command** is a step of the call machine. -/
theorem writeCommand_acts (hs : Sound s) (hb : Base s.view) (ha : Aimed s.view) (env : Env)
    {th : ThreadId} {thread : Thread} (hth : s.threads th = some thread)
    (halive : s.procAlive thread.proc = true) (c : Command) :
    Acts s (.command env th c) (s.writeCommand env thread.proc th c).1.view := by
  have hproc := view_procOf_some hth
  cases c with
  | reference strong increment desc =>
      exact .quiet _ (ObjectSteps.quiet hs (writeRefCmd_steps hs env _ th strong increment desc))
  | done strong ptr =>
      exact .quiet _ (ObjectSteps.quiet hs
        (writeDone_steps (O := fun _ => True) thread.proc strong ptr))
  | freeBuffer ptr =>
      have hp := procs_isSome_of_alive halive
      exact .free env th ptr _ hproc hp (writeFreeBuffer_refines hs hb hp ptr)
  | transaction reply isSg tr =>
      have hsome : (s.view.procOf th).isSome := by rw [hproc]; rfl
      exact .send env th thread.proc reply isSg tr hproc
        (transaction_refines hs hb ha env thread.proc hsome tr reply isSg).2
  | registerLooper => exact .same (view_registerLooper s _ th)
  | enterLooper => exact .same (view_enterLooper s th)
  | exitLooper => exact .same (view_exitLooper s th)
  | requestDeathNotification handle cookie =>
      exact .quiet _ (ObjectSteps.quiet hs
        (deathRequest_steps (O := fun _ => True) env thread.proc th handle cookie))
  | clearDeathNotification handle cookie =>
      exact .quiet _ (ObjectSteps.quiet hs
        (deathClear_steps (O := fun _ => True) thread.proc th handle cookie))
  | deadBinderDone cookie => exact .same rfl
  | refused => exact .same rfl

/-- **Refinement.**  Every action is a step of the call machine. -/
theorem act_refines (hs : Sound s) (hb : Base s.view) (ha : Aimed s.view) (a : Action) :
    Acts s a (s.act a).view := by
  have hperforms := s.act_performs a
  generalize s.act a = s' at hperforms ⊢
  cases hperforms with
  | devOpen env pid ctx =>
      refine procNew_rule (P := fun s' => Acts s _ s'.view) env pid ctx
        (.quiet _ QuietMove.bump.quiet) ?_
      have hview := view_insertProc s.bumpId s.nextId pid ctx
      exact hview ▸ .openProc env pid ctx
  | devClose p hopen =>
      have hp : (s.view.procs p).isSome := Option.isSome_map.trans hopen
      exact .close p hp (procRelease_refines hs hb hp)
  | enter env p tid halive =>
      refine threadGet_rule (P := fun s' => Acts s _ s'.view) env p tid (.same rfl)
        (.quiet _ QuietMove.bump.quiet) ?_
      have hview := view_insertThread s.bumpId s.nextId p tid
      exact hview ▸ .enter env p tid (procs_isSome_of_alive halive)
  | setArena env th thread addr size _ =>
      rcases arenaRegister_view hs env thread.proc addr size with hview | hview
      · exact .same hview
      · exact hview ▸ .quiet _ QuietMove.bump.quiet
  | setMaxThreads th thread max _ =>
      exact .same (view_updProc_same s thread.proc
        (f := fun proc => { proc with maxThreads := max }) fun _ => rfl)
  | setContextMgr env th thread ptr cookie flags _ =>
      exact .quiet _ (ObjectSteps.quiet hs
        (contextMgrSet_steps (O := fun _ => True) env thread.proc ptr cookie flags))
  | threadExit th thread hidle =>
      obtain ⟨hth, halive⟩ := idleThread_eq_some hidle
      have hproc := view_procOf_some hth
      exact .depart th _ hproc ((procAlive_iff s _).mp halive) (threadRelease_refines hs hb hproc).2
  | freeze th th' tid enable timeoutMs =>
      exact .same (view_updThread_same s th' (f := fun thread =>
        { thread with frozen := enable, freezeTimeoutMs := timeoutMs }) fun _ => rfl)
  | command env th thread c hidle =>
      obtain ⟨hth, halive⟩ := idleThread_eq_some hidle
      exact writeCommand_acts hs hb ha env hth halive c
  | readStart env th thread buffer size consumed _ =>
      exact .same (view_readStart env s th buffer size consumed)
  | readTurn env th thread rc hth hrc _ =>
      exact .read env th rc hrc (readTurn_refines hs hb env hth rc)
  | resume th thread rc chan woken signal _ _ _ _ =>
      exact .same (view_resume s th thread rc chan signal)
  | leave th thread rc error _ _ _ => exact .same (view_leaveRead s th thread)
  | _ => exact .same rfl

/-! ## Every state of every run -/

theorem Acts.keeps {a : Action} {v' : Calls} (hb : Base s.view)
    (ha : Aimed s.view) (h : Acts s a v') : Base v' ∧ Aimed v' := by
  cases h with
  | quiet a h => exact ⟨hb.quiet h, ha.shrink h.shrinks⟩
  | openProc env pid ctx =>
      exact ⟨hb.openProc, ha.shrink ((bump_shrinks _).trans (setProc_shrinks _ _ _))⟩
  | enter env p tid hp =>
      exact ⟨hb.enterThread hp, ha.shrink ((bump_shrinks _).trans (setThread_shrinks _ _ _))⟩
  | send env th p reply isSg tr hth h =>
      exact ⟨hb.send (Option.isSome_of_eq_some hth) h, ha.send hb h⟩
  | free env th ptr p hth hp h => exact ⟨hb.freeBuffer ha hp h, ha.shrink h.shrinks⟩
  | read env th rc hrc h => exact ⟨hb.read h, ha.shrink h.shrinks⟩
  | depart th p hth hp h => exact ⟨(hb.depart hth h).1, ha.shrink h.shrinks⟩
  | close p hp h => exact ⟨hb.close hp h, ha.shrink h.shrinks⟩

/-- What no client can break: the tables are sound, news and managers are
where they belong, and the driver's view keeps the invariants of the call
machine. -/
structure Steady (s : Driver) : Prop where
  sound : Sound s
  settled : Settled s
  base : Base s.view
  aimed : Aimed s.view

/-- The driver as it is loaded. -/
theorem Steady.init : Steady Driver.init where
  sound :=
    { graph :=
        { refs_lt := by simp [Driver.init]
          nodes_lt := by simp [Driver.init]
          procRefs := Indexes.empty
          nodeRefs := Indexes.empty
          procNodes := Indexes.empty
          ptr_inj := by simp [Driver.init] }
      queues :=
        { consistent := Queues.empty_consistent
          queued_lt := by simp [Driver.init, Queues.empty]
          behindNode := by simp [Driver.init, Queues.empty] }
      arenas := fun _ => ArenaOk.empty _
      threads := Indexes.empty
      tiled := fun _ => .empty }
  settled :=
    { procs_lt := by simp [Driver.init]
      threads_lt := by simp [Driver.init]
      owner_lt := by simp [Driver.init]
      news_lt := by simp [Driver.init, Queues.empty]
      news := by simp [Driver.init, Queues.empty]
      managed := by simp [Managed, Driver.init] }
  base := by constructor <;> simp [view, Driver.init, procOf, stackOf, Queues.empty, Arena.used]
  aimed := by
    rintro n p (⟨b, buf, hbuf, -⟩ | ⟨t, x, hloc, -⟩)
    · simp [view, Driver.init, Arena.used] at hbuf
    · cases hloc

theorem Steady.moves (h : Steady s) (a : Action) : Moves (s.Occurs a) s (s.act a) :=
  act_moves h.sound h.settled h.base a

theorem Steady.act (h : Steady s) (a : Action) : Steady (s.act a) := by
  have hmoves := h.moves a
  obtain ⟨hb, ha⟩ := (act_refines h.sound h.base h.aimed a).keeps h.base h.aimed
  exact ⟨hmoves.sound h.sound, hmoves.settled h.sound h.settled, hb, ha⟩

/-- **Every state of every run is steady.** -/
theorem Reachable.steady (h : Reachable s) : Steady s :=
  Reaches.invariant .init (fun _ a _ hs _ => hs.act a) h

/-- **Invariant rule for effects.**  What holds initially and is kept by every
effect of an allowed step holds in every state reached. -/
theorem Reaches.effects {ok : Driver → Action → Prop} {P : Driver → Prop}
    (hinit : P Driver.init)
    (hstep : ∀ s a, Reaches ok s → P s → ok s a → ∀ s₁ s₂, Sound s₁ → Settled s₁ →
      Move (s.Occurs a) s₁ s₂ → P s₁ → P s₂)
    (h : Reaches ok s) : P s := by
  refine Reaches.invariant hinit ?_ h
  intro s a hreach hP hok
  have hst := Reachable.steady hreach.reachable
  have hboth : Settled (s.act a) ∧ P (s.act a) := by
    refine (hst.moves a).invariant
      (P := fun s => Settled s ∧ P s) ?_ hst.sound ⟨hst.settled, hP⟩
    intro s₁ s₂ hs₁ hmove hboth
    exact ⟨hmove.effect.settled hs₁ hboth.1,
      hstep s a hreach hP hok s₁ s₂ hs₁ hboth.1 hmove hboth.2⟩
  exact hboth.2

end Driver

end Binder
