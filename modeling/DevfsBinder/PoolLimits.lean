import DevfsBinder.PoolSleepers

/-!
# How many threads the driver asks for

A process has a pool: the limit its client set, the threads the driver has asked
for and not yet seen (`requested_threads`), and those that came
(`requested_threads_started`).  Every action moves a pool in one of four ways
(`PoolMove`), so the driver has at most one request open, and over the whole life
of a process it asks for no more threads than the largest limit the client set,
however threads come and go meanwhile (`pool_bounded`).
-/

namespace Binder

/-- What decides whether another thread is asked for. -/
structure PoolView where
  max : Nat
  requested : Nat
  started : Nat
  deriving DecidableEq

def Proc.pool (proc : Proc) : PoolView :=
  ⟨proc.maxThreads, proc.requestedThreads, proc.requestedThreadsStarted⟩

/-- What can happen to a pool: `limits` are the limits the client may be setting. -/
inductive PoolMove (limits : Nat → Prop) (x : PoolView) : PoolView → Prop
  | same : PoolMove limits x x
  | limit (max : Nat) (h : limits max) : PoolMove limits x { x with max := max }
  | register (h : 0 < x.requested) :
      PoolMove limits x { x with requested := x.requested - 1, started := x.started + 1 }
  | ask (hnone : x.requested = 0) (hroom : x.started < x.max) :
      PoolMove limits x { x with requested := x.requested + 1 }

/-- Every process there is has just opened, or its pool has moved. -/
def PoolMoves (limits : ProcId → Nat → Prop) (T T' : Table Proc) : Prop :=
  ∀ p proc', T' p = some proc' →
    (proc'.pool = ⟨15, 0, 0⟩ ∨ ∃ proc, T p = some proc ∧ PoolMove (limits p) proc.pool proc'.pool)

namespace PoolMoves

variable {limits : ProcId → Nat → Prop} {T T' : Table Proc}

theorem of_eq (h : T' = T) : PoolMoves limits T T' := by
  intro p proc' hproc'
  rw [h] at hproc'
  exact .inr ⟨proc', hproc', .same⟩

/-- One process moves. -/
theorem update {p : ProcId} {f : Proc → Proc}
    (hf : ∀ proc, T p = some proc → PoolMove (limits p) proc.pool (f proc).pool) :
    PoolMoves limits T (Function.update T p ((T p).map f)) := by
  intro q proc' hproc'
  by_cases hq : q = p
  · subst hq
    rw [Function.update_self] at hproc'
    obtain ⟨proc, hproc, rfl⟩ := Option.map_eq_some_iff.mp hproc'
    exact .inr ⟨proc, hproc, hf proc hproc⟩
  · rw [Function.update_of_ne hq] at hproc'
    exact .inr ⟨proc', hproc', .same⟩

theorem forget (p : ProcId) : PoolMoves limits T (Function.update T p none) := by
  intro q proc' hproc'
  by_cases hq : q = p
  · simp [hq] at hproc'
  · rw [Function.update_of_ne hq] at hproc'
    exact .inr ⟨proc', hproc', .same⟩

end PoolMoves

namespace Driver

variable {s : Driver} {limits : ProcId → Nat → Prop}

theorem updProc_pool {s₁ : Driver} (hprocs : s₁.procs = s.procs) {p : ProcId} {f : Proc → Proc}
    (hf : ∀ proc, s.procs p = some proc → PoolMove (limits p) proc.pool (f proc).pool) :
    PoolMoves limits s.procs (s₁.updProc p f).procs := by
  have hmoves := PoolMoves.update hf
  rw [← hprocs] at hmoves ⊢
  exact hmoves

theorem releaseThreads_procs (l : List ThreadId) (s : Driver) (p : ProcId) :
    (l.foldl (fun s th => (s.wakeupThread th).threadRelease p th) s).procs = s.procs := by
  refine foldl_kept Driver.procs (fun s th => ?_) l s
  rw [threadRelease_procs]
  exact congrArg Standing.procs (wakeupThread_standing ..)

/-- A close forgets one process. -/
theorem procRelease_table (s : Driver) (p : ProcId) :
    (s.procRelease p).procs = Function.update s.procs p none := by
  have hdisowned : (s.disowned p).procs = _ := congrArg Standing.procs (disowned_standing s p)
  rw [procRelease_eq]
  change Function.update (Driver.procs (List.foldl _ _ _)) p none = _
  rw [releaseThreads_procs, hdisowned]
  exact Function.update_idem ..

/-- A thread is asked for when none is on its way and the limit is not reached. -/
theorem readNext_pool (env : Env) (h : Handled) (th : ThreadId) (p : ProcId) (w : Work)
    (fromProc : Bool) : ∃ (s₁ : Driver) (rc' : ReadCall),
      readNext env h th p w fromProc = s₁.setCall th rc' ∧
      PoolMoves limits h.drv.procs s₁.procs := by
  obtain ⟨s₁, rc', hnext, heq⟩ := readNext_follows env h th p w fromProc
  refine ⟨s₁, rc', heq, ?_⟩
  cases hnext with
  | spawned _ _ _ _ _ hdue =>
      obtain ⟨-, proc, -, hproc, -, hnone, -, hroom, -⟩ := hdue
      apply updProc_pool rfl
      intro proc' hproc'
      cases hproc.symm.trans hproc'
      exact .ask hnone hroom
  | _ => exact .of_eq rfl

/-- A turn asks for one thread at most. -/
theorem readTurn_pool (env : Env) (s : Driver) (th : ThreadId) (thread : Thread)
    (rc : ReadCall) : PoolMoves limits s.procs (readTurn env s th thread rc).procs := by
  unfold readTurn
  split
  · unfold readIdle
    split
    · exact .of_eq rfl
    simp only
    split
    · apply updProc_pool rfl
      intro proc _
      exact .same
    · exact .of_eq rfl
  · rename_i w fromProc _
    have hdrv := congrArg Standing.procs
      ((s.dequeueWork w).readWork_standing env thread.proc th w rc)
    have hprocs : (readWork env (s.dequeueWork w) thread.proc th w rc).drv.procs = s.procs := hdrv
    obtain ⟨s₁, rc', heq, hmoves⟩ : ∃ (s₁ : Driver) (rc' : ReadCall),
        readNext env (readWork env (s.dequeueWork w) thread.proc th w rc) th thread.proc w fromProc
          = s₁.setCall th rc' ∧ PoolMoves limits _ s₁.procs := readNext_pool ..
    rw [hprocs] at hmoves
    simp only
    rw [heq]
    exact hmoves

theorem resume_pool (s : Driver) (th : ThreadId) (thread : Thread) (rc : ReadCall)
    (chan : Channel) (signal : Bool) :
    PoolMoves limits s.procs (s.resume th thread rc chan signal).procs := by
  refine resume_rule (P := fun s' => PoolMoves limits s.procs s'.procs) fun rc' _ _ => ?_
  cases chan with
  | proc p =>
      apply updProc_pool (s := (s.setLock (some th)).updThread th _) rfl
      intro proc _
      exact .same
  | thread th' => exact .of_eq rfl

theorem readStart_procs (env : Env) (s : Driver) (th : ThreadId) (buffer size consumed : Nat) :
    (readStart env s th buffer size consumed).procs = s.procs :=
  readStart_rule (P := fun s => s.procs = _) fun _ _ _ => rfl

/-- The limits that action `a` may set for process `p`. -/
def SetsLimit (s : Driver) (a : Action) (p : ProcId) (max : Nat) : Prop :=
  ∃ th, a = .setMaxThreads th max ∧ (s.threads th).map (·.proc) = some p

/-- A new process has an empty pool. -/
theorem insertProc_pool (s : Driver) (pid ctx : Nat) {limits : ProcId → Nat → Prop} :
    PoolMoves limits s.procs (s.bumpId.insertProc s.nextId pid ctx).procs := by
  intro p proc' hproc'
  by_cases hp : p = s.nextId
  · subst hp
    have hnew : proc' = { pid := pid, context := ctx } := by
      simpa [insertProc] using hproc'.symm
    rw [hnew]
    exact .inl rfl
  · have hold : s.procs p = some proc' := by
      simpa [insertProc, bumpId, hp] using hproc'
    exact .inr ⟨proc', hold, .same⟩

/-- **Step.**  What an action does to the pools: only `BINDER_SET_MAX_THREADS` sets a
limit, only a turn of a read asks for a thread and only `BC_REGISTER_LOOPER` answers. -/
theorem act_pool (s : Driver) (a : Action) : PoolMoves (s.SetsLimit a) s.procs (s.act a).procs := by
  have hsame : ∀ {s' : Driver}, s'.standing = s.standing →
      PoolMoves (s.SetsLimit a) s.procs s'.procs :=
    fun heq => .of_eq (congrArg Standing.procs heq)
  have hperforms := s.act_performs a
  generalize s.act a = s' at hperforms ⊢
  cases hperforms with
  | devOpen env pid ctx =>
      exact procNew_rule (P := fun s' => PoolMoves _ s.procs s'.procs) env pid ctx (.of_eq rfl)
        (insertProc_pool s pid ctx)
  | devClose p _ =>
      rw [procRelease_table]
      exact .forget p
  | enter env p tid _ =>
      exact threadGet_rule (P := fun s' => PoolMoves _ s.procs s'.procs) env p tid (.of_eq rfl)
        (.of_eq rfl) (.of_eq rfl)
  | setArena env th thread addr size _ => exact hsame (arenaRegister_standing ..)
  | setMaxThreads th thread max hidle =>
      apply updProc_pool rfl
      intro proc _
      apply PoolMove.limit
      exact ⟨th, rfl, by rw [(idleThread_free hidle).1]; rfl⟩
  | setContextMgr env th thread ptr cookie flags _ => exact hsame (contextMgrSet_standing ..)
  | threadExit th thread _ => exact .of_eq (threadRelease_procs s thread.proc th)
  | command env th thread c _ =>
      by_cases hc : c = .registerLooper
      · subst hc
        apply updProc_pool rfl
        intro proc _
        split
        · rename_i hrequested
          exact .register hrequested
        · exact .same
      · exact hsame (writeCommand_standing _ _ _ _ hc)
  | readStart env th thread buffer size consumed _ =>
      exact .of_eq (readStart_procs env s th buffer size consumed)
  | readTurn env th thread rc _ _ _ => exact readTurn_pool env s th thread rc
  | resume th thread rc chan woken signal _ _ _ _ => exact resume_pool s th thread rc chan signal
  | leave th thread rc error _ _ _ =>
      unfold leaveRead
      simp only
      split
      · exact .of_eq rfl
      · exact .of_eq rfl
  | _ => exact .of_eq rfl

/-! ## Whole runs -/

/-- The pool keeps to the limit `m`. -/
structure PoolWithin (m : Nat) (x : PoolView) : Prop where
  max : x.max ≤ m
  requested : x.requested ≤ 1
  asked : x.started + x.requested ≤ m

theorem PoolWithin.move {m : Nat} {limits : Nat → Prop} {x x' : PoolView} (h : PoolWithin m x)
    (hlimits : ∀ max, limits max → max ≤ m) (hmove : PoolMove limits x x') : PoolWithin m x' := by
  obtain ⟨hmax, hrequested, hasked⟩ := h
  cases hmove with
  | same => exact ⟨hmax, hrequested, hasked⟩
  | limit max hl => exact ⟨hlimits max hl, hrequested, hasked⟩
  | register hpos => exact ⟨hmax, by simp only; omega, by simp only; omega⟩
  | ask hnone hroom => exact ⟨hmax, by simp only; omega, by simp only; omega⟩

/-- **The pool is bounded.**  In every run in which a process never sets a limit
above `m`, it has at most one thread on its way, and the driver has asked it for at
most `m` threads since it opened. -/
theorem pool_bounded {p : ProcId} {m : Nat} (hm : 15 ≤ m)
    (h : Reaches (fun s a => ∀ max, s.SetsLimit a p max → max ≤ m) s) {proc : Proc}
    (hproc : s.procs p = some proc) :
    proc.requestedThreads ≤ 1 ∧ proc.requestedThreadsStarted + proc.requestedThreads ≤ m := by
  have hall : ∀ proc, s.procs p = some proc → PoolWithin m proc.pool := by
    refine Reaches.invariant (P := fun s => ∀ proc, s.procs p = some proc → PoolWithin m proc.pool)
      ?_ ?_ h
    · intro proc hproc
      cases hproc
    · intro s a _ hs hlimits proc' hproc'
      rcases act_pool s a p proc' hproc' with hnew | ⟨proc, hproc, hmove⟩
      · rw [hnew]
        exact ⟨hm, Nat.zero_le 1, Nat.zero_le m⟩
      · exact (hs proc hproc).move hlimits hmove
  obtain ⟨-, hrequested, hasked⟩ := hall proc hproc
  exact ⟨hrequested, hasked⟩

/-- No limit above `m` is set. -/
def modest (m : Nat) (_ : Driver) : Action → Bool
  | .setMaxThreads _ max => max ≤ m
  | _ => true

theorem modest_limits {m : Nat} {a : Action} (h : modest m s a = true) {p : ProcId} (max : Nat)
    (hmax : s.SetsLimit a p max) : max ≤ m := by
  obtain ⟨th, rfl, -⟩ := hmax
  exact of_decide_eq_true h

/-- Process 5 allows itself 20 threads, and its thread 6 is given work by the driver,
with which it is asked for another thread. -/
def askedForThread : List Action := twoProcesses ++ .setMaxThreads 6 20 :: tellAndDeliver

theorem pool_bounded_asked : ∃ proc, (Driver.init.run askedForThread).procs 5 = some proc ∧
    proc.maxThreads = 20 ∧ proc.requestedThreads = 1 ∧
      proc.requestedThreadsStarted + proc.requestedThreads ≤ 20 := by
  have hpool : ((Driver.init.run askedForThread).procs 5).map
      (fun proc => (proc.maxThreads, proc.requestedThreads)) = some (20, 1) := by
    decide +kernel
  obtain ⟨proc, hproc, hasked⟩ := Option.map_eq_some_iff.mp hpool
  obtain ⟨hlimit, hone⟩ := Prod.mk.inj hasked
  have hreach : Reaches (fun s a => ∀ max, s.SetsLimit a 5 max → max ≤ 20)
      (Driver.init.run askedForThread) :=
    Reaches.run (fun _ _ _ hcheck max => modest_limits hcheck max) .init askedForThread
      (by decide +kernel)
  exact ⟨proc, hproc, hlimit, hone, (pool_bounded (by omega) hreach hproc).2⟩

end Driver

end Binder
