import DevfsBinder.ReadsInProgress
import DevfsBinder.RunRefinement
import Mathlib.Data.List.Nodup

/-!
# The threads that are ready

`ready_threads` decides whether a read asks for another thread, so it has to be
right at every moment: a thread counts itself before it goes to sleep on the
queue of its process and takes itself off after it is back, with the driver lock
dropped in between.

The counter is the number of threads of the process that sleep on its queue,
woken or not, in every reachable state (`ready_threads_counted`).  Sleepers of a
process that is being closed are released one by one while its counter still
stands, so along a close the count is kept for the other processes only.
-/

namespace Binder

/-- The read sleeps on the queue of process `p`, woken or not. -/
def ReadCall.RestsOn (rc : ReadCall) (p : ProcId) : Prop :=
  ∃ woken, rc.status = .asleep (.proc p) woken

theorem ReadCall.unwoken_restsOn (rc : ReadCall) (p : ProcId) :
    rc.unwoken.RestsOn p ↔ rc.RestsOn p := by
  cases hstatus : rc.status with
  | asleep chan woken => simp [ReadCall.RestsOn, ReadCall.unwoken, hstatus]
  | running => simp [ReadCall.RestsOn, ReadCall.unwoken, hstatus]
  | returned error => simp [ReadCall.RestsOn, ReadCall.unwoken, hstatus]

theorem ReadCall.not_restsOn {rc : ReadCall} (ha : rc.asleep = false) (p : ProcId) :
    ¬ rc.RestsOn p := by
  intro ⟨woken, hstatus⟩
  simp [ReadCall.asleep, hstatus] at ha

namespace Standing

variable {x x' : Standing}

/-- Thread `th` sleeps on the queue of process `p`. -/
def SleepsOn (x : Standing) (p : ProcId) (th : ThreadId) : Prop :=
  ∃ rc, x.reads th = some rc ∧ rc.RestsOn p

/-- `l` lists the threads that sleep on the queue of `p`. -/
structure Lists (x : Standing) (p : ProcId) (l : List ThreadId) : Prop where
  nodup : l.Nodup
  mem : ∀ th, th ∈ l ↔ x.SleepsOn p th

/-- Threads sleep on the queue of their own process, and every process but
`skip` has counted its sleepers. -/
structure Rested (skip : Option ProcId) (x : Standing) : Prop where
  home : ∀ p th, x.SleepsOn p th → x.home th = some p
  counted : ∀ p proc, some p ≠ skip → x.procs p = some proc →
    ∃ l, x.Lists p l ∧ l.length = proc.readyThreads

theorem Lists.congr {p : ProcId} {l : List ThreadId} (h : x.Lists p l)
    (hsame : ∀ th, x'.SleepsOn p th ↔ x.SleepsOn p th) : x'.Lists p l := by
  constructor
  · exact h.nodup
  · intro th
    rw [hsame th]
    exact h.mem th

theorem Lists.cons {p : ProcId} {th : ThreadId} {l : List ThreadId} (h : x.Lists p l)
    (hnew : ¬ x.SleepsOn p th)
    (hsame : ∀ th', x'.SleepsOn p th' ↔ th' = th ∨ x.SleepsOn p th') :
    x'.Lists p (th :: l) := by
  constructor
  · apply List.nodup_cons.mpr
    exact ⟨fun hmem => hnew ((h.mem th).mp hmem), h.nodup⟩
  · intro th'
    rw [List.mem_cons, h.mem th', hsame th']

theorem Lists.erase {p : ProcId} {th : ThreadId} {l : List ThreadId} (h : x.Lists p l)
    (hsame : ∀ th', x'.SleepsOn p th' ↔ th' ≠ th ∧ x.SleepsOn p th') :
    x'.Lists p (l.erase th) := by
  constructor
  · exact h.nodup.erase th
  · intro th'
    rw [h.nodup.mem_erase_iff, h.mem th', hsame th']

/-- Who sleeps after the read of `th` is set. -/
theorem sleepsOn_update {th : ThreadId} {rc : Option ReadCall}
    (hreads : x'.reads = Function.update x.reads th rc) (p : ProcId) (th' : ThreadId) :
    x'.SleepsOn p th' ↔
      if th' = th then ∃ rc', rc = some rc' ∧ rc'.RestsOn p else x.SleepsOn p th' := by
  unfold SleepsOn
  rw [hreads]
  by_cases hth : th' = th
  · subst hth
    rw [Function.update_self, if_pos rfl]
  · rw [Function.update_of_ne hth, if_neg hth]

/-- The read of `th` goes from a state that is no such sleep to another. -/
theorem sleepsOn_other {th : ThreadId} {rc : Option ReadCall}
    (hreads : x'.reads = Function.update x.reads th rc)
    (hbefore : ∀ rc', x.reads th = some rc' → ∀ p, ¬ rc'.RestsOn p)
    (hafter : ∀ rc', rc = some rc' → ∀ p, ¬ rc'.RestsOn p) (p : ProcId) (th' : ThreadId) :
    x'.SleepsOn p th' ↔ x.SleepsOn p th' := by
  rw [sleepsOn_update hreads]
  split
  · rename_i hth
    subst hth
    constructor
    · intro ⟨rc', hrc', hrests⟩
      exact absurd hrests (hafter rc' hrc' p)
    · intro ⟨rc', hrc', hrests⟩
      exact absurd hrests (hbefore rc' hrc' p)
  · rfl

/-- Nobody falls asleep or wakes up, and the counters stay. -/
theorem Rested.same {skip : Option ProcId} (h : x.Rested skip)
    (hsleeps : ∀ p th, x'.SleepsOn p th ↔ x.SleepsOn p th)
    (hhome : ∀ p th, x.SleepsOn p th → x'.home th = x.home th)
    (hprocs : ∀ p proc', x'.procs p = some proc' → ∃ proc, x.procs p = some proc ∧
      proc'.readyThreads = proc.readyThreads) : x'.Rested skip := by
  constructor
  · intro p th hth
    have hth := (hsleeps p th).mp hth
    rw [hhome p th hth]
    exact h.home p th hth
  · intro p proc' hskip hproc'
    obtain ⟨proc, hproc, hready⟩ := hprocs p proc' hproc'
    obtain ⟨l, hl, hlength⟩ := h.counted p proc hskip hproc
    exact ⟨l, hl.congr (hsleeps p), by rw [hlength, hready]⟩

theorem Rested.weaken (h : x.Rested none) (p : ProcId) : x.Rested (some p) := by
  constructor
  · exact h.home
  · intro q proc _ hproc
    exact h.counted q proc (by simp) hproc

/-- A thread of the skipped process goes, asleep or not. -/
theorem Rested.gone {p : ProcId} {th : ThreadId} (h : x.Rested (some p))
    (hth : ∀ q, x.home th = some q → q = p) (hprocs : x'.procs = x.procs)
    (hhome : x'.home = Function.update x.home th none)
    (hreads : x'.reads = Function.update x.reads th none) : x'.Rested (some p) := by
  have hsleeps : ∀ q th', x'.SleepsOn q th' ↔ th' ≠ th ∧ x.SleepsOn q th' := by
    intro q th'
    rw [sleepsOn_update hreads]
    by_cases heq : th' = th
    · simp [heq]
    · simp [heq]
  constructor
  · intro q th' hsleep
    obtain ⟨hne, hsleep⟩ := (hsleeps q th').mp hsleep
    rw [hhome, Function.update_of_ne hne]
    exact h.home q th' hsleep
  · intro q proc hskip hproc
    rw [hprocs] at hproc
    obtain ⟨l, hl, hlength⟩ := h.counted q proc hskip hproc
    refine ⟨l, hl.congr fun th' => ?_, hlength⟩
    rw [hsleeps q th']
    constructor
    · exact fun hboth => hboth.2
    · intro hsleep
      refine ⟨fun heq => hskip ?_, hsleep⟩
      subst heq
      rw [hth q (h.home q th' hsleep)]

/-- Thread `th` goes to sleep on the queue of its process and is counted. -/
theorem Rested.sleep {p : ProcId} {th : ThreadId} (h : x.Rested none) (rc : ReadCall)
    (hawake : ∀ rc', x.reads th = some rc' → ∀ q, ¬ rc'.RestsOn q) (hth : x.home th = some p)
    (hrests : ∀ q, rc.RestsOn q ↔ q = p) (hhome : x'.home = x.home)
    (hreads : x'.reads = Function.update x.reads th (some rc))
    (hprocs : x'.procs = Function.update x.procs p ((x.procs p).map fun proc =>
      { proc with readyThreads := proc.readyThreads + 1 })) : x'.Rested none := by
  have hnew : ∀ q, ¬ x.SleepsOn q th := by
    intro q ⟨rc', hrc', hasleep⟩
    exact hawake rc' hrc' q hasleep
  have hsleeps : ∀ q th', x'.SleepsOn q th' ↔ th' = th ∧ q = p ∨ x.SleepsOn q th' := by
    intro q th'
    rw [sleepsOn_update hreads]
    by_cases heq : th' = th
    · subst heq
      simp [hnew q, hrests]
    · simp [heq]
  constructor
  · intro q th' hsleep
    rw [hhome]
    rcases (hsleeps q th').mp hsleep with ⟨rfl, rfl⟩ | hsleep
    · exact hth
    · exact h.home q th' hsleep
  · intro q proc' hskip hproc'
    rw [hprocs] at hproc'
    by_cases hq : q = p
    · subst hq
      rw [Function.update_self] at hproc'
      obtain ⟨proc, hproc, rfl⟩ := Option.map_eq_some_iff.mp hproc'
      obtain ⟨l, hl, hlength⟩ := h.counted q proc hskip hproc
      refine ⟨th :: l, hl.cons (hnew q) fun th' => ?_, by simp [hlength]⟩
      rw [hsleeps]
      simp
    · rw [Function.update_of_ne hq] at hproc'
      obtain ⟨l, hl, hlength⟩ := h.counted q proc' hskip hproc'
      refine ⟨l, hl.congr fun th' => ?_, hlength⟩
      rw [hsleeps]
      simp [hq]

/-- Thread `th` is back from a sleep on the queue of `p` and no longer counted. -/
theorem Rested.back {p : ProcId} {th : ThreadId} (h : x.Rested none) (rc : ReadCall)
    (hth : x.SleepsOn p th) (hawake : ∀ q, ¬ rc.RestsOn q) (hhome : x'.home = x.home)
    (hreads : x'.reads = Function.update x.reads th (some rc))
    (hprocs : x'.procs = Function.update x.procs p ((x.procs p).map fun proc =>
      { proc with readyThreads := proc.readyThreads - 1 })) : x'.Rested none := by
  have hsleeps : ∀ q th', x'.SleepsOn q th' ↔ th' ≠ th ∧ x.SleepsOn q th' := by
    intro q th'
    rw [sleepsOn_update hreads]
    by_cases heq : th' = th
    · subst heq
      simp [hawake q]
    · simp [heq]
  constructor
  · intro q th' hsleep
    rw [hhome]
    exact h.home q th' ((hsleeps q th').mp hsleep).2
  · intro q proc' hskip hproc'
    rw [hprocs] at hproc'
    by_cases hq : q = p
    · subst hq
      rw [Function.update_self] at hproc'
      obtain ⟨proc, hproc, rfl⟩ := Option.map_eq_some_iff.mp hproc'
      obtain ⟨l, hl, hlength⟩ := h.counted q proc hskip hproc
      refine ⟨l.erase th, hl.erase fun th' => hsleeps q th', ?_⟩
      rw [List.length_erase_of_mem ((hl.mem th).mpr hth), hlength]
    · rw [Function.update_of_ne hq] at hproc'
      obtain ⟨l, hl, hlength⟩ := h.counted q proc' hskip hproc'
      refine ⟨l, hl.congr fun th' => ?_, hlength⟩
      rw [hsleeps]
      constructor
      · exact fun hboth => hboth.2
      · intro hsleep
        refine ⟨fun heq => hq ?_, hsleep⟩
        subst heq
        exact Option.some.inj ((h.home q th' hsleep).symm.trans (h.home p th' hth))

end Standing

namespace Driver

open Standing

variable {s s' : Driver}

/-! ## Actions -/

theorem Rested.of_eq {skip : Option ProcId} (h : s.standing.Rested skip)
    (heq : s'.standing = s.standing) : s'.standing.Rested skip := by
  rw [heq]
  exact h

/-- A process changes, but not its counter of ready threads. -/
theorem Rested.updProc {skip : Option ProcId} (h : s.standing.Rested skip) (p : ProcId)
    {f : Proc → Proc} (hf : ∀ proc, (f proc).readyThreads = proc.readyThreads) :
    (s.updProc p f).standing.Rested skip := by
  apply h.same
  · intro q th
    rfl
  · intro q th _
    rfl
  · exact updProc_ready s p hf

/-- The read of a thread that does not sleep on a process's queue still does not. -/
theorem Rested.setCall {skip : Option ProcId} {s₁ : Driver} (h : s.standing.Rested skip)
    {th : ThreadId} {rc : ReadCall}
    (hbefore : ∀ rc', s.calls th = some rc' → ∀ p, ¬ rc'.RestsOn p)
    (hafter : ∀ p, ¬ rc.RestsOn p) (hhome : s₁.standing.home = s.standing.home)
    (hreads : s₁.standing.reads = s.standing.reads)
    (hprocs : ∀ p proc', s₁.procs p = some proc' → ∃ proc, s.procs p = some proc ∧
      proc'.readyThreads = proc.readyThreads) : (s₁.setCall th rc).standing.Rested skip := by
  have hupdate := standing_setCall s₁ th rc
  rw [hreads] at hupdate
  apply h.same
  · apply sleepsOn_other hupdate
    · intro rc' hrc' p
      obtain ⟨rc₀, hrc₀, heq⟩ := Option.map_eq_some_iff.mp hrc'
      rw [← heq, ReadCall.unwoken_restsOn]
      exact hbefore rc₀ hrc₀ p
    · intro rc' hrc' p
      rw [← Option.some.inj hrc', ReadCall.unwoken_restsOn]
      exact hafter p
  · intro q th' _
    exact congrFun hhome th'
  · exact hprocs

/-- A thread of the process that is being released leaves. -/
theorem Rested.forgetThread {p : ProcId} (h : s.standing.Rested (some p)) {th : ThreadId}
    (hth : ∀ q, s.standing.home th = some q → q = p) :
    (s.forgetThread p th).standing.Rested (some p) := by
  have hprocs : (s.forgetThread p th).standing.procs = s.standing.procs := rfl
  apply h.gone hth hprocs
  · funext th'
    by_cases heq : th' = th
    · subst heq
      simp [standing, Driver.forgetThread]
    · simp [standing, Driver.forgetThread, heq]
  · funext th'
    by_cases heq : th' = th
    · subst heq
      simp [standing, Driver.forgetThread]
    · simp [standing, Driver.forgetThread, heq]

/-- What becomes of the threads and of the processes when a thread goes. -/
theorem threadRelease_home (s : Driver) (p : ProcId) (th th' : ThreadId) :
    (s.threadRelease p th).standing.home th' =
      if th' = th then none else s.standing.home th' := by
  obtain ⟨s₁, hs₁, heq⟩ := s.threadRelease_standing p th
  rw [heq, ← hs₁]
  by_cases hth : th' = th
  · simp [standing, Driver.forgetThread, hth]
  · simp [standing, Driver.forgetThread, hth]

theorem threadRelease_procs (s : Driver) (p : ProcId) (th : ThreadId) :
    (s.threadRelease p th).procs = s.procs := by
  obtain ⟨s₁, hs₁, heq⟩ := s.threadRelease_standing p th
  rw [heq]
  exact congrArg Standing.procs hs₁

/-- The threads of a process that is closed go one by one. -/
theorem Rested.releaseThreads {p : ProcId} (l : List ThreadId) (h : s.standing.Rested (some p))
    (hl : ∀ th ∈ l, ∀ q, s.standing.home th = some q → q = p) :
    (l.foldl (fun s th => (s.wakeupThread th).threadRelease p th) s).standing.Rested (some p) := by
  induction l generalizing s with
  | nil => exact h
  | cons th l ih =>
      have hhome := (s.wakeupThread th).threadRelease_home p th
      obtain ⟨s₁, hs₁, heq⟩ := (s.wakeupThread th).threadRelease_standing p th
      rw [wakeupThread_standing] at hs₁ hhome
      rw [List.foldl_cons]
      apply ih
      · rw [heq]
        apply Rested.forgetThread (Rested.of_eq h hs₁)
        rw [hs₁]
        exact hl th List.mem_cons_self
      · intro th' hth' q hq
        rw [hhome] at hq
        split at hq
        · cases hq
        · exact hl th' (List.mem_cons_of_mem th hth') q hq

/-- A closing process whose nodes, references and queue are gone, and whose
threads are to go next. -/
def disowned (s : Driver) (p : ProcId) : Driver :=
  let s := s.updProc p fun proc => { proc with isDead := true }
  let s := s.releaseManager p
  let s := (s.procNodes p).foldl (releaseNode p) s
  let s := (s.procRefs p).foldl refDelete s
  (s.items (.proc p)).foldl (releaseProcWork p) s

theorem procRelease_eq (s : Driver) (p : ProcId) : s.procRelease p =
    ((((s.disowned p).procThreads p).foldl (fun s th => (s.wakeupThread th).threadRelease p th)
      (s.disowned p)).arenaTeardown p).forgetProc p := rfl

theorem disowned_sound (hs : Sound s) (p : ProcId) : Sound (s.disowned p) := by
  have hs₁ : Sound (s.updProc p fun proc => { proc with isDead := true }) := hs.same rfl
  have hs₂ := ObjectSteps.sound hs₁ (releaseManager_steps (O := fun _ => True) p)
  have hs₃ := ObjectSteps.sound hs₂ (releaseNodes_steps (O := fun _ => True) hs₂ _
    (fun _ hn => hn) (hs₂.graph.procNodes.nodup p))
  have hs₄ := fun l => ObjectSteps.sound hs₃ (foldl_steps (O := fun _ => True) (f := refDelete)
    (fun s r hs => refDelete_steps hs r fun _ _ => trivial) hs₃ l)
  exact (queueLoop_each (f := releaseProcWork p)
    (fun s w hs _ => releaseProcWork_turn hs p w) (hs₄ _) _ fun t ht =>
      (hs₄ _).queues.queued_lt t _ (((hs₄ _).queues.consistent.mem_iff _ _).mp ht)).1

/-- The threads, the reads and the counters of the pools are as before. -/
theorem disowned_standing (s : Driver) (p : ProcId) : (s.disowned p).standing =
    (s.updProc p fun proc => { proc with isDead := true }).standing := by
  unfold disowned
  simp only
  rw [foldl_kept standing fun s w => releaseProcWork_standing s p w,
    foldl_kept standing refDelete_standing,
    foldl_kept standing fun s n => releaseNode_standing s p n,
    releaseManager_standing]

/-- The threads a closing process lists are its own. -/
theorem disowned_threads (hs : Sound s) {p : ProcId} {th : ThreadId}
    (hth : th ∈ (s.disowned p).procThreads p) : (s.disowned p).standing.home th = some p := by
  obtain ⟨thread, hthread, hproc⟩ := ((disowned_sound hs p).threads.mem_iff p th).mp hth
  simp only [standing, hthread, Option.map_some]
  exact hproc

/-- **A process is closed.**  Its sleepers go with it. -/
theorem Rested.procRelease (hs : Sound s) (h : s.standing.Rested none) (p : ProcId) :
    (s.procRelease p).standing.Rested none := by
  have hbegin : (s.disowned p).standing.Rested (some p) := by
    rw [disowned_standing]
    exact Rested.updProc (h.weaken p) p fun _ => rfl
  have hthreads := Rested.releaseThreads ((s.disowned p).procThreads p) hbegin (by
    intro th hth q hq
    exact Option.some.inj (hq.symm.trans (disowned_threads hs hth)))
  rw [procRelease_eq]
  generalize ((s.disowned p).procThreads p).foldl
    (fun s th => (s.wakeupThread th).threadRelease p th) (s.disowned p) = s₂ at hthreads
  constructor
  · exact hthreads.home
  · intro q proc _ hproc
    change Function.update s₂.procs p none q = some proc at hproc
    by_cases hq : q = p
    · rw [hq, Function.update_self] at hproc
      cases hproc
    · rw [Function.update_of_ne hq] at hproc
      obtain ⟨l, hl, hlength⟩ :=
        hthreads.counted q proc (fun heq => hq (Option.some.inj heq)) hproc
      exact ⟨l, hl.congr fun _ => Iff.rfl, hlength⟩

/-- A new process has no thread asleep. -/
theorem Rested.devOpen (hreach : Reachable s) (h : s.standing.Rested none) (env : Env)
    (pid ctx : Nat) : (procNew env s pid ctx).2.standing.Rested none := by
  have hfresh : ∀ th, ¬ s.standing.SleepsOn s.nextId th := by
    intro th hth
    have hproc := hreach.steady.base.threadProc th s.nextId (by
      rw [view_procOf]
      exact h.home s.nextId th hth)
    obtain ⟨dead, hdead⟩ := Option.isSome_iff_exists.mp hproc
    exact Nat.lt_irrefl _ (hreach.steady.base.procs_lt s.nextId dead hdead)
  refine procNew_rule (P := fun s => s.standing.Rested none) env pid ctx h ⟨h.home, ?_⟩
  intro q proc hskip hproc
  change Function.update s.procs s.nextId (some { pid := pid, context := ctx }) q = some proc
    at hproc
  by_cases hq : q = s.nextId
  · subst hq
    rw [Function.update_self] at hproc
    cases hproc
    refine ⟨[], ⟨List.nodup_nil, fun th => ?_⟩, rfl⟩
    simp only [List.not_mem_nil, false_iff]
    exact hfresh th
  · rw [Function.update_of_ne hq] at hproc
    obtain ⟨l, hl, hlength⟩ := h.counted q proc hskip hproc
    exact ⟨l, hl.congr fun _ => Iff.rfl, hlength⟩

/-- A new thread is awake. -/
theorem Rested.enter (hatt : s.standing.Attended) (hreach : Reachable s)
    (h : s.standing.Rested none) (env : Env) (p : ProcId) (tid : Nat) :
    (threadGet env s p tid).2.standing.Rested none := by
  unfold threadGet
  split
  · exact h
  unfold allocMem
  cases env.allocOk s.nextId with
  | false => exact h
  | true =>
      apply h.same
      · intro q th
        rfl
      · intro q th hth
        have hne : th ≠ s.nextId := by
          intro heq
          subst heq
          have hproc : (s.view.procOf s.nextId).isSome := by
            rw [view_procOf]
            obtain ⟨rc, hrc, -⟩ := hth
            exact hatt.known s.nextId rc hrc
          exact Nat.lt_irrefl _ (hreach.steady.base.thread_lt hproc)
        simp [standing, insertThread, bumpId, hne]
      · intro q proc' hproc'
        exact ⟨proc', hproc', rfl⟩

/-- **A turn** counts its thread as ready exactly when it goes to sleep on the pool. -/
theorem Rested.readTurn (h : s.standing.Rested none) (env : Env) {th : ThreadId}
    {thread : Thread} {rc : ReadCall} (hth : s.threads th = some thread)
    (hrc : s.calls th = some rc) (hrun : rc.status = .running) :
    (readTurn env s th thread rc).standing.Rested none := by
  have hbefore : ∀ rc', s.calls th = some rc' → ∀ p, ¬ rc'.RestsOn p := by
    intro rc' hrc'
    cases hrc.symm.trans hrc'
    exact ReadCall.not_restsOn (asleep_of_status (.inl hrun))
  have hsame : ∀ q proc', s.procs q = some proc' → ∃ proc, s.procs q = some proc ∧
      proc'.readyThreads = proc.readyThreads := fun q proc' hproc' => ⟨proc', hproc', rfl⟩
  unfold Driver.readTurn
  split
  · have hwait := s.updThread_standing th (f := fun thread =>
      { thread with looper := { thread.looper with waiting := true } }) fun _ => rfl
    have hreads := congrArg Standing.reads hwait
    have hhome := congrArg Standing.home hwait
    unfold readIdle
    split
    · exact Rested.setCall h hbefore (ReadCall.not_restsOn rfl) rfl rfl hsame
    simp only
    split
    · -- on the queue of the process
      have hawake : ∀ rc', s.standing.reads th = some rc' → ∀ q, ¬ rc'.RestsOn q := by
        intro rc' hrc' q
        obtain ⟨rc₀, hrc₀, heq⟩ := Option.map_eq_some_iff.mp hrc'
        rw [← heq, ReadCall.unwoken_restsOn]
        exact hbefore rc₀ hrc₀ q
      have hplace : s.standing.home th = some thread.proc := by simp [standing, hth]
      apply h.sleep { rc with status := .asleep (.proc thread.proc) false } hawake hplace
      · intro q
        simp [ReadCall.RestsOn, eq_comm]
      · exact hhome
      · rw [standing_setCall]
        exact congrArg (fun reads => Function.update reads th _) hreads
      · rfl
    · -- or on the thread itself
      refine Rested.setCall h hbefore ?_ hhome hreads hsame
      intro q hrests
      obtain ⟨woken, hstatus⟩ := hrests
      cases hstatus
  · rename_i w fromProc _
    have hdrv := (s.dequeueWork w).readWork_standing env thread.proc th w rc
    have hstatus := readWork_status env (s.dequeueWork w) thread.proc th w rc
    obtain ⟨s₁, rc', heq, hmoved, hrc', hready⟩ := readNext_eq env
      (readWork env (s.dequeueWork w) thread.proc th w rc) th thread.proc w fromProc
    rw [hstatus, hrun] at hrc'
    have hprocs := congrArg Standing.procs hdrv
    rw [hdrv] at hmoved
    simp only
    rw [heq]
    refine Rested.setCall h hbefore (ReadCall.not_restsOn (asleep_of_status hrc')) hmoved.home
      hmoved.reads ?_
    intro q proc' hproc'
    obtain ⟨proc, hproc, heq⟩ := hready q proc' hproc'
    refine ⟨proc, ?_, heq⟩
    rw [← hproc]
    exact (congrFun hprocs q).symm

/-- A thread that is back is no longer counted. -/
theorem Rested.resume (h : s.standing.Rested none) {th : ThreadId} {thread : Thread}
    {rc : ReadCall} {chan : Channel} {woken : Bool} (hrc : s.calls th = some rc)
    (hstatus : rc.status = .asleep chan woken) (signal : Bool) :
    (s.resume th thread rc chan signal).standing.Rested none := by
  have hback := (s.setLock (some th)).updThread_standing th (f := fun thread =>
    { thread with looper := { thread.looper with waiting := false } }) fun _ => rfl
  have hreads := congrArg Standing.reads hback
  have hhome := congrArg Standing.home hback
  refine resume_rule (P := fun s => s.standing.Rested none) fun rc' ha _ => ?_
  cases chan with
  | proc p =>
      have hsleeps : s.standing.SleepsOn p th := by
        refine ⟨rc.unwoken, by simp [standing, hrc], ?_⟩
        rw [ReadCall.unwoken_restsOn]
        exact ⟨woken, hstatus⟩
      apply h.back rc' hsleeps (ReadCall.not_restsOn ha)
      · exact hhome
      · rw [standing_setCall, ReadCall.unwoken_eq_self ha]
        exact congrArg (fun reads => Function.update reads th _) hreads
      · rfl
  | thread th' =>
      have hbefore : ∀ rc', s.calls th = some rc' → ∀ p, ¬ rc'.RestsOn p := by
        intro rc' hrc' p hrests
        obtain ⟨woken', hstatus'⟩ := hrests
        cases hrc.symm.trans hrc'
        cases hstatus.symm.trans hstatus'
      exact Rested.setCall h hbefore (ReadCall.not_restsOn ha) hhome hreads
        fun q proc' hproc' => ⟨proc', hproc', rfl⟩

theorem not_rests_of_idle {th : ThreadId} (hidle : s.calls th = none) :
    ∀ rc, s.calls th = some rc → ∀ p, ¬ rc.RestsOn p := by
  intro rc hrc
  cases hidle.symm.trans hrc

theorem Rested.readStart (h : s.standing.Rested none) (env : Env) {th : ThreadId}
    (hidle : s.calls th = none) (buffer size consumed : Nat) :
    (readStart env s th buffer size consumed).standing.Rested none :=
  readStart_rule (P := fun s => s.standing.Rested none) fun _ ha _ =>
    Rested.setCall h (not_rests_of_idle hidle) (ReadCall.not_restsOn ha) rfl rfl
      fun _ proc' hproc' => ⟨proc', hproc', rfl⟩

/-- A thread that is in no read goes. -/
theorem Rested.threadExit (h : s.standing.Rested none) (p : ProcId) {th : ThreadId}
    (hidle : s.calls th = none) : (s.threadRelease p th).standing.Rested none := by
  obtain ⟨s₁, hs₁, heq⟩ := s.threadRelease_standing p th
  have hcalls : s.standing.reads th = none := by simp [standing, hidle]
  have hreads : (s₁.forgetThread p th).standing.reads =
      Function.update s₁.standing.reads th none := by
    funext th'
    by_cases hth : th' = th
    · subst hth
      simp [standing, Driver.forgetThread]
    · simp [standing, Driver.forgetThread, hth]
  have hsleeps : ∀ q th', (s₁.forgetThread p th).standing.SleepsOn q th' ↔
      s₁.standing.SleepsOn q th' := by
    apply sleepsOn_other hreads
    · intro rc hrc
      rw [hs₁, hcalls] at hrc
      cases hrc
    · intro rc hrc
      cases hrc
  rw [heq]
  apply (Rested.of_eq h hs₁).same hsleeps
  · intro q th' hth'
    have hne : th' ≠ th := by
      intro hth
      obtain ⟨rc, hrc, -⟩ := hth'
      rw [hs₁, hth, hcalls] at hrc
      cases hrc
    simp [standing, Driver.forgetThread, hne]
  · intro q proc' hproc'
    exact ⟨proc', hproc', rfl⟩

/-- A thread that leaves was awake. -/
theorem Rested.leaveRead (h : s.standing.Rested none) {th : ThreadId} (thread : Thread)
    (hbefore : ∀ rc, s.calls th = some rc → ∀ p, ¬ rc.RestsOn p) :
    (s.leaveRead th thread).standing.Rested none := by
  refine leaveRead_rule (P := fun s => s.standing.Rested none) fun s₁ hs₁ => ?_
  have hsame := standing_of_leaving hs₁
  apply (Rested.of_eq h hsame).same
  · apply sleepsOn_other (standing_clearCall s₁ th)
    · rw [hsame]
      intro rc hrc p
      obtain ⟨rc₀, hrc₀, heq⟩ := Option.map_eq_some_iff.mp hrc
      rw [← heq, ReadCall.unwoken_restsOn]
      exact hbefore rc₀ hrc₀ p
    · intro rc hrc
      cases hrc
  · intro q th' _
    rfl
  · intro q proc' hproc'
    exact ⟨proc', hproc', rfl⟩

/-! ## Runs -/

/-- **Step.**  No action leaves `ready_threads` off the number of the sleepers. -/
theorem Rested.act (hreach : Reachable s) (h : s.standing.Rested none) (a : Action) :
    (s.act a).standing.Rested none := by
  have hperforms := s.act_performs a
  generalize s.act a = s' at hperforms ⊢
  cases hperforms with
  | devOpen env pid ctx => exact Rested.devOpen hreach h env pid ctx
  | devClose p _ => exact Rested.procRelease hreach.steady.sound h p
  | enter env p tid _ => exact Rested.enter hreach.attended hreach h env p tid
  | setArena env th thread addr size _ => exact Rested.of_eq h (arenaRegister_standing ..)
  | setMaxThreads th thread max _ => exact Rested.updProc h _ fun _ => rfl
  | setContextMgr env th thread ptr cookie flags _ =>
      exact Rested.of_eq h (contextMgrSet_standing ..)
  | threadExit th thread hidle => exact Rested.threadExit h _ (idleThread_free hidle).2.2
  | freeze th th' tid enable timeoutMs =>
      exact Rested.of_eq h (updThread_standing _ _ fun _ => rfl)
  | command env th thread c _ =>
      by_cases hc : c = .registerLooper
      · -- the registration moves the other two counters of the pool
        subst hc
        have hcounters := Rested.updProc h thread.proc (f := fun proc =>
          if 0 < proc.requestedThreads then
            { proc with
              requestedThreads := proc.requestedThreads - 1
              requestedThreadsStarted := proc.requestedThreadsStarted + 1 }
          else proc) (by
            intro proc
            split
            · rfl
            · rfl)
        exact Rested.of_eq hcounters (updThread_standing _ th fun _ => rfl)
      · exact Rested.of_eq h (writeCommand_standing _ _ _ _ hc)
  | readStart env th thread buffer size consumed hidle =>
      exact Rested.readStart h env (idleThread_free hidle).2.2 buffer size consumed
  | readTurn env th thread rc hth hrc hrunning => exact Rested.readTurn h env hth hrc hrunning
  | resume th thread rc chan woken signal _ hrc hasleep _ =>
      exact Rested.resume h hrc hasleep signal
  | leave th thread rc error _ hrc hreturned =>
      apply Rested.leaveRead h thread
      intro rc' hrc'
      cases hrc.symm.trans hrc'
      exact ReadCall.not_restsOn (by simp [ReadCall.asleep, hreturned])
  | _ => exact h

theorem Reachable.rested (h : Reachable s) : s.standing.Rested none := by
  refine Reaches.invariant (P := fun s => s.standing.Rested none) ?_ ?_ h
  · constructor
    · intro p th ⟨rc, hrc, _⟩
      cases hrc
    · intro p proc _ hproc
      cases hproc
  · intro s a hs hrested _
    exact Rested.act hs hrested a

/-- **`ready_threads` counts the sleepers.**  In every reachable state the
counter of a process is the number of its threads that are in a read and sleep
on the queue of the process. -/
theorem ready_threads_counted (h : Reachable s) {p : ProcId} {proc : Proc}
    (hproc : s.procs p = some proc) :
    ∃ sleepers : List ThreadId, sleepers.Nodup ∧ sleepers.length = proc.readyThreads ∧
      ∀ th, th ∈ sleepers ↔ ∃ thread rc, s.threads th = some thread ∧ thread.proc = p ∧
        s.calls th = some rc ∧ rc.RestsOn p := by
  obtain ⟨sleepers, hl, hlength⟩ := h.rested.counted p proc (by simp) hproc
  refine ⟨sleepers, hl.nodup, hlength, fun th => ?_⟩
  rw [hl.mem th]
  constructor
  · intro hsleeps
    obtain ⟨thread, hth, heq⟩ := Option.map_eq_some_iff.mp (h.rested.home p th hsleeps)
    obtain ⟨rc', hrc', hrests⟩ := hsleeps
    obtain ⟨rc, hrc, hunwoken⟩ := Option.map_eq_some_iff.mp hrc'
    refine ⟨thread, rc, hth, heq, hrc, ?_⟩
    rw [← ReadCall.unwoken_restsOn, hunwoken]
    exact hrests
  · intro ⟨thread, rc, hth, _, hrc, hrests⟩
    refine ⟨rc.unwoken, by simp [standing, hrc], ?_⟩
    rw [ReadCall.unwoken_restsOn]
    exact hrests

/-- Thread 6 of process 5 waits in the pool. -/
def restingState : Driver :=
  run {} (twoProcesses ++
    [.command {} 6 .enterLooper, .readStart {} 6 0x9000 256 0, .readTurn {} 6])

theorem ready_threads_counted_one : ∃ sleepers : List ThreadId, sleepers.Nodup ∧
    sleepers.length = 1 ∧ ∀ th, th ∈ sleepers ↔ ∃ thread rc,
      restingState.threads th = some thread ∧ thread.proc = 5 ∧
        restingState.calls th = some rc ∧ rc.RestsOn 5 := by
  have hready : (restingState.procs 5).map (·.readyThreads) = some 1 := by decide +kernel
  obtain ⟨proc, hproc, hone⟩ := Option.map_eq_some_iff.mp hready
  rw [← hone]
  exact ready_threads_counted (Reachable.run .init _) hproc

end Driver

end Binder
