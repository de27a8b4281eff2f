import DevfsBinder.PoolFrame

/-!
# Reads in progress

A read that is not asleep holds the driver lock until it returns to its client,
and whoever holds the lock between two actions is such a read.  So at most one
read is awake at a time, and nobody else does anything while it is
(`Reachable.attended`, `Reachable.act_of_awake`).  The thread of every read is
known to the driver.
-/

namespace Binder

@[simp] theorem ReadCall.unwoken_asleep (rc : ReadCall) : rc.unwoken.asleep = rc.asleep := by
  unfold ReadCall.unwoken
  split
  · rename_i h
    simp [ReadCall.asleep, h]
  · rfl

/-- Only a sleeper can be woken. -/
theorem ReadCall.unwoken_eq_self {rc : ReadCall} (h : rc.asleep = false) : rc.unwoken = rc := by
  unfold ReadCall.unwoken
  split
  · rename_i hstatus
    simp [ReadCall.asleep, hstatus] at h
  · rfl

/-- The thread of a read is known, and the lock is with the read that is
awake. -/
structure Standing.Attended (x : Standing) : Prop where
  known : ∀ th rc, x.reads th = some rc → (x.home th).isSome
  locked : ∀ th rc, x.reads th = some rc → rc.asleep = false → x.lockedBy = some th
  awake : ∀ th, x.lockedBy = some th → ∃ rc, x.reads th = some rc ∧ rc.asleep = false

/-- The lock, the threads and the reads are as they were. -/
structure Standing.Unmoved (x x' : Standing) : Prop where
  lockedBy : x'.lockedBy = x.lockedBy
  home : x'.home = x.home
  reads : x'.reads = x.reads

namespace Standing

variable {x x' : Standing}

theorem Attended.of_eq (h : x.Attended) (hlock : x'.lockedBy = x.lockedBy)
    (hhome : x'.home = x.home) (hreads : x'.reads = x.reads) : x'.Attended := by
  obtain ⟨procs, lockedBy, home, reads⟩ := x'
  cases hlock
  cases hhome
  cases hreads
  exact ⟨h.known, h.locked, h.awake⟩

/-- A thread joins. -/
theorem Attended.join (h : x.Attended) (th : ThreadId) (p : ProcId)
    (hlock : x'.lockedBy = x.lockedBy) (hhome : x'.home = Function.update x.home th (some p))
    (hreads : x'.reads = x.reads) : x'.Attended where
  known th' rc hrc := by
    rw [hreads] at hrc
    rw [hhome]
    by_cases hth : th' = th
    · simp [hth]
    · rw [Function.update_of_ne hth]
      exact h.known th' rc hrc
  locked th' rc hrc ha := by
    rw [hreads] at hrc
    rw [hlock]
    exact h.locked th' rc hrc ha
  awake th' hth := by
    rw [hlock] at hth
    rw [hreads]
    exact h.awake th' hth

/-- A thread goes, and its read with it. -/
theorem Attended.gone (h : x.Attended) (th : ThreadId)
    (hlock : x'.lockedBy = if x.lockedBy = some th then none else x.lockedBy)
    (hhome : x'.home = Function.update x.home th none)
    (hreads : x'.reads = Function.update x.reads th none) : x'.Attended where
  known th' rc hrc := by
    rw [hreads] at hrc
    by_cases hth : th' = th
    · simp [hth] at hrc
    · rw [Function.update_of_ne hth] at hrc
      rw [hhome, Function.update_of_ne hth]
      exact h.known th' rc hrc
  locked th' rc hrc ha := by
    rw [hreads] at hrc
    by_cases hth : th' = th
    · simp [hth] at hrc
    · rw [Function.update_of_ne hth] at hrc
      have hlocked := h.locked th' rc hrc ha
      rw [hlock, hlocked, if_neg]
      exact fun heq => hth (Option.some.inj heq)
  awake th' hth' := by
    rw [hlock] at hth'
    split at hth'
    · cases hth'
    · rename_i hne
      obtain ⟨rc, hrc, ha⟩ := h.awake th' hth'
      have hth : th' ≠ th := fun heq => hne (heq ▸ hth')
      exact ⟨rc, by rw [hreads, Function.update_of_ne hth]; exact hrc, ha⟩

/-- The read of `th` is awake, and nobody else's was. -/
theorem Attended.wake (h : x.Attended) {th : ThreadId} (rc : ReadCall)
    (hfree : ∀ th', x.lockedBy = some th' → th' = th) (hknown : (x.home th).isSome)
    (ha : rc.asleep = false) (hlock : x'.lockedBy = some th) (hhome : x'.home = x.home)
    (hreads : x'.reads = Function.update x.reads th (some rc)) : x'.Attended where
  known th' rc' hrc' := by
    rw [hhome]
    by_cases hth : th' = th
    · rw [hth]
      exact hknown
    · rw [hreads, Function.update_of_ne hth] at hrc'
      exact h.known th' rc' hrc'
  locked th' rc' hrc' ha' := by
    by_cases hth : th' = th
    · rw [hth]
      exact hlock
    · rw [hreads, Function.update_of_ne hth] at hrc'
      exact absurd (hfree th' (h.locked th' rc' hrc' ha')) hth
  awake th' hth' := by
    cases hlock.symm.trans hth'
    exact ⟨rc, by rw [hreads, Function.update_self], ha⟩

/-- The read that was awake falls asleep or is over. -/
theorem Attended.rest (h : x.Attended) {th : ThreadId} (rc : Option ReadCall)
    (hth : x.lockedBy = some th) (ha : ∀ rc', rc = some rc' → rc'.asleep = true)
    (hlock : x'.lockedBy = none) (hhome : x'.home = x.home)
    (hreads : x'.reads = Function.update x.reads th rc) : x'.Attended where
  known th' rc' hrc' := by
    rw [hhome]
    by_cases hne : th' = th
    · obtain ⟨rc₀, hrc₀, -⟩ := h.awake th hth
      exact hne ▸ h.known th rc₀ hrc₀
    · rw [hreads, Function.update_of_ne hne] at hrc'
      exact h.known th' rc' hrc'
  locked th' rc' hrc' ha' := by
    by_cases hne : th' = th
    · rw [hreads, hne, Function.update_self] at hrc'
      rw [ha rc' hrc'] at ha'
      cases ha'
    · rw [hreads, Function.update_of_ne hne] at hrc'
      have hlocked := h.locked th' rc' hrc' ha'
      cases hth.symm.trans hlocked
      exact absurd rfl hne
  awake th' hth' := by
    rw [hlock] at hth'
    cases hth'

end Standing

namespace Driver

variable {s : Driver}

/-! ## Actions -/

theorem standing_setCall (s : Driver) (th : ThreadId) (rc : ReadCall) :
    (s.setCall th rc).standing.reads =
      Function.update s.standing.reads th (some rc.unwoken) := by
  funext th'
  by_cases h : th' = th
  · subst h
    simp [standing, setCall]
  · simp [standing, setCall, h]

theorem standing_clearCall (s : Driver) (th : ThreadId) :
    (s.clearCall th).standing.reads = Function.update s.standing.reads th none := by
  funext th'
  by_cases h : th' = th
  · subst h
    simp [standing, clearCall]
  · simp [standing, clearCall, h]

theorem Attended.forgetThread (h : s.standing.Attended) (p : ProcId) (th : ThreadId) :
    (s.forgetThread p th).standing.Attended := by
  refine h.gone th rfl ?_ ?_
  · funext th'
    by_cases hth : th' = th
    · subst hth
      simp [standing, Driver.forgetThread]
    · simp [standing, Driver.forgetThread, hth]
  · funext th'
    by_cases hth : th' = th
    · subst hth
      simp [standing, Driver.forgetThread]
    · simp [standing, Driver.forgetThread, hth]

theorem Attended.threadRelease (h : s.standing.Attended) (p : ProcId) (th : ThreadId) :
    (s.threadRelease p th).standing.Attended := by
  obtain ⟨s₁, hs₁, heq⟩ := s.threadRelease_standing p th
  rw [heq]
  exact Attended.forgetThread (hs₁ ▸ h) p th

/-- What an action that keeps the standing keeps. -/
theorem Attended.same {s' : Driver} (h : s.standing.Attended) (heq : s'.standing = s.standing) :
    s'.standing.Attended := heq ▸ h

theorem Attended.updProc (h : s.standing.Attended) (p : ProcId) (f : Proc → Proc) :
    (s.updProc p f).standing.Attended := h.of_eq rfl rfl rfl

theorem Attended.foldl {α : Type} {f : Driver → α → Driver}
    (hf : ∀ s a, s.standing.Attended → (f s a).standing.Attended) (l : List α)
    (h : s.standing.Attended) : (l.foldl f s).standing.Attended := by
  induction l generalizing s with
  | nil => exact h
  | cons a l ih => exact ih (hf s a h)

theorem releaseManager_standing (s : Driver) (p : ProcId) :
    (s.releaseManager p).standing = s.standing := by
  apply releaseManager_rule (P := fun s' => s'.standing = s.standing) p rfl
  intro proc m _ _ _
  simp

theorem releaseProcWork_standing (s : Driver) (p : ProcId) (w : Work) :
    (releaseProcWork p s w).standing = s.standing := by
  unfold releaseProcWork
  simp only
  split <;> simp

theorem releaseNode_standing (s : Driver) (p : ProcId) (n : NodeId) :
    (releaseNode p s n).standing = s.standing := by
  simp [releaseNode]

theorem Attended.procRelease (h : s.standing.Attended) (p : ProcId) :
    (s.procRelease p).standing.Attended := by
  have hthread (s : Driver) (th : ThreadId) (hs : s.standing.Attended) :
      ((s.wakeupThread th).threadRelease p th).standing.Attended :=
    Attended.threadRelease (Attended.same hs (wakeupThread_standing ..)) p th
  unfold Driver.procRelease
  refine Standing.Attended.of_eq (Attended.foldl hthread _ ?_) rfl rfl rfl
  refine Attended.same (Attended.updProc h p fun proc => { proc with isDead := true }) ?_
  rw [foldl_kept standing fun s w => releaseProcWork_standing s p w,
    foldl_kept standing refDelete_standing,
    foldl_kept standing fun s n => releaseNode_standing s p n,
    releaseManager_standing]

/-- A thread that may start an ioctl is in no read, and nobody holds the lock. -/
theorem idleThread_free {th : ThreadId} {thread : Thread} (h : s.idleThread th = some thread) :
    s.threads th = some thread ∧ s.lockedBy = none ∧ s.calls th = none := by
  unfold idleThread at h
  split at h
  · cases h
  split at h
  · rename_i hth hidle
    cases h
    exact ⟨hth, hidle.1, hidle.2.1⟩
  · cases h

theorem asleep_of_running {rc : ReadCall} (h : ReadStatus.running? rc.status = some ()) :
    rc.status = .running ∧ rc.asleep = false := by
  cases hstatus : rc.status with
  | running => exact ⟨rfl, by simp [ReadCall.asleep, hstatus]⟩
  | asleep chan woken => simp [hstatus, ReadStatus.running?] at h
  | returned error => simp [hstatus, ReadStatus.running?] at h

theorem asleep_of_returned {rc : ReadCall} {error : Option Errno}
    (h : ReadStatus.returned? rc.status = some error) : rc.asleep = false := by
  cases hstatus : rc.status with
  | running => simp [hstatus, ReadStatus.returned?] at h
  | asleep chan woken => simp [hstatus, ReadStatus.returned?] at h
  | returned error => simp [ReadCall.asleep, hstatus]

/-- The read of a thread that is awake, as the standing sees it. -/
theorem standing_reads_awake {th : ThreadId} {rc : ReadCall} (h : s.calls th = some rc)
    (ha : rc.asleep = false) : s.standing.reads th = some rc := by
  simp [standing, h, ReadCall.unwoken_eq_self ha]

/-- A read that holds the lock goes on awake. -/
theorem Attended.setCall {s₁ : Driver} (h : s.standing.Attended) {th : ThreadId} {rc : ReadCall}
    (hfree : ∀ th', s.lockedBy = some th' → th' = th) (hknown : (s.threads th).isSome)
    (ha : rc.asleep = false) (hlock : s₁.standing.lockedBy = some th)
    (hhome : s₁.standing.home = s.standing.home) (hreads : s₁.standing.reads = s.standing.reads) :
    (s₁.setCall th rc).standing.Attended := by
  refine h.wake rc hfree ?_ ha hlock hhome ?_
  · simpa [standing] using hknown
  · rw [standing_setCall, hreads, ReadCall.unwoken_eq_self ha]

theorem Attended.readStart (h : s.standing.Attended) (env : Env) {th : ThreadId}
    (hknown : (s.threads th).isSome) (hlock : s.lockedBy = none) (buffer size consumed : Nat) :
    (readStart env s th buffer size consumed).standing.Attended :=
  readStart_rule (P := fun s => s.standing.Attended) fun _ ha _ =>
    Attended.setCall h (by simp [hlock]) hknown ha rfl rfl rfl

/-! ## Turns -/

theorem putCmd_status (env : Env) (rc : ReadCall) (cmd : BR) :
    (putCmd env rc cmd).1.status = rc.status := by
  rcases putCmd_cases env rc cmd with heq | ⟨heq, -⟩ | heq
  · rw [heq]
  · rw [heq]
  · rw [heq]
    rfl

theorem putCmdData_status (env : Env) (rc : ReadCall) (cmd : BR) (data : LittleEndian.Bytes) :
    (putCmdData env rc cmd data).1.status = rc.status := by
  rcases putCmdData_cases env rc cmd data with heq | ⟨heq, -⟩ | ⟨heq, -⟩
  · rw [heq]
  · rw [heq]
  · rw [heq]
    rfl

theorem readNodeWork_status (env : Env) (s : Driver) (th : ThreadId) (n : NodeId)
    (rc : ReadCall) : (readNodeWork env s th n rc).rc.status = rc.status := by
  apply readNodeWork_rule (P := fun h => h.rc.status = rc.status) fun _ => rfl
  · intro h nd cmd rc' _ _ hrc' hstatus
    have hput := putCmdData_status env h.rc cmd (ptrCookie nd)
    rw [← hrc'] at hput
    exact hput.trans hstatus
  · exact fun _ _ hstatus => hstatus
  · exact fun _ hstatus => hstatus

theorem putSecctx_status (env : Env) (s k : Driver) (r : ReadCall × Option Errno) :
    (putSecctx env s k r).rc.status = r.1.status := by
  rcases r with ⟨rc, _ | error⟩
  · simp only [putSecctx]
    split
    · rfl
    split
    · rfl
    · rfl
  · rfl

theorem put_status (r : ReadCall × Option Errno) (s k : Driver) :
    (Handled.put r s k).rc.status = r.1.status := by
  rw [Handled.put_rc]

/-- The delivery with a security context, and without. -/
theorem putTransaction_cases (env : Env) (s : Driver) (th : ThreadId) (t : TxnId)
    (rc : ReadCall) (cmd : BR) (data : LittleEndian.Bytes) (wantSecctx : Bool) :
    ∃ payload, putTransaction env s th t rc cmd data wantSecctx =
        putSecctx env s (s.note (.emit th cmd (.transaction t))) (putCmdData env rc cmd payload) ∨
      putTransaction env s th t rc cmd data wantSecctx =
        .put (putCmdData env rc cmd payload) s (s.note (.emit th cmd (.transaction t))) := by
  unfold putTransaction
  cases wantSecctx with
  | true =>
      rw [if_pos rfl]
      exact ⟨_, .inl rfl⟩
  | false =>
      rw [if_neg Bool.false_ne_true]
      exact ⟨_, .inr rfl⟩

theorem putTransaction_status (env : Env) (s : Driver) (th : ThreadId) (t : TxnId)
    (rc : ReadCall) (cmd : BR) (data : LittleEndian.Bytes) (wantSecctx : Bool) :
    (putTransaction env s th t rc cmd data wantSecctx).rc.status = rc.status := by
  obtain ⟨payload, heq | heq⟩ := putTransaction_cases env s th t rc cmd data wantSecctx
  · rw [heq, putSecctx_status, putCmdData_status]
  · rw [heq, put_status, putCmdData_status]

/-- What a read hands out of a transaction is its description, or nothing. -/
theorem readTransaction_rc (env : Env) (s : Driver) (p : ProcId) (th : ThreadId) (t : TxnId)
    (rc : ReadCall) : (readTransaction env s p th t rc).rc = rc ∨
      ∃ x buf, s.txns t = some x ∧ (readTransaction env s p th t rc).rc =
        (putTransaction env s th t rc (s.deliveryCmd buf)
          (describe x buf (buf.targetNode.bind s.nodes) (s.bufferUaddr p buf))
          (s.wantsSecctx buf)).rc := by
  cases hx : s.txns t with
  | none =>
      left
      simp only [readTransaction, hx]
  | some x =>
      cases hbuf : x.buffer.bind (s.findBuffer p) with
      | none =>
          left
          simp only [readTransaction, hx, hbuf]
      | some buf =>
          rcases readTransaction_eq env th rc hx hbuf with ⟨-, -, -, heq⟩ | heq
          · left
            rw [heq]
          · right
            refine ⟨x, buf, rfl, ?_⟩
            rw [heq, goOn]
            split
            · rfl
            · rfl

theorem readTransaction_status (env : Env) (s : Driver) (p : ProcId) (th : ThreadId) (t : TxnId)
    (rc : ReadCall) : (readTransaction env s p th t rc).rc.status = rc.status := by
  rcases readTransaction_rc env s p th t rc with heq | ⟨x, buf, -, heq⟩
  · rw [heq]
  · rw [heq, putTransaction_status]

/-- Handling an item does not end the read. -/
theorem readWork_status (env : Env) (s : Driver) (p : ProcId) (th : ThreadId) (w : Work)
    (rc : ReadCall) : (readWork env s p th w rc).rc.status = rc.status := by
  cases w with
  | transaction t => exact readTransaction_status ..
  | complete c => rw [readWork, put_status, putCmd_status]
  | returnError e => rw [readWork, put_status, putCmd_status]
  | node n => exact readNodeWork_status ..
  | death d =>
      rw [readWork, readDeath]
      cases s.deaths d with
      | none => rfl
      | some death => rw [put_status, putCmdData_status]

theorem updProc_ready (s : Driver) (p : ProcId) {f : Proc → Proc}
    (hf : ∀ proc, (f proc).readyThreads = proc.readyThreads) (q : ProcId) (proc' : Proc)
    (hproc' : (s.updProc p f).procs q = some proc') :
    ∃ proc, s.procs q = some proc ∧ proc'.readyThreads = proc.readyThreads := by
  change Function.update s.procs p ((s.procs p).map f) q = some proc' at hproc'
  by_cases hq : q = p
  · subst hq
    rw [Function.update_self] at hproc'
    obtain ⟨proc, hproc, heq⟩ := Option.map_eq_some_iff.mp hproc'
    exact ⟨proc, hproc, heq ▸ hf proc⟩
  · rw [Function.update_of_ne hq] at hproc'
    exact ⟨proc', hproc', rfl⟩


/-- After an item the read goes on or ends, the lock stays with it, and no thread
has become ready. -/
theorem readNext_eq (env : Env) (h : Handled) (th : ThreadId) (p : ProcId) (w : Work)
    (fromProc : Bool) : ∃ (s₁ : Driver) (rc' : ReadCall),
      readNext env h th p w fromProc = s₁.setCall th rc' ∧ h.drv.standing.Unmoved s₁.standing ∧
      (rc'.status = h.rc.status ∨ ∃ error, rc'.status = .returned error) ∧
      ∀ q proc', s₁.procs q = some proc' → ∃ proc, h.drv.procs q = some proc ∧
        proc'.readyThreads = proc.readyThreads := by
  obtain ⟨s₁, rc', hnext, heq⟩ := readNext_follows env h th p w fromProc
  refine ⟨s₁, rc', heq, ?_⟩
  cases hnext with
  | full _ =>
      exact ⟨⟨rfl, rfl, rfl⟩, .inr ⟨_, rfl⟩, fun q proc' hproc' => ⟨proc', hproc', rfl⟩⟩
  | failed error _ _ =>
      exact ⟨⟨rfl, rfl, rfl⟩, .inr ⟨_, rfl⟩, fun q proc' hproc' => ⟨proc', hproc', rfl⟩⟩
  | handled status _ hstatus _ =>
      exact ⟨⟨rfl, rfl, rfl⟩, hstatus.imp id fun h => ⟨_, h⟩,
        fun q proc' hproc' => ⟨proc', hproc', rfl⟩⟩
  | spawned rc' status _ hput hstatus _ =>
      have hkept := putCmd_status env { h.rc with wroteSomething := true } .spawnLooper
      rw [hput] at hkept
      exact ⟨⟨rfl, rfl, rfl⟩, hstatus.imp (·.trans hkept) fun h => ⟨_, h⟩,
        updProc_ready _ p fun _ => rfl⟩

theorem asleep_of_status {rc : ReadCall}
    (h : rc.status = .running ∨ ∃ error, rc.status = .returned error) : rc.asleep = false := by
  rcases h with h | ⟨error, h⟩
  · simp [ReadCall.asleep, h]
  · simp [ReadCall.asleep, h]

/-- **A turn** keeps the lock, or lets go of it and sleeps. -/
theorem Attended.readTurn (h : s.standing.Attended) (env : Env) {th : ThreadId} {thread : Thread}
    {rc : ReadCall} (hth : s.threads th = some thread) (hrc : s.calls th = some rc)
    (hrun : rc.status = .running) : (readTurn env s th thread rc).standing.Attended := by
  have ha : rc.asleep = false := asleep_of_status (.inl hrun)
  have hlock : s.lockedBy = some th := h.locked th rc (standing_reads_awake hrc ha) ha
  have hfree : ∀ th', s.lockedBy = some th' → th' = th := by
    intro th' hth'
    cases hlock.symm.trans hth'
    rfl
  have hknown : (s.threads th).isSome := by simp [hth]
  unfold Driver.readTurn
  split
  · unfold readIdle
    split
    · exact Attended.setCall h hfree hknown rfl hlock rfl rfl
    · have hwait (s₁ : Driver) (chan : Channel) (hs₁ : s₁.standing.reads = s.standing.reads)
          (hhome : s₁.standing.home = s.standing.home) (hnone : s₁.lockedBy = none) :
          (s₁.setCall th { rc with status := .asleep chan false }).standing.Attended := by
        refine h.rest (some { rc with status := .asleep chan false }) hlock ?_
          hnone hhome ?_
        · rintro rc' ⟨⟩
          rfl
        · rw [standing_setCall, hs₁]
          rfl
      have hthread := s.updThread_standing th (f := fun thread =>
        { thread with looper := { thread.looper with waiting := true } }) fun _ => rfl
      have hreads := congrArg Standing.reads hthread
      have hhome := congrArg Standing.home hthread
      simp only
      split
      · exact hwait _ _ hreads hhome rfl
      · exact hwait _ _ hreads hhome rfl
  · rename_i w fromProc _
    have hdrv := (s.dequeueWork w).readWork_standing env thread.proc th w rc
    have hstatus := readWork_status env (s.dequeueWork w) thread.proc th w rc
    obtain ⟨s₁, rc', heq, hmoved, hrc', -⟩ := readNext_eq env
      (readWork env (s.dequeueWork w) thread.proc th w rc) th thread.proc w fromProc
    rw [hdrv] at hmoved
    rw [hstatus, hrun] at hrc'
    simp only
    rw [heq]
    exact Attended.setCall h hfree hknown (asleep_of_status hrc') (hmoved.lockedBy.trans hlock)
      hmoved.home hmoved.reads

theorem roused_standing (s : Driver) (th : ThreadId) (chan : Channel) :
    (s.roused th chan).standing.lockedBy = some th ∧
      (s.roused th chan).standing.home = s.standing.home ∧
      (s.roused th chan).standing.reads = s.standing.reads := by
  have hthread := (s.setLock (some th)).updThread_standing th (f := fun thread =>
    { thread with looper := { thread.looper with waiting := false } }) fun _ => rfl
  have hhome := congrArg Standing.home hthread
  have hreads := congrArg Standing.reads hthread
  cases chan with
  | proc p => exact ⟨rfl, hhome, hreads⟩
  | thread th' => exact ⟨rfl, hhome, hreads⟩

/-- A sleeper comes back with the lock. -/
theorem Attended.resume (h : s.standing.Attended) {th : ThreadId} {thread : Thread}
    (rc : ReadCall) (hth : s.threads th = some thread) (hlock : s.lockedBy = none)
    (chan : Channel) (signal : Bool) : (s.resume th thread rc chan signal).standing.Attended := by
  refine resume_rule (P := fun s => s.standing.Attended) fun rc' ha _ => ?_
  obtain ⟨hmine, hhome, hreads⟩ := s.roused_standing th chan
  exact Attended.setCall h (by simp [hlock]) (by simp [hth]) ha hmine hhome hreads

theorem standing_of_leaving {thread : Thread} {s₁ : Driver}
    (h : s₁ = s ∨ s₁ = s.wakeupProc thread.proc) : s₁.standing = s.standing := by
  rcases h with rfl | rfl
  · rfl
  · exact wakeupProc_standing ..

theorem Attended.leaveRead (h : s.standing.Attended) {th : ThreadId} (thread : Thread)
    (hlock : s.lockedBy = some th) : (s.leaveRead th thread).standing.Attended := by
  refine leaveRead_rule (P := fun s => s.standing.Attended) fun s₁ hs₁ => ?_
  have hsame := standing_of_leaving hs₁
  refine h.rest none hlock (fun _ hrc => by cases hrc) rfl ?_ ?_
  · have hhome := congrArg Standing.home hsame
    exact hhome
  · rw [← congrArg Standing.reads hsame]
    exact standing_clearCall s₁ th

/-! ## Runs -/

/-- **Step.**  After an action the lock and the reads in progress still agree. -/
theorem Attended.act (h : s.standing.Attended) (a : Action) : (s.act a).standing.Attended := by
  have hperforms := s.act_performs a
  generalize s.act a = s' at hperforms ⊢
  cases hperforms with
  | refused => exact h
  | devOpen env pid ctx =>
      exact procNew_rule (P := fun s => s.standing.Attended) env pid ctx h (h.of_eq rfl rfl rfl)
  | devClose p _ => exact Attended.procRelease h p
  | enter env p tid _ =>
      refine threadGet_rule (P := fun s => s.standing.Attended) env p tid h h ?_
      refine h.join s.nextId p rfl ?_ rfl
      funext th
      by_cases hth : th = s.nextId
      · subst hth
        simp [standing, insertThread, bumpId]
      · simp [standing, insertThread, bumpId, hth]
  | setArena env th thread addr size _ => exact Attended.same h (arenaRegister_standing ..)
  | setMaxThreads th thread max _ => exact Attended.updProc h _ _
  | setContextMgr env th thread ptr cookie flags _ =>
      exact Attended.same h (contextMgrSet_standing ..)
  | threadExit th thread _ => exact Attended.threadRelease h _ th
  | freeze th th' tid enable timeoutMs =>
      exact Attended.same h (updThread_standing _ _ fun _ => rfl)
  | select p => exact h.of_eq rfl rfl rfl
  | command env th thread c _ =>
      by_cases hc : c = .registerLooper
      · subst hc
        refine Attended.same (Attended.updProc h thread.proc fun proc =>
          if 0 < proc.requestedThreads then
            { proc with
              requestedThreads := proc.requestedThreads - 1
              requestedThreadsStarted := proc.requestedThreadsStarted + 1 }
          else proc) (updThread_standing _ th fun _ => rfl)
      · exact Attended.same h (writeCommand_standing _ _ _ _ hc)
  | readStart env th thread buffer size consumed hidle =>
      obtain ⟨hth, hlock, -⟩ := idleThread_free hidle
      exact Attended.readStart h env (by simp [hth]) hlock buffer size consumed
  | readTurn env th thread rc hth hrc hrunning => exact Attended.readTurn h env hth hrc hrunning
  | resume th thread rc chan woken signal hth _ _ hlock =>
      exact Attended.resume h rc hth hlock chan signal
  | leave th thread rc error _ hrc hreturned =>
      have ha : rc.asleep = false := by simp [ReadCall.asleep, hreturned]
      exact Attended.leaveRead h thread (h.locked th rc (standing_reads_awake hrc ha) ha)

/-- **The reads of a reachable state are attended to.** -/
theorem Reachable.attended (h : Reachable s) : s.standing.Attended := by
  refine Reaches.invariant (P := fun s => s.standing.Attended) ?_ ?_ h
  · exact ⟨fun _ _ h => (by cases h), fun _ _ h => (by cases h), fun _ h => (by cases h)⟩
  · exact fun s a _ hs _ => Attended.act hs a

theorem withIdle_locked {th th' : ThreadId} {f : Thread → Driver} (hlock : s.lockedBy = some th) :
    s.withIdle th' f = s :=
  withIdle_rule (P := fun s' => s' = s) rfl fun _ hidle => by
    cases hlock.symm.trans (idleThread_free hidle).2.1

/-- Nobody else does anything while a read is awake. -/
theorem Reachable.act_of_awake (h : Reachable s) {th : ThreadId} {rc : ReadCall} {a : Action}
    (hrc : s.calls th = some rc) (ha : rc.asleep = false) (hturn : ∀ env, a ≠ .readTurn env th)
    (hleave : a ≠ .leave th) : s.act a = s := by
  have hheld : ∀ th' rc', s.calls th' = some rc' → rc'.asleep = false →
      s.lockedBy = some th' := fun th' rc' hrc' ha' =>
    h.attended.locked th' rc' (standing_reads_awake hrc' ha') ha'
  have hlock := hheld th rc hrc ha
  have hbusy : s.lockedBy ≠ none := by simp [hlock]
  cases a with
  | devOpen env pid ctx => exact if_neg hbusy
  | devClose p => exact if_neg fun hfree => hbusy hfree.1
  | enter env p tid => exact if_neg fun hfree => hbusy hfree.1
  | setArena env th' addr size => exact withIdle_locked hlock
  | setMaxThreads th' max => exact withIdle_locked hlock
  | setContextMgr env th' ptr cookie flags => exact withIdle_locked hlock
  | threadExit th' => exact withIdle_locked hlock
  | freeze th' tid enable timeoutMs => exact withIdle_locked hlock
  | select p => exact if_neg fun hfree => hbusy hfree.1
  | command env th' c => exact withIdle_locked hlock
  | readStart env th' buffer size consumed => exact withIdle_locked hlock
  | readTurn env th' =>
      refine withCall_rule (P := fun s' => s' = s) rfl fun thread rc' u _ hrc' hrun => ?_
      cases hlock.symm.trans (hheld th' rc' hrc' (asleep_of_running hrun).2)
      exact absurd rfl (hturn env)
  | resume th' signal =>
      refine withCall_rule (P := fun s' => s' = s) rfl fun thread rc' sleep _ _ _ => ?_
      exact if_neg fun hfree => hbusy hfree.1
  | leave th' =>
      refine withCall_rule (P := fun s' => s' = s) rfl fun thread rc' error _ hrc' hback => ?_
      cases hlock.symm.trans (hheld th' rc' hrc' (asleep_of_returned hback))
      exact absurd rfl hleave

end Driver

end Binder
