import DevfsBinder.TransactionLabels

/-!
# Where deliveries come from

A read shows its thread the labels of transactions that wait for its own process
and no others.  Labels are written by sends only, so every `BR_TRANSACTION`,
`BR_TRANSACTION_SEC_CTX` and `BR_REPLY` in a read buffer shows what one thread
really sent to this process earlier in the run, under the pid and the uid it sent
it with (`deliveries_were_sent`).  The address of a released record is never handed out
again, so nothing is said about what a stale pointer would find in reused memory.
-/

namespace Binder

open LittleEndian

/-- The commands that bring a transaction or a reply. -/
def BR.Delivers (cmd : BR) : Prop :=
  cmd = .transaction ∨ cmd = .transactionSecCtx ∨ cmd = .reply

instance (cmd : BR) : Decidable cmd.Delivers := by
  unfold BR.Delivers
  infer_instance

/-- The payload of a delivery shows the label: its fields `code`, `flags`,
`sender_pid` and `sender_euid`. -/
structure Label.Shown (l : Label) (data : Bytes) : Prop where
  code : field data 16 4 = l.code % 2 ^ 32
  flags : field data 20 4 = l.flags % 2 ^ 32
  senderPid : field data 24 4 = l.senderPid % 2 ^ 32
  senderEuid : field data 28 4 = l.senderEuid % 2 ^ 32

theorem field_past (k v off n : Nat) (bs : Bytes) :
    field (leBytes k v ++ bs) (k + off) n = field bs off n := by
  have hskip := field_skip (leBytes k v) bs off n
  rw [leBytes_length] at hskip
  exact hskip

/-- If it is a delivery, a command shows a label of `P` for process `p`. -/
def VouchedFor (P : Label → Prop) (p : ProcId) (e : BR × Bytes) : Prop :=
  e.1.Delivers → ∃ l, P l ∧ l.toProc = p ∧ l.Shown e.2

/-- Every delivery in the read buffer shows a label of `P` for process `p`. -/
def ReadCall.Vouched (P : Label → Prop) (p : ProcId) (rc : ReadCall) : Prop :=
  ∀ e ∈ rc.cmds, VouchedFor P p e

theorem ReadCall.unwoken_cmds (rc : ReadCall) : rc.unwoken.cmds = rc.cmds := by
  unfold ReadCall.unwoken
  split
  · rfl
  · rfl

theorem ReadCall.Vouched.same {P : Label → Prop} {p : ProcId} {rc rc' : ReadCall}
    (h : rc.Vouched P p) (hcmds : rc'.cmds = rc.cmds) : rc'.Vouched P p := by
  intro e he
  rw [hcmds] at he
  exact h e he

theorem ReadCall.Vouched.of_silent {P : Label → Prop} {p : ProcId} {rc : ReadCall}
    (h : ∀ e ∈ rc.cmds, ¬ e.1.Delivers) : rc.Vouched P p :=
  fun e he hcmd => absurd hcmd (h e he)

/-- All reads are vouched for, each for the process of its thread. -/
def Standing.Vouched (P : Label → Prop) (x : Standing) : Prop :=
  ∀ th p rc, x.home th = some p → x.reads th = some rc → rc.Vouched P p

theorem Standing.Vouched.mono {P P' : Label → Prop} {x : Standing} (h : x.Vouched P)
    (himp : ∀ l, P l → P' l) : x.Vouched P' := by
  intro th p rc hp hrc e he hcmd
  obtain ⟨l, hl, hshown⟩ := h th p rc hp hrc e he hcmd
  exact ⟨l, himp l hl, hshown⟩

theorem Standing.Vouched.fewer {P : Label → Prop} {x x' : Standing} (h : x.Vouched P)
    (hhome : ∀ th p, x'.home th = some p → x.home th = some p)
    (hreads : ∀ th rc, x'.reads th = some rc → x.reads th = some rc) : x'.Vouched P :=
  fun th p rc hp hrc => h th p rc (hhome th p hp) (hreads th rc hrc)

theorem Standing.Vouched.of_eq {P : Label → Prop} {x x' : Standing} (h : x.Vouched P)
    (hhome : x'.home = x.home) (hreads : x'.reads = x.reads) : x'.Vouched P := by
  apply h.fewer
  · intro th p hp
    rw [← hhome]
    exact hp
  · intro th rc hrc
    rw [← hreads]
    exact hrc

namespace Driver

open Calls

variable {s s' : Driver}

/-- What a reader gets shows the label of the record. -/
theorem describe_shows (x : Txn) (buf : Buffer) (target : Option Node) (uaddr : Nat)
    (rest : Bytes) : x.label.Shown (describe x buf target uaddr ++ rest) := by
  unfold describe
  simp only [List.append_assoc]
  -- the target and the cookie, eight bytes each, are in front
  constructor
  · exact (field_past 8 _ 8 4 _).trans ((field_past 8 _ 0 4 _).trans (field_leBytes 4 x.code _))
  · refine (field_past 8 _ 12 4 _).trans ((field_past 8 _ 4 4 _).trans ?_)
    exact (field_past 4 _ 0 4 _).trans (field_leBytes 4 x.flags _)
  · refine (field_past 8 _ 16 4 _).trans ((field_past 8 _ 8 4 _).trans ?_)
    refine (field_past 4 _ 4 4 _).trans ((field_past 4 _ 0 4 _).trans ?_)
    exact field_leBytes 4 x.senderPid _
  · refine (field_past 8 _ 20 4 _).trans ((field_past 8 _ 12 4 _).trans ?_)
    refine (field_past 4 _ 8 4 _).trans ((field_past 4 _ 4 4 _).trans ?_)
    exact (field_past 4 _ 0 4 _).trans (field_leBytes 4 x.senderEuid _)

/-! ## What a turn adds -/

/-- The read has gone on from `rc` to `rc'` and written only what is `ok`. -/
def AddsOnly (ok : BR × Bytes → Prop) (rc rc' : ReadCall) : Prop :=
  ∃ said, rc'.cmds = rc.cmds ++ said ∧ ∀ e ∈ said, ok e

section AddsOnly

variable {ok ok' : BR × Bytes → Prop} {rc rc' rc'' : ReadCall}

theorem AddsOnly.nothing (h : rc'.cmds = rc.cmds) : AddsOnly ok rc rc' :=
  ⟨[], by rw [h, List.append_nil], by simp⟩

theorem AddsOnly.trans (h : AddsOnly ok rc rc') (h' : AddsOnly ok rc' rc'') :
    AddsOnly ok rc rc'' := by
  obtain ⟨said, heq, hok⟩ := h
  obtain ⟨said', heq', hok'⟩ := h'
  refine ⟨said ++ said', by rw [heq', heq, List.append_assoc], ?_⟩
  intro e he
  rcases List.mem_append.mp he with he | he
  · exact hok e he
  · exact hok' e he

theorem Vouched.adds {P : Label → Prop} {p : ProcId} (h : rc.Vouched P p)
    (hadds : AddsOnly (VouchedFor P p) rc rc') : rc'.Vouched P p := by
  obtain ⟨said, heq, hok⟩ := hadds
  intro e he
  rw [heq] at he
  rcases List.mem_append.mp he with he | he
  · exact h e he
  · exact hok e he

theorem putCmdData_adds (env : Env) (rc : ReadCall) {cmd : BR} {data : Bytes}
    (h : ok (cmd, data)) : AddsOnly ok rc (putCmdData env rc cmd data).1 := by
  rcases putCmdData_cases env rc cmd data with heq | ⟨heq, -⟩ | ⟨heq, -⟩
  · rw [heq]
    exact .nothing rfl
  · rw [heq]
    exact .nothing rfl
  · rw [heq]
    exact ⟨[(cmd, data)], rfl, by simpa using h⟩

theorem putCmd_adds (env : Env) (rc : ReadCall) {cmd : BR} (h : ok (cmd, [])) :
    AddsOnly ok rc (putCmd env rc cmd).1 := by
  rcases putCmd_cases env rc cmd with heq | ⟨heq, -⟩ | heq
  · rw [heq]
    exact .nothing rfl
  · rw [heq]
    exact .nothing rfl
  · rw [heq]
    exact ⟨[(cmd, [])], rfl, by simpa using h⟩

/-- News about objects deliver nothing. -/
theorem readNodeWork_adds (env : Env) (s : Driver) (th : ThreadId) (n : NodeId) (rc : ReadCall)
    (hok : ∀ cmd data, ¬ cmd.Delivers → ok (cmd, data)) :
    AddsOnly ok rc (readNodeWork env s th n rc).rc := by
  have hsilent : ∀ cmd ∈ newsCmds, ¬ cmd.Delivers := by decide
  apply readNodeWork_rule (P := fun h => AddsOnly ok rc h.rc) fun _ => .nothing rfl
  · intro h nd cmd rc' _ hcmd hrc' hadds
    have hput := putCmdData_adds env h.rc (hok cmd (ptrCookie nd) (hsilent cmd hcmd))
    rw [← hrc'] at hput
    exact hadds.trans hput
  · exact fun _ _ hadds => hadds
  · exact fun _ hadds => hadds

theorem putSecctx_adds (env : Env) (s k : Driver) {r : ReadCall × Option Errno}
    (h : AddsOnly ok rc r.1) : AddsOnly ok rc (putSecctx env s k r).rc := by
  rcases r with ⟨rc₁, _ | error⟩
  · simp only [putSecctx]
    split
    · exact h
    split
    · exact h
    · exact h.trans (.nothing rfl)
  · exact h

theorem put_adds (s k : Driver) {r : ReadCall × Option Errno} (h : AddsOnly ok rc r.1) :
    AddsOnly ok rc (Handled.put r s k).rc := by
  rw [Handled.put_rc]
  exact h

theorem putTransaction_adds (env : Env) (s : Driver) (th : ThreadId) (t : TxnId)
    (rc : ReadCall) (cmd : BR) {data : Bytes} (wantSecctx : Bool)
    (h : ∀ rest, ok (cmd, data ++ rest)) :
    AddsOnly ok rc (putTransaction env s th t rc cmd data wantSecctx).rc := by
  unfold putTransaction
  simp only
  split
  · exact putSecctx_adds env s _ (putCmdData_adds env rc (h _))
  · have hplain := h []
    rw [List.append_nil] at hplain
    exact put_adds s _ (putCmdData_adds env rc hplain)

/-- A delivery shows the label of the transaction. -/
theorem readTransaction_adds (env : Env) (s : Driver) (p : ProcId) (th : ThreadId) (t : TxnId)
    (rc : ReadCall) (hok : ∀ x cmd data, s.txns t = some x → x.label.Shown data → ok (cmd, data)) :
    AddsOnly ok rc (readTransaction env s p th t rc).rc := by
  rcases readTransaction_rc env s p th t rc with heq | ⟨x, buf, hx, heq⟩
  · rw [heq]
    exact .nothing rfl
  · rw [heq]
    exact putTransaction_adds env s th t rc (s.deliveryCmd buf) (s.wantsSecctx buf) fun rest =>
      hok x (s.deliveryCmd buf) _ hx (describe_shows x buf (buf.targetNode.bind s.nodes)
        (s.bufferUaddr p buf) rest)

/-- **A turn delivers only the transaction it has taken.** -/
theorem readWork_adds (env : Env) (s : Driver) (p : ProcId) (th : ThreadId) (w : Work)
    (rc : ReadCall) (hcodes : ∀ e thread, s.threads e = some thread → ErrorCode thread.returnError)
    (hother : ∀ cmd data, ¬ cmd.Delivers → ok (cmd, data))
    (hok : ∀ t x cmd data, w = .transaction t → s.txns t = some x → x.label.Shown data →
      ok (cmd, data)) : AddsOnly ok rc (readWork env s p th w rc).rc := by
  cases w with
  | transaction t =>
      exact readTransaction_adds env s p th t rc fun x cmd data => hok t x cmd data rfl
  | complete c => exact put_adds s _ (putCmd_adds env rc (hother _ _ (by decide)))
  | returnError e =>
      have hcode : ErrorCode (((s.threads e).map (·.returnError)).getD .ok) := by
        cases he : s.threads e with
        | none => exact .inl rfl
        | some thread => exact hcodes e thread he
      refine put_adds s _ (putCmd_adds env rc (hother _ _ ?_))
      rcases hcode with hcode | hcode | hcode
      · rw [hcode]
        decide
      · rw [hcode]
        decide
      · rw [hcode]
        decide
  | node n => exact readNodeWork_adds env s th n rc hother
  | death d =>
      rw [readWork, readDeath]
      cases s.deaths d with
      | none => exact .nothing rfl
      | some death =>
          refine put_adds s _ (putCmdData_adds env rc (hother _ _ ?_))
          cases death.type with
          | deadBinder => decide
          | deadBinderAndClear => decide
          | clearDeathNotification => decide

/-- What follows a handled item says at most that a thread is wanted. -/
theorem readNext_adds (env : Env) (h : Handled) (th : ThreadId) (p : ProcId) (w : Work)
    (fromProc : Bool) (hother : ∀ cmd data, ¬ cmd.Delivers → ok (cmd, data)) :
    ∃ (s₁ : Driver) (rc' : ReadCall), readNext env h th p w fromProc = s₁.setCall th rc' ∧
      h.drv.standing.Unmoved s₁.standing ∧ AddsOnly ok h.rc rc' := by
  obtain ⟨s₁, rc', hnext, heq⟩ := readNext_follows env h th p w fromProc
  refine ⟨s₁, rc', heq, ?_⟩
  cases hnext with
  | spawned rc' status _ hput _ _ =>
      have hadds := putCmd_adds env { h.rc with wroteSomething := true }
        (hother .spawnLooper [] (by decide))
      rw [hput] at hadds
      exact ⟨⟨rfl, rfl, rfl⟩, hadds⟩
  | _ => exact ⟨⟨rfl, rfl, rfl⟩, .nothing rfl⟩

end AddsOnly

/-! ## One action -/

variable {P : Label → Prop}

theorem Vouched.forgetThread (h : s.standing.Vouched P) (p : ProcId) (th : ThreadId) :
    (s.forgetThread p th).standing.Vouched P := by
  apply h.fewer
  · intro th' q hq
    by_cases hth : th' = th
    · simp [standing, Driver.forgetThread, hth] at hq
    · simpa [standing, Driver.forgetThread, hth] using hq
  · intro th' rc hrc
    by_cases hth : th' = th
    · simp [standing, Driver.forgetThread, hth] at hrc
    · simpa [standing, Driver.forgetThread, hth] using hrc

theorem Vouched.threadRelease (h : s.standing.Vouched P) (p : ProcId) (th : ThreadId) :
    (s.threadRelease p th).standing.Vouched P := by
  obtain ⟨s₁, hs₁, heq⟩ := s.threadRelease_standing p th
  rw [heq]
  exact Vouched.forgetThread (hs₁ ▸ h) p th

theorem Vouched.releaseThreads (l : List ThreadId) (h : s.standing.Vouched P) (p : ProcId) :
    (l.foldl (fun s th => (s.wakeupThread th).threadRelease p th) s).standing.Vouched P := by
  induction l generalizing s with
  | nil => exact h
  | cons th l ih =>
      apply ih
      apply Vouched.threadRelease
      rw [wakeupThread_standing]
      exact h

theorem Vouched.procRelease (h : s.standing.Vouched P) (p : ProcId) :
    (s.procRelease p).standing.Vouched P := by
  have hbegin : (s.disowned p).standing.Vouched P := by
    rw [disowned_standing]
    exact h.of_eq rfl rfl
  rw [procRelease_eq]
  exact (Vouched.releaseThreads _ hbegin p).of_eq rfl rfl

/-- A thread that enters is in no read. -/
theorem Vouched.insertThread (h : s.standing.Vouched P) {th : ThreadId}
    (hfree : s.standing.reads th = none) (p : ProcId) (tid : Nat) :
    (s.insertThread th p tid).standing.Vouched P := by
  intro th' q rc hq hrc
  by_cases hth : th' = th
  · subst hth
    cases hfree.symm.trans hrc
  · apply h th' q rc
    · simpa [standing, Driver.insertThread, hth] using hq
    · exact hrc

/-- The read of `th` goes on as `rc`. -/
theorem Vouched.setCall {s₁ : Driver} {th : ThreadId} {rc : ReadCall}
    (h : s.standing.Vouched P) (hhome : s₁.standing.home = s.standing.home)
    (hreads : s₁.standing.reads = s.standing.reads)
    (hrc : ∀ p, s.standing.home th = some p → rc.Vouched P p) :
    (s₁.setCall th rc).standing.Vouched P := by
  intro th' p rc' hp hrc'
  rw [standing_setCall, hreads] at hrc'
  have hp' : s.standing.home th' = some p := by
    rw [← hhome]
    exact hp
  by_cases hth : th' = th
  · subst hth
    rw [Function.update_self] at hrc'
    cases hrc'
    exact (hrc p hp').same rc.unwoken_cmds
  · rw [Function.update_of_ne hth] at hrc'
    exact h th' p rc' hp' hrc'

/-- What is shown of a read in progress. -/
theorem Vouched.of_call (h : s.standing.Vouched P) {th : ThreadId} {rc : ReadCall}
    (hrc : s.calls th = some rc) {p : ProcId} (hp : s.standing.home th = some p) :
    rc.Vouched P p := by
  have hread : s.standing.reads th = some rc.unwoken := by
    simp only [standing, hrc, Option.map_some]
  exact (h th p _ hp hread).same rc.unwoken_cmds.symm

theorem Vouched.readStart (h : s.standing.Vouched P) (env : Env) (th : ThreadId)
    (buffer size consumed : Nat) :
    (readStart env s th buffer size consumed).standing.Vouched P := by
  refine readStart_rule (P := fun s => s.standing.Vouched P) fun rc _ hnoop =>
    Vouched.setCall h rfl rfl fun p _ => .of_silent ?_
  intro e he
  rw [hnoop e he]
  decide

/-- A turn shows a label that waited for the process of the thread. -/
theorem Reachable.vouched_turn (hs : Reachable s) (h : s.standing.Vouched P)
    (htxns : ∀ t x, s.txns t = some x → P x.label) (env : Env) {th : ThreadId} {thread : Thread}
    {rc : ReadCall} (hth : s.threads th = some thread) (hrc : s.calls th = some rc) :
    (readTurn env s th thread rc).standing.Vouched P := by
  have hhome : s.standing.home th = some thread.proc := by
    simp only [standing, hth, Option.map_some]
  have hbefore : rc.Vouched P thread.proc := Vouched.of_call h hrc hhome
  have hafter : ∀ {s₁ : Driver} {rc' : ReadCall}, s₁.standing.home = s.standing.home →
      s₁.standing.reads = s.standing.reads → rc'.Vouched P thread.proc →
      (s₁.setCall th rc').standing.Vouched P := by
    intro s₁ rc' hhome₁ hreads₁ hrc'
    apply Vouched.setCall h hhome₁ hreads₁
    intro p hp
    cases hhome.symm.trans hp
    exact hrc'
  unfold readTurn
  split
  · have hthread := s.updThread_standing th (f := fun thread =>
      { thread with looper := { thread.looper with waiting := true } }) fun _ => rfl
    have hreads := congrArg Standing.reads hthread
    have hhomes := congrArg Standing.home hthread
    unfold readIdle
    split
    · exact hafter rfl rfl (hbefore.same rfl)
    simp only
    split
    · exact hafter hhomes hreads (hbefore.same rfl)
    · exact hafter hhomes hreads (hbefore.same rfl)
  · rename_i w fromProc hnext
    have hbase := hs.steady.base
    have hcodes : ∀ e thread, (s.dequeueWork w).threads e = some thread →
        ErrorCode thread.returnError := by
      intro e thread he
      exact hbase.codes e thread.view (by simp only [view]; exact congrArg (Option.map _) he)
    have hother : ∀ cmd data, ¬ cmd.Delivers → VouchedFor P thread.proc (cmd, data) :=
      fun cmd data hcmd hdelivers => absurd hdelivers hcmd
    have hadds : AddsOnly (VouchedFor P thread.proc) rc
        (readWork env (s.dequeueWork w) thread.proc th w rc).rc := by
      apply readWork_adds env (s.dequeueWork w) thread.proc th w rc hcodes hother
      intro t x cmd data hw hx hshown _
      subst hw
      have htakes := nextWork_takes hs.steady.sound.queues hth hnext rfl
      have hproc := hbase.takes htakes hx
      rw [view_procOf, hth] at hproc
      exact ⟨x.label, htxns t x hx, (Option.some.inj hproc).symm, hshown⟩
    have hdrv := (s.dequeueWork w).readWork_standing env thread.proc th w rc
    obtain ⟨s₁, rc', heq, hmoved, hadds'⟩ := readNext_adds env
      (readWork env (s.dequeueWork w) thread.proc th w rc) th thread.proc w fromProc hother
    rw [hdrv] at hmoved
    simp only
    rw [heq]
    exact hafter hmoved.home hmoved.reads (Vouched.adds hbefore (hadds.trans hadds'))

theorem Vouched.resume (h : s.standing.Vouched P) {th : ThreadId} {thread : Thread}
    {rc : ReadCall} (hrc : s.calls th = some rc) (chan : Channel) (signal : Bool) :
    (s.resume th thread rc chan signal).standing.Vouched P := by
  refine resume_rule (P := fun s => s.standing.Vouched P) fun rc' _ hcmds => ?_
  obtain ⟨-, hhome, hreads⟩ := s.roused_standing th chan
  exact Vouched.setCall h hhome hreads fun p hp => (Vouched.of_call h hrc hp).same hcmds

theorem Vouched.leaveRead (h : s.standing.Vouched P) (th : ThreadId) (thread : Thread) :
    (s.leaveRead th thread).standing.Vouched P := by
  refine leaveRead_rule (P := fun s => s.standing.Vouched P) fun s₁ hs₁ => ?_
  apply Standing.Vouched.fewer (standing_of_leaving hs₁ ▸ h)
  · exact fun _ _ hp => hp
  · intro th' rc hrc
    have hreads : (s₁.clearCall th).standing.reads th' = some rc := hrc
    rw [standing_clearCall] at hreads
    by_cases hth : th' = th
    · simp [hth] at hreads
    · rw [Function.update_of_ne hth] at hreads
      exact hreads

/-- The next identifier is no thread in a read. -/
theorem Reachable.reads_nextId (h : Reachable s) : s.standing.reads s.nextId = none := by
  cases hrc : s.standing.reads s.nextId with
  | none => rfl
  | some rc =>
      obtain ⟨p, hp⟩ := Option.isSome_iff_exists.mp (h.attended.known s.nextId rc hrc)
      have hproc : s.view.procOf s.nextId = some p := (view_procOf s s.nextId).trans hp
      exact absurd (h.steady.base.threads_lt s.nextId p hproc) (Nat.lt_irrefl _)

theorem registerLooper_seats (s : Driver) (p : ProcId) (th : ThreadId) :
    (s.registerLooper p th).standing.home = s.standing.home ∧
      (s.registerLooper p th).standing.reads = s.standing.reads := by
  have hlooper : ∀ s' : Driver, (s'.updThread th fun thread =>
      { thread with looper := { thread.looper with registered := true } }).standing =
      s'.standing := fun s' => s'.updThread_standing th fun _ => rfl
  unfold registerLooper
  rw [hlooper]
  exact ⟨rfl, rfl⟩

/-- **Step.**  After an action the reads show labels of records there were. -/
theorem Reachable.vouched_act (hs : Reachable s) (h : s.standing.Vouched P)
    (htxns : ∀ t x, s.txns t = some x → P x.label) (a : Action) :
    (s.act a).standing.Vouched P := by
  have hsame : ∀ {s' : Driver}, s'.standing = s.standing → s'.standing.Vouched P :=
    fun heq => heq ▸ h
  have hperforms := s.act_performs a
  generalize s.act a = s' at hperforms ⊢
  cases hperforms with
  | refused => exact h
  | devOpen env pid ctx =>
      exact procNew_rule (P := fun s => s.standing.Vouched P) env pid ctx h (h.of_eq rfl rfl)
  | devClose p _ => exact Vouched.procRelease h p
  | enter env p tid _ =>
      exact threadGet_rule (P := fun s => s.standing.Vouched P) env p tid h h
        (Vouched.insertThread (s := s.bumpId) h hs.reads_nextId p tid)
  | setArena env th thread addr size _ => exact hsame (arenaRegister_standing ..)
  | setContextMgr env th thread ptr cookie flags _ => exact hsame (contextMgrSet_standing ..)
  | threadExit th thread _ => exact Vouched.threadRelease h thread.proc th
  | freeze th th' tid enable timeoutMs => exact hsame (updThread_standing _ _ fun _ => rfl)
  | command env th thread c _ =>
      by_cases hc : c = .registerLooper
      · subst hc
        obtain ⟨hhome, hreads⟩ := registerLooper_seats s thread.proc th
        exact h.of_eq hhome hreads
      · exact hsame (writeCommand_standing _ _ _ _ hc)
  | readStart env th thread buffer size consumed _ =>
      exact Vouched.readStart h env th buffer size consumed
  | readTurn env th thread rc hth hrc _ => exact hs.vouched_turn h htxns env hth hrc
  | resume th thread rc chan woken signal _ hrc _ _ => exact Vouched.resume h hrc chan signal
  | leave th thread rc error _ _ _ => exact Vouched.leaveRead h th thread
  | _ => exact h.of_eq rfl rfl

/-! ## Runs -/

/-- The run `as` contains a send with label `l`. -/
def SentIn (as : List Action) (l : Label) : Prop :=
  ∃ as₁ a as₂, as = as₁ ++ a :: as₂ ∧ (Driver.init.run as₁).Sent a l

theorem SentIn.longer {as : List Action} {l : Label} (h : SentIn as l) (a : Action) :
    SentIn (as ++ [a]) l := by
  obtain ⟨as₁, b, as₂, rfl, hsent⟩ := h
  exact ⟨as₁, b, as₂ ++ [a], by simp, hsent⟩

theorem run_append_one (s : Driver) (as : List Action) (a : Action) :
    s.run (as ++ [a]) = (s.run as).act a :=
  List.foldl_append ..

/-- **Run.**  All records, and all reads, carry labels of sends in the run. -/
theorem run_vouched (as : List Action) :
    (∀ t x, (Driver.init.run as).txns t = some x → SentIn as x.label) ∧
      (Driver.init.run as).standing.Vouched (SentIn as) := by
  induction as using List.reverseRecOn with
  | nil =>
      constructor
      · intro t x hx
        cases hx
      · intro th p rc _ hrc
        cases hrc
  | append_singleton as a ih =>
      obtain ⟨htxns, hreads⟩ := ih
      have hreach : Reachable (Driver.init.run as) := Reachable.run .init as
      rw [run_append_one]
      constructor
      · intro t y hy
        rcases hreach.act_labels a hy with ⟨x, hx, hlabel⟩ | hsent
        · rw [hlabel]
          exact (htxns t x hx).longer a
        · exact ⟨as, a, [], rfl, hsent⟩
      · have hnext := hreach.vouched_act hreads htxns a
        exact hnext.mono fun l hl => hl.longer a

/-- **Deliveries were sent, and by whom they say.**  Every transaction and every
reply in the read buffer of a thread shows the code, the flags, the pid and the
uid of one send earlier in the run, which was accepted for the process of the
thread; the pid is that of the process that sent it and the uid the one it had. -/
theorem deliveries_were_sent (as : List Action) {th : ThreadId} {thread : Thread} {rc : ReadCall}
    (hth : (Driver.init.run as).threads th = some thread)
    (hrc : (Driver.init.run as).calls th = some rc) {cmd : BR} {data : Bytes}
    (hmem : (cmd, data) ∈ rc.cmds) (hcmd : cmd.Delivers) :
    ∃ l, SentIn as l ∧ l.toProc = thread.proc ∧ l.Shown data := by
  have hhome : (Driver.init.run as).standing.home th = some thread.proc := by
    simp only [standing, hth, Option.map_some]
  exact Vouched.of_call (run_vouched as).2 hrc hhome (cmd, data) hmem hcmd

/-- The manager receives the parcel of process 5. -/
def receiveParcel : List Action :=
  twoProcesses ++ [shareObject, .command {} 2 .enterLooper, .readStart {} 2 0x9000 256 0,
    .readTurn {} 2]

/-- What the manager is shown: `data` is the payload of the `BR_TRANSACTION`. -/
def receivedParcel : Option Bytes :=
  ((Driver.init.run receiveParcel).calls 2).bind fun rc =>
    (rc.cmds.find? fun e => e.1 = .transaction).map (·.2)

theorem deliveries_were_sent_parcel : ∃ data l, receivedParcel = some data ∧
    SentIn receiveParcel l ∧ l.toProc = 1 ∧ l.Shown data := by
  have hfound : receivedParcel.isSome = true := by decide +kernel
  have hthread : ((Driver.init.run receiveParcel).threads 2).map (·.proc) = some 1 := by
    decide +kernel
  obtain ⟨data, hdata⟩ := Option.isSome_iff_exists.mp hfound
  obtain ⟨thread, hth, hproc⟩ := Option.map_eq_some_iff.mp hthread
  obtain ⟨rc, hrc, hmap⟩ := Option.bind_eq_some_iff.mp hdata
  obtain ⟨⟨cmd, data'⟩, hfind, rfl⟩ := Option.map_eq_some_iff.mp hmap
  have hcmd : cmd = .transaction := by simpa using List.find?_some hfind
  obtain ⟨l, hsent, hto, hshown⟩ := deliveries_were_sent receiveParcel hth hrc
    (List.mem_of_find?_eq_some hfind) (.inl hcmd)
  exact ⟨data', l, hdata, hsent, hto.trans hproc, hshown⟩

end Driver

end Binder
