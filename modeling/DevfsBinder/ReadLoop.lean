import DevfsBinder.WriteLoop

/-!
# The read loop

The half of `BINDER_WRITE_READ` that produces `BR_` commands.  A call of
`binder_thread_read` is a `ReadCall` in the driver's state: `readStart` is its
prologue, `readTurn` one turn of its loop and `resume` the way back from
`binder_wait`, during which the driver lock is dropped and anything may happen.
-/

namespace Binder

open LittleEndian

/-! ## The read buffer -/

/-- `size - *consumed`, unsigned. -/
def ReadCall.room (rc : ReadCall) : Nat := sub64 rc.size rc.consumed

/-- Where the next byte goes. -/
def ReadCall.cursor (rc : ReadCall) : Nat := (rc.buffer + rc.consumed) % 2 ^ 64

/-- Append bytes to the read buffer. -/
def ReadCall.append (rc : ReadCall) (bytes : Bytes) : ReadCall :=
  { rc with
    consumed := (rc.consumed + bytes.length) % 2 ^ 64
    out := rc.out ++ bytes }

/-- Append a command with its payload. -/
def ReadCall.emit (rc : ReadCall) (cmd : BR) (payload : Bytes) : ReadCall :=
  { rc.append (leBytes 4 cmd.code ++ payload) with cmds := rc.cmds ++ [(cmd, payload)] }

/-- What is recorded about a node before the command is written. -/
def Node.record (nd : Node) : BR → Node
  | .increfs => { nd with hasWeakRef := true, pendingWeakRef := true }
  | .acquire => { nd with hasStrongRef := true, pendingStrongRef := true }
  | .release => { nd with hasStrongRef := false }
  | .decrefs => { nd with hasWeakRef := false }
  | _ => nd

theorem Node.record_proc (nd : Node) (cmd : BR) : (nd.record cmd).proc = nd.proc := by
  cases cmd <;> rfl

/-- The commands that news about a node may consist of. -/
def newsCmds : List BR := [.increfs, .acquire, .release, .decrefs]

/-- The read waits in `binder_wait`. -/
def ReadCall.asleep (rc : ReadCall) : Bool :=
  match rc.status with
  | .asleep _ _ => true
  | _ => false

/-- `binder_put_cmd` -/
def putCmd (env : Env) (rc : ReadCall) (cmd : BR) : ReadCall × Option Errno :=
  if rc.room < 4 then (rc, some .enomem)
  else if ¬ env.copyoutOk rc.cursor 4 then (rc, some .efault)
  else (rc.emit cmd [], none)

theorem putCmd_keeps (env : Env) (rc : ReadCall) (cmd : BR) :
    (putCmd env rc cmd).1 = rc ∨ (putCmd env rc cmd).1 = rc.emit cmd [] := by
  unfold putCmd
  split
  · exact .inl rfl
  split
  · exact .inl rfl
  · exact .inr rfl

/-- `binder_put_cmd_data` -/
def putCmdData (env : Env) (rc : ReadCall) (cmd : BR) (data : Bytes) :
    ReadCall × Option Errno :=
  if rc.room < 4 + data.length then (rc, some .enomem)
  else if ¬ env.copyoutOk rc.cursor 4 then (rc, some .efault)
  else if ¬ env.copyoutOk ((rc.cursor + 4) % 2 ^ 64) data.length then (rc, some .efault)
  else (rc.emit cmd data, none)

/-- `binder_ptr_cookie` -/
def ptrCookie (nd : Node) : Bytes := leBytes 8 nd.ptr ++ leBytes 8 nd.cookie

/-- The security context string `u:r:untrusted_app:s0`, with its
terminator. -/
def secctxBytes : Bytes :=
  ['u', ':', 'r', ':', 'u', 'n', 't', 'r', 'u', 's', 't', 'e', 'd', '_', 'a', 'p', 'p', ':',
    's', '0'].map (fun c => UInt8.ofNat c.toNat) ++ [0]

/-- The result of handling one work item. -/
structure Handled where
  drv : Driver
  rc : ReadCall
  error : Option Errno

/-- Go on from an attempt to append: to `k` if the bytes were taken, else back
out with the driver left at `s`. -/
def Handled.put (r : ReadCall × Option Errno) (s k : Driver) : Handled :=
  match r with
  | (rc, some error) => ⟨s, rc, some error⟩
  | (rc, none) => ⟨k, rc, none⟩

theorem Handled.put_cases (r : ReadCall × Option Errno) (s k : Driver) :
    r.2.isSome ∧ Handled.put r s k = ⟨s, r.1, r.2⟩ ∨
      r.2 = none ∧ Handled.put r s k = ⟨k, r.1, none⟩ := by
  rcases r with ⟨rc, _ | error⟩
  · exact .inr ⟨rfl, rfl⟩
  · exact .inl ⟨rfl, rfl⟩

theorem Handled.put_rc (r : ReadCall × Option Errno) (s k : Driver) :
    (Handled.put r s k).rc = r.1 := by
  rcases r with ⟨rc, _ | error⟩ <;> rfl

theorem Handled.put_drv (r : ReadCall × Option Errno) (s k : Driver) :
    (Handled.put r s k).drv = s ∨ (Handled.put r s k).drv = k := by
  rcases r with ⟨rc, _ | error⟩
  · exact .inr rfl
  · exact .inl rfl

namespace Driver

/-- May this thread take work aimed at its process as a whole
(`binder_thread_takes_proc_work`)? -/
def takesProcWork (s : Driver) (th : ThreadId) (thread : Thread) : Bool :=
  thread.transactionStack = none && (s.items (.thread th)).isEmpty &&
    (thread.looper.registered || thread.looper.entered)

/-- `binder_has_work` for a thread the driver knows. -/
def hasWork (s : Driver) (th : ThreadId) (thread : Thread) : Bool :=
  !(s.items (.thread th)).isEmpty || thread.looper.needReturn ||
    (s.takesProcWork th thread && !(s.items (.proc thread.proc)).isEmpty)

/-! ## Reference news -/

/-- Whether each of `BR_INCREFS`, `BR_ACQUIRE`, `BR_RELEASE`, `BR_DECREFS` is
due. -/
def nodeNews (s : Driver) (n : NodeId) (nd : Node) : Bool × Bool × Bool × Bool :=
  let strong := nd.hasStrong
  let weak := s.nodeHasWeak n nd
  (weak && !nd.hasWeakRef, strong && !nd.hasStrongRef, !strong && nd.hasStrongRef,
    !weak && nd.hasWeakRef)

/-- Record what the owner is told, then tell it; skipped when not due. -/
def tellOwner (env : Env) (th : ThreadId) (n : NodeId) (due : Bool) (cmd : BR)
    (data : Bytes) (record : Node → Node) (h : Handled) : Handled :=
  match due, h.error with
  | true, none =>
      let s := h.drv.updNode n record
      .put (putCmdData env h.rc cmd data) s (s.tell th cmd (.node n))
  | _, _ => h

/-- `binder_read_node_work`: what the owner has been told against what is now
true.  The set of commands is costed as a whole first. -/
def readNodeWork (env : Env) (s : Driver) (th : ThreadId) (n : NodeId) (rc : ReadCall) :
    Handled :=
  match s.nodes n with
  | none => ⟨s, rc, none⟩
  | some nd =>
      let (increfs, acquire, release, decrefs) := s.nodeNews n nd
      let needed := increfs.toNat + acquire.toNat + release.toNat + decrefs.toNat
      if needed = 0 then ⟨s, rc, none⟩
      else if rc.room < needed * 20 then ⟨s, rc, some .enomem⟩
      else
        let h : Handled := ⟨s, rc, none⟩
        let h := tellOwner env th n increfs .increfs (ptrCookie nd)
          (fun nd => { nd with hasWeakRef := true, pendingWeakRef := true }) h
        let h := tellOwner env th n acquire .acquire (ptrCookie nd)
          (fun nd => { nd with hasStrongRef := true, pendingStrongRef := true }) h
        let h := tellOwner env th n release .release (ptrCookie nd)
          (fun nd => { nd with hasStrongRef := false }) h
        let h := tellOwner env th n decrefs .decrefs (ptrCookie nd)
          (fun nd => { nd with hasWeakRef := false }) h
        if decrefs && h.error.isNone then { h with drv := h.drv.nodeMaybeFree n } else h

/-! ## Transactions -/

/-- The `binder_transaction_data` a receiver is shown. -/
def describe (x : Txn) (buf : Buffer) (target : Option Node) (uaddr : Nat) : Bytes :=
  leBytes 8 ((target.map (·.ptr)).getD 0) ++ leBytes 8 ((target.map (·.cookie)).getD 0) ++
    leBytes 4 x.code ++ leBytes 4 x.flags ++ leBytes 4 x.senderPid ++
    leBytes 4 x.senderEuid ++ leBytes 8 buf.dataSize ++ leBytes 8 buf.offsetsSize ++
    leBytes 8 uaddr ++ leBytes 8 ((uaddr + align buf.dataSize) % 2 ^ 64)

/-- Go on from the description to the string its security context points to. -/
def putSecctx (env : Env) (s k : Driver) (r : ReadCall × Option Errno) : Handled :=
  match r with
  | (rc, some error) => ⟨s, rc, some error⟩
  | (rc, none) =>
      if rc.room < secctxBytes.length then ⟨k, rc, some .enomem⟩
      else if ¬ env.copyoutOk rc.cursor secctxBytes.length then ⟨k, rc, some .efault⟩
      else ⟨k, rc.append secctxBytes, none⟩

/-- Write the description: with the security context behind it when the node
asked for one, and then the string the context points to. -/
def putTransaction (env : Env) (s : Driver) (th : ThreadId) (t : TxnId) (rc : ReadCall)
    (cmd : BR) (data : Bytes) (wantSecctx : Bool) : Handled :=
  let k := s.note (.emit th cmd (.transaction t))
  if wantSecctx then
    let secctx := (rc.cursor + 4 + 72) % 2 ^ 64
    putSecctx env s k (putCmdData env rc cmd (data ++ leBytes 8 secctx))
  else .put (putCmdData env rc cmd data) s k

/-- Hand the buffer to the client, and record a call as owed a reply by this
thread; anything else is finished with. -/
def delivered (s : Driver) (p : ProcId) (th : ThreadId) (t : TxnId) (x : Txn)
    (buf : Buffer) : Driver :=
  let s := s.updBuffer p buf.id fun buf => { buf with allowUserFree := true }
  if buf.targetNode.isSome && x.needReply then
    let s := s.updTxn t fun x =>
      { x with toThread := some th, toParent := (s.threads th).bind (·.transactionStack) }
    s.setStack th (some t)
  else s.freeTransaction t

/-- The target node asked for the sender's security context. -/
def wantsSecctx (s : Driver) (buf : Buffer) : Bool :=
  match buf.targetNode.bind s.nodes with
  | some nd => wantsSecurityCtx nd.flags
  | none => false

/-- Which of the three forms a delivery takes. -/
def deliveryCmd (s : Driver) (buf : Buffer) : BR :=
  if buf.targetNode.isNone then .reply
  else if s.wantsSecctx buf then .transactionSecCtx
  else .transaction

/-- `binder_read_transaction`: copy the payload into the receiver's arena, then
describe it. -/
def readTransaction (env : Env) (s : Driver) (p : ProcId) (th : ThreadId) (t : TxnId)
    (rc : ReadCall) : Handled :=
  match s.txns t with
  | none => ⟨s, rc, some .einval⟩
  | some x =>
      match x.buffer.bind (s.findBuffer p) with
      | none => ⟨s, rc, some .einval⟩
      | some buf =>
          let uaddr := s.bufferUaddr p buf
          let reachable := match buf.kdata with
            | some kdata => env.copyoutOk uaddr kdata.length
            | none => true
          if reachable then
            let h := putTransaction env s th t rc (s.deliveryCmd buf)
              (describe x buf (buf.targetNode.bind s.nodes) uaddr) (s.wantsSecctx buf)
            match h.error with
            | some _ => h
            | none => { h with drv := h.drv.delivered p th t x buf }
          else ⟨(s.failUndelivered t .failedReply).dropTransaction p t, rc, none⟩

/-! ## Death notices -/

/-- The command a death record is reported with. -/
def deathCmd : DeathWork → BR
  | .clearDeathNotification => .clearDeathNotificationDone
  | _ => .deadBinder

/-- What becomes of a death record once reported: when the clear was asked for
while the death was in flight, the client is owed both answers. -/
def deathReported (s : Driver) (th : ThreadId) (d : DeathId) : DeathWork → Driver
  | .deadBinder => s
  | .deadBinderAndClear =>
      (s.updDeath d fun death =>
        { death with type := .clearDeathNotification }).enqueueThreadWork th (.death d)
  | .clearDeathNotification => s.forgetDeath d

/-- The `BR_DEAD_BINDER` family. -/
def readDeath (env : Env) (s : Driver) (th : ThreadId) (d : DeathId) (rc : ReadCall) :
    Handled :=
  match s.deaths d with
  | none => ⟨s, rc, none⟩
  | some death =>
      .put (putCmdData env rc (deathCmd death.type) (leBytes 8 death.cookie)) s
        ((s.tell th (deathCmd death.type) (.death d)).deathReported th d death.type)

/-! ## The loop -/

/-- The body of the loop for a dequeued item. -/
def readWork (env : Env) (s : Driver) (p : ProcId) (th : ThreadId) (w : Work)
    (rc : ReadCall) : Handled :=
  match w with
  | .transaction t => readTransaction env s p th t rc
  | .complete _ =>
      .put (putCmd env rc .transactionComplete) s (s.note (.emit th .transactionComplete w))
  | .returnError e =>
      let cmd := ((s.threads e).map (·.returnError)).getD .ok
      .put (putCmd env rc cmd) s
        ((s.updThread e fun thread => { thread with returnError := .ok }).note (.emit th cmd w))
  | .node n => readNodeWork env s th n rc
  | .death d => readDeath env s th d rc

/-- An item this thread may take: while it is frozen, no transaction. -/
def mayTake (thread : Thread) : Work → Bool
  | .transaction _ => !thread.frozen
  | _ => true

/-- The item the loop takes next, and whether it comes from the process's
queue. -/
def nextWork (s : Driver) (th : ThreadId) (thread : Thread) : Option (Work × Bool) :=
  if !(s.items (.thread th)).isEmpty then
    ((s.items (.thread th)).find? (mayTake thread)).map fun w => (w, false)
  else if s.takesProcWork th thread then
    ((s.items (.proc thread.proc)).find? (mayTake thread)).map fun w => (w, true)
  else none

/-- Take or drop `binder_lock` across turns of a read. -/
def setLock (s : Driver) (owner : Option ThreadId) : Driver := { s with lockedBy := owner }

def setCall (s : Driver) (th : ThreadId) (rc : ReadCall) : Driver :=
  { s with calls := Function.update s.calls th (some rc) }

def clearCall (s : Driver) (th : ThreadId) : Driver :=
  { s with calls := Function.update s.calls th none }

/-- The loop ends with `error`; the caller has not yet been let go. -/
def finishRead (s : Driver) (th : ThreadId) (rc : ReadCall) (error : Option Errno) : Driver :=
  s.setCall th { rc with status := .returned error }

theorem setCall_calls_self (s : Driver) (th : ThreadId) (rc : ReadCall) :
    (s.setCall th rc).calls th = some rc :=
  Function.update_self ..

theorem finishRead_calls_self (s : Driver) (th : ThreadId) (rc : ReadCall)
    (error : Option Errno) :
    (s.finishRead th rc error).calls th = some { rc with status := .returned error } :=
  setCall_calls_self ..

/-- Nothing to take: return, or sleep on the process's queue or on the thread
itself with the lock dropped. -/
def readIdle (s : Driver) (th : ThreadId) (thread : Thread) (rc : ReadCall) : Driver :=
  if thread.frozen ∨ rc.wroteSomething then s.finishRead th rc none
  else
    let s' := (s.updThread th fun thread =>
      { thread with looper := { thread.looper with waiting := true } }).setLock none
    if s.takesProcWork th thread then
      (s'.updProc thread.proc fun proc =>
        { proc with readyThreads := proc.readyThreads + 1 }).setCall th
          { rc with status := .asleep (.proc thread.proc) false }
    else s'.setCall th { rc with status := .asleep (.thread th) false }

/-- Ask for another thread if the pool is fully occupied and the client is
allowed more. -/
def spawnLooper (env : Env) (s : Driver) (th : ThreadId) (p : ProcId) (fromProc : Bool)
    (rc : ReadCall) : Driver × ReadCall :=
  match s.procs p, s.threads th with
  | some proc, some thread =>
      if fromProc ∧ proc.requestedThreads = 0 ∧ proc.readyThreads = 0 ∧
          proc.requestedThreadsStarted < proc.maxThreads ∧
          (thread.looper.registered || thread.looper.entered) then
        (s.updProc p fun proc => { proc with requestedThreads := proc.requestedThreads + 1 },
          (putCmd env rc .spawnLooper).1)
      else (s, rc)
  | _, _ => (s, rc)

/-- Back to the head of the queue an item came from. -/
def putBack (s : Driver) (q : Queue) (w : Work) : Driver :=
  { s with queues := s.queues.insert q w true }

/-- What follows a handled item: put it back if it did not fit, stop on an
error, else go on while the largest single reply still fits. -/
def readNext (env : Env) (h : Handled) (th : ThreadId) (p : ProcId) (w : Work)
    (fromProc : Bool) : Driver :=
  match h.error with
  | some .enomem =>
      let q : Queue := if fromProc then .proc p else .thread th
      (h.drv.putBack q w).finishRead th h.rc none
  | some error => h.drv.finishRead th h.rc (some error)
  | none =>
      let rc := { h.rc with wroteSomething := true }
      let (s, rc) := spawnLooper env h.drv th p fromProc rc
      if rc.room < 68 then s.finishRead th rc none else s.setCall th rc

/-- A thread is due: the item came from the process's queue, none is requested
or ready, the client allows more, and the reader is a pool thread. -/
def SpawnDue (s : Driver) (th : ThreadId) (p : ProcId) (fromProc : Bool) : Prop :=
  fromProc = true ∧ ∃ proc thread, s.procs p = some proc ∧ s.threads th = some thread ∧
    proc.requestedThreads = 0 ∧ proc.readyThreads = 0 ∧
    proc.requestedThreadsStarted < proc.maxThreads ∧
    (thread.looper.registered || thread.looper.entered) = true

/-- Another thread is asked for exactly when one is due. -/
theorem spawnLooper_cases (env : Env) (s : Driver) (th : ThreadId) (p : ProcId)
    (fromProc : Bool) (rc : ReadCall) :
    ¬ s.SpawnDue th p fromProc ∧ spawnLooper env s th p fromProc rc = (s, rc) ∨
      s.SpawnDue th p fromProc ∧ spawnLooper env s th p fromProc rc =
        (s.updProc p fun proc => { proc with requestedThreads := proc.requestedThreads + 1 },
          (putCmd env rc .spawnLooper).1) := by
  by_cases hdue : s.SpawnDue th p fromProc
  · refine .inr ⟨hdue, ?_⟩
    obtain ⟨hfrom, proc, thread, hp, hth, hrest⟩ := hdue
    simp only [spawnLooper, hp, hth]
    rw [if_pos ⟨hfrom, hrest⟩]
  · refine .inl ⟨hdue, ?_⟩
    unfold spawnLooper
    split
    · rename_i proc thread hp hth
      rw [if_neg fun hc => hdue ⟨hc.1, proc, thread, hp, hth, hc.2⟩]
    · rfl

/-- What follows a handled item, and the call it leaves.  The read ends with an
error or when the largest single reply no longer fits; another thread is asked for
exactly when one is due. -/
inductive Follows (env : Env) (h : Handled) (th : ThreadId) (p : ProcId) (w : Work)
    (fromProc : Bool) : Driver → ReadCall → Prop
  | full (herror : h.error = some .enomem) : Follows env h th p w fromProc
      (h.drv.putBack (if fromProc then .proc p else .thread th) w)
      { h.rc with status := .returned none }
  | failed (error : Errno) (herror : h.error = some error) (hne : error ≠ .enomem) :
      Follows env h th p w fromProc h.drv { h.rc with status := .returned (some error) }
  | handled (status : ReadStatus) (herror : h.error = none)
      (hstatus : status = h.rc.status ∨ status = .returned none)
      (hdue : ¬ h.drv.SpawnDue th p fromProc) : Follows env h th p w fromProc h.drv
      { h.rc with wroteSomething := true, status := status }
  | spawned (rc' : ReadCall) (status : ReadStatus) (herror : h.error = none)
      (hput : (putCmd env { h.rc with wroteSomething := true } .spawnLooper).1 = rc')
      (hstatus : status = rc'.status ∨ status = .returned none)
      (hdue : h.drv.SpawnDue th p fromProc) : Follows env h th p w fromProc
      (h.drv.updProc p fun proc => { proc with requestedThreads := proc.requestedThreads + 1 })
      { rc' with status := status }

/-- **Every end of `readNext`** is one of these. -/
theorem readNext_follows (env : Env) (h : Handled) (th : ThreadId) (p : ProcId) (w : Work)
    (fromProc : Bool) : ∃ s₁ rc', Follows env h th p w fromProc s₁ rc' ∧
      readNext env h th p w fromProc = s₁.setCall th rc' := by
  have hgo : ∀ (s₁ : Driver) (rc₁ : ReadCall), ∃ status,
      (status = rc₁.status ∨ status = .returned none) ∧
      (if rc₁.room < 68 then s₁.finishRead th rc₁ none else s₁.setCall th rc₁) =
        s₁.setCall th { rc₁ with status := status } := by
    intro s₁ rc₁
    split
    · exact ⟨_, .inr rfl, rfl⟩
    · exact ⟨_, .inl rfl, rfl⟩
  unfold readNext
  split
  · rename_i herror
    exact ⟨_, _, .full herror, rfl⟩
  · rename_i error hne herror
    exact ⟨_, _, .failed error herror hne, rfl⟩
  · rename_i herror
    simp only
    generalize hspawn :
      spawnLooper env h.drv th p fromProc { h.rc with wroteSomething := true } = r
    obtain ⟨s₁, rc₁⟩ := r
    obtain ⟨status, hstatus, heq⟩ := hgo s₁ rc₁
    refine ⟨s₁, { rc₁ with status := status }, ?_, heq⟩
    rcases spawnLooper_cases env h.drv th p fromProc { h.rc with wroteSomething := true } with
      ⟨hdue, heq⟩ | ⟨hdue, heq⟩
    · obtain ⟨rfl, rfl⟩ := Prod.mk.inj (hspawn.symm.trans heq)
      exact .handled status herror hstatus hdue
    · obtain ⟨rfl, hput⟩ := Prod.mk.inj (hspawn.symm.trans heq)
      exact .spawned rc₁ status herror hput.symm hstatus hdue

/-- One turn of the loop of `binder_thread_read`. -/
def readTurn (env : Env) (s : Driver) (th : ThreadId) (thread : Thread) (rc : ReadCall) :
    Driver :=
  match s.nextWork th thread with
  | none => s.readIdle th thread rc
  | some (w, fromProc) =>
      let h := readWork env (s.dequeueWork w) thread.proc th w rc
      readNext env h th thread.proc w fromProc

/-- The prologue of `binder_thread_read`. -/
def readStart (env : Env) (s : Driver) (th : ThreadId) (buffer size consumed : Nat) : Driver :=
  let rc : ReadCall := { buffer := buffer, size := size, start := consumed, consumed := consumed }
  let s := s.setLock (some th)
  if consumed = 0 then
    match putCmd env rc .noop with
    | (rc, none) => s.setCall th rc
    | (rc, some error) => s.finishRead th rc (some error)
  else s.setCall th rc

/-- Back from `binder_wait`, woken or interrupted. -/
def resume (s : Driver) (th : ThreadId) (thread : Thread) (rc : ReadCall) (chan : Channel)
    (signal : Bool) : Driver :=
  let s := s.setLock (some th)
  let s := s.updThread th fun thread =>
    { thread with looper := { thread.looper with waiting := false } }
  let s := match chan with
    | .proc p => s.updProc p fun proc => { proc with readyThreads := proc.readyThreads - 1 }
    | .thread _ => s
  if signal then s.finishRead th rc (some .eintr)
  else if ¬ s.procAlive thread.proc ∨ thread.isDead then s.finishRead th rc (some .enodev)
  else s.setCall th { rc with status := .running }

/-- The end of `binder_ioctl_write_read`: somebody else may have to be woken
for what is left on the process's queue. -/
def leaveRead (s : Driver) (th : ThreadId) (thread : Thread) : Driver :=
  let s := if (s.items (.proc thread.proc)).isEmpty then s else s.wakeupProc thread.proc
  (s.clearCall th).setLock none

/-! ## Rules

What is to be said of a read that begins, comes back or ends is said of the one
state it leaves. -/

section

variable {P : Driver → Prop} {s : Driver} {th : ThreadId} {thread : Thread}

/-- **Rule.**  A read begins with the lock and with nothing but a `BR_NOOP`. -/
theorem readStart_rule {env : Env} {buffer size consumed : Nat}
    (h : ∀ rc : ReadCall, rc.asleep = false → (∀ e ∈ rc.cmds, e.1 = .noop) →
      P ((s.setLock (some th)).setCall th rc)) :
    P (readStart env s th buffer size consumed) := by
  unfold readStart
  simp only
  split
  · have hput := putCmd_keeps env
      { buffer := buffer, size := size, start := consumed, consumed := consumed } .noop
    generalize putCmd env _ .noop = r at hput ⊢
    obtain ⟨rc, error⟩ := r
    have hrc : rc.asleep = false ∧ ∀ e ∈ rc.cmds, e.1 = .noop := by
      rcases hput with hput | hput
      · subst hput
        exact ⟨rfl, by simp⟩
      · subst hput
        exact ⟨rfl, by simp [ReadCall.emit, ReadCall.append]⟩
    cases error with
    | none => exact h rc hrc.1 hrc.2
    | some error => exact h { rc with status := .returned (some error) } rfl hrc.2
  · exact h _ rfl (by simp)

/-- A sleeper has the lock again and no longer counts as waiting. -/
def roused (s : Driver) (th : ThreadId) (chan : Channel) : Driver :=
  let s := (s.setLock (some th)).updThread th fun thread =>
    { thread with looper := { thread.looper with waiting := false } }
  match chan with
  | .proc p => s.updProc p fun proc => { proc with readyThreads := proc.readyThreads - 1 }
  | .thread _ => s

/-- **Rule.**  However a sleeper comes back, it has shown its client nothing. -/
theorem resume_rule {rc : ReadCall} {chan : Channel} {signal : Bool}
    (h : ∀ rc' : ReadCall, rc'.asleep = false → rc'.cmds = rc.cmds →
      P ((s.roused th chan).setCall th rc')) : P (s.resume th thread rc chan signal) := by
  change P (if signal then (s.roused th chan).finishRead th rc (some .eintr)
    else if ¬ (s.roused th chan).procAlive thread.proc ∨ thread.isDead then
      (s.roused th chan).finishRead th rc (some .enodev)
    else (s.roused th chan).setCall th { rc with status := .running })
  split
  · exact h { rc with status := .returned (some .eintr) } rfl rfl
  split
  · exact h { rc with status := .returned (some .enodev) } rfl rfl
  · exact h { rc with status := .running } rfl rfl

/-- **Rule.**  A read ends with the lock free, whoever had to be woken. -/
theorem leaveRead_rule
    (h : ∀ s₁, s₁ = s ∨ s₁ = s.wakeupProc thread.proc → P ((s₁.clearCall th).setLock none)) :
    P (s.leaveRead th thread) := by
  unfold leaveRead
  simp only
  split
  · exact h _ (.inl rfl)
  · exact h _ (.inr rfl)

end

/-! ## News about a node -/

/-- The four commands a read of node news may write, before the node is
perhaps released. -/
def reportNews (env : Env) (s : Driver) (th : ThreadId) (n : NodeId) (nd : Node)
    (rc : ReadCall) : Handled :=
  let (increfs, acquire, release, decrefs) := s.nodeNews n nd
  let h : Handled := ⟨s, rc, none⟩
  let h := tellOwner env th n increfs .increfs (ptrCookie nd)
    (fun nd => { nd with hasWeakRef := true, pendingWeakRef := true }) h
  let h := tellOwner env th n acquire .acquire (ptrCookie nd)
    (fun nd => { nd with hasStrongRef := true, pendingStrongRef := true }) h
  let h := tellOwner env th n release .release (ptrCookie nd)
    (fun nd => { nd with hasStrongRef := false }) h
  tellOwner env th n decrefs .decrefs (ptrCookie nd) (fun nd => { nd with hasWeakRef := false }) h

/-- **Rule.**  One command is skipped, or it is recorded and perhaps written. -/
theorem tellOwner_rule {P : Handled → Prop} {env : Env} {th : ThreadId} {n : NodeId}
    {due : Bool} {cmd : BR} {data : Bytes} {record : Node → Node} {h : Handled} (hskip : P h)
    (hnote : ∀ error, P ⟨h.drv.updNode n record, (putCmdData env h.rc cmd data).1, error⟩)
    (hsay : ∀ h, P h → P { h with drv := h.drv.tell th cmd (.node n) }) :
    P (tellOwner env th n due cmd data record h) := by
  unfold tellOwner
  split
  · generalize putCmdData env h.rc cmd data = r at hnote ⊢
    obtain ⟨rc, _ | error⟩ := r
    · exact hsay _ (hnote none)
    · exact hnote (some error)
  · exact hskip

/-- **Rule.**  What holds before the news, is kept where a command is recorded and
is kept where it is written, holds after the news. -/
theorem reportNews_rule {P : Handled → Prop} {env : Env} {s : Driver} {th : ThreadId}
    {n : NodeId} {nd : Node} {rc : ReadCall} (hstart : P ⟨s, rc, none⟩)
    (hnote : ∀ h cmd rc' error, cmd ∈ newsCmds →
      rc' = (putCmdData env h.rc cmd (ptrCookie nd)).1 → P h →
      P ⟨h.drv.updNode n (·.record cmd), rc', error⟩)
    (hsay : ∀ h cmd, P h → P { h with drv := h.drv.tell th cmd (.node n) }) :
    P (reportNews env s th n nd rc) := by
  have htell : ∀ h due cmd, cmd ∈ newsCmds → P h →
      P (tellOwner env th n due cmd (ptrCookie nd) (·.record cmd) h) :=
    fun h _ cmd hcmd hp => tellOwner_rule hp (fun error => hnote h cmd _ error hcmd rfl hp)
      fun h => hsay h cmd
  have h₁ := htell _ (s.nodeNews n nd).1 .increfs (by decide) hstart
  have h₂ := htell _ (s.nodeNews n nd).2.1 .acquire (by decide) h₁
  have h₃ := htell _ (s.nodeNews n nd).2.2.1 .release (by decide) h₂
  exact htell _ (s.nodeNews n nd).2.2.2 .decrefs (by decide) h₃

/-- **Rule.**  The same for the whole work item: there may be no news or no room
for them, and the node may be released at the end. -/
theorem readNodeWork_rule {P : Handled → Prop} {env : Env} {s : Driver} {th : ThreadId}
    {n : NodeId} {rc : ReadCall} (hnone : ∀ error, P ⟨s, rc, error⟩)
    (hnote : ∀ h nd cmd rc' error, cmd ∈ newsCmds →
      rc' = (putCmdData env h.rc cmd (ptrCookie nd)).1 → P h →
      P ⟨h.drv.updNode n (·.record cmd), rc', error⟩)
    (hsay : ∀ h cmd, P h → P { h with drv := h.drv.tell th cmd (.node n) })
    (hfree : ∀ h, P h → P { h with drv := h.drv.nodeMaybeFree n }) :
    P (readNodeWork env s th n rc) := by
  unfold readNodeWork
  split
  · exact hnone none
  rename_i nd _
  simp only
  split
  · exact hnone none
  split
  · exact hnone (some .enomem)
  have hall : P (reportNews env s th n nd rc) :=
    reportNews_rule (hnone none) (fun h cmd rc' error => hnote h nd cmd rc' error) hsay
  split
  · exact hfree _ hall
  · exact hall

/-! ## Death records -/

/-- **Rule.**  A record is reported, or nothing happens. -/
theorem readDeath_rule {P : Driver → Prop} {env : Env} {s : Driver} {th : ThreadId}
    {d : DeathId} {rc : ReadCall} (hsame : P s)
    (hreport : ∀ death, s.deaths d = some death → (readDeath env s th d rc).error = none →
      P ((s.tell th (deathCmd death.type) (.death d)).deathReported th d death.type)) :
    P (readDeath env s th d rc).drv := by
  cases hd : s.deaths d with
  | none =>
      rw [readDeath, hd]
      exact hsame
  | some death =>
      have hsaid := hreport death hd
      rw [readDeath, hd] at hsaid ⊢
      simp only at hsaid ⊢
      rcases Handled.put_cases (putCmdData env rc (deathCmd death.type) (leBytes 8 death.cookie))
          s ((s.tell th (deathCmd death.type) (.death d)).deathReported th d death.type) with
        ⟨-, heq⟩ | ⟨-, heq⟩
      · rw [heq]
        exact hsame
      · rw [heq] at hsaid ⊢
        exact hsaid rfl

end Driver

end Binder
