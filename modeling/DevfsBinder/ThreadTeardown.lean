import DevfsBinder.TransactionSend

/-!
# Threads and processes come and go

The first half of `binder_proc.c`: a thread's binder state is made on its
first ioctl and released by `BINDER_THREAD_EXIT` or with its process, and a
process is released when its device is closed.  Whatever a thread was in the
middle of has to be answered on the way out.

Both releases walk lists that their own body shortens.  The source takes the
successor before it touches an element, and no body removes any element but
its own, so each walk is over the list as it stood at the start.
-/

namespace Binder

namespace Driver

/-! ## Threads -/

/-- `binder_thread_lookup` -/
def threadLookup (s : Driver) (p : ProcId) (tid : Nat) : Option ThreadId :=
  (s.procThreads p).find? fun th => (s.threads th).map (·.tid) = some tid

/-- A new thread at the head of its process's list. -/
def insertThread (s : Driver) (th : ThreadId) (p : ProcId) (tid : Nat) : Driver :=
  { s with
    threads := Function.update s.threads th (some { proc := p, tid := tid })
    procThreads := Function.update s.procThreads p (th :: s.procThreads p)
    stats := { s.stats with threads := s.stats.threads + 1 } }

/-- `binder_thread_get`: the calling thread's state, made on first use. -/
def threadGet (env : Env) (s : Driver) (p : ProcId) (tid : Nat) : Option ThreadId × Driver :=
  match s.threadLookup p tid with
  | some th => (some th, s)
  | none =>
      match s.allocMem env with
      | (none, s) => (none, s)
      | (some th, s) => (some th, s.insertThread th p tid)

/-- The thread is known, or there is no memory for it, or it is made. -/
theorem threadGet_rule {P : Driver → Prop} (env : Env) {s : Driver} (p : ProcId) (tid : Nat)
    (hknown : P s) (hfails : P s.bumpId) (hnew : P (s.bumpId.insertThread s.nextId p tid)) :
    P (threadGet env s p tid).2 := by
  unfold threadGet allocMem
  split
  · exact hknown
  · cases env.allocOk s.nextId with
    | false => exact hfails
    | true => exact hnew

/-- One turn of the stack walk of `binder_thread_release`: a call the thread
sent is detached from it, one it received is answered with `BR_DEAD_REPLY`. -/
def releaseCall (s : Driver) (p : ProcId) (th : ThreadId) (t : TxnId) :
    Driver × Option TxnId :=
  match s.txns t with
  | none => (s, none)
  | some x =>
      if x.fromThread = some th then
        (s.updTxn t fun x => { x with fromThread := none }, x.fromParent)
      else if x.toThread = some th then
        let s := s.updTxn t fun x => { x with toThread := none }
        let s := match x.buffer with
          | some b => (s.releaseAndFree p b).updTxn t fun x => { x with buffer := none }
          | none => s
        (s.failCaller x.fromThread t .deadReply, x.toParent)
      else (s, none)

/-- The stack walk.  Every turn but the last clears one of the two thread
pointers of a transaction, so there are at most two turns for each. -/
def releaseCalls (p : ProcId) (th : ThreadId) : Nat → Driver → Option TxnId → Driver
  | 0, s, _ => s
  | _, s, none => s
  | fuel+1, s, some t =>
      let (s, next) := s.releaseCall p th t
      releaseCalls p th fuel s next

/-- Release an undelivered transaction together with its payload. -/
def dropTransaction (s : Driver) (p : ProcId) (t : TxnId) : Driver :=
  (s.releasePayload p ((s.txns t).bind (·.buffer))).freeTransaction t

/-- Whether a process is still open. -/
def procAlive (s : Driver) (p : ProcId) : Bool :=
  match s.procs p with
  | some proc => !proc.isDead
  | none => false

/-- One turn of the `todo` walk of `binder_thread_release`: an undelivered
transaction goes back to the process, unless the process itself is going. -/
def releaseThreadWork (p : ProcId) (s : Driver) (w : Work) : Driver :=
  let s := s.dequeueWork w
  match w with
  | .transaction t =>
      if s.procAlive p then s.enqueueWork p w
      else (s.dropTransaction p t).note (.discard t)
  | _ => s

/-- Unlink a thread from its process and release the record; a read it was
asleep in goes with it. -/
def forgetThread (s : Driver) (p : ProcId) (th : ThreadId) : Driver :=
  { s with
    threads := Function.update s.threads th none
    procThreads := Function.update s.procThreads p ((s.procThreads p).erase th)
    calls := Function.update s.calls th none
    lockedBy := if s.lockedBy = some th then none else s.lockedBy
    stats := { s.stats with threads := s.stats.threads - 1 } }

/-- `binder_thread_release` -/
def threadRelease (s : Driver) (p : ProcId) (th : ThreadId) : Driver :=
  let s := s.updThread th fun thread => { thread with isDead := true }
  let s := releaseCalls p th (2 * s.nextId + 2) s
    ((s.threads th).bind (·.transactionStack))
  let s := s.setStack th none
  let s := (s.items (.thread th)).foldl (releaseThreadWork p) s
  s.forgetThread p th

/-! ## Processes -/

def insertProc (s : Driver) (p : ProcId) (pid ctx : Nat) : Driver :=
  { s with
    procs := Function.update s.procs p (some { pid := pid, context := ctx })
    stats := { s.stats with procs := s.stats.procs + 1 } }

/-- Release the record of a process. -/
def forgetProc (s : Driver) (p : ProcId) : Driver :=
  { s with
    procs := Function.update s.procs p none
    selRecorded := Function.update s.selRecorded p false
    stats := { s.stats with procs := s.stats.procs - 1 } }

/-- `binder_proc_new` -/
def procNew (env : Env) (s : Driver) (pid ctx : Nat) : Option ProcId × Driver :=
  match s.allocMem env with
  | (none, s) => (none, s)
  | (some p, s) => (some p, s.insertProc p pid ctx)

/-- Opening the device makes nobody else live. -/
theorem procAlive_of_insertProc {s : Driver} {p p' : ProcId} {pid ctx : Nat} (hne : p' ≠ p)
    (h : (s.insertProc p pid ctx).procAlive p' = true) : s.procAlive p' = true := by
  simpa [procAlive, insertProc, hne] using h

/-- Marking a process dead makes nobody live. -/
theorem procAlive_of_dying {s : Driver} {p p' : ProcId}
    (h : (s.updProc p fun proc => { proc with isDead := true }).procAlive p' = true) :
    s.procAlive p' = true := by
  by_cases hp : p' = p
  · subst hp
    cases hproc : s.procs p' <;> simp [procAlive, updProc, hproc] at h
  · simpa [procAlive, updProc, hp] using h

/-- Forgetting a process makes nobody live. -/
theorem procAlive_of_forgetProc {s : Driver} {p p' : ProcId}
    (h : (s.forgetProc p).procAlive p' = true) : s.procAlive p' = true := by
  by_cases hp : p' = p
  · simp [procAlive, forgetProc, hp] at h
  · simpa [procAlive, forgetProc, hp] using h

/-- There is no memory for the process, or it is made. -/
theorem procNew_rule {P : Driver → Prop} (env : Env) {s : Driver} (pid ctx : Nat)
    (hfails : P s.bumpId) (hnew : P (s.bumpId.insertProc s.nextId pid ctx)) :
    P (procNew env s pid ctx).2 := by
  unfold procNew allocMem
  cases env.allocOk s.nextId with
  | false => exact hfails
  | true => exact hnew

/-- Give up the context manager role while the node still knows its owner. -/
def releaseManager (s : Driver) (p : ProcId) : Driver :=
  match s.procs p with
  | none => s
  | some proc =>
      match (s.contexts proc.context).mgrNode with
      | none => s
      | some m =>
          if (s.nodes m).bind (·.proc) = some p then
            (s.updContext proc.context fun ctx => { ctx with mgrNode := none }).updNode m
              fun nd =>
                { nd with
                  localStrongRefs := 0
                  localWeakRefs := 0
                  hasStrongRef := false
                  hasWeakRef := false }
          else s

/-- The process manages nothing, or the node with which it manages its context forgets
what made it the manager. -/
theorem releaseManager_rule {P : Driver → Prop} {s : Driver} (p : ProcId) (hkeeps : P s)
    (hgives : ∀ proc m, s.procs p = some proc → (s.contexts proc.context).mgrNode = some m →
      (s.nodes m).bind (·.proc) = some p →
      P ((s.updContext proc.context fun ctx => { ctx with mgrNode := none }).updNode m
        fun nd => { nd with
          localStrongRefs := 0
          localWeakRefs := 0
          hasStrongRef := false
          hasWeakRef := false })) : P (s.releaseManager p) := by
  unfold releaseManager
  split
  · exact hkeeps
  · split
    · exact hkeeps
    · split
      · exact hgives _ _ (by assumption) (by assumption) (by assumption)
      · exact hkeeps

/-- One turn of the node walk of `binder_proc_release`. -/
def releaseNode (p : ProcId) (s : Driver) (n : NodeId) : Driver :=
  ((s.unlistNode p n).nodeDied n).nodeMaybeFree n

/-- The live sender of a call. -/
def liveSender (s : Driver) (t : TxnId) : Option ThreadId :=
  ((s.txns t).bind (·.fromThread)).bind fun th =>
    match s.threads th with
    | some thread => if thread.isDead then none else some th
    | none => none

/-- Answer an undelivered call with an error, or record that nobody heard. -/
def failUndelivered (s : Driver) (t : TxnId) (br : BR) : Driver :=
  match s.liveSender t with
  | some th => s.failCaller (some th) t br
  | none => s.note (.discard t)

/-- One turn of the `todo` walk of `binder_proc_release`: a transaction still
owes its sender an answer. -/
def releaseProcWork (p : ProcId) (s : Driver) (w : Work) : Driver :=
  let s := s.dequeueWork w
  match w with
  | .transaction t => (s.failUndelivered t .deadReply).dropTransaction p t
  | _ => s

/-- `binder_proc_release`: the device was closed. -/
def procRelease (s : Driver) (p : ProcId) : Driver :=
  let s := s.updProc p fun proc => { proc with isDead := true }
  let s := s.releaseManager p
  let s := (s.procNodes p).foldl (releaseNode p) s
  let s := (s.procRefs p).foldl refDelete s
  let s := (s.items (.proc p)).foldl (releaseProcWork p) s
  let s := (s.procThreads p).foldl
    (fun s th => (s.wakeupThread th).threadRelease p th) s
  (s.arenaTeardown p).forgetProc p

end Driver

end Binder
