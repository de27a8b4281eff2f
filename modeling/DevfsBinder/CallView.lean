import DevfsBinder.ArenaLaws
import DevfsBinder.CallTargets
import DevfsBinder.ThreadTeardown

/-!
# The driver as the call machine sees it

`view` forgets bytes, objects, the order of queues and everything that is not
about transactions.  For each function of the driver that is about them, a
lemma says which change of the call machine it is.
-/

namespace Binder

def Thread.view (thread : Thread) : ThreadView where
  proc := thread.proc
  isDead := thread.isDead
  stack := thread.transactionStack
  error := thread.returnError

def Buffer.load (base : Nat) (buf : Buffer) : Load where
  base := base
  offset := buf.offset
  size := buf.size
  dataSize := buf.dataSize
  offsetsSize := buf.offsetsSize
  extraBuffersSize := buf.extraBuffersSize
  kdata := buf.kdata

/-- The bytes an allocation was charged for. -/
def Load.need (load : Load) : Nat :=
  needOf load.dataSize load.offsetsSize load.extraBuffersSize

def Buffer.view (base : Nat) (buf : Buffer) : BufferView where
  load := buf.load base
  transaction := buf.transaction
  targetNode := buf.targetNode
  allowUserFree := buf.allowUserFree

namespace Driver

def view (s : Driver) : Calls where
  procs := fun p => (s.procs p).map (·.isDead)
  owner := fun n => (s.nodes n).bind (·.proc)
  threads := fun th => (s.threads th).map Thread.view
  buffers := fun p b => ((s.arenas p).used b).map (Buffer.view (s.arenas p).addr)
  txns := s.txns
  loc := fun w => if w.isCall then s.queues.loc w else none
  trace := s.trace
  nextId := s.nextId

variable {s : Driver}

theorem view_procOf (s : Driver) (th : ThreadId) :
    s.view.procOf th = (s.threads th).map (·.proc) := by
  simp only [Calls.procOf, view]
  cases s.threads th <;> rfl

theorem view_procOf_some {s : Driver} {th : ThreadId} {thread : Thread}
    (hth : s.threads th = some thread) : s.view.procOf th = some thread.proc := by
  rw [view_procOf, hth]
  rfl

theorem view_stackOf (s : Driver) (th : ThreadId) :
    s.view.stackOf th = (s.threads th).bind (·.transactionStack) := by
  simp only [Calls.stackOf, view]
  cases s.threads th <;> rfl

/-! ## Tables -/

theorem view_updThread (s : Driver) (th : ThreadId) {f : Thread → Thread}
    {g : ThreadView → ThreadView} (h : ∀ thread, (f thread).view = g thread.view) :
    (s.updThread th f).view = s.view.updThread th g := by
  have hthreads : (s.updThread th f).view.threads = (s.view.updThread th g).threads := by
    funext th'
    by_cases hth : th' = th
    · subst hth
      cases hx : s.threads th' <;>
        simp [view, Driver.updThread, Calls.updThread, Calls.setThread, hx, h]
    · simp [view, Driver.updThread, Calls.updThread, Calls.setThread, hth]
  exact congrArg (fun threads => { s.view with threads := threads }) hthreads

theorem view_setStack (s : Driver) (th : ThreadId) (top : Option TxnId) :
    (s.setStack th top).view = s.view.setStack th top :=
  view_updThread s th fun _ => rfl

/-- A change of a thread that no call can see. -/
theorem view_updThread_same (s : Driver) (th : ThreadId) {f : Thread → Thread}
    (h : ∀ thread, (f thread).view = thread.view) : (s.updThread th f).view = s.view := by
  have hthreads : (s.updThread th f).view.threads = s.view.threads := by
    funext th'
    by_cases hth : th' = th
    · subst hth
      cases hx : s.threads th' <;> simp [view, Driver.updThread, hx, h]
    · simp [view, Driver.updThread, hth]
  exact congrArg (fun threads => { s.view with threads := threads }) hthreads

theorem view_updProc_same (s : Driver) (p : ProcId) {f : Proc → Proc}
    (h : ∀ proc, (f proc).isDead = proc.isDead) : (s.updProc p f).view = s.view := by
  have hprocs : (s.updProc p f).view.procs = s.view.procs := by
    funext p'
    by_cases hp : p' = p
    · subst hp
      cases hx : s.procs p' <;> simp [view, Driver.updProc, hx, h]
    · simp [view, Driver.updProc, hp]
  exact congrArg (fun procs => { s.view with procs := procs }) hprocs

theorem view_updTxn (s : Driver) (t : TxnId) (f : Txn → Txn) :
    (s.updTxn t f).view = s.view.updTxn t f := rfl

theorem view_forgetTxn (s : Driver) (t : TxnId) : (s.forgetTxn t).view = s.view.setTxn t none :=
  rfl

theorem view_note (s : Driver) (e : Event) : (s.note e).view = s.view.note e := rfl

/-! ## Buffers -/

/-- A change to one buffer, seen by the lookup. -/
theorem used_updBuffer (s : Driver) (p : ProcId) (b : BufferId) {f : Buffer → Buffer}
    (hid : ∀ buf, (f buf).id = buf.id) (hfree : ∀ buf, (f buf).free = buf.free) (p' : ProcId)
    (b' : BufferId) : ((s.updBuffer p b f).arenas p').used b' =
      if p' = p ∧ b' = b then ((s.arenas p).used b).map f else (s.arenas p').used b' := by
  by_cases hp : p' = p
  · subst hp
    have hmap := used_map (s.arenas p') (f := fun buf => if buf.id = b then f buf else buf)
      (fun buf => by split <;> simp [hid]) (fun buf => by split <;> simp [hfree]) b'
    simp only [Driver.updBuffer, Driver.updArena, Function.update_self, hmap, true_and]
    cases hused : (s.arenas p').used b' with
    | none =>
        split
        · rename_i hb
          subst hb
          rw [hused]
          rfl
        · rfl
    | some buf =>
        have hbid : buf.id = b' := by
          have := (Option.filter_eq_some_iff.mp hused).1
          simpa using List.find?_some this
        split
        · rename_i hb
          subst hb
          simp [hused, hbid]
        · rename_i hb
          simp [hbid, hb]
  · simp [Driver.updBuffer, Driver.updArena, hp]

theorem addr_updBuffer (s : Driver) (p : ProcId) (b : BufferId) (f : Buffer → Buffer)
    (p' : ProcId) : ((s.updBuffer p b f).arenas p').addr = (s.arenas p').addr := by
  by_cases hp : p' = p
  · subst hp
    simp [Driver.updBuffer, Driver.updArena]
  · simp [Driver.updBuffer, Driver.updArena, hp]

/-- A change to one buffer, seen by the call machine. -/
theorem view_updBuffer (s : Driver) (p : ProcId) (b : BufferId) {f : Buffer → Buffer}
    {g : BufferView → BufferView} (hid : ∀ buf, (f buf).id = buf.id)
    (hfree : ∀ buf, (f buf).free = buf.free)
    (h : ∀ base buf, (f buf).view base = g (buf.view base)) :
    (s.updBuffer p b f).view = s.view.updBuffer p b g := by
  have hbuffers : (s.updBuffer p b f).view.buffers = (s.view.updBuffer p b g).buffers := by
    funext p' b'
    rw [Calls.updBuffer, Calls.buffers_setBuffer]
    simp only [view, used_updBuffer s p b hid hfree, addr_updBuffer]
    split
    · rename_i heq
      rw [heq.1]
      cases (s.arenas p).used b <;> simp [h]
    · rfl
  exact congrArg (fun buffers => { s.view with buffers := buffers }) hbuffers

theorem view_detachBuffer (s : Driver) (p : ProcId) (b : Option BufferId) :
    (s.detachBuffer p b).view = s.view.detachBuffer p b := by
  cases b with
  | none => rfl
  | some b => exact view_updBuffer s p b (fun _ => rfl) (fun _ => rfl) fun _ _ => rfl

/-- The allocation a pointer names, as the call machine sees it. -/
theorem view_buffers (s : Driver) (p : ProcId) (b : BufferId) :
    s.view.buffers p b = ((s.arenas p).used b).map (Buffer.view (s.arenas p).addr) := rfl

/-- To the call machine a freed buffer is one that is gone. -/
theorem view_bufferFree (s : Driver) {k : Nat} (p : ProcId) (b : BufferId)
    (h : ArenaOk (s.arenas p) k) : (s.bufferFree p b).view = s.view.setBuffer p b none := by
  have hnone : (s.arenas p).used b = none → s.view = s.view.setBuffer p b none := by
    intro hused
    have hbuffers : s.view.buffers = (s.view.setBuffer p b none).buffers := by
      funext p' b'
      rw [Calls.buffers_setBuffer]
      split
      · rename_i heq
        obtain ⟨rfl, rfl⟩ := heq
        simp [view_buffers, hused]
      · rfl
    exact congrArg (fun buffers => { s.view with buffers := buffers }) hbuffers
  unfold bufferFree
  split
  · rename_i hfind
    unfold findBuffer at hfind
    exact hnone (by simp [Arena.used, hfind])
  · rename_i buf hfind
    unfold findBuffer at hfind
    split
    · rename_i hfree
      exact hnone (by simp [Arena.used, hfind, Option.filter, hfree])
    · obtain ⟨hmem, rfl⟩ := h.find_eq_some.mp hfind
      have hbuffers : ∀ space arenas, arenas = Function.update s.arenas p
          { s.arenas p with
            freeAsyncSpace := space
            buffers := mergePrev buf.id (markFree buf.id (s.arenas p).buffers) } →
          (fun p' b' => ((arenas p').used b').map (Buffer.view (arenas p').addr)) =
            (s.view.setBuffer p buf.id none).buffers := by
        rintro space _ rfl
        funext p' b'
        rw [Calls.buffers_setBuffer]
        by_cases hp : p' = p
        · subst hp
          rw [Function.update_self, h.used_release hmem space b']
          by_cases hb : b' = buf.id <;> simp [hb, view_buffers]
        · simp [hp, view_buffers]
      exact congrArg (fun buffers => { s.view with buffers := buffers }) (hbuffers _ _ rfl)

/-! ## Queues -/

theorem view_insert_call (s : Driver) (q : Queue) {w : Work} (head : Bool)
    (hw : w.isCall = true) :
    ({ s with queues := s.queues.insert q w head } : Driver).view = s.view.enqueue w q := by
  rw [Calls.enqueue_eq]
  have hloc : (fun w' => if w'.isCall = true then (s.queues.insert q w head).loc w' else none) =
      (s.view.enqueue w q).loc := by
    funext w'
    rw [Calls.enqueue_loc, Queues.insert_loc]
    simp only [view, hw, if_true]
    by_cases hw' : w'.isCall = true
    · simp [hw']
    · have hne : w' ≠ w := fun e => hw' (e ▸ hw)
      simp [hw', hne]
  exact congrArg (fun loc => { s.view with loc := loc }) hloc

theorem view_insert_other (s : Driver) (q : Queue) {w : Work} (head : Bool)
    (hw : w.isCall = false) :
    ({ s with queues := s.queues.insert q w head } : Driver).view = s.view := by
  have hloc : (fun w' => if w'.isCall = true then (s.queues.insert q w head).loc w' else none) =
      s.view.loc := by
    funext w'
    by_cases hw' : w'.isCall = true
    · have hne : w' ≠ w := fun e => by rw [e, hw] at hw'; cases hw'
      simp [view, hw', Queues.insert_loc_of_ne _ _ _ hne]
    · simp [view, hw']
  exact congrArg (fun loc => { s.view with loc := loc }) hloc

theorem view_dequeue (s : Driver) (w : Work) : (s.dequeueWork w).view = s.view.dequeue w := by
  have hloc : (fun w' => if w'.isCall = true then (s.queues.remove w).loc w' else none) =
      (s.view.dequeue w).loc := by
    funext w'
    simp only [Calls.dequeue, Queues.remove_loc, view]
    by_cases hne : w' = w
    · simp [hne]
    · simp [hne]
  exact congrArg (fun loc => { s.view with loc := loc }) hloc

theorem view_dequeue_other (s : Driver) {w : Work} (hw : w.isCall = false) :
    (s.dequeueWork w).view = s.view := by
  have hloc : (fun w' => if w'.isCall = true then (s.queues.remove w).loc w' else none) =
      s.view.loc := by
    funext w'
    by_cases hw' : w'.isCall = true
    · have hne : w' ≠ w := fun e => by rw [e, hw] at hw'; cases hw'
      simp [view, hw', Queues.remove_loc, hne]
    · simp [view, hw']
  exact congrArg (fun loc => { s.view with loc := loc }) hloc

/-! ## Releasing a transaction -/

/-- The driver pops a stack as the call machine does. -/
theorem view_popFrom (s : Driver) (th : Option ThreadId) (t : TxnId) (parent : Option TxnId) :
    (s.popFrom th t parent).view = s.view.popFrom th t parent := by
  cases th with
  | none => rfl
  | some th =>
      have hpop : (s.popStack th t parent).view = s.view.updThread th fun thread =>
          if thread.stack = some t then { thread with stack := parent } else thread :=
        view_updThread s th fun thread => by
          by_cases ht : thread.transactionStack = some t <;> simp [Thread.view, ht]
      refine hpop.trans ?_
      simp only [Calls.popFrom, Calls.stackOf]
      -- the machine looks first and writes only if the top is `t`
      have hthreads : ∀ g : Table ThreadView, g = (if (s.view.threads th).bind (·.stack) = some t
          then s.view.setStack th parent else s.view).threads →
          { s.view with threads := g } = if (s.view.threads th).bind (·.stack) = some t then
            s.view.setStack th parent else s.view := by
        rintro g rfl
        split <;> rfl
      refine hthreads _ ?_
      funext th'
      cases hx : s.view.threads th with
      | none =>
          by_cases hth : th' = th
          · subst hth
            simp [hx]
          · simp [hth]
      | some thread =>
          by_cases hth : th' = th
          · subst hth
            by_cases ht : thread.stack = some t <;>
              simp [hx, ht, Calls.setStack, Calls.updThread, Calls.setThread]
          · by_cases ht : thread.stack = some t <;>
              simp [hth, ht, Calls.setStack, Calls.updThread, Calls.setThread]

theorem view_freeTransaction (s : Driver) (t : TxnId) :
    (s.freeTransaction t).view = s.view.freeTransaction t := by
  unfold freeTransaction Calls.freeTransaction
  have htxns : s.view.txns t = s.txns t := rfl
  rw [htxns]
  cases s.txns t with
  | none => rfl
  | some x =>
      simp only [view_forgetTxn, view_detachBuffer, view_popFrom, view_dequeue]

/-! ## Errors -/

theorem view_queueError (s : Driver) (th : ThreadId) (br : BR) :
    (s.queueError th br).view = s.view.queueError th br := by
  unfold queueError Calls.queueError
  refine (view_insert_call _ (.thread th) false rfl).trans ?_
  rw [view_updThread s th (g := fun thread => { thread with error := br }) fun _ => rfl]
  rfl

theorem view_txnError (s : Driver) (th : ThreadId) (br : BR) :
    (s.txnError th br).view = s.view.refuse th br := by
  unfold txnError Calls.refuse
  rw [view_note, view_queueError]
  rfl

theorem view_wakeupProc (s : Driver) (p : ProcId) : (s.wakeupProc p).view = s.view := rfl

theorem view_wakeupThread (s : Driver) (th : ThreadId) : (s.wakeupThread th).view = s.view := by
  unfold wakeupThread
  split <;> rfl

theorem view_live (s : Driver) (th : ThreadId) :
    s.view.live th = ((s.threads th).map fun thread => !thread.isDead).getD false := by
  simp only [Calls.live, view]
  cases s.threads th <;> rfl

theorem view_failCaller (s : Driver) (sender : Option ThreadId) (t : TxnId) (br : BR) :
    (s.failCaller sender t br).view = s.view.answer sender t br := by
  cases sender with
  | none => rfl
  | some th =>
      simp only [failCaller, Calls.answer, view_live]
      cases s.threads th with
      | none => rfl
      | some thread =>
          by_cases hd : thread.isDead = true
          · simp [hd]
          · simp [hd, view_note, view_wakeupThread, view_queueError]

theorem view_failUndelivered (s : Driver) (t : TxnId) (br : BR) :
    (s.failUndelivered t br).view = s.view.failUndelivered t br := by
  have htxns : s.view.txns t = s.txns t := rfl
  simp only [failUndelivered, Calls.failUndelivered, liveSender, htxns, view_live]
  cases (s.txns t).bind (·.fromThread) with
  | none => rfl
  | some th =>
      cases hx : s.threads th with
      | none => simp [hx, view_note]
      | some thread =>
          by_cases hd : thread.isDead = true
          · simp [hx, hd, view_note]
          · simp [hx, hd, view_failCaller]

end Driver

end Binder
