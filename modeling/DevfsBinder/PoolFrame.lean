import DevfsBinder.AccountingSpecs
import DevfsBinder.AddressSupply
import DevfsBinder.ReadRefinement

/-!
# What the bookkeeping leaves alone

Reference counts, payloads, death records and queues are one side of the
driver; processes with their pools of threads, and reads in progress, are the
other.  `standing` is that other side: the process records, who holds the lock,
the process each thread belongs to and the reads, except for whether a sleeper
has been woken.  Everything the write loop and the accounting do keeps it,
apart from `BC_REGISTER_LOOPER`.
-/

namespace Binder

/-- A read, with the sleeper not told whether it was woken. -/
def ReadCall.unwoken (rc : ReadCall) : ReadCall :=
  match rc.status with
  | .asleep chan _ => { rc with status := .asleep chan false }
  | _ => rc

@[simp] theorem ReadCall.unwoken_wake (c : Channel) (rc : ReadCall) :
    (rc.wake c).unwoken = rc.unwoken := by
  unfold ReadCall.wake
  split
  · rename_i chan woken hstatus
    split
    · simp only [ReadCall.unwoken, hstatus]
    · rfl
  · rfl

/-- Processes, threads and reads. -/
structure Standing where
  procs : Table Proc
  lockedBy : Option ThreadId
  home : Table ProcId
  reads : Table ReadCall

namespace Driver

variable (s : Driver)

def standing : Standing where
  procs := s.procs
  lockedBy := s.lockedBy
  home th := (s.threads th).map (·.proc)
  reads th := (s.calls th).map ReadCall.unwoken

/-! ## Single changes -/

@[simp] theorem bumpId_standing : s.bumpId.standing = s.standing := rfl

@[simp] theorem allocMem_standing (env : Env) : (s.allocMem env).2.standing = s.standing := rfl

@[simp] theorem updNode_standing (n : NodeId) (f : Node → Node) :
    (s.updNode n f).standing = s.standing := rfl

@[simp] theorem updRef_standing (r : RefId) (f : Ref → Ref) :
    (s.updRef r f).standing = s.standing := rfl

@[simp] theorem updTxn_standing (t : TxnId) (f : Txn → Txn) :
    (s.updTxn t f).standing = s.standing := rfl

@[simp] theorem updDeath_standing (d : DeathId) (f : Death → Death) :
    (s.updDeath d f).standing = s.standing := rfl

@[simp] theorem updArena_standing (p : ProcId) (f : Arena → Arena) :
    (s.updArena p f).standing = s.standing := rfl

@[simp] theorem updContext_standing (c : Nat) (f : Context → Context) :
    (s.updContext c f).standing = s.standing := rfl

@[simp] theorem updBuffer_standing (p : ProcId) (b : BufferId) (f : Buffer → Buffer) :
    (s.updBuffer p b f).standing = s.standing := rfl

@[simp] theorem updStats_standing (f : Stats → Stats) : (s.updStats f).standing = s.standing := rfl

@[simp] theorem note_standing (e : Event) : (s.note e).standing = s.standing := rfl

@[simp] theorem tell_standing (th : ThreadId) (cmd : BR) (w : Work) :
    (s.tell th cmd w).standing = s.standing := rfl

@[simp] theorem enqueueWork_standing (p : ProcId) (w : Work) :
    (s.enqueueWork p w).standing = s.standing := rfl

@[simp] theorem enqueueThreadWork_standing (th : ThreadId) (w : Work) :
    (s.enqueueThreadWork th w).standing = s.standing := rfl

@[simp] theorem dequeueWork_standing (w : Work) : (s.dequeueWork w).standing = s.standing := rfl

@[simp] theorem linkBehindNode_standing (n : NodeId) (t : TxnId) :
    (s.linkBehindNode n t).standing = s.standing := rfl

@[simp] theorem putBack_standing (q : Queue) (w : Work) :
    (s.putBack q w).standing = s.standing := rfl

@[simp] theorem insertTxn_standing (t : TxnId) (x : Txn) :
    (s.insertTxn t x).standing = s.standing := rfl

@[simp] theorem insertDeath_standing (d : DeathId) (death : Death) :
    (s.insertDeath d death).standing = s.standing := rfl

@[simp] theorem forgetDeath_standing (d : DeathId) : (s.forgetDeath d).standing = s.standing := rfl

@[simp] theorem forgetTxn_standing (t : TxnId) : (s.forgetTxn t).standing = s.standing := rfl

@[simp] theorem insertNode_standing (n : NodeId) (p : ProcId) (ptr cookie flags : Nat) :
    (s.insertNode n p ptr cookie flags).standing = s.standing := rfl

@[simp] theorem unlistNode_standing (p : ProcId) (n : NodeId) :
    (s.unlistNode p n).standing = s.standing := rfl

@[simp] theorem forgetNode_standing (n : NodeId) : (s.forgetNode n).standing = s.standing := rfl

@[simp] theorem insertRef_standing (r : RefId) (p : ProcId) (n : NodeId) :
    (s.insertRef r p n).standing = s.standing := rfl

@[simp] theorem forgetRef_standing (r : RefId) (ref : Ref) :
    (s.forgetRef r ref).standing = s.standing := rfl

@[simp] theorem selWakeup_standing (p : ProcId) : (s.selWakeup p).standing = s.standing := rfl

@[simp] theorem wake_standing (c : Channel) : (s.wake c).standing = s.standing := by
  unfold standing wake
  congr 1
  funext th
  simp [Function.comp_def]

/-- A thread keeps its process. -/
theorem updThread_standing (th : ThreadId) {f : Thread → Thread}
    (hf : ∀ thread, (f thread).proc = thread.proc) : (s.updThread th f).standing = s.standing := by
  unfold standing updThread
  congr 1
  funext th'
  by_cases h : th' = th
  · subst h
    simp [Function.comp_def, hf]
  · simp [h]

/-! ## Wake-ups and errors -/

@[simp] theorem wakeupProc_standing (p : ProcId) : (s.wakeupProc p).standing = s.standing := by
  simp [wakeupProc]

@[simp] theorem wakeupThread_standing (th : ThreadId) :
    (s.wakeupThread th).standing = s.standing := by
  unfold wakeupThread
  split <;> simp

@[simp] theorem setStack_standing (th : ThreadId) (top : Option TxnId) :
    (s.setStack th top).standing = s.standing :=
  s.updThread_standing th fun _ => rfl

@[simp] theorem queueError_standing (th : ThreadId) (br : BR) :
    (s.queueError th br).standing = s.standing := by
  unfold queueError
  rw [enqueueThreadWork_standing]
  exact s.updThread_standing th fun _ => rfl

@[simp] theorem txnError_standing (th : ThreadId) (br : BR) :
    (s.txnError th br).standing = s.standing := by
  simp [txnError]

@[simp] theorem failCaller_standing (sender : Option ThreadId) (t : TxnId) (br : BR) :
    (s.failCaller sender t br).standing = s.standing := by
  unfold failCaller
  split
  · rfl
  split
  · rfl
  split <;> simp

@[simp] theorem failUndelivered_standing (t : TxnId) (br : BR) :
    (s.failUndelivered t br).standing = s.standing := by
  unfold failUndelivered
  split <;> simp

/-! ## Transactions -/

@[simp] theorem popStack_standing (th : ThreadId) (t : TxnId) (parent : Option TxnId) :
    (s.popStack th t parent).standing = s.standing := by
  refine s.updThread_standing th fun thread => ?_
  split <;> rfl

@[simp] theorem popFrom_standing (th : Option ThreadId) (t : TxnId) (parent : Option TxnId) :
    (s.popFrom th t parent).standing = s.standing := by
  unfold popFrom
  split <;> simp

@[simp] theorem detachBuffer_standing (p : ProcId) (b : Option BufferId) :
    (s.detachBuffer p b).standing = s.standing := by
  unfold detachBuffer
  split <;> simp

@[simp] theorem freeTransaction_standing (t : TxnId) :
    (s.freeTransaction t).standing = s.standing := by
  unfold freeTransaction
  split <;> simp

/-! ## Nodes and handles -/

@[simp] theorem nodeNew_standing (env : Env) (p : ProcId) (ptr cookie flags : Nat) :
    (s.nodeNew env p ptr cookie flags).2.standing = s.standing := by
  unfold nodeNew allocMem
  split
  · rfl
  · cases env.allocOk s.nextId <;> rfl

@[simp] theorem dropAsync_standing (w : Work) : (s.dropAsync w).standing = s.standing := by
  unfold dropAsync
  split <;> simp

@[simp] theorem clearManager_standing (p : ProcId) (n : NodeId) :
    (s.clearManager p n).standing = s.standing := by
  unfold clearManager
  split
  · rfl
  split <;> simp

@[simp] theorem nodeFree_standing (n : NodeId) (nd : Node) :
    (s.nodeFree n nd).standing = s.standing := by
  unfold nodeFree
  have hdrop := foldl_kept standing dropAsync_standing (s.items (.node n)) s
  simp only
  split <;> simp [hdrop]

@[simp] theorem nodeMaybeFree_standing (n : NodeId) :
    (s.nodeMaybeFree n).standing = s.standing := by
  unfold nodeMaybeFree
  split
  · rfl
  split
  · rfl
  split
  · rfl
  split <;> simp

@[simp] theorem nodeIncTmpref_standing (n : NodeId) :
    (s.nodeIncTmpref n).standing = s.standing := rfl

@[simp] theorem nodeDecTmpref_standing (n : NodeId) :
    (s.nodeDecTmpref n).standing = s.standing := by
  simp [nodeDecTmpref]

@[simp] theorem nodeNotifyOwner_standing (n : NodeId) (thread : Option ThreadId) :
    (s.nodeNotifyOwner n thread).standing = s.standing := by
  unfold nodeNotifyOwner
  split
  · rfl
  split
  · rfl
  split
  · rfl
  split
  · rfl
  split
  · split <;> simp
  · simp

@[simp] theorem nodeUpdateRefs_standing (n : NodeId) (strong increment internal : Bool)
    (thread : Option ThreadId) :
    (s.nodeUpdateRefs n strong increment internal thread).1.standing = s.standing := by
  unfold nodeUpdateRefs
  split
  · rfl
  split
  · rfl
  simp only
  split <;> simp

@[simp] theorem notifyDeath_standing (r : RefId) : (s.notifyDeath r).standing = s.standing := by
  unfold notifyDeath
  split
  · rfl
  split
  · rfl
  split <;> simp

@[simp] theorem nodeDied_standing (n : NodeId) : (s.nodeDied n).standing = s.standing := by
  simp [nodeDied, foldl_kept standing notifyDeath_standing]

@[simp] theorem refGetForNode_standing (env : Env) (p : ProcId) (n : NodeId) :
    (s.refGetForNode env p n).2.standing = s.standing := by
  unfold refGetForNode allocMem
  split
  · rfl
  · cases env.allocOk s.nextId <;> rfl

@[simp] theorem releaseDeath_standing (death : Option DeathId) :
    (s.releaseDeath death).standing = s.standing := by
  unfold releaseDeath
  split <;> simp

@[simp] theorem refDelete_standing (r : RefId) : (s.refDelete r).standing = s.standing := by
  unfold refDelete
  split <;> simp

@[simp] theorem refReap_standing (r : RefId) : (s.refReap r).standing = s.standing := by
  exact refReap_rule (P := fun s' => s'.standing = s.standing) r rfl (refDelete_standing s r)

@[simp] theorem refUpdate_standing (r : RefId) (strong increment : Bool)
    (thread : Option ThreadId) :
    (s.refUpdate r strong increment thread).1.standing = s.standing := by
  apply refUpdate_rule (P := fun s' => s'.standing = s.standing) r strong increment thread rfl
  · exact fun s₁ n h => (nodeUpdateRefs_standing s₁ n true increment true thread).trans h
  · exact fun _ _ _ h => h
  · exact fun _ _ _ h => h
  · exact fun s₁ h => (refReap_standing s₁ r).trans h

/-- The driver a call left behind, when its result is taken apart. -/
theorem standing_of_eq {α : Type} {s s₁ : Driver} {r : α × Driver} {a : α} (h : r = (a, s₁))
    (hr : r.2.standing = s.standing) : s₁.standing = s.standing := by
  rw [h] at hr
  exact hr

@[simp] theorem contextMgrSet_standing (env : Env) (p : ProcId) (ptr cookie flags : Nat) :
    (s.contextMgrSet env p ptr cookie flags).1.standing = s.standing := by
  unfold contextMgrSet
  split
  · rfl
  simp only
  split
  · rfl
  split
  · rfl
  split
  · rename_i s₁ heq
    exact standing_of_eq heq (nodeNew_standing ..)
  · rename_i n s₁ heq
    have hs₁ : s₁.standing = s.standing := standing_of_eq heq (nodeNew_standing ..)
    simp [hs₁]

@[simp] theorem deathRequest_standing (env : Env) (p : ProcId) (th : ThreadId)
    (handle cookie : Nat) :
    (s.deathRequest env p th handle cookie).1.standing = s.standing := by
  unfold deathRequest
  split
  · rfl
  split
  · rfl
  split
  · rfl
  split
  · rename_i s₁ heq
    exact standing_of_eq heq (allocMem_standing ..)
  · rename_i d s₁ heq
    have hs₁ : s₁.standing = s.standing := standing_of_eq heq (allocMem_standing ..)
    simp only
    split <;> simp [hs₁]

@[simp] theorem deathClear_standing (p : ProcId) (th : ThreadId) (handle cookie : Nat) :
    (s.deathClear p th handle cookie).1.standing = s.standing := by
  unfold deathClear
  split
  · rfl
  split
  · rfl
  split
  · rfl
  simp only
  split <;> simp

/-! ## Arenas and payloads -/

@[simp] theorem arenaRegister_standing (env : Env) (p : ProcId) (addr size : Nat) :
    (s.arenaRegister env p addr size).1.standing = s.standing := by
  unfold arenaRegister
  split
  · rfl
  split
  · rfl
  split
  · rfl
  split
  · rfl
  split
  · rename_i s₁ heq
    exact standing_of_eq heq (allocMem_standing ..)
  · rename_i b s₁ heq
    have hs₁ : s₁.standing = s.standing := standing_of_eq heq (allocMem_standing ..)
    simp [hs₁]

@[simp] theorem arenaTeardown_standing (p : ProcId) :
    (s.arenaTeardown p).standing = s.standing := rfl

@[simp] theorem bufferAlloc_standing (env : Env) (p : ProcId)
    (dataSize offsetsSize extraSize : Nat) (isAsync : Bool) :
    (s.bufferAlloc env p dataSize offsetsSize extraSize isAsync).2.standing = s.standing := by
  rcases s.bufferAlloc_ends env p dataSize offsetsSize extraSize isAsync with heq | heq |
    ⟨hole, split, s₁, -, -, -, ⟨-, rfl, -⟩ | ⟨-, rfl, -⟩, heq⟩ <;> rw [heq] <;> rfl

@[simp] theorem bufferFree_standing (p : ProcId) (b : BufferId) :
    (s.bufferFree p b).standing = s.standing := by
  unfold bufferFree
  split
  · rfl
  split <;> simp

@[simp] theorem releaseObject_standing (p : ProcId) (kdata : LittleEndian.Bytes)
    (dataSize off : Nat) : (s.releaseObject p kdata dataSize off).standing = s.standing := by
  unfold releaseObject
  split
  · split <;> simp
  · split <;> simp
  · split <;> simp
  · split <;> simp
  · rfl

@[simp] theorem bufferRelease_standing (p : ProcId) (b : BufferId) :
    (s.bufferRelease p b).standing = s.standing := by
  unfold bufferRelease
  split
  · rfl
  split
  · rfl
  · exact foldl_kept standing (fun s _ => s.releaseObject_standing ..) _ s

@[simp] theorem releaseAndFree_standing (p : ProcId) (b : BufferId) :
    (s.releaseAndFree p b).standing = s.standing := by
  simp [releaseAndFree]

@[simp] theorem releasePayload_standing (p : ProcId) (b : Option BufferId) :
    (s.releasePayload p b).standing = s.standing := by
  unfold releasePayload
  split <;> simp

@[simp] theorem dropTransaction_standing (p : ProcId) (t : TxnId) :
    (s.dropTransaction p t).standing = s.standing := by
  simp [dropTransaction]

/-! ## Sends -/

theorem translateLoop_standing (c : Parcel) (ls : LoopState) (is : List Nat) :
    (translateLoop c ls is).1.drv.standing = ls.drv.standing := by
  have hkept : KeptByTranslation c fun _ s => s.standing = ls.drv.standing :=
    ⟨id, fun _ _ _ h => (nodeNew_standing ..).trans h,
      fun _ h => (refGetForNode_standing ..).trans h, fun _ _ h => (refUpdate_standing ..).trans h,
      fun _ _ h => (nodeUpdateRefs_standing ..).trans h⟩
  exact hkept.translateLoop (k := 0) rfl is

theorem Selected.Refines.sound {th : ThreadId} {reply oneway : Bool} {sel : Selected}
    (h : sel.Refines s th reply oneway) : Sound sel.drv := by
  cases sel with
  | refused s' => exact h.1
  | target s' tgt => exact h.1

theorem selectReply_standing (th : ThreadId) :
    (s.selectReply th).drv.standing = s.standing := by
  unfold selectReply
  split
  · simp [Selected.drv]
  simp only
  split
  · simp [Selected.drv]
  split
  · simp [Selected.drv]
  split <;> simp [Selected.drv]

theorem selectCall_standing (p : ProcId) (th : ThreadId) (handle : Nat) (oneway : Bool) :
    (s.selectCall p th handle oneway).drv.standing = s.standing := by
  unfold selectCall
  split
  · simp [Selected.drv]
  split <;> simp [Selected.drv]

theorem fetchPayload_standing (env : Env) (tp : ProcId) (tr : TransactionData)
    (extraSize : Nat) (oneway : Bool) :
    (fetchPayload env s tp tr extraSize oneway).drv.standing = s.standing := by
  apply fetchPayload_rule (P := fun r => r.drv.standing = s.standing)
  · rfl
  · intro s₁ h
    exact standing_of_eq h (bufferAlloc_standing ..)
  · intro b s₁ h
    have hs₁ : s₁.standing = s.standing := standing_of_eq h (bufferAlloc_standing ..)
    exact ⟨hs₁, hs₁, fun _ _ _ _ _ _ _ _ => hs₁⟩

@[simp] theorem queueTransaction_standing (th : ThreadId) (tgt : Target) (oneway : Bool)
    (t : TxnId) : (s.queueTransaction th tgt oneway t).standing = s.standing := by
  unfold queueTransaction
  split
  · simp only
    split <;> simp
  split
  · split
    · rfl
    split <;> simp
  · simp only
    split <;> simp

@[simp] theorem newTransaction_standing (env : Env) (p : ProcId) (th : ThreadId) (tgt : Target)
    (tr : TransactionData) (reply oneway : Bool) (b : BufferId) (t : TxnId) :
    (newTransaction env s p th tgt tr reply oneway b t).standing = s.standing := rfl

@[simp] theorem dropTarget_standing (tgt : Target) : (s.dropTarget tgt).standing = s.standing := by
  unfold dropTarget
  split <;> simp

@[simp] theorem refuseSend_standing (th : ThreadId) (tgt : Target) (buf : Option BufferId) :
    (s.refuseSend th tgt buf).standing = s.standing := by
  unfold refuseSend undoSend
  rw [dropTarget_standing]
  simp only
  split <;> simp

@[simp] theorem acceptSend_standing (env : Env) (p : ProcId) (th : ThreadId) (tgt : Target)
    (tr : TransactionData) (reply oneway : Bool) (b : BufferId) (t tcomplete : Nat) :
    (acceptSend env s p th tgt tr reply oneway b t tcomplete).standing = s.standing := by
  simp [acceptSend]

theorem sendTo_standing (env : Env) (p : ProcId) (th : ThreadId) (tgt : Target)
    (tr : TransactionData) (extraSize : Nat) (reply oneway : Bool) :
    (sendTo env s p th tgt tr extraSize reply oneway).standing = s.standing := by
  have hfetch := s.fetchPayload_standing env tgt.proc tr extraSize oneway
  rcases sendTo_ends env s p th tgt tr extraSize reply oneway with ⟨s₁, buf, hf, heq⟩ |
    ⟨s₁, buf, kdata, c, ls, error, s₂, hf, -, hloop, rfl, heq⟩
  · rw [hf] at hfetch
    rw [heq, refuseSend_standing]
    exact hfetch
  · rw [hf] at hfetch
    have hls := translateLoop_standing c { drv := s₁, kdata := kdata } (List.range c.count)
    rw [hloop] at hls
    have hstored : ls.drv.standing = s.standing := hls.trans hfetch
    rcases heq with heq | heq | heq <;> rw [heq] <;> simp [hstored]

@[simp] theorem transaction_standing (env : Env) (p : ProcId) (th : ThreadId)
    (tr : TransactionData) (reply isSg : Bool) :
    (transaction env s p th tr reply isSg).standing = s.standing := by
  apply transaction_rule (P := fun s' => s'.standing = s.standing)
    (Q := fun sel => sel.drv.standing = s.standing)
  · exact s.selectReply_standing th
  · exact s.selectCall_standing p th _ _
  · exact fun s₁ hsel => hsel
  · exact fun s₁ tgt hsel => (sendTo_standing ..).trans hsel

/-! ## Commands -/

@[simp] theorem writeRefCmd_standing (env : Env) (p : ProcId) (th : ThreadId)
    (strong increment : Bool) (desc : Nat) :
    (s.writeRefCmd env p th strong increment desc).1.standing = s.standing := by
  unfold writeRefCmd
  split
  · simp
  split
  · rfl
  split
  · rfl
  split
  · rename_i s₁ heq
    exact standing_of_eq heq (refGetForNode_standing ..)
  · rename_i r s₁ heq
    have hs₁ : s₁.standing = s.standing := standing_of_eq heq (refGetForNode_standing ..)
    simp [hs₁]

@[simp] theorem nextAsync_standing (p : ProcId) (n : NodeId) :
    (s.nextAsync p n).standing = s.standing := by
  unfold nextAsync
  split
  · rfl
  split
  · split <;> simp
  · rfl

@[simp] theorem writeFreeBuffer_standing (p : ProcId) (dataPtr : Nat) :
    (s.writeFreeBuffer p dataPtr).1.standing = s.standing := by
  unfold writeFreeBuffer
  split
  · rfl
  split
  · rfl
  simp only
  split <;> split <;> simp

@[simp] theorem writeDone_standing (p : ProcId) (strong : Bool) (ptr : Nat) :
    (s.writeDone p strong ptr).1.standing = s.standing := by
  unfold writeDone
  split <;> simp

@[simp] theorem enterLooper_standing (th : ThreadId) : (s.enterLooper th).standing = s.standing :=
  s.updThread_standing th fun _ => rfl

@[simp] theorem exitLooper_standing (th : ThreadId) : (s.exitLooper th).standing = s.standing :=
  s.updThread_standing th fun _ => rfl

/-- **A command keeps the standing**, unless a thread registers. -/
theorem writeCommand_standing (env : Env) (p : ProcId) (th : ThreadId) {c : Command}
    (hc : c ≠ .registerLooper) : (s.writeCommand env p th c).1.standing = s.standing := by
  cases c with
  | registerLooper => exact absurd rfl hc
  | reference strong increment desc => simp [writeCommand]
  | done strong ptr => simp [writeCommand]
  | freeBuffer ptr => simp [writeCommand]
  | transaction reply isSg tr => simp [writeCommand]
  | enterLooper => simp [writeCommand]
  | exitLooper => simp [writeCommand]
  | requestDeathNotification handle cookie => simp [writeCommand]
  | clearDeathNotification handle cookie => simp [writeCommand]
  | deadBinderDone cookie => rfl
  | refused => rfl

/-! ## Work items -/

theorem readNodeWork_standing (env : Env) (th : ThreadId) (n : NodeId) (rc : ReadCall) :
    (readNodeWork env s th n rc).drv.standing = s.standing := by
  apply readNodeWork_rule (P := fun h => h.drv.standing = s.standing) fun _ => rfl
  · exact fun _ _ _ _ _ _ _ hsame => (updNode_standing ..).trans hsame
  · exact fun _ _ hsame => (tell_standing ..).trans hsame
  · exact fun _ hsame => (nodeMaybeFree_standing ..).trans hsame

@[simp] theorem delivered_standing (p : ProcId) (th : ThreadId) (t : TxnId) (x : Txn)
    (buf : Buffer) : (s.delivered p th t x buf).standing = s.standing := by
  unfold delivered
  simp only
  split <;> simp

theorem readTransaction_standing (env : Env) (p : ProcId) (th : ThreadId) (t : TxnId)
    (rc : ReadCall) : (readTransaction env s p th t rc).drv.standing = s.standing := by
  cases hx : s.txns t with
  | none => simp only [readTransaction, hx]
  | some x =>
      cases hbuf : x.buffer.bind (s.findBuffer p) with
      | none => simp only [readTransaction, hx, hbuf]
      | some buf =>
          have htaken := readTransaction_taken env th rc hx hbuf
          generalize readTransaction env s p th t rc = h at htaken
          cases htaken with
          | stopped s' rc' error hdesc =>
              cases hdesc with
              | full => rfl
              | fault => rfl
              | torn => exact note_standing ..
              | tornFault => exact note_standing ..
          | delivered rc' rest hcmds => rw [delivered_standing, note_standing]
          | dropped kdata hkdata hout => rw [dropTransaction_standing, failUndelivered_standing]

theorem deathReported_standing (th : ThreadId) (d : DeathId) (w : DeathWork) :
    (s.deathReported th d w).standing = s.standing := by
  unfold deathReported
  split <;> simp

theorem readDeath_standing (env : Env) (th : ThreadId) (d : DeathId) (rc : ReadCall) :
    (readDeath env s th d rc).drv.standing = s.standing := by
  apply readDeath_rule (P := fun s' => s'.standing = s.standing) rfl
  intro death _ _
  rw [deathReported_standing, tell_standing]

/-- **A handled item keeps the standing.** -/
theorem readWork_standing (env : Env) (p : ProcId) (th : ThreadId) (w : Work) (rc : ReadCall) :
    (readWork env s p th w rc).drv.standing = s.standing := by
  cases w with
  | transaction t => exact readTransaction_standing ..
  | complete c =>
      rw [readWork]
      rcases Handled.put_drv (putCmd env rc .transactionComplete) s
        (s.note (.emit th .transactionComplete (.complete c))) with heq | heq
      · rw [heq]
      · rw [heq, note_standing]
  | returnError e =>
      rw [readWork]
      generalize ((s.threads e).map (·.returnError)).getD .ok = cmd
      rcases Handled.put_drv (putCmd env rc cmd) s
        ((s.updThread e fun thread => { thread with returnError := .ok }).note
          (.emit th cmd (.returnError e))) with heq | heq
      · rw [heq]
      · rw [heq, note_standing]
        exact s.updThread_standing e fun _ => rfl
  | node n => exact readNodeWork_standing ..
  | death d => exact readDeath_standing ..

/-! ## Teardown -/

theorem releaseCall_standing (p : ProcId) (th : ThreadId) (t : TxnId) :
    (s.releaseCall p th t).1.standing = s.standing := by
  unfold releaseCall
  split
  · rfl
  split
  · simp
  split
  · simp only
    split <;> simp
  · rfl

theorem releaseCalls_standing (p : ProcId) (th : ThreadId) (fuel : Nat) (top : Option TxnId) :
    (releaseCalls p th fuel s top).standing = s.standing := by
  induction fuel generalizing s top with
  | zero => rfl
  | succ fuel ih =>
      cases top with
      | none => rfl
      | some t =>
          rw [releaseCalls]
          simp only
          exact (ih _ _).trans (s.releaseCall_standing p th t)

theorem releaseThreadWork_standing (p : ProcId) (w : Work) :
    (releaseThreadWork p s w).standing = s.standing := by
  unfold releaseThreadWork
  simp only
  split
  · split <;> simp
  · simp

/-- What a thread's release keeps, up to the release of the record itself. -/
theorem threadRelease_standing (p : ProcId) (th : ThreadId) : ∃ s₁ : Driver,
    s₁.standing = s.standing ∧ s.threadRelease p th = s₁.forgetThread p th := by
  refine ⟨_, ?_, rfl⟩
  rw [foldl_kept standing fun s w => s.releaseThreadWork_standing p w, setStack_standing,
    releaseCalls_standing]
  exact s.updThread_standing th fun _ => rfl

end Driver

end Binder
