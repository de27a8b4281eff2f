import DevfsBinder.AccountingSteps

/-!
# Which calls hand out addresses

The model names records by addresses that are never reused, and `nextId` is the
first that is free.  Only an allocation moves it.  The lemmas of this file say
so for the functions a send is made of: everything but the allocations keeps
`nextId`, and a send allocates at most two records for every object its parcel
lists and four for itself.
-/

namespace Binder

namespace Driver

open LittleEndian

/-! ## Functions that allocate nothing -/

@[simp] theorem popFrom_nextId (s : Driver) (th : Option ThreadId) (t : TxnId)
    (parent : Option TxnId) : (s.popFrom th t parent).nextId = s.nextId := by
  unfold popFrom
  repeat' split
  all_goals rfl

@[simp] theorem detachBuffer_nextId (s : Driver) (p : ProcId) (buf : Option BufferId) :
    (s.detachBuffer p buf).nextId = s.nextId := by
  cases buf <;> rfl

@[simp] theorem freeTransaction_nextId (s : Driver) (t : TxnId) :
    (s.freeTransaction t).nextId = s.nextId := by
  unfold freeTransaction
  split
  · rfl
  · simp [forgetTxn, dequeueWork]

theorem dropAsync_nextId (s : Driver) (w : Work) : (s.dropAsync w).nextId = s.nextId := by
  unfold dropAsync
  split
  · exact freeTransaction_nextId _ _
  · rfl

@[simp] theorem clearManager_nextId (s : Driver) (p : ProcId) (n : NodeId) :
    (s.clearManager p n).nextId = s.nextId := by
  unfold clearManager
  repeat' split
  all_goals rfl

@[simp] theorem nodeMaybeFree_nextId (s : Driver) (n : NodeId) :
    (s.nodeMaybeFree n).nextId = s.nextId := by
  unfold nodeMaybeFree
  split
  · rfl
  · rename_i nd _
    have hdrain := foldl_kept Driver.nextId dropAsync_nextId (s.items (.node n)) s
    have hfree : (s.nodeFree n nd).nextId = s.nextId := by
      unfold nodeFree
      cases nd.proc with
      | none => exact hdrain
      | some p => exact (clearManager_nextId _ p n).trans hdrain
    repeat' split
    all_goals first | rfl | exact hfree

@[simp] theorem nodeNotifyOwner_nextId (s : Driver) (n : NodeId) (thread : Option ThreadId) :
    (s.nodeNotifyOwner n thread).nextId = s.nextId := by
  unfold nodeNotifyOwner
  repeat' split
  all_goals rfl

@[simp] theorem nodeDecTmpref_nextId (s : Driver) (n : NodeId) :
    (s.nodeDecTmpref n).nextId = s.nextId :=
  nodeMaybeFree_nextId _ n

@[simp] theorem nodeUpdateRefs_nextId (s : Driver) (n : NodeId)
    (strong increment internal : Bool) (thread : Option ThreadId) :
    (s.nodeUpdateRefs n strong increment internal thread).1.nextId = s.nextId := by
  unfold nodeUpdateRefs
  split
  · rfl
  · split
    · rfl
    · simp only [nodeMaybeFree_nextId]
      split
      · exact nodeNotifyOwner_nextId _ n thread
      · rfl

@[simp] theorem notifyDeath_nextId (s : Driver) (r : RefId) :
    (s.notifyDeath r).nextId = s.nextId := by
  unfold notifyDeath
  repeat' split
  all_goals rfl

@[simp] theorem nodeDied_nextId (s : Driver) (n : NodeId) : (s.nodeDied n).nextId = s.nextId :=
  foldl_kept Driver.nextId notifyDeath_nextId _ _

@[simp] theorem refDelete_nextId (s : Driver) (r : RefId) : (s.refDelete r).nextId = s.nextId := by
  unfold refDelete
  split
  · rfl
  · rename_i ref _
    simp only [nodeUpdateRefs_nextId]
    cases ref.death <;> rfl

@[simp] theorem refReap_nextId (s : Driver) (r : RefId) : (s.refReap r).nextId = s.nextId := by
  exact refReap_rule (P := fun s' => s'.nextId = s.nextId) r rfl (refDelete_nextId s r)

@[simp] theorem refUpdate_nextId (s : Driver) (r : RefId) (strong increment : Bool)
    (thread : Option ThreadId) :
    (s.refUpdate r strong increment thread).1.nextId = s.nextId := by
  apply refUpdate_rule (P := fun s' => s'.nextId = s.nextId) r strong increment thread rfl
  · exact fun s₁ n h => (nodeUpdateRefs_nextId s₁ n true increment true thread).trans h
  · exact fun _ _ _ h => h
  · exact fun _ _ _ h => h
  · exact fun s₁ h => (refReap_nextId s₁ r).trans h

@[simp] theorem queueError_nextId (s : Driver) (th : ThreadId) (br : BR) :
    (s.queueError th br).nextId = s.nextId := by
  unfold queueError
  rfl

@[simp] theorem wakeupThread_nextId (s : Driver) (th : ThreadId) :
    (s.wakeupThread th).nextId = s.nextId := by
  unfold wakeupThread
  repeat' split
  all_goals rfl

@[simp] theorem txnError_nextId (s : Driver) (th : ThreadId) (br : BR) :
    (s.txnError th br).nextId = s.nextId :=
  queueError_nextId _ th br

@[simp] theorem releaseObject_nextId (s : Driver) (p : ProcId) (kdata : Bytes)
    (dataSize off : Nat) : (s.releaseObject p kdata dataSize off).nextId = s.nextId := by
  unfold releaseObject
  repeat' split
  all_goals first | rfl | simp only [nodeUpdateRefs_nextId, refUpdate_nextId]

@[simp] theorem bufferFree_nextId (s : Driver) (p : ProcId) (b : BufferId) :
    (s.bufferFree p b).nextId = s.nextId := by
  unfold bufferFree
  repeat' split
  all_goals rfl

@[simp] theorem bufferRelease_nextId (s : Driver) (p : ProcId) (b : BufferId) :
    (s.bufferRelease p b).nextId = s.nextId := by
  unfold bufferRelease
  split
  · rfl
  · split
    · rfl
    · exact foldl_kept Driver.nextId (fun s i => releaseObject_nextId s p _ _ _) _ s

@[simp] theorem releasePayload_nextId (s : Driver) (p : ProcId) (buf : Option BufferId) :
    (s.releasePayload p buf).nextId = s.nextId := by
  cases buf with
  | none => rfl
  | some b => simp [releasePayload, releaseAndFree]

@[simp] theorem dropTarget_nextId (s : Driver) (tgt : Target) :
    (s.dropTarget tgt).nextId = s.nextId := by
  unfold dropTarget
  split
  · exact nodeDecTmpref_nextId s _
  · rfl

@[simp] theorem refuseSend_nextId (s : Driver) (th : ThreadId) (tgt : Target)
    (buf : Option BufferId) : (s.refuseSend th tgt buf).nextId = s.nextId := by
  have hundo : ((s.txnError th .failedReply).undoSend th tgt buf).nextId = s.nextId := by
    unfold undoSend
    simp only
    split
    · exact (releasePayload_nextId _ _ _).trans (txnError_nextId s th _)
    · exact (releasePayload_nextId _ _ _).trans (txnError_nextId s th _)
  exact (dropTarget_nextId _ tgt).trans hundo

@[simp] theorem queueTransaction_nextId (s : Driver) (th : ThreadId) (tgt : Target)
    (oneway : Bool) (t : TxnId) : (s.queueTransaction th tgt oneway t).nextId = s.nextId := by
  unfold queueTransaction
  split
  · rename_i call _
    have hfree := freeTransaction_nextId s call
    simp only
    split
    · exact (wakeupThread_nextId _ _).trans hfree
    · exact hfree
  · repeat' split
    all_goals first | rfl | exact wakeupThread_nextId _ _

/-! ## Allocations -/

theorem nodeNew_nextId_le (s : Driver) (env : Env) (p : ProcId) (ptr cookie flags : Nat) :
    (s.nodeNew env p ptr cookie flags).2.nextId ≤ s.nextId + 1 := by
  rcases s.nodeNew_ends env p ptr cookie flags with ⟨n, -, heq⟩ | ⟨-, heq⟩ | heq <;> rw [heq]
  · exact Nat.le_succ _
  · exact Nat.le_refl _
  · exact Nat.le_refl _

theorem refGetForNode_nextId_le (s : Driver) (env : Env) (p : ProcId) (n : NodeId) :
    (s.refGetForNode env p n).2.nextId ≤ s.nextId + 1 := by
  rcases s.refGetForNode_ends env p n with ⟨r, -, heq⟩ | ⟨-, heq⟩ | heq <;> rw [heq]
  · exact Nat.le_succ _
  · exact Nat.le_refl _
  · exact Nat.le_refl _

theorem bufferAlloc_nextId_le (s : Driver) (env : Env) (p : ProcId) (d o e : Nat)
    (isAsync : Bool) : (s.bufferAlloc env p d o e isAsync).2.nextId ≤ s.nextId + 1 := by
  rcases s.bufferAlloc_ends env p d o e isAsync with heq | heq |
    ⟨hole, split, s₁, -, -, -, ⟨-, rfl, -⟩ | ⟨-, rfl, -⟩, heq⟩ <;> rw [heq]
  · exact Nat.le_succ _
  · exact Nat.le_refl _
  · exact Nat.le_succ _
  · exact Nat.le_refl _

/-! ## A send -/

/-- The loop allocates two records for every entry at most. -/
theorem translateLoop_nextId_le (c : Parcel) (ls : LoopState) (entries : List Nat) :
    (translateLoop c ls entries).1.drv.nextId ≤ ls.drv.nextId + 2 * entries.length := by
  have hkept : KeptByTranslation c fun k s => s.nextId ≤ ls.drv.nextId + k := by
    constructor
    · intro k s h
      exact Nat.le_succ_of_le h
    · intro k s ptr cookie flags h
      exact Nat.le_trans (nodeNew_nextId_le ..) (Nat.succ_le_succ h)
    · intro k s n h
      exact Nat.le_trans (refGetForNode_nextId_le ..) (Nat.succ_le_succ h)
    · intro k s r strong h
      rwa [refUpdate_nextId]
    · intro k s n strong h
      rwa [nodeUpdateRefs_nextId]
  have hloop := hkept.translateLoop (k := 0) (Nat.le_refl _) entries
  rwa [Nat.zero_add] at hloop

theorem fetchPayload_nextId_le (env : Env) (s : Driver) (tp : ProcId) (tr : TransactionData)
    (extraSize : Nat) (oneway : Bool) :
    (fetchPayload env s tp tr extraSize oneway).drv.nextId ≤ s.nextId + 2 := by
  have hbuf := bufferAlloc_nextId_le s env tp tr.dataSize tr.offsetsSize extraSize oneway
  apply fetchPayload_rule (P := fun r => r.drv.nextId ≤ s.nextId + 2)
  · exact Nat.le_add_right _ _
  · intro s₁ h
    rw [h] at hbuf
    exact Nat.le_succ_of_le hbuf
  · intro b s₁ h
    rw [h] at hbuf
    have hbump : s₁.nextId + 1 ≤ s.nextId + 2 := Nat.succ_le_succ hbuf
    exact ⟨hbump, hbump, fun _ _ _ _ _ _ _ _ => hbump⟩

theorem fetchPayload_offsets_le {env : Env} {s s' : Driver} {tp : ProcId}
    {tr : TransactionData} {extraSize : Nat} {oneway : Bool} {buf : Buffer} {kdata : Bytes}
    (h : fetchPayload env s tp tr extraSize oneway = .ready s' buf kdata) :
    tr.offsetsSize ≤ maxTransactionSize := by
  have hsizes := (fetchPayload_ready h).1
  simp only [sizesOk, Bool.and_eq_true, decide_eq_true_eq] at hsizes
  exact hsizes.1.1.2

theorem acceptSend_nextId (env : Env) (s : Driver) (p : ProcId) (th : ThreadId) (tgt : Target)
    (tr : TransactionData) (reply oneway : Bool) (b : BufferId) (t tcomplete : Nat) :
    (acceptSend env s p th tgt tr reply oneway b t tcomplete).nextId = s.nextId := by
  unfold acceptSend
  exact (dropTarget_nextId _ tgt).trans (queueTransaction_nextId _ th tgt oneway t)

/-- The records a send may allocate: two for each object its parcel has room
to list, and four for itself. -/
def sendCost : Nat := 2 * (maxTransactionSize / 8) + 4

/-- A send spends no more than two addresses for each object and four besides. -/
theorem sendTo_nextId_le (env : Env) (s : Driver) (p : ProcId) (th : ThreadId) (tgt : Target)
    (tr : TransactionData) (extraSize : Nat) (reply oneway : Bool) :
    (sendTo env s p th tgt tr extraSize reply oneway).nextId ≤ s.nextId + sendCost := by
  have hfetch := fetchPayload_nextId_le env s tgt.proc tr extraSize oneway
  unfold sendCost
  rcases sendTo_ends env s p th tgt tr extraSize reply oneway with ⟨s₁, buf, hf, heq⟩ |
    ⟨s₁, buf, kdata, c, ls, error, s₂, hf, rfl, hloop, hs₂, heq⟩
  · rw [hf] at hfetch
    rw [heq, refuseSend_nextId]
    exact Nat.le_trans hfetch (by omega)
  · rw [hf] at hfetch
    have hcount : tr.offsetsSize / 8 ≤ maxTransactionSize / 8 :=
      Nat.div_le_div_right (fetchPayload_offsets_le hf)
    have hle := translateLoop_nextId_le (parcelOf env s₁ p th tgt tr extraSize buf)
      { drv := s₁, kdata := kdata } (List.range (tr.offsetsSize / 8))
    rw [show translateLoop _ _ (List.range (tr.offsetsSize / 8)) = _ from hloop,
      List.length_range] at hle
    have hstored : s₂.nextId = ls.drv.nextId := by rw [← hs₂]; rfl
    simp only [Fetched.drv] at hfetch hle
    rcases heq with heq | heq | heq
    · rw [heq, refuseSend_nextId]
      omega
    · rw [heq, refuseSend_nextId]
      simp only [bumpId]
      omega
    · rw [heq, acceptSend_nextId]
      simp only [bumpId]
      omega

/-- The state a choice of receiver leaves. -/
def Selected.drv : Selected → Driver
  | .refused s => s
  | .target s _ => s

theorem selectReply_nextId (s : Driver) (th : ThreadId) :
    (s.selectReply th).drv.nextId = s.nextId := by
  rcases s.selectReply_ends th with heq | ⟨t, s₁, -, rfl, ⟨heq, -⟩ | ⟨_, _, -, -, -, heq⟩⟩ <;>
    rw [heq]
  · exact txnError_nextId s th _
  · exact (freeTransaction_nextId ..).trans (txnError_nextId ..)
  · rfl

theorem selectCall_nextId (s : Driver) (p : ProcId) (th : ThreadId) (handle : Nat)
    (oneway : Bool) : (s.selectCall p th handle oneway).drv.nextId = s.nextId := by
  unfold selectCall
  split
  · exact txnError_nextId s th _
  · split
    · exact txnError_nextId s th _
    · rfl

/-- **What a send allocates.** -/
theorem transaction_nextId_le (env : Env) (s : Driver) (p : ProcId) (th : ThreadId)
    (tr : TransactionData) (reply isSg : Bool) :
    (transaction env s p th tr reply isSg).nextId ≤ s.nextId + sendCost := by
  apply transaction_rule (P := fun s' => s'.nextId ≤ s.nextId + sendCost)
    (Q := fun sel => sel.drv.nextId = s.nextId)
  · exact selectReply_nextId s th
  · exact selectCall_nextId s p th tr.handle _
  · intro s₁ hsel
    exact hsel ▸ Nat.le_add_right _ _
  · intro s₁ tgt hsel
    exact hsel ▸ sendTo_nextId_le env s₁ p th tgt tr _ reply _

end Driver

end Binder
