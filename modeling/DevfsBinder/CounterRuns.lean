import DevfsBinder.CounterAudit
import DevfsBinder.PoolSleepers
import DevfsBinder.SendRefinement

/-!
# The counters are right in every state

What the objects and the arenas keep, the sends, the commands, the reads and the
teardown keep too, and with them every run.  A send is the one place where the
books are open for a while: the payload is counted when the kernel has copied it,
and reaches its buffer when it has been translated.
-/

namespace Binder

namespace Driver

open Roll

variable {s : Driver} {k : ℤ}

theorem audited_of_eq {α : Type} {s₁ : Driver} {r : α × Driver} {a : α} (heq : r = (a, s₁))
    (h : r.2.roll.Audited k) : s₁.roll.Audited k := by
  rw [heq] at h
  exact h

theorem Audited.allocMem (h : s.roll.Audited k) (env : Env) :
    (s.allocMem env).2.roll.Audited k := by
  unfold Driver.allocMem
  split
  · exact Audited.bumpId h
  · exact Audited.bumpId h

/-! ## Requests about objects -/

theorem Audited.contextMgrSet (h : s.roll.Audited k) (env : Env) (p : ProcId)
    (ptr cookie flags : Nat) :
    (s.contextMgrSet env p ptr cookie flags).1.roll.Audited k := by
  unfold Driver.contextMgrSet
  split
  · exact h
  rename_i proc _
  simp only
  split
  · exact h
  split
  · exact h
  have hnew := Audited.nodeNew (Audited.of_eq h (s.updContext_roll proc.context fun ctx =>
    { ctx with mgrUid := env.uid, mgrUidValid := true })) env p ptr cookie flags
  split
  · rename_i s₁ heq
    exact audited_of_eq heq hnew
  · rename_i n s₁ heq
    exact Audited.of_eq (audited_of_eq heq hnew) (by simp)

/-- `BC_REQUEST_DEATH_NOTIFICATION` makes at most a record, which nothing counts. -/
theorem Audited.deathRequest (h : s.roll.Audited k) (env : Env) (p : ProcId) (th : ThreadId)
    (handle cookie : Nat) : (s.deathRequest env p th handle cookie).1.roll.Audited k := by
  unfold Driver.deathRequest
  split
  · exact h
  split
  · exact h
  split
  · exact h
  split
  · rename_i s₁ heq
    exact audited_of_eq heq (Audited.allocMem h env)
  · rename_i d s₁ heq
    apply Audited.of_eq (audited_of_eq heq (Audited.allocMem h env))
    simp only
    split
    · simp
    · simp

theorem deathClear_roll (s : Driver) (p : ProcId) (th : ThreadId) (handle cookie : Nat) :
    (s.deathClear p th handle cookie).1.roll = s.roll := by
  unfold deathClear
  split
  · rfl
  split
  · rfl
  split
  · rfl
  simp only
  split
  · simp
  · simp

/-! ## Payloads -/

theorem Audited.releaseObject (h : s.roll.Audited k) (p : ProcId) (kdata : LittleEndian.Bytes)
    (dataSize off : Nat) : (s.releaseObject p kdata dataSize off).roll.Audited k :=
  releaseObject_rule (P := fun s' => s'.roll.Audited k) s p kdata dataSize off h
    (fun _ _ _ => Audited.nodeUpdateRefs h ..) fun _ _ _ _ _ => Audited.refUpdate h ..

theorem Audited.bufferRelease (h : s.roll.Audited k) (p : ProcId) (b : BufferId) :
    (s.bufferRelease p b).roll.Audited k := by
  unfold Driver.bufferRelease
  split
  · exact h
  split
  · exact h
  · exact foldl_audited (fun s _ h => Audited.releaseObject h ..) _ h

theorem Audited.releaseAndFree (h : s.roll.Audited k) (p : ProcId) (b : BufferId) :
    (s.releaseAndFree p b).roll.Audited k :=
  Audited.bufferFree (Audited.bufferRelease h p b) p b

theorem Audited.releasePayload (h : s.roll.Audited k) (p : ProcId) (b : Option BufferId) :
    (s.releasePayload p b).roll.Audited k := by
  unfold Driver.releasePayload
  split
  · exact Audited.releaseAndFree h p _
  · exact h

theorem Audited.dropTransaction (h : s.roll.Audited k) (p : ProcId) (t : TxnId) :
    (s.dropTransaction p t).roll.Audited k :=
  Audited.freeTransaction (Audited.releasePayload h p _) t

/-! ## The translation of a payload -/

theorem translateLoop_audited (c : Parcel) (ls : LoopState) (h : ls.drv.roll.Audited k)
    (entries : List Nat) : (translateLoop c ls entries).1.drv.roll.Audited k := by
  have hkept : KeptByTranslation c fun _ s => s.roll.Audited k :=
    ⟨id, fun _ _ _ h => Audited.nodeNew h .., fun _ h => Audited.refGetForNode h ..,
      fun _ _ h => Audited.refUpdate h .., fun _ _ h => Audited.nodeUpdateRefs h ..⟩
  exact hkept.translateLoop (k := 0) h entries

theorem freeTransaction_shelves (s : Driver) (t : TxnId) :
    (s.freeTransaction t).roll.shelves = s.roll.shelves := by
  cases hx : s.txns t with
  | none => simp only [Driver.freeTransaction, hx]
  | some x =>
      obtain ⟨s₁, hroll, heq⟩ := freeTransaction_forgets hx
      have hshelves : s₁.roll.shelves = s.roll.shelves := congrArg Roll.shelves hroll
      rw [heq]
      exact hshelves

/-- Changes to objects leave the payloads where they are. -/
theorem ObjectStep.shelves {O : ProcId → Prop} {s' : Driver} (h : ObjectStep O s s') :
    s'.roll.shelves = s.roll.shelves := by
  cases h with
  | drop n t _ => exact freeTransaction_shelves (s.dequeueWork (.transaction t)) t
  | bump => rfl
  | stats f => rfl
  | wake c => rfl
  | sel p => rfl
  | context c f _ => rfl
  | deaths deaths freed => rfl
  | tell th cmd w => rfl
  | queueNode n p q _ _ => rfl
  | queueDeath q d _ => rfl
  | dequeueDeath d => rfl
  | count n f _ => rfl
  | orphan p n _ => rfl
  | addNode p ptr cookie flags _ => rfl
  | removeNode n nd _ _ _ => cases nd.proc <;> rfl
  | addRef p n _ => rfl
  | raise r f _ => rfl
  | lower r f _ _ => rfl
  | removeRef r ref _ _ => rfl

theorem ObjectSteps.shelves {O : ProcId → Prop} {s' : Driver} (h : ObjectSteps O s s') :
    s'.roll.shelves = s.roll.shelves := by
  refine ObjectSteps.invariant (P := fun t => t.roll.shelves = s.roll.shelves) ?_ h rfl
  intro t t' ht hstep
  exact (ObjectStep.shelves hstep).trans ht

/-! ## Sends -/

theorem Audited.txnError (h : s.roll.Audited k) (th : ThreadId) (br : BR) :
    (s.txnError th br).roll.Audited k := by
  have herror : (s.txnError th br).roll =
      { s.roll with
        stats := { s.stats with failedTransactions := s.stats.failedTransactions + 1 } } := by
    rw [Driver.txnError, note_roll, queueError_roll]
    rfl
  rw [herror]
  exact { h with }

theorem Audited.selectReply (h : s.roll.Audited k) (th : ThreadId) :
    (s.selectReply th).drv.roll.Audited k := by
  rcases s.selectReply_ends th with heq | ⟨t, s₁, -, rfl, ⟨heq, -⟩ | ⟨_, _, -, -, -, heq⟩⟩ <;>
    rw [heq]
  · exact Audited.txnError h th _
  · exact Audited.freeTransaction (Audited.txnError (Audited.of_eq h (setStack_roll ..)) th _) t
  · exact Audited.of_eq h (setStack_roll ..)

theorem Audited.selectCall (h : s.roll.Audited k) (p : ProcId) (th : ThreadId) (handle : Nat)
    (oneway : Bool) : (s.selectCall p th handle oneway).drv.roll.Audited k := by
  unfold Driver.selectCall
  split
  · exact Audited.txnError h th _
  split
  · exact Audited.txnError h th _
  · exact Audited.of_eq h (updNode_roll ..)

/-- The books after a payload was fetched: the copy is counted, and the buffer
that will hold it is empty. -/
def Fetched.Booked (tp : ProcId) (total : Nat) : Fetched → Prop
  | .refused s _ => s.roll.Audited 0
  | .ready s buf _ => s.roll.Audited total ∧ s.Reserved tp buf.id

theorem findBuffer_id {p : ProcId} {b : BufferId} {buf : Buffer}
    (h : s.findBuffer p b = some buf) : buf.id = b := by
  have hid := List.find?_some h
  simpa using hid

/-- The bytes of a payload are counted before they are stored. -/
theorem Audited.fetchPayload (h : s.roll.Audited 0) (env : Env) (tp : ProcId)
    (tr : TransactionData) (extraSize : Nat) (oneway : Bool) :
    (fetchPayload env s tp tr extraSize oneway).Booked tp (totalOf tr extraSize) := by
  have halloc := Audited.bufferAlloc h env tp tr.dataSize tr.offsetsSize extraSize oneway
  apply fetchPayload_rule (P := Fetched.Booked tp _)
  · exact h
  · intro s₁ heq
    rwa [heq] at halloc
  · intro b s₁ heq
    have hreserved := bufferAlloc_reserved (b := b) env s tp tr.dataSize tr.offsetsSize
      extraSize oneway
    rw [heq] at halloc hreserved
    have hbump : s₁.bumpId.roll.Audited 0 := Audited.bumpId halloc
    refine ⟨hbump, hbump, ?_⟩
    intro data offsets buf _ _ _ _ hfind
    constructor
    · have hbytes : s₁.stats.kdataBytes + totalOf tr extraSize - totalOf tr extraSize =
          s₁.stats.kdataBytes - 0 := by omega
      exact { hbump with kdataBytes := hbytes ▸ hbump.kdataBytes }
    · rw [findBuffer_id hfind]
      exact hreserved rfl

/-- A new record is counted. -/
theorem Audited.newTransaction (h : s.roll.Audited k) (env : Env) (p : ProcId) (th : ThreadId)
    (tgt : Target) (tr : TransactionData) (reply oneway : Bool) (b : BufferId) {t : TxnId}
    (hlt : t < s.nextId) (ht : present s.txns t = 0) :
    (newTransaction env s p th tgt tr reply oneway b t).roll.Audited k := by
  have hbuf := updBuffer_roll (s.insertTxn t (newRecord env s p th tgt tr reply oneway b))
    tgt.proc b (f := fun buf => { buf with transaction := some t, targetNode := tgt.node })
    fun _ => rfl
  have hroll : (Driver.newTransaction env s p th tgt tr reply oneway b t).roll =
      { s.roll with
        txns := Function.update s.roll.txns t 1
        stats := { s.stats with transactions := s.stats.transactions + 1 } } := by
    have hpresent := present_insert s.txns t (newRecord env s p th tgt tr reply oneway b)
    have hinsert : (s.insertTxn t (newRecord env s p th tgt tr reply oneway b)).roll =
        { s.roll with txns := Function.update s.roll.txns t 1 } := by
      simp only [roll, insertTxn, hpresent]
    have hcount (s₁ : Driver) : (s₁.updStats fun st =>
        { st with transactions := st.transactions + 1 }).roll =
        { s₁.roll with
          stats := { s₁.roll.stats with transactions := s₁.roll.stats.transactions + 1 } } := rfl
    rw [Driver.newTransaction, hcount, hbuf, hinsert]
    rfl
  rw [hroll]
  exact { h with txns := h.txns.insert hlt ht }

/-- Queueing counts nothing; a reply uncounts the call it answers. -/
theorem Audited.queueTransaction (h : s.roll.Audited k) (th : ThreadId) (tgt : Target)
    (oneway : Bool) (t : TxnId) : (s.queueTransaction th tgt oneway t).roll.Audited k := by
  unfold Driver.queueTransaction
  split
  · rename_i call _
    have hreply : (((s.freeTransaction call).note (.reply th call t))).roll.Audited k :=
      Audited.of_eq (Audited.freeTransaction h call) (note_roll ..)
    simp only
    split
    · exact Audited.of_eq hreply (by simp)
    · exact hreply
  split
  · split
    · exact h
    split
    · exact h
    · exact Audited.of_eq h (by simp)
  · simp only
    split
    · exact Audited.of_eq h (by simp)
    · exact Audited.of_eq h (by simp)

theorem Audited.dropTarget (h : s.roll.Audited k) (tgt : Target) :
    (s.dropTarget tgt).roll.Audited k := by
  unfold Driver.dropTarget
  split
  · exact Audited.nodeDecTmpref h _
  · exact h

theorem Audited.refuseSend (h : s.roll.Audited k) (th : ThreadId) (tgt : Target)
    (buf : Option BufferId) : (s.refuseSend th tgt buf).roll.Audited k := by
  have hrelease := Audited.releasePayload (Audited.txnError h th .failedReply) tgt.proc buf
  apply Audited.dropTarget
  unfold undoSend
  simp only
  split
  · exact Audited.of_eq hrelease (setStack_roll ..)
  · exact hrelease

theorem Audited.acceptSend (h : s.roll.Audited k) (env : Env) (p : ProcId) (th : ThreadId)
    (tgt : Target) (tr : TransactionData) (reply oneway : Bool) (b : BufferId) {t : TxnId}
    (hlt : t < s.nextId) (ht : present s.txns t = 0) (tcomplete : Nat) :
    (acceptSend env s p th tgt tr reply oneway b t tcomplete).roll.Audited k := by
  have hnew := Audited.newTransaction h env p th tgt tr reply oneway b hlt ht
  have hqueued := Audited.queueTransaction hnew th tgt oneway t
  apply Audited.dropTarget
  rw [note_roll]
  exact Audited.of_eq hqueued (enqueueThreadWork_roll ..)

/-- The two records a send needs at its end. -/
theorem Audited.finishSend (h : s.roll.Audited 0) (env : Env) (p : ProcId) (th : ThreadId)
    (tgt : Target) (tr : TransactionData) (reply oneway : Bool) (b : BufferId) :
    (Driver.acceptSend env s.bumpId.bumpId p th tgt tr reply oneway b s.nextId
      (s.nextId + 1)).roll.Audited 0 ∧
      (s.bumpId.bumpId.refuseSend th tgt (some b)).roll.Audited 0 := by
  have hbump := Audited.bumpId (Audited.bumpId h)
  constructor
  · apply Audited.acceptSend hbump
    · exact Nat.lt_succ_of_lt (Nat.lt_succ_self _)
    · exact h.txns.fresh s.nextId (Nat.le_refl _)
  · exact Audited.refuseSend hbump th tgt _

/-- **A send keeps the audit**: the copy that was counted is the one that is
stored. -/
theorem Audited.sendTo (hs : Sound s) (h : s.roll.Audited 0) (env : Env) (p : ProcId)
    (th : ThreadId) (tgt : Target) (tr : TransactionData) (extraSize : Nat)
    (reply oneway : Bool) :
    (sendTo env s p th tgt tr extraSize reply oneway).roll.Audited 0 := by
  have hfetch := Audited.fetchPayload h env tgt.proc tr extraSize oneway
  have hsound := fetchPayload_hushed hs env tgt.proc tr extraSize oneway
  rcases sendTo_ends env s p th tgt tr extraSize reply oneway with ⟨s₁, buf, hf, heq⟩ |
    ⟨s₁, buf, kdata, c, ls, error, s₂, hf, hc, hloop, rfl, heq⟩
  · rw [hf] at hfetch
    rw [heq]
    exact Audited.refuseSend hfetch th tgt buf
  · rw [hf] at hfetch hsound
    obtain ⟨haudit, hreserved⟩ := hfetch
    have hs₁ : Sound ({ drv := s₁, kdata := kdata } : LoopState).drv := hsound.1.sound
    have hshelves := ObjectSteps.shelves
      (translateLoop_steps (O := fun _ => True) (c := c) hs₁ (List.range c.count))
    have haudit₂ := translateLoop_audited c { drv := s₁, kdata := kdata } haudit
      (List.range c.count)
    rw [hloop] at haudit₂ hshelves
    have hempty : ls.drv.Reserved tgt.proc buf.id := by
      unfold Reserved
      rw [hshelves]
      exact hreserved
    have hstored := Audited.store haudit₂ hempty ls.kdata
    rw [translateLoop_length hf (hc ▸ hloop), totalOf_eq_needOf, sub_self] at hstored
    obtain ⟨haccept, hrefuse⟩ := Audited.finishSend hstored env p th tgt tr reply oneway buf.id
    rcases heq with heq | heq | heq
    · rw [heq]
      exact Audited.refuseSend hstored th tgt _
    · rw [heq]
      exact hrefuse
    · rw [heq]
      exact haccept

theorem Audited.transaction (hs : Sound s) (h : s.roll.Audited 0) (env : Env) (p : ProcId)
    (th : ThreadId) (tr : TransactionData) (reply isSg : Bool) :
    (transaction env s p th tr reply isSg).roll.Audited 0 := by
  apply transaction_rule (P := fun s' => s'.roll.Audited 0)
    (Q := fun sel => Sound sel.drv ∧ sel.drv.roll.Audited 0)
  · exact ⟨(selectReply_refines hs th).sound, Audited.selectReply h th⟩
  · exact ⟨(selectCall_refines hs p th _ _).sound, Audited.selectCall h p th _ _⟩
  · exact fun s₁ hsel => hsel.2
  · exact fun s₁ tgt hsel => Audited.sendTo hsel.1 hsel.2 ..

/-! ## Commands -/

theorem Audited.writeRefCmd (h : s.roll.Audited k) (env : Env) (p : ProcId) (th : ThreadId)
    (strong increment : Bool) (desc : Nat) :
    (s.writeRefCmd env p th strong increment desc).1.roll.Audited k := by
  unfold Driver.writeRefCmd
  split
  · exact Audited.refUpdate h ..
  split
  · exact h
  split
  · exact h
  split
  · rename_i s₁ heq
    exact audited_of_eq heq (Audited.refGetForNode h ..)
  · rename_i r s₁ heq
    exact Audited.refUpdate (audited_of_eq heq (Audited.refGetForNode h ..)) ..

theorem nextAsync_roll (s : Driver) (p : ProcId) (n : NodeId) :
    (s.nextAsync p n).roll = s.roll := by
  unfold nextAsync
  split
  · rfl
  split
  · split
    · simp
    · simp
  · rfl

/-- A buffer freed by its client keeps the audit. -/
theorem Audited.writeFreeBuffer (h : s.roll.Audited k) (p : ProcId) (dataPtr : Nat) :
    (s.writeFreeBuffer p dataPtr).1.roll.Audited k := by
  unfold Driver.writeFreeBuffer
  split
  · exact h
  rename_i buf _
  split
  · exact h
  have hrelease := Audited.bufferRelease h p buf.id
  have huntied (t : TxnId) : (((s.bufferRelease p buf.id).updTxn t fun x =>
      { x with buffer := none }).updBuffer p buf.id fun buf =>
        { buf with transaction := none }).roll.Audited k := by
    have htxn := Audited.of_eq hrelease (updTxn_roll _ t fun x => { x with buffer := none })
    exact Audited.of_eq htxn (updBuffer_roll _ _ _ fun _ => rfl)
  have hend {s₁ : Driver} (h₁ : s₁.roll.Audited k) (n : NodeId) :
      ((s₁.bufferFree p buf.id).nextAsync p n).roll.Audited k :=
    Audited.of_eq (Audited.bufferFree h₁ p buf.id) (nextAsync_roll ..)
  simp only
  split
  · split
    · exact hend (huntied _) _
    · exact hend hrelease _
  · split
    · exact Audited.bufferFree (huntied _) p buf.id
    · exact Audited.bufferFree hrelease p buf.id

theorem writeDone_roll (s : Driver) (p : ProcId) (strong : Bool) (ptr : Nat) :
    (s.writeDone p strong ptr).1.roll = s.roll := by
  unfold writeDone
  split
  · rfl
  · exact updNode_roll ..

theorem registerLooper_roll (s : Driver) (p : ProcId) (th : ThreadId) :
    (s.registerLooper p th).roll = s.roll := by
  unfold registerLooper
  rw [updThread_roll, updProc_roll]

/-- **A command keeps the books.** -/
theorem Audited.writeCommand (hs : Sound s) (h : s.roll.Audited 0) (env : Env) (p : ProcId)
    (th : ThreadId) (c : Command) : (s.writeCommand env p th c).1.roll.Audited 0 := by
  cases c with
  | reference strong increment desc => exact Audited.writeRefCmd h ..
  | done strong ptr => exact Audited.of_eq h (writeDone_roll ..)
  | freeBuffer ptr => exact Audited.writeFreeBuffer h p ptr
  | transaction reply isSg tr => exact Audited.transaction hs h ..
  | registerLooper => exact Audited.of_eq h (registerLooper_roll ..)
  | enterLooper => exact Audited.of_eq h (updThread_roll ..)
  | exitLooper => exact Audited.of_eq h (updThread_roll ..)
  | requestDeathNotification handle cookie => exact Audited.deathRequest h ..
  | clearDeathNotification handle cookie => exact Audited.of_eq h (deathClear_roll ..)
  | deadBinderDone cookie => exact h
  | refused => exact h

/-! ## Reads -/

/-- A node whose owner heard that it is gone may go. -/
theorem Audited.readNodeWork (h : s.roll.Audited k) (env : Env) (th : ThreadId) (n : NodeId)
    (rc : ReadCall) : (readNodeWork env s th n rc).drv.roll.Audited k := by
  apply readNodeWork_rule (P := fun h => h.drv.roll.Audited k) fun _ => h
  · exact fun _ _ _ _ _ _ _ haudited => Audited.of_eq haudited (updNode_roll ..)
  · exact fun _ _ haudited => Audited.of_eq haudited (tell_roll ..)
  · exact fun _ haudited => Audited.nodeMaybeFree haudited n

theorem Audited.delivered (h : s.roll.Audited k) (p : ProcId) (th : ThreadId) (t : TxnId)
    (x : Txn) (buf : Buffer) : (s.delivered p th t x buf).roll.Audited k := by
  have hopen : (s.updBuffer p buf.id fun buf =>
      { buf with allowUserFree := true }).roll.Audited k :=
    Audited.of_eq h (updBuffer_roll _ _ _ fun _ => rfl)
  unfold Driver.delivered
  simp only
  split
  · exact Audited.of_eq hopen (by simp)
  · exact Audited.freeTransaction hopen t

/-- A delivery keeps the audit. -/
theorem Audited.readTransaction (h : s.roll.Audited k) (env : Env) (p : ProcId) (th : ThreadId)
    (t : TxnId) (rc : ReadCall) :
    (readTransaction env s p th t rc).drv.roll.Audited k := by
  cases hx : s.txns t with
  | none =>
      simp only [Driver.readTransaction, hx]
      exact h
  | some x =>
      cases hbuf : x.buffer.bind (s.findBuffer p) with
      | none =>
          simp only [Driver.readTransaction, hx, hbuf]
          exact h
      | some buf =>
          have htaken := readTransaction_taken env th rc hx hbuf
          generalize Driver.readTransaction env s p th t rc = out at htaken
          cases htaken with
          | stopped s' rc' error hdesc =>
              cases hdesc with
              | full => exact h
              | fault => exact h
              | torn => exact Audited.of_eq h (note_roll ..)
              | tornFault => exact Audited.of_eq h (note_roll ..)
          | delivered rc' rest hcmds =>
              exact Audited.delivered (Audited.of_eq h (note_roll ..)) ..
          | dropped kdata hkdata hout =>
              exact Audited.dropTransaction (Audited.of_eq h (failUndelivered_roll ..)) p t

theorem deathReported_roll (s : Driver) (th : ThreadId) (d : DeathId) (w : DeathWork) :
    (s.deathReported th d w).roll = s.roll := by
  unfold deathReported
  split
  · rfl
  · simp
  · rfl

theorem readDeath_roll (env : Env) (s : Driver) (th : ThreadId) (d : DeathId) (rc : ReadCall) :
    (readDeath env s th d rc).drv.roll = s.roll := by
  apply readDeath_rule (P := fun s' => s'.roll = s.roll) rfl
  intro death _ _
  rw [deathReported_roll, tell_roll]

/-- **A handled item keeps the books.** -/
theorem Audited.readWork (h : s.roll.Audited k) (env : Env) (p : ProcId) (th : ThreadId)
    (w : Work) (rc : ReadCall) : (readWork env s p th w rc).drv.roll.Audited k := by
  cases w with
  | transaction t => exact Audited.readTransaction h ..
  | complete c =>
      rw [Driver.readWork]
      obtain heq | heq := Handled.put_drv (putCmd env rc .transactionComplete) s
        (s.note (.emit th .transactionComplete (.complete c)))
      · rw [heq]
        exact h
      · rw [heq, note_roll ..]
        exact h
  | returnError e =>
      rw [Driver.readWork]
      generalize ((s.threads e).map (·.returnError)).getD .ok = cmd
      obtain heq | heq := Handled.put_drv (putCmd env rc cmd) s
        ((s.updThread e fun thread => { thread with returnError := .ok }).note
          (.emit th cmd (.returnError e)))
      · rw [heq]
        exact h
      · rw [heq, note_roll, updThread_roll]
        exact h
  | node n => exact Audited.readNodeWork h ..
  | death d => exact Audited.of_eq h (readDeath_roll ..)

theorem readNext_roll (env : Env) (out : Handled) (th : ThreadId) (p : ProcId) (w : Work)
    (fromProc : Bool) : (readNext env out th p w fromProc).roll = out.drv.roll := by
  obtain ⟨s₁, rc', hnext, heq⟩ := readNext_follows env out th p w fromProc
  rw [heq, setCall_roll]
  cases hnext with
  | spawned => exact updProc_roll ..
  | _ => rfl

theorem readIdle_roll (s : Driver) (th : ThreadId) (thread : Thread) (rc : ReadCall) :
    (s.readIdle th thread rc).roll = s.roll := by
  unfold readIdle
  split
  · rfl
  simp only
  split
  · simp
  · simp

theorem Audited.readTurn (h : s.roll.Audited k) (env : Env) (th : ThreadId) (thread : Thread)
    (rc : ReadCall) : (readTurn env s th thread rc).roll.Audited k := by
  unfold Driver.readTurn
  split
  · exact Audited.of_eq h (readIdle_roll ..)
  · rename_i w fromProc _
    have hwork := Audited.readWork (Audited.of_eq h (s.dequeueWork_roll w)) env thread.proc th w rc
    exact Audited.of_eq hwork (readNext_roll ..)

theorem readStart_roll (env : Env) (s : Driver) (th : ThreadId) (buffer size consumed : Nat) :
    (readStart env s th buffer size consumed).roll = s.roll :=
  readStart_rule (P := fun s => s.roll = _) fun _ _ _ => rfl

theorem resume_roll (s : Driver) (th : ThreadId) (thread : Thread) (rc : ReadCall)
    (chan : Channel) (signal : Bool) : (s.resume th thread rc chan signal).roll = s.roll := by
  refine resume_rule (P := fun s => s.roll = _) fun rc' _ _ => ?_
  cases chan <;> simp [roused]

theorem leaveRead_roll (s : Driver) (th : ThreadId) (thread : Thread) :
    (s.leaveRead th thread).roll = s.roll := by
  unfold leaveRead
  simp only
  split
  · rfl
  · rfl

/-! ## Teardown -/

theorem Audited.releaseCall (h : s.roll.Audited k) (p : ProcId) (th : ThreadId) (t : TxnId) :
    (s.releaseCall p th t).1.roll.Audited k := by
  unfold Driver.releaseCall
  split
  · exact h
  split
  · exact Audited.of_eq h (updTxn_roll ..)
  split
  · have hfrom := Audited.of_eq h (s.updTxn_roll t fun x => { x with toThread := none })
    simp only
    rw [failCaller_roll]
    split
    · exact Audited.of_eq (Audited.releaseAndFree hfrom p _) (updTxn_roll ..)
    · exact hfrom
  · exact h

theorem Audited.releaseCalls (h : s.roll.Audited k) (p : ProcId) (th : ThreadId) (fuel : Nat)
    (top : Option TxnId) : (releaseCalls p th fuel s top).roll.Audited k := by
  induction fuel generalizing s top with
  | zero => exact h
  | succ fuel ih =>
      cases top with
      | none => exact h
      | some t => exact ih (Audited.releaseCall h p th t) _

theorem Audited.releaseThreadWork (h : s.roll.Audited k) (p : ProcId) (w : Work) :
    (releaseThreadWork p s w).roll.Audited k := by
  have htaken := Audited.of_eq h (s.dequeueWork_roll w)
  unfold Driver.releaseThreadWork
  simp only
  split
  · split
    · exact Audited.of_eq htaken (enqueueWork_roll ..)
    · exact Audited.of_eq (Audited.dropTransaction htaken p _) (note_roll ..)
  · exact htaken

theorem Audited.forgetThread (h : s.roll.Audited k) (p : ProcId) {th : ThreadId}
    (hth : present s.threads th = 1) : (s.forgetThread p th).roll.Audited k := by
  have heq : (s.forgetThread p th).roll.threads = Function.update s.roll.threads th 0 :=
    present_erase s.threads th
  refine { h with threads := ?_ }
  rw [heq]
  exact h.threads.erase hth

theorem present_of_home {th : ThreadId} (h : (s.standing.home th).isSome) :
    present s.threads th = 1 := by
  have hsome : (s.threads th).isSome := by
    rw [← Option.isSome_map]
    exact h
  simp [present, hsome]

/-- A thread that goes is uncounted with all it had. -/
theorem Audited.threadRelease (h : s.roll.Audited k) (p : ProcId) {th : ThreadId}
    (hth : (s.standing.home th).isSome) : (s.threadRelease p th).roll.Audited k := by
  have hdead := Audited.of_eq h (s.updThread_roll th fun thread => { thread with isDead := true })
  have hstanding := s.updThread_standing th (f := fun thread => { thread with isDead := true })
    fun _ => rfl
  unfold Driver.threadRelease
  simp only
  generalize s.updThread th (fun thread => { thread with isDead := true }) = s₁
    at hdead hstanding
  have hcalls := Audited.releaseCalls hdead p th (2 * s₁.nextId + 2)
    ((s₁.threads th).bind (·.transactionStack))
  have hstack := Audited.of_eq hcalls (setStack_roll _ th none)
  have hstanding₂ := ((setStack_standing _ th none).trans (releaseCalls_standing s₁ p th
    (2 * s₁.nextId + 2) ((s₁.threads th).bind (·.transactionStack)))).trans hstanding
  generalize (Driver.releaseCalls p th (2 * s₁.nextId + 2) s₁
    ((s₁.threads th).bind (·.transactionStack))).setStack th none = s₂ at hstack hstanding₂
  apply Audited.forgetThread (foldl_audited (fun s w h => Audited.releaseThreadWork h p w) _ hstack)
  apply present_of_home
  rw [foldl_kept standing (fun s w => s.releaseThreadWork_standing p w), hstanding₂]
  exact hth

/-- The threads of a process that is closed go one by one, each once. -/
theorem Audited.releaseThreads {p : ProcId} (l : List ThreadId) (hnodup : l.Nodup)
    (h : s.roll.Audited k) (hl : ∀ th ∈ l, (s.standing.home th).isSome) :
    (l.foldl (fun s th => (s.wakeupThread th).threadRelease p th) s).roll.Audited k ∧
      (l.foldl (fun s th => (s.wakeupThread th).threadRelease p th) s).procs = s.procs := by
  induction l generalizing s with
  | nil => exact ⟨h, rfl⟩
  | cons th l ih =>
      obtain ⟨hnew, hnodup⟩ := List.nodup_cons.mp hnodup
      have hwake := wakeupThread_standing s th
      have hgone : ((s.wakeupThread th).threadRelease p th).roll.Audited k := by
        apply Audited.threadRelease (Audited.of_eq h (wakeupThread_roll ..))
        rw [hwake]
        exact hl th List.mem_cons_self
      rw [List.foldl_cons]
      obtain ⟨haudit, hprocs⟩ := ih hnodup hgone (by
        intro th' hth'
        have hne : th' ≠ th := fun heq => hnew (heq ▸ hth')
        rw [threadRelease_home, hwake, if_neg hne]
        exact hl th' (List.mem_cons_of_mem th hth'))
      refine ⟨haudit, ?_⟩
      rw [hprocs, threadRelease_procs]
      exact congrArg Standing.procs hwake

theorem Audited.releaseNode (h : s.roll.Audited k) (p : ProcId) (n : NodeId) :
    (releaseNode p s n).roll.Audited k :=
  Audited.nodeMaybeFree (Audited.of_eq h (by simp)) n

theorem Audited.releaseProcWork (h : s.roll.Audited k) (p : ProcId) (w : Work) :
    (releaseProcWork p s w).roll.Audited k := by
  have htaken := Audited.of_eq h (s.dequeueWork_roll w)
  unfold Driver.releaseProcWork
  simp only
  split
  · exact Audited.dropTransaction (Audited.of_eq htaken (failUndelivered_roll ..)) p _
  · exact htaken

theorem Audited.forgetProc (h : s.roll.Audited k) {p : ProcId}
    (hp : present s.procs p = 1) : (s.forgetProc p).roll.Audited k := by
  have heq : (s.forgetProc p).roll.procs = Function.update s.roll.procs p 0 :=
    present_erase s.procs p
  refine { h with procs := ?_ }
  rw [heq]
  exact h.procs.erase hp

theorem Audited.disowned (h : s.roll.Audited k) (p : ProcId) :
    (s.disowned p).roll.Audited k := by
  have hdead := Audited.of_eq h (s.updProc_roll p fun proc => { proc with isDead := true })
  have hmanager := Audited.of_eq hdead (releaseManager_roll _ p)
  have hnodes := fun l => foldl_audited (fun _ n h => Audited.releaseNode h p n) l hmanager
  have hrefs := fun l l' => foldl_audited (fun _ r h => Audited.refDelete h r) l' (hnodes l)
  exact foldl_audited (fun _ w h => Audited.releaseProcWork h p w) _ (hrefs _ _)

/-- **A process is closed**, and everything it had goes from the books. -/
theorem Audited.procRelease (hs : Sound s) (h : s.roll.Audited k) {p : ProcId}
    (hp : (s.procs p).isSome) : (s.procRelease p).roll.Audited k := by
  have hthere : ((s.disowned p).procs p).isSome := by
    have hprocs := congrArg Standing.procs (disowned_standing s p)
    have hself : (s.disowned p).procs p =
        (s.procs p).map fun proc => { proc with isDead := true } :=
      (congrFun hprocs p).trans (Function.update_self ..)
    rw [hself, Option.isSome_map]
    exact hp
  obtain ⟨haudit, hprocs⟩ := Audited.releaseThreads (p := p) ((s.disowned p).procThreads p)
    ((disowned_sound hs p).threads.nodup p) (Audited.disowned h p) (by
      intro th hth
      rw [disowned_threads hs hth]
      rfl)
  rw [procRelease_eq]
  apply Audited.forgetProc (Audited.arenaTeardown haudit p)
  have hstill : ((((s.disowned p).procThreads p).foldl (fun s th =>
      (s.wakeupThread th).threadRelease p th) (s.disowned p)).arenaTeardown p).procs =
      (s.disowned p).procs := hprocs
  simp [present, hstill, hthere]

/-! ## Runs -/

theorem Audited.devOpen (h : s.roll.Audited k) (env : Env) (pid ctx : Nat) :
    (procNew env s pid ctx).2.roll.Audited k := by
  have hbump := Audited.bumpId h
  refine procNew_rule (P := fun s => s.roll.Audited k) env pid ctx hbump { hbump with procs := ?_ }
  have heq : (s.bumpId.insertProc s.nextId pid ctx).roll.procs =
      Function.update s.roll.procs s.nextId 1 := present_insert s.procs s.nextId _
  exact heq ▸ hbump.procs.insert (Nat.lt_succ_self _) (h.procs.fresh _ (Nat.le_refl _))

theorem Audited.enter (h : s.roll.Audited k) (env : Env) (p : ProcId) (tid : Nat) :
    (threadGet env s p tid).2.roll.Audited k := by
  have hbump := Audited.bumpId h
  refine threadGet_rule (P := fun s => s.roll.Audited k) env p tid h hbump
    { hbump with threads := ?_ }
  have heq : (s.bumpId.insertThread s.nextId p tid).roll.threads =
      Function.update s.roll.threads s.nextId 1 := present_insert s.threads s.nextId _
  exact heq ▸ hbump.threads.insert (Nat.lt_succ_self _) (h.threads.fresh _ (Nat.le_refl _))

/-- **Every action keeps the audit.** -/
theorem Audited.act (hreach : Reachable s) (h : s.roll.Audited 0) (a : Action) :
    (s.act a).roll.Audited 0 := by
  have hs := hreach.steady.sound
  have hperforms := s.act_performs a
  generalize s.act a = s' at hperforms ⊢
  cases hperforms with
  | devOpen env pid ctx => exact Audited.devOpen h env pid ctx
  | devClose p hopen => exact Audited.procRelease hs h hopen
  | enter env p tid _ => exact Audited.enter h env p tid
  | setArena env th thread addr size _ =>
      exact Audited.arenaRegister h env _ addr size (hs.arenas _).unregistered
  | setMaxThreads th thread max _ => exact Audited.of_eq h (updProc_roll ..)
  | setContextMgr env th thread ptr cookie flags _ => exact Audited.contextMgrSet h ..
  | threadExit th thread hidle =>
      apply Audited.threadRelease h
      simp [standing, (idleThread_free hidle).1]
  | freeze th th' tid enable timeoutMs => exact Audited.of_eq h (updThread_roll ..)
  | command env th thread c _ => exact Audited.writeCommand hs h ..
  | readStart env th thread buffer size consumed _ => exact Audited.of_eq h (readStart_roll ..)
  | readTurn env th thread rc _ _ _ => exact Audited.readTurn h ..
  | resume th thread rc chan woken signal _ _ _ _ => exact Audited.of_eq h (resume_roll ..)
  | leave th thread rc error _ _ _ => exact Audited.of_eq h (leaveRead_roll ..)
  | _ => exact h

/-- **In every reachable state the audit holds.** -/
theorem Reachable.audited (h : Reachable s) : s.roll.Audited 0 := by
  refine Reaches.invariant (P := fun s => s.roll.Audited 0) ?_ ?_ h
  · constructor
    · exact .zero _
    · exact .zero _
    · exact .zero _
    · exact .zero _
    · exact .zero _
    · exact .zero
    · exact .zero
    · intro p
      constructor
      · exact List.nodup_nil
      · intro slot hslot
        cases hslot
      · intro slot hslot
        cases hslot
  · intro s a hs haudited _
    exact Audited.act hs haudited a

/-- `n` is the number of records of a table. -/
def Numbers {α : Type} (t : Table α) (n : ℤ) : Prop :=
  {i | (t i).isSome}.Finite ∧ n = ({i | (t i).isSome}.ncard : ℤ)

/-- The counters of what there is are its numbers and sizes.  `binder_stat_failed_transactions`
counts what has happened and is not among them. -/
structure Balanced (s : Driver) (st : Stats) : Prop where
  procs : Numbers s.procs st.procs
  threads : Numbers s.threads st.threads
  nodes : Numbers s.nodes st.nodes
  refs : Numbers s.refs st.refs
  transactions : Numbers s.txns st.transactions
  arenaBytes : Totals (fun p => ((s.arenas p).size : ℤ)) st.arenaBytes
  kdataBytes : Totals (fun p => kdataBytes (s.arenas p).buffers) st.kdataBytes

theorem numbers_of_tally {α : Type} {t : Table α} {n : ℤ} {bound : Nat}
    (h : Tally (present t) n bound) : Numbers t n :=
  h.total.indicator (P := fun i => (t i).isSome)

/-- **The counters are exact.**  In every state of every run the counters of what there
is are right: the number of processes, threads, nodes, references and transactions, the
bytes of the registered arenas and of the payloads their buffers hold. -/
theorem counters_exact (h : Reachable s) : s.Balanced s.stats := by
  have haudited := h.audited
  constructor
  · exact numbers_of_tally haudited.procs
  · exact numbers_of_tally haudited.threads
  · exact numbers_of_tally haudited.nodes
  · exact numbers_of_tally haudited.refs
  · exact numbers_of_tally haudited.txns
  · exact haudited.arenaBytes
  · have hkdata : (fun p => kdataBytes (s.arenas p).buffers) =
        fun p => shelved (s.roll.shelves p) := by
      funext p
      exact kdataBytes_eq _
    rw [hkdata]
    have hbytes := haudited.kdataBytes
    rw [sub_zero] at hbytes
    exact hbytes

/-- Two processes, one of which has sent the other an object. -/
theorem counters_exact_share : (run {} (twoProcesses ++ [shareObject])).Balanced
    { procs := 2, threads := 2, nodes := 2, refs := 1, transactions := 1,
      arenaBytes := 0x40000, kdataBytes := 32 } := by
  have hstats : (run {} (twoProcesses ++ [shareObject])).stats =
      { procs := 2, threads := 2, nodes := 2, refs := 1, transactions := 1,
        arenaBytes := 0x40000, kdataBytes := 32 } := by decide +kernel
  rw [← hstats]
  exact counters_exact (Reachable.run .init _)

end Driver

end Binder
