import DevfsBinder.CallTargets
import DevfsBinder.DriverSoundness
import DevfsBinder.PayloadBounds

/-!
# A send is a send of the call machine

`binder_transaction` step by step: choosing the receiver, fetching the payload
and translating it are quiet; a refusal is a quiet stretch, an error to the
caller and a quiet clean-up; and what is queued in the end is a record of the
kind the machine accepts.
-/

namespace Binder

namespace Driver

open Calls LittleEndian

variable {s s' : Driver} {O : ProcId → Prop}

/-! ## Quiet stretches -/

/-- The accounting keeps a buffer in use, detaching at most its transaction. -/
theorem ObjectStep.buffers (hq : QueuesOk s) (h : ObjectStep O s s') {p : ProcId}
    {b : BufferId} {buf : BufferView} (hbuf : s.view.buffers p b = some buf) :
    s'.view.buffers p b = some buf ∨
      s'.view.buffers p b = some { buf with transaction := none } := by
  cases h with
  | drop n t hloc =>
      obtain ⟨t', x, ht, hx, ho⟩ := hq.behindNode _ n hloc
      cases ht
      rw [view_dropAsync hx]
      have hx' : s.view.txns t = some x := hx
      change (s.view.freeTransaction t).buffers p b = _ ∨ (s.view.freeTransaction t).buffers p b = _
      rw [buffers_freeTransaction hx', buffers_detachBuffer]
      split
      · exact .inr (by simp [hbuf])
      · exact .inl hbuf
  | removeNode n nd _ _ _ =>
      left
      cases nd.proc <;> exact hbuf
  | _ => exact .inl hbuf

theorem ObjectSteps.buffers (hs : Sound s) (h : ObjectSteps O s s') {p : ProcId}
    {b : BufferId} {buf : BufferView} (hbuf : s.view.buffers p b = some buf) :
    s'.view.buffers p b = some buf ∨
      s'.view.buffers p b = some { buf with transaction := none } := by
  induction h with
  | refl => exact .inl hbuf
  | tail hsteps hstep ih =>
      have hq := (ObjectSteps.sound hs hsteps).queues
      rcases ih with ih | ih
      · exact hstep.buffers hq ih
      · rcases hstep.buffers hq ih with h | h
        · exact .inr h
        · exact .inr h

/-- A blank buffer stays blank. -/
theorem ObjectSteps.blank (hs : Sound s) (h : ObjectSteps O s s') {p : ProcId} {b : BufferId}
    (hblank : s.view.Blank p b) : s'.view.Blank p b := by
  obtain ⟨load, hload⟩ := hblank
  rcases h.buffers hs hload with h | h <;> exact ⟨load, h⟩

/-- A sequence of accounting steps as the call machine sees it. -/
structure Hushed (s s' : Driver) : Prop where
  sound : Sound s'
  quiet : Quiet s.view s'.view

theorem ObjectSteps.hushed (hs : Sound s) (h : ObjectSteps O s s') : Hushed s s' :=
  ⟨ObjectSteps.sound hs h, ObjectSteps.quiet hs h⟩

/-- Giving a payload back that nobody's transaction is tied to. -/
theorem releaseAndFree_hushed (hs : Sound s) {p : ProcId} {b : BufferId}
    (hblank : s.view.Blank p b) : Hushed s (s.releaseAndFree p b) := by
  have hsteps := bufferRelease_steps hs p b
  have hs₁ := ObjectSteps.sound hs hsteps
  refine ⟨hs₁.bufferFree p b, (ObjectSteps.quiet hs hsteps).trans ?_⟩
  rw [releaseAndFree, view_bufferFree _ p b (hs₁.arenas p)]
  exact (QuietMove.free p b (hsteps.blank hs hblank)).quiet

/-- The release of a payload, with its bytes. -/
theorem releaseAndFree_view (hs : Sound s) (p : ProcId) (b : BufferId) :
    Sound (s.releaseAndFree p b) ∧ ∃ v₁, Quiet s.view v₁ ∧
      (s.releaseAndFree p b).view = v₁.setBuffer p b none := by
  have hsteps := bufferRelease_steps hs p b
  have hs₁ := ObjectSteps.sound hs hsteps
  exact ⟨hs₁.bufferFree p b, _, ObjectSteps.quiet hs hsteps, view_bufferFree _ p b (hs₁.arenas p)⟩

/-! ## Fetching and translating -/

/-- Fetching a payload of `need` bytes is quiet, and a buffer reserved for it is
blank. -/
def Fetched.Hushed (s : Driver) (tp : ProcId) (need : Nat) : Fetched → Prop
  | .refused s' buf => s.Hushed s' ∧ ∀ b, buf = some b → s'.view.Blank tp b
  | .ready s' buf _ => s.Hushed s' ∧ ∃ load : Load, load.need = need ∧
      s'.view.buffers tp buf.id = some { load := load }

/-- **Fetching a payload** allocates its buffer and does nothing else the call
machine sees. -/
theorem fetchPayload_hushed (hs : Sound s) (env : Env) (tp : ProcId) (tr : TransactionData)
    (extraSize : Nat) (oneway : Bool) :
    (fetchPayload env s tp tr extraSize oneway).Hushed s tp
      (needOf tr.dataSize tr.offsetsSize extraSize) := by
  obtain ⟨hs₁, hcases⟩ :=
    bufferAlloc_cases hs env tp tr.dataSize tr.offsetsSize extraSize oneway
  apply fetchPayload_rule (P := Fetched.Hushed s tp _)
  · exact ⟨⟨hs, .refl _⟩, by simp⟩
  · intro s₁ heq
    rw [heq] at hs₁ hcases
    refine ⟨⟨hs₁, ?_⟩, by simp⟩
    rcases hcases with h | h
    · rw [h]
      exact .refl _
    · rw [h]
      exact QuietMove.bump.quiet
  · intro b s₁ heq
    rw [heq] at hs₁ hcases
    obtain ⟨hfree, load, hneed, hview⟩ := hcases
    have hquiet : Quiet s.view s₁.view := by
      rcases hview with h | h
      · rw [h]
        exact (QuietMove.alloc tp b load hfree).quiet
      · rw [h]
        exact QuietMove.bump.quiet.trans
          (QuietMove.alloc (v := s.view.bump) tp b load hfree).quiet
    have hload : s₁.view.buffers tp b = some { load := load } := by
      rcases hview with h | h <;> rw [h, buffers_setBuffer, if_pos ⟨rfl, rfl⟩]
    have hushed : Hushed s s₁.bumpId :=
      ⟨hs₁.bumpId, hquiet.trans (QuietMove.bump (v := s₁.view)).quiet⟩
    refine ⟨⟨hushed, ?_⟩, ⟨hushed, by simp⟩, ?_⟩
    · rintro b' ⟨⟩
      exact ⟨load, hload⟩
    · intro data offsets buf _ _ _ _ hfind
      obtain ⟨-, hid⟩ := (hushed.sound.arenas tp).find_eq_some.mp hfind
      refine ⟨⟨hushed.sound.same rfl, hushed.quiet⟩, load, hneed, ?_⟩
      rw [hid]
      exact hload

/-! ## Refusals -/

/-- An error to the caller touches no buffer. -/
theorem buffers_refuse (v : Calls) (th : ThreadId) (br : BR) :
    (v.refuse th br).buffers = v.buffers := by
  simp only [refuse, Calls.queueError, Calls.note]
  rw [enqueue_eq]
  rfl

theorem dropTarget_hushed (hs : Sound s) (tgt : Target) : Hushed s (s.dropTarget tgt) := by
  unfold dropTarget
  split
  · exact ObjectSteps.hushed (O := fun _ => False) hs (nodeDecTmpref_steps hs _)
  · exact ⟨hs, .refl _⟩

/-- The payload of a refused send is given back. -/
theorem undo_hushed (hs : Sound s) (th : ThreadId) {tp : ProcId} {buf : Option BufferId}
    (hblank : ∀ b, buf = some b → s.view.Blank tp b) :
    Hushed (s.txnError th .failedReply) ((s.txnError th .failedReply).releasePayload tp buf) := by
  have hs₁ := hs.txnError th .failedReply
  cases buf with
  | none => exact ⟨hs₁, .refl _⟩
  | some b =>
      refine releaseAndFree_hushed hs₁ ?_
      rw [view_txnError, Blank, buffers_refuse]
      exact hblank b rfl

/-- An error to the caller is queued whatever its stack. -/
theorem refuse_setStack (v : Calls) (th : ThreadId) (br : BR) (top : Option TxnId) :
    (v.setStack th top).refuse th br = (v.refuse th br).setStack th top := by
  have hcomm : (v.setStack th top).setError th br = (v.setError th br).setStack th top := by
    simp only [Calls.setStack, Calls.setError, Calls.updThread, Calls.setThread,
      Function.update_self, Function.update_idem, Option.map_map]
    rfl
  simp only [refuse, Calls.queueError, hcomm]
  simp only [Calls.enqueue]
  split <;> split <;> first | rfl | contradiction

/-- The clean-up of a refused call. -/
theorem refuseSend_call (hs : Sound s) (th : ThreadId) {tgt : Target} {buf : Option BufferId}
    (hreply : tgt.inReplyTo = none)
    (hblank : ∀ b, buf = some b → s.view.Blank tgt.proc b) :
    Sound (s.refuseSend th tgt buf) ∧
      Quiet (s.view.refuse th .failedReply) (s.refuseSend th tgt buf).view := by
  have hundo := undo_hushed hs th hblank
  have hdrop := dropTarget_hushed hundo.sound tgt
  rw [← view_txnError]
  simp only [refuseSend, undoSend, hreply]
  exact ⟨hdrop.sound, hundo.quiet.trans hdrop.quiet⟩

/-- The clean-up of a refused reply puts the call back on the stack. -/
theorem refuseSend_reply (hs : Sound s) (th : ThreadId) {tgt : Target} {buf : Option BufferId}
    {t : TxnId} (hreply : tgt.inReplyTo = some t) (hnode : tgt.node = none)
    (hblank : ∀ b, buf = some b → s.view.Blank tgt.proc b) :
    Sound (s.refuseSend th tgt buf) ∧
      Quiet ((s.view.refuse th .failedReply).setStack th (some t))
        (s.refuseSend th tgt buf).view := by
  have hundo := undo_hushed hs th hblank
  simp only [refuseSend, undoSend, hreply, dropTarget, hnode]
  refine ⟨hundo.sound.setStack th _, ?_⟩
  rw [← view_txnError, view_setStack]
  exact hundo.quiet.setStack th (some t)

/-! ## Choosing the receiver -/

/-- What is known of the receiver of a reply. -/
structure ReplyTo (s : Driver) (th : ThreadId) (tgt : Target) (t : TxnId) (target : ThreadId) :
    Prop where
  inReplyTo : tgt.inReplyTo = some t
  node : tgt.node = none
  thread : tgt.thread = some target
  stack : s.view.stackOf th = some t
  sender : (s.txns t).bind (·.fromThread) = some target
  live : s.view.live target = true
  proc : s.view.procOf target = some tgt.proc

/-- What is known of the receiver of a call. -/
structure CallTo (s : Driver) (tgt : Target) (n : NodeId) (oneway : Bool) : Prop where
  inReplyTo : tgt.inReplyTo = none
  node : tgt.node = some n
  alive : s.view.procs tgt.proc = some false
  owner : s.view.owner n = some tgt.proc
  thread : ∀ target, tgt.thread = some target →
    oneway = false ∧ s.view.procOf target = some tgt.proc

/-- Transaction `x` to node `n` goes where `th`, for `p`, aimed it. -/
structure Aims (s : Driver) (p : ProcId) (th : ThreadId) (handle : Nat) (oneway : Bool)
    (n : NodeId) (x : Txn) : Prop where
  target : s.targetNodeOf p handle = .ok n
  owner : s.nodeOwner n = some x.toProc
  thread : x.toThread = if oneway then none else s.targetThreadFor th x.toProc

/-- The outcome of choosing a receiver. -/
def Selected.Refines (s : Driver) (th : ThreadId) (reply oneway : Bool) : Selected → Prop
  | .refused s' => Sound s' ∧ ∀ aim, Send aim th reply s.view s'.view
  | .target s' tgt => Sound s' ∧
      if reply then ∃ t target, ReplyTo s th tgt t target ∧
        s' = s.setStack th ((s.txns t).bind (·.toParent))
      else ∃ n, CallTo s tgt n oneway ∧ s'.view = s.view

theorem refused_of_error (hs : Sound s) (th : ThreadId) (reply oneway : Bool) {br : BR}
    (hbr : br = .failedReply ∨ br = .deadReply) :
    (Selected.refused (s.txnError th br)).Refines s th reply oneway := by
  refine ⟨hs.txnError th br, ?_⟩
  rw [view_txnError]
  exact fun _ => .refused br hbr (.refl _) (.refl _)

/-- **Choosing the caller of an answered call** is a step of the call machine. -/
theorem selectReply_refines (hs : Sound s) (th : ThreadId) :
    (s.selectReply th).Refines s th true false := by
  rcases s.selectReply_ends th with heq | ⟨t, s₁, htop, rfl, hends⟩
  · rw [heq]
    exact refused_of_error hs th true false (.inl rfl)
  have hstack : s.view.stackOf th = some t := (view_stackOf s th).trans htop
  have hlive : ∀ target, s.view.live target = (((s.setStack th ((s.txns t).bind
      (·.toParent))).threads target).map fun thread => !thread.isDead).getD false := by
    intro target
    rw [← view_live, view_setStack, live_setStack]
  rcases hends with ⟨heq, hdead⟩ | ⟨target, thread, hfrom, hthread, halive, heq⟩ <;> rw [heq]
  · refine ⟨((hs.setStack th _).txnError th _).freeTransaction t, ?_⟩
    rw [view_freeTransaction, view_txnError, view_setStack]
    refine fun _ => .deadReply rfl t hstack ?_
    intro target hfrom
    rw [hlive]
    cases hthread : (s.setStack th ((s.txns t).bind (·.toParent))).threads target with
    | none => rfl
    | some thread => simp [hdead target thread hfrom hthread]
  · refine ⟨hs.setStack th _, ?_⟩
    rw [if_pos rfl]
    refine ⟨t, target, ⟨rfl, rfl, rfl, hstack, hfrom, ?_, ?_⟩, rfl⟩
    · simp [hlive, hthread, halive]
    · rw [← procOf_setStack, ← view_setStack, view_procOf, hthread]
      rfl

/-- A thread `binder_target_thread_for` finds belongs to the target. -/
theorem targetThreadWalk_proc {tp : ProcId} {fuel : Nat} {top : Option TxnId} {target : ThreadId}
    (h : s.targetThreadWalk tp fuel top = some target) :
    (s.threads target).map (·.proc) = some tp := by
  induction fuel generalizing top with
  | zero => simp [targetThreadWalk] at h
  | succ fuel ih =>
      cases top with
      | none => simp [targetThreadWalk] at h
      | some t =>
          simp only [targetThreadWalk] at h
          split at h
          · cases h
          · split at h
            · split at h
              · rename_i hproc
                cases h
                exact hproc
              · exact ih h
            · exact ih h

/-- The owner of a live node is alive. -/
theorem nodeOwner_eq_some {n : NodeId} {tp : ProcId} (h : s.nodeOwner n = some tp) :
    s.view.procs tp = some false ∧ s.view.owner n = some tp := by
  unfold nodeOwner at h
  split at h
  · cases h
  · rename_i nd hn
    split at h
    · cases h
    · split at h
      · cases h
      · rename_i p hp
        split at h
        · cases h
        · rename_i proc hproc
          split at h
          · cases h
          · rename_i halive
            cases h
            exact ⟨by simpa [view, hproc] using halive, by simp [view, hn, hp]⟩

/-- **Choosing the owner of a node** is a step of the call machine. -/
theorem selectCall_refines (hs : Sound s) (p : ProcId) (th : ThreadId) (handle : Nat)
    (oneway : Bool) : (s.selectCall p th handle oneway).Refines s th false oneway := by
  unfold selectCall
  split
  · rename_i br hbr
    refine refused_of_error hs th false oneway ?_
    unfold targetNodeOf at hbr
    split at hbr
    · split at hbr <;> cases hbr
      exact .inl rfl
    · split at hbr <;> cases hbr
      exact .inr rfl
  · rename_i n _
    split
    · exact refused_of_error hs th false oneway (.inr rfl)
    · rename_i tp howner
      obtain ⟨halive, hown⟩ := nodeOwner_eq_some howner
      have hview : (s.nodeIncTmpref n).view = s.view := view_updNode s n fun _ => rfl
      refine ⟨ObjectStep.sound (O := fun _ => False) hs (.count n _ ⟨?_, ?_, ?_, ?_⟩), ?_⟩
      · simp
      · simp
      · simp
      · simp
      · rw [if_neg Bool.false_ne_true]
        refine ⟨n, ⟨rfl, rfl, halive, hown, ?_⟩, hview⟩
        intro target htarget
        cases oneway with
        | true => simp at htarget
        | false =>
            refine ⟨rfl, ?_⟩
            rw [← hview, view_procOf]
            exact targetThreadWalk_proc htarget

/-- The walk looks at the threads and the transactions only. -/
theorem targetThreadWalk_congr {t : Driver} (htxns : t.txns = s.txns)
    (hthreads : t.threads = s.threads) (tp : ProcId) (fuel : Nat) (top : Option TxnId) :
    t.targetThreadWalk tp fuel top = s.targetThreadWalk tp fuel top := by
  induction fuel generalizing top with
  | zero => rfl
  | succ fuel ih =>
      cases top with
      | none => rfl
      | some u => simp only [targetThreadWalk, htxns, hthreads, ih]

/-- The target that was chosen for a call is the one the command aims at. -/
theorem selectCall_aims {p : ProcId} {th : ThreadId} {handle : Nat} {oneway : Bool} {s₁ : Driver}
    {tgt : Target} (h : s.selectCall p th handle (!false && oneway) = .target s₁ tgt) {n : NodeId}
    (hn : tgt.node = some n) (x : Txn) (hx : x.toProc = tgt.proc ∧ x.toThread = tgt.thread) :
    s.Aims p th handle oneway n x := by
  unfold selectCall at h
  split at h
  · cases h
  · rename_i m hm
    split at h
    · cases h
    · rename_i tp howner
      cases h
      cases hn
      have hsame : (s.nodeIncTmpref n).targetThreadFor th tp = s.targetThreadFor th tp :=
        targetThreadWalk_congr (t := s.nodeIncTmpref n) (s := s) rfl rfl tp _ _
      refine ⟨hm, hx.1 ▸ howner, ?_⟩
      rw [hx.2, hx.1]
      simp only [hsame, Bool.not_false, Bool.true_and]

/-! ## Acceptance -/

/-- A record placed and then completed is a complete record placed. -/
theorem place_updTxn (v : Calls) (t : TxnId) (x : Txn) (b : BufferId) (node : Option NodeId)
    {f : Txn → Txn} (hf : (f x).toProc = x.toProc) :
    (v.place t x b node).updTxn t f = v.place t (f x) b node := by
  simp [Calls.place, Calls.updTxn, Calls.setTxn, Calls.updBuffer, Calls.setBuffer, hf]

/-- The record is placed and tied to its buffer. -/
theorem newTransaction_refines (hs : Sound s) (env : Env) (p : ProcId) (th : ThreadId)
    (tgt : Target) (tr : TransactionData) (reply oneway : Bool) {b : BufferId} {t : TxnId}
    (hblank : s.view.Blank tgt.proc b)
    (hloc : s.queues.loc (.transaction t) = none) :
    Sound (newTransaction env s p th tgt tr reply oneway b t) ∧
      (newTransaction env s p th tgt tr reply oneway b t).view =
        s.view.place t (newRecord env s p th tgt tr reply oneway b) b tgt.node := by
  have hused : ((s.arenas tgt.proc).used b).isSome := by
    obtain ⟨load, hload⟩ := hblank
    rw [view_buffers] at hload
    cases hu : (s.arenas tgt.proc).used b with
    | none => simp [hu] at hload
    | some buf => rfl
  have hins : Sound (s.insertTxn t (newRecord env s p th tgt tr reply oneway b)) :=
    hs.setUnqueued _ hloc
  have hupd := hins.updUsed (p := tgt.proc) (b := b) (f := fun buf =>
    { buf with transaction := some t, targetNode := tgt.node }) hused (fun _ => rfl)
    (fun _ => ⟨rfl, rfl, rfl, rfl⟩) fun _ => rfl
  refine ⟨hupd.same rfl, ?_⟩
  exact view_updBuffer (s.insertTxn t _) tgt.proc b (fun _ => rfl) (fun _ => rfl) fun _ _ => rfl

/-- Where an accepted call waits. -/
def callQueue (tgt : Target) : Queue :=
  match tgt.thread with
  | some target => .thread target
  | none => .proc tgt.proc

/-- A call goes on its sender's stack and on the queue of its target. -/
theorem queueTransaction_call (hs : Sound s) (th : ThreadId) {tgt : Target} {t : TxnId}
    (hreply : tgt.inReplyTo = none) (ht : t < s.nextId) :
    Sound (s.queueTransaction th tgt false t) ∧
      (s.queueTransaction th tgt false t).view =
        ((s.view.updTxn t fun x => { x with fromParent := s.view.stackOf th }).setStack th
          (some t)).enqueue (.transaction t) (callQueue tgt) := by
  have hupd : Sound (s.updTxn t fun x =>
      { x with fromParent := (s.threads th).bind (·.transactionStack) }) :=
    hs.updTxn t fun x ho => ⟨ho.fromThread, ho.toThread, ho.needReply⟩
  have hset := hupd.setStack th (some t)
  have hview : ((s.updTxn t fun x => { x with
      fromParent := (s.threads th).bind (·.transactionStack) }).setStack th (some t)).view =
      (s.view.updTxn t fun x => { x with fromParent := s.view.stackOf th }).setStack th
        (some t) := by
    rw [view_setStack, view_updTxn, view_stackOf]
  simp only [queueTransaction, hreply, callQueue]
  rw [if_neg Bool.false_ne_true]
  cases tgt.thread with
  | some target =>
      refine ⟨(hset.enqueue (q := .thread target) (.transaction t) false ?_ (by simp)).wakeupThread
        target, ?_⟩
      · rintro _ ⟨⟩
        exact ht
      · rw [view_wakeupThread, ← hview]
        exact view_insert_call _ (.thread target) false rfl
  | none =>
      refine ⟨(hset.enqueue (q := .proc tgt.proc) (.transaction t) false ?_ (by simp)).same rfl, ?_⟩
      · rintro _ ⟨⟩
        exact ht
      · rw [view_wakeupProc, ← hview]
        exact view_insert_call _ (.proc tgt.proc) false rfl

/-- A oneway call goes on the pool's queue, or behind its node. -/
theorem queueTransaction_oneway (hs : Sound s) (th : ThreadId) {tgt : Target} {t : TxnId}
    {x : Txn} {n : NodeId} (hreply : tgt.inReplyTo = none) (hnode : tgt.node = some n)
    (ht : t < s.nextId) (hx : s.txns t = some x) (ho : x.Oneway)
    (hloc : s.queues.loc (.transaction t) = none) :
    Sound (s.queueTransaction th tgt true t) ∧ ∃ q, (q = .proc tgt.proc ∨ q = .node n) ∧
      (s.queueTransaction th tgt true t).view = s.view.enqueue (.transaction t) q := by
  simp only [queueTransaction, hreply, hnode, if_true]
  split
  · refine ⟨hs.linkBehindNode hx ho ht hloc, .node n, .inr rfl, ?_⟩
    rw [linkBehindNode, Queues.link_eq_insert hloc]
    exact view_insert_call s (.node n) false rfl
  · have hcount : Sound (s.updNode n fun nd => { nd with hasAsyncTransaction := true }) :=
      ObjectStep.sound (O := fun _ => False) hs
        (.count n _ ⟨fun _ => rfl, fun _ => rfl, fun _ => rfl, fun _ => rfl⟩)
    refine ⟨(hcount.enqueue (q := .proc tgt.proc) (.transaction t) false ?_ (by simp)).same rfl,
      .proc tgt.proc, .inl rfl, ?_⟩
    · rintro _ ⟨⟩
      exact ht
    · rw [view_wakeupProc]
      refine (view_insert_call _ (.proc tgt.proc) false rfl).trans ?_
      rw [view_updNode s n (by intro _; rfl)]

/-- A reply goes to the thread that waits, and the call it answers goes. -/
theorem queueTransaction_reply (hs : Sound s) (th : ThreadId) {tgt : Target} {t call : TxnId}
    {target : ThreadId} (oneway : Bool) (hreply : tgt.inReplyTo = some call)
    (hthread : tgt.thread = some target) (ht : t < s.nextId) :
    Sound (s.queueTransaction th tgt oneway t) ∧
      (s.queueTransaction th tgt oneway t).view =
        ((s.view.freeTransaction call).note (.reply th call t)).enqueue (.transaction t)
          (.thread target) := by
  simp only [queueTransaction, hreply, hthread]
  have hfree : Sound ((s.freeTransaction call).note (.reply th call t)) :=
    (hs.freeTransaction call).same rfl
  refine ⟨(hfree.enqueue (q := .thread target) (.transaction t) false ?_ (by simp)).wakeupThread
    target, ?_⟩
  · rintro _ ⟨⟩
    exact Nat.lt_of_lt_of_eq ht (freeTransaction_objects s call).2.symm
  · rw [view_wakeupThread]
    refine (view_insert_call _ (.thread target) false rfl).trans ?_
    rw [view_note, view_freeTransaction]

/-- The completion, the note and the release of the target are as before. -/
theorem finishAccept (hs : Sound s) (th : ThreadId) (tgt : Target) (c : Nat) (e : Event) :
    Sound (((s.enqueueThreadWork th (.complete c)).note e).dropTarget tgt) ∧
      Quiet (s.view.note e)
        (((s.enqueueThreadWork th (.complete c)).note e).dropTarget tgt).view := by
  have hcomp : Sound (s.enqueueThreadWork th (.complete c)) :=
    hs.enqueue _ false (by simp) (by simp)
  have hview : (s.enqueueThreadWork th (.complete c)).view = s.view :=
    view_insert_other s (.thread th) false rfl
  have hdrop := dropTarget_hushed (s := (s.enqueueThreadWork th (.complete c)).note e)
    (hcomp.same rfl) tgt
  refine ⟨hdrop.sound, ?_⟩
  have hquiet := hdrop.quiet
  rw [view_note, hview] at hquiet
  exact hquiet

/-- An accepted call. -/
theorem acceptSend_call (hs : Sound s) (hb : Base s.view) (env : Env) (p : ProcId)
    (th : ThreadId) {tgt : Target} (tr : TransactionData) {b : BufferId} (c : Nat) {n : NodeId}
    (hreply : tgt.inReplyTo = none) (hnode : tgt.node = some n)
    (hblank : s.view.Blank tgt.proc b) (halive : s.view.procs tgt.proc = some false)
    (howned : s.view.Owned n tgt.proc)
    (hthread : ∀ target, tgt.thread = some target → s.view.procOf target = some tgt.proc) :
    Sound (acceptSend env s.bumpId.bumpId p th tgt tr false false b s.nextId c) ∧
      ∃ x q, s.view.IsCall th x b n q ∧ (x.toProc = tgt.proc ∧ x.toThread = tgt.thread) ∧
        Quiet (s.view.acceptCall th x b n q)
          (acceptSend env s.bumpId.bumpId p th tgt tr false false b s.nextId c).view := by
  have hloc : s.queues.loc (.transaction s.nextId) = none := hb.loc_nextId
  obtain ⟨hs₁, hv₁⟩ := newTransaction_refines hs.bumpId.bumpId env p th tgt tr false false
    (b := b) (t := s.nextId) hblank hloc
  obtain ⟨hs₂, hv₂⟩ := queueTransaction_call hs₁ th (t := s.nextId) hreply
    (Nat.lt_succ_of_lt (Nat.lt_succ_self _))
  obtain ⟨hs₃, hq₃⟩ := finishAccept hs₂ th tgt c (.accept th s.nextId tgt.proc true)
  refine ⟨hs₃, { newRecord env s.bumpId.bumpId p th tgt tr false false b with
    fromParent := s.view.stackOf th }, callQueue tgt, ?_, ⟨rfl, rfl⟩, ?_⟩
  · refine ⟨rfl, rfl, rfl, rfl, rfl, hblank, halive, ?_, howned⟩
    simp only [newRecord, callQueue]
    cases htarget : tgt.thread with
    | some target => exact ⟨rfl, hthread target htarget⟩
    | none => rfl
  · have hstack : (newTransaction env s.bumpId.bumpId p th tgt tr false false b
        s.nextId).view.stackOf th = s.view.stackOf th := by
      rw [hv₁]
      rfl
    rw [hstack, hv₁, place_updTxn _ _ _ _ _ rfl, hnode] at hv₂
    rw [hv₂] at hq₃
    exact hq₃

/-- An accepted oneway transaction. -/
theorem acceptSend_oneway (hs : Sound s) (hb : Base s.view) (env : Env) (p : ProcId)
    (th : ThreadId) {tgt : Target} (tr : TransactionData) {b : BufferId} (c : Nat) {n : NodeId}
    (hreply : tgt.inReplyTo = none) (hnode : tgt.node = some n) (hthread : tgt.thread = none)
    (hblank : s.view.Blank tgt.proc b) (halive : s.view.procs tgt.proc = some false)
    (howned : s.view.Owned n tgt.proc) :
    Sound (acceptSend env s.bumpId.bumpId p th tgt tr false true b s.nextId c) ∧
      ∃ x q, s.view.IsOneway x b n q ∧ (x.toProc = tgt.proc ∧ x.toThread = tgt.thread) ∧
        Quiet (s.view.acceptOneway th x b n q)
          (acceptSend env s.bumpId.bumpId p th tgt tr false true b s.nextId c).view := by
  have hloc : s.queues.loc (.transaction s.nextId) = none := hb.loc_nextId
  obtain ⟨hs₁, hv₁⟩ := newTransaction_refines hs.bumpId.bumpId env p th tgt tr false true
    (b := b) (t := s.nextId) hblank hloc
  have hone : (newRecord env s.bumpId.bumpId p th tgt tr false true b).Oneway :=
    ⟨rfl, hthread, rfl⟩
  have htxn : (newTransaction env s.bumpId.bumpId p th tgt tr false true b s.nextId).txns
      s.nextId = some (newRecord env s.bumpId.bumpId p th tgt tr false true b) :=
    Function.update_self _ _ _
  obtain ⟨hs₂, q, hq, hv₂⟩ := queueTransaction_oneway hs₁ th (t := s.nextId) hreply hnode
    (Nat.lt_succ_of_lt (Nat.lt_succ_self _)) htxn hone hloc
  obtain ⟨hs₃, hq₃⟩ := finishAccept hs₂ th tgt c (.accept th s.nextId tgt.proc false)
  refine ⟨hs₃, newRecord env s.bumpId.bumpId p th tgt tr false true b, q,
    ⟨hone, rfl, rfl, rfl, hblank, halive, hq, howned⟩, ⟨rfl, rfl⟩, ?_⟩
  rw [hv₁, hnode] at hv₂
  rw [hv₂] at hq₃
  exact hq₃

/-- An accepted reply; the call it answers has already been popped. -/
theorem acceptSend_reply (hs : Sound s) (hb : Base s.view) (env : Env) (p : ProcId)
    (th : ThreadId) {tgt : Target} (tr : TransactionData) {b : BufferId} (c : Nat)
    {call : TxnId} {target : ThreadId} {y : Txn} (hreply : tgt.inReplyTo = some call)
    (hnode : tgt.node = none) (hthread : tgt.thread = some target)
    (hblank : s.view.Blank tgt.proc b) (hy : s.view.txns call = some y)
    (hsender : y.fromThread = some target) (hlive : s.view.live target = true)
    (hproc : s.view.procOf target = some tgt.proc) (hth : (s.view.procOf th).isSome)
    (htop : s.view.stackOf th = y.toParent) :
    Sound (acceptSend env s.bumpId.bumpId p th tgt tr true false b s.nextId c) ∧
      ∃ x, (s.view.setStack th (some call)).IsReply th target call x b ∧
        Quiet ((s.view.setStack th (some call)).acceptReply th target call x b)
          (acceptSend env s.bumpId.bumpId p th tgt tr true false b s.nextId c).view := by
  have hloc : s.queues.loc (.transaction s.nextId) = none := hb.loc_nextId
  obtain ⟨hs₁, hv₁⟩ := newTransaction_refines hs.bumpId.bumpId env p th tgt tr true false
    (b := b) (t := s.nextId) hblank hloc
  obtain ⟨hs₂, hv₂⟩ := queueTransaction_reply hs₁ th (t := s.nextId) false hreply hthread
    (Nat.lt_succ_of_lt (Nat.lt_succ_self _))
  obtain ⟨hs₃, hq₃⟩ := finishAccept hs₂ th tgt c (.accept th s.nextId tgt.proc false)
  obtain ⟨q, hq⟩ := Option.isSome_iff_exists.mp hth
  refine ⟨hs₃, newRecord env s.bumpId.bumpId p th tgt tr true false b, ?_, ?_⟩
  · refine ⟨stackOf_setStack_same hq _, ?_, ?_, ?_, rfl, rfl, hthread, rfl, rfl, rfl, hblank⟩
    · change (s.view.txns call).bind _ = _
      rw [hy]
      exact hsender
    · rw [live_setStack]
      exact hlive
    · rw [procOf_setStack]
      exact hproc
  · -- popping the call again gives the state the driver is in
    have hpop : (s.view.setStack th (some call)).setStack th
        (((s.view.setStack th (some call)).txns call).bind (·.toParent)) = s.view := by
      change (s.view.setStack th (some call)).setStack th ((s.view.txns call).bind _) = _
      rw [setStack_setStack, hy, Option.bind_some, ← htop, setStack_stackOf]
    rw [hv₁, hnode] at hv₂
    rw [hv₂] at hq₃
    simp only [Calls.acceptReply]
    rw [hpop]
    exact hq₃

/-! ## The whole send -/

/-- The translation keeps the length of the copy. -/
theorem translateLoop_length {env : Env} {p : ProcId} {th : ThreadId} {tgt : Target}
    {tr : TransactionData} {extraSize : Nat} {oneway : Bool} {s₁ : Driver} {buf : Buffer}
    {kdata : Bytes} (hf : fetchPayload env s tgt.proc tr extraSize oneway = .ready s₁ buf kdata)
    {ls : LoopState} {error : Option Errno}
    (hloop : translateLoop (parcelOf env s₁ p th tgt tr extraSize buf)
      { drv := s₁, kdata := kdata }
      (List.range (parcelOf env s₁ p th tgt tr extraSize buf).count) = (ls, error)) :
    ls.kdata.length = needOf tr.dataSize tr.offsetsSize extraSize := by
  have htrans : translationOf env s p th tgt tr extraSize oneway =
      some (parcelOf env s₁ p th tgt tr extraSize buf, { drv := s₁, kdata := kdata }) := by
    rw [translationOf, hf]
  obtain ⟨hlayout, hfits, -⟩ := translationOf_layout htrans
  have hspec := (translateLoop_spec hlayout (List.range _)
    (fun i hi => List.mem_range.mp hi) hfits).1.length
  rw [hloop, totalOf_eq_needOf] at hspec
  exact hspec

/-- The state of a send when the translation loop is over. -/
theorem translated (hs : Sound s) {env : Env} {p : ProcId} {th : ThreadId} {tgt : Target}
    {tr : TransactionData} {extraSize : Nat} {buf : Buffer} {kdata : Bytes}
    {load : Load} (hload : s.view.buffers tgt.proc buf.id = some { load := load })
    {ls : LoopState} {error : Option Errno} (hlen : ls.kdata.length = load.need)
    (hloop : translateLoop (parcelOf env s p th tgt tr extraSize buf) { drv := s, kdata := kdata }
      (List.range (parcelOf env s p th tgt tr extraSize buf).count) = (ls, error)) :
    Hushed s (ls.drv.updBuffer tgt.proc buf.id fun buf => { buf with kdata := some ls.kdata }) ∧
      (ls.drv.updBuffer tgt.proc buf.id fun buf =>
        { buf with kdata := some ls.kdata }).view.Blank tgt.proc buf.id := by
  have hsteps : ObjectSteps (fun _ => False) s ls.drv := by
    have hs₀ : Sound ({ drv := s, kdata := kdata } : LoopState).drv := hs
    have h := translateLoop_steps (O := fun _ => False)
      (c := parcelOf env s p th tgt tr extraSize buf) hs₀
      (List.range (parcelOf env s p th tgt tr extraSize buf).count)
    rw [hloop] at h
    exact h
  have hs₁ := ObjectSteps.sound hs hsteps
  have hload : ls.drv.view.buffers tgt.proc buf.id = some { load := load } := by
    rcases hsteps.buffers hs hload with h | h <;> exact h
  obtain ⟨buf', hused, hview'⟩ := Option.map_eq_some_iff.mp hload
  have hneed : ∀ y ∈ (ls.drv.arenas tgt.proc).buffers, y.id = buf.id → y.need = load.need := by
    intro y hy hid
    obtain ⟨⟨hmem, hid'⟩, -⟩ := (hs₁.arenas tgt.proc).used_eq_some.mp hused
    rw [List.inj_on_of_nodup_map (hs₁.arenas tgt.proc).nodup hy hmem (hid.trans hid'.symm)]
    exact congrArg (fun view => view.load.need) hview'
  have hview : (ls.drv.updBuffer tgt.proc buf.id fun buf =>
      { buf with kdata := some ls.kdata }).view =
      ls.drv.view.setBuffer tgt.proc buf.id
        (some { load := { load with kdata := some ls.kdata } }) := by
    refine (view_updBuffer (f := fun buf => { buf with kdata := some ls.kdata })
      (g := fun view => { view with load := { view.load with kdata := some ls.kdata } })
      ls.drv tgt.proc buf.id (fun _ => rfl) (fun _ => rfl) fun _ _ => rfl).trans ?_
    rw [Calls.updBuffer, hload]
    rfl
  refine ⟨⟨hs₁.fillUsed (by rw [hused]; rfl) (fun _ => rfl) (fun _ => ⟨rfl, rfl, rfl, rfl⟩) ?_, ?_⟩,
    ?_⟩
  · intro y hy hid kdata hk
    cases hk
    exact .inr (hlen.trans (hneed y hy hid).symm)
  · rw [hview]
    exact (ObjectSteps.quiet hs hsteps).trans (QuietMove.fill _ _ _ ⟨load, hload⟩).quiet
  · rw [hview]
    exact ⟨_, (buffers_setBuffer ..).trans (if_pos ⟨rfl, rfl⟩)⟩

/-- What a send whose receiver is chosen comes to: it is refused with whatever
buffer it had, or accepted. -/
theorem sendTo_cases (hs : Sound s) (env : Env) (p : ProcId) (th : ThreadId) (tgt : Target)
    (tr : TransactionData) (extraSize : Nat) (reply oneway : Bool) :
    (∃ s₁ buf, Hushed s s₁ ∧ (∀ b, buf = some b → s₁.view.Blank tgt.proc b) ∧
        sendTo env s p th tgt tr extraSize reply oneway = s₁.refuseSend th tgt buf) ∨
      ∃ s₁ b, Hushed s s₁ ∧ s₁.view.Blank tgt.proc b ∧
        sendTo env s p th tgt tr extraSize reply oneway =
          acceptSend env s₁.bumpId.bumpId p th tgt tr reply oneway b s₁.nextId (s₁.nextId + 1) := by
  have hfetch := fetchPayload_hushed hs env tgt.proc tr extraSize oneway
  rcases sendTo_ends env s p th tgt tr extraSize reply oneway with ⟨s₁, buf, hf, heq⟩ |
    ⟨s₁, buf, kdata, c, ls, error, s₂, hf, rfl, hloop, rfl, heq⟩
  · rw [hf] at hfetch
    exact .inl ⟨s₁, buf, hfetch.1, hfetch.2, heq⟩
  · rw [hf] at hfetch
    obtain ⟨⟨hs₁, hq₁⟩, load, hneed, hload⟩ := hfetch
    obtain ⟨⟨hs₂, hq₂⟩, hblank⟩ := translated hs₁ hload
      ((translateLoop_length hf hloop).trans hneed.symm) hloop
    have hq := hq₁.trans hq₂
    rcases heq with heq | heq | heq
    · refine .inl ⟨_, some buf.id, ⟨hs₂, hq⟩, ?_, heq⟩
      rintro _ ⟨⟩
      exact hblank
    · refine .inl ⟨_, some buf.id, ⟨hs₂.bumpId.bumpId, ?_⟩, ?_, heq⟩
      · exact hq.trans (QuietMove.bump.quiet.trans QuietMove.bump.quiet)
      · rintro _ ⟨⟩
        exact hblank
    · exact .inr ⟨_, buf.id, ⟨hs₂, hq⟩, hblank, heq⟩

/-- **A call** is a send of the call machine, whatever its end. -/
theorem sendTo_call (hs : Sound s) (hb : Base s.view) (ha : Aimed s.view) (env : Env)
    (p : ProcId) (th : ThreadId) {tgt : Target} {n : NodeId} {oneway : Bool}
    (htgt : CallTo s tgt n oneway) {aim : NodeId → Txn → Prop}
    (haim : ∀ x : Txn, x.toProc = tgt.proc ∧ x.toThread = tgt.thread → aim n x)
    (tr : TransactionData) (extraSize : Nat) :
    Sound (sendTo env s p th tgt tr extraSize false oneway) ∧
      Send aim th false s.view (sendTo env s p th tgt tr extraSize false oneway).view := by
  have hn : n < s.nextId := by
    have howner := htgt.owner
    simp only [view] at howner
    obtain ⟨nd, hnd, -⟩ := Option.bind_eq_some_iff.mp howner
    exact hs.graph.nodes_lt n nd hnd
  have howned : s.view.Owned n tgt.proc := by
    refine ⟨hn, .inl htgt.owner, ?_⟩
    intro p' hp'
    rcases (ha n p' hp').owner with ho | ho <;> rw [htgt.owner] at ho
    · exact (Option.some.inj ho).symm
    · cases ho
  rcases sendTo_cases hs env p th tgt tr extraSize false oneway with
    ⟨s₁, buf, ⟨hs₁, hq₁⟩, hblank, heq⟩ | ⟨s₁, b, ⟨hs₁, hq₁⟩, hblank, heq⟩
  · rw [heq]
    obtain ⟨hs₂, hq₂⟩ := refuseSend_call hs₁ th htgt.inReplyTo hblank
    exact ⟨hs₂, .refused .failedReply (.inl rfl) hq₁ hq₂⟩
  · rw [heq]
    have hb₁ := hb.quiet hq₁
    have halive : s₁.view.procs tgt.proc = some false := by rw [hq₁.procs]; exact htgt.alive
    have howned₁ := howned.shrink hq₁.shrinks
    cases oneway with
    | false =>
        obtain ⟨hs₂, x, q, hx, hto, hq₂⟩ := acceptSend_call hs₁ hb₁ env p th tr (s₁.nextId + 1)
          htgt.inReplyTo htgt.node hblank halive howned₁ (fun target ht => by
            rw [hq₁.procOf]
            exact (htgt.thread target ht).2)
        exact ⟨hs₂, .call rfl x b n q hq₁ hx (haim x hto) hq₂⟩
    | true =>
        have hthread : tgt.thread = none := by
          cases ht : tgt.thread with
          | none => rfl
          | some target => exact absurd (htgt.thread target ht).1 (by simp)
        obtain ⟨hs₂, x, q, hx, hto, hq₂⟩ := acceptSend_oneway hs₁ hb₁ env p th tr (s₁.nextId + 1)
          htgt.inReplyTo htgt.node hthread hblank halive howned₁
        exact ⟨hs₂, .oneway rfl x b n q hq₁ hx (haim x hto) hq₂⟩

/-- **A reply** is a send of the call machine, whatever its end. -/
theorem sendTo_reply (hs : Sound s) (hb : Base s.view) (env : Env) (p : ProcId) (th : ThreadId)
    {tgt : Target} {t : TxnId} {target : ThreadId} (htgt : ReplyTo s th tgt t target)
    (hth : (s.view.procOf th).isSome) (aim : NodeId → Txn → Prop) (tr : TransactionData)
    (extraSize : Nat) :
    Sound (sendTo env (s.setStack th ((s.txns t).bind (·.toParent))) p th tgt tr extraSize true
        false) ∧
      Send aim th true s.view (sendTo env (s.setStack th ((s.txns t).bind (·.toParent))) p th tgt tr
        extraSize true false).view := by
  obtain ⟨y, hy, hfrom⟩ := Option.bind_eq_some_iff.mp htgt.sender
  have hcall : y.needReply = true := (hb.stack th t htgt.stack).2 y hy
  have hpop : Base (s.view.setStack th y.toParent) :=
    hb.setStack fun u hu => hb.toParent t y u hy hu
  have hback : (s.view.setStack th y.toParent).setStack th (some t) = s.view := by
    rw [setStack_setStack, ← htgt.stack, setStack_stackOf]
  have hparent : (s.txns t).bind (·.toParent) = y.toParent := by rw [hy]; rfl
  rw [hparent]
  rcases sendTo_cases (hs.setStack th y.toParent) env p th tgt tr extraSize true false with
    ⟨s₁, buf, ⟨hs₁, hq₁⟩, hblank, heq⟩ | ⟨s₁, b, ⟨hs₁, hq₁⟩, hblank, heq⟩
  · rw [heq]
    rw [view_setStack] at hq₁
    have hq := hq₁.setStack th (some t)
    rw [hback] at hq
    obtain ⟨hs₂, hq₂⟩ := refuseSend_reply hs₁ th htgt.inReplyTo htgt.node hblank
    refine ⟨hs₂, .refused .failedReply (.inl rfl) hq ?_⟩
    rw [refuse_setStack]
    exact hq₂
  · rw [heq]
    rw [view_setStack] at hq₁
    have hq := hq₁.setStack th (some t)
    rw [hback] at hq
    have hkeep := hq₁.keeps_call (t := t) (x := y) hy hcall
    obtain ⟨r, hr⟩ := Option.isSome_iff_exists.mp hth
    obtain ⟨hs₂, x, hx, hq₂⟩ := acceptSend_reply hs₁ (hpop.quiet hq₁) env p th tr
      (s₁.nextId + 1) htgt.inReplyTo htgt.node htgt.thread hblank hkeep.1 hfrom
      (by rw [hq₁.live, live_setStack]; exact htgt.live)
      (by rw [hq₁.procOf, procOf_setStack]; exact htgt.proc)
      (by rw [hq₁.procOf, procOf_setStack]; exact hth)
      (by rw [hq₁.stackOf]; exact stackOf_setStack_same hr _)
    exact ⟨hs₂, .reply rfl target t x b hq hx hq₂⟩

/-- **A send is a send of the call machine.** -/
theorem transaction_refines (hs : Sound s) (hb : Base s.view) (ha : Aimed s.view) (env : Env)
    (p : ProcId) {th : ThreadId} (hth : (s.view.procOf th).isSome) (tr : TransactionData)
    (reply isSg : Bool) :
    Sound (transaction env s p th tr reply isSg) ∧
      Send (s.Aims p th tr.handle (isOneWay tr.flags)) th reply s.view
        (transaction env s p th tr reply isSg).view := by
  unfold transaction
  simp only
  cases reply with
  | true =>
      have hsel := selectReply_refines hs th
      simp only [if_true]
      cases hr : s.selectReply th with
      | refused s₁ =>
          rw [hr] at hsel
          exact ⟨hsel.1, hsel.2 _⟩
      | target s₁ tgt =>
          rw [hr] at hsel
          obtain ⟨hs₁, hsel⟩ := hsel
          rw [if_pos rfl] at hsel
          obtain ⟨t, target, htgt, rfl⟩ := hsel
          exact sendTo_reply hs hb env p th htgt hth _ tr _
  | false =>
      have hsel := selectCall_refines hs p th tr.handle (!false && isOneWay tr.flags)
      simp only [Bool.false_eq_true, if_false]
      cases hr : s.selectCall p th tr.handle (!false && isOneWay tr.flags) with
      | refused s₁ =>
          rw [hr] at hsel
          exact ⟨hsel.1, hsel.2 _⟩
      | target s₁ tgt =>
          rw [hr] at hsel
          obtain ⟨hs₁, hsel⟩ := hsel
          rw [if_neg Bool.false_ne_true] at hsel
          obtain ⟨n, htgt, hview⟩ := hsel
          have haims := selectCall_aims hr htgt.node
          have htgt₁ : CallTo s₁ tgt n (!false && isOneWay tr.flags) := by
            obtain ⟨h₁, h₂, h₃, h₄, h₅⟩ := htgt
            exact ⟨h₁, h₂, hview ▸ h₃, hview ▸ h₄, hview ▸ h₅⟩
          have hsend := sendTo_call hs₁ (hview ▸ hb) (hview ▸ ha) env p th htgt₁ haims tr
            (if isSg = true then tr.buffersSize else 0)
          rw [hview] at hsend
          exact hsend

end Driver

end Binder
