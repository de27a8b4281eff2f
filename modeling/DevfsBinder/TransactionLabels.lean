import DevfsBinder.PoolSleepers

/-!
# Labels of transactions

A receiver learns who called it from the driver alone: the `sender_pid` and
`sender_euid` of a `BR_TRANSACTION` or `BR_REPLY` are not in the payload.  Each
transaction record carries a *label*: the process it is for, the code and flags
of the command, and the identity of its sender.  A label is written once, by the
send that makes the record: every other step of the call machine keeps the labels
of the records it keeps (`CarryLabels`), and a send adds one record, whose label is
what the sending thread asked for under the identity of its process
(`Reachable.act_labels`).
-/

namespace Binder

/-- What a transaction says of its sender, its receiver and what is asked. -/
structure Label where
  toProc : ProcId
  code : Nat
  flags : Nat
  senderPid : Nat
  senderEuid : Nat
  deriving DecidableEq

def Txn.label (x : Txn) : Label :=
  ⟨x.toProc, x.code, x.flags, x.senderPid, x.senderEuid⟩

/-- Records are lost or change in what the label does not say. -/
def CarryLabels (T T' : Table Txn) : Prop :=
  ∀ t y, T' t = some y → ∃ x, T t = some x ∧ y.label = x.label

namespace CarryLabels

variable {T T' T'' : Table Txn}

theorem refl (T : Table Txn) : CarryLabels T T := fun _ y hy => ⟨y, hy, rfl⟩

theorem trans (h : CarryLabels T T') (h' : CarryLabels T' T'') : CarryLabels T T'' := by
  intro t z hz
  obtain ⟨y, hy, hzy⟩ := h' t z hz
  obtain ⟨x, hx, hyx⟩ := h t y hy
  exact ⟨x, hx, hzy.trans hyx⟩

end CarryLabels

/-! ## The call machine carries labels -/

namespace Calls

variable {v v' : Calls}

theorem carry_of_eq (h : v'.txns = v.txns) : CarryLabels v.txns v'.txns :=
  h ▸ .refl _

theorem updTxn_carry (v : Calls) (t : TxnId) {f : Txn → Txn} (hf : ∀ x, (f x).label = x.label) :
    CarryLabels v.txns (v.updTxn t f).txns := by
  intro u y hy
  rw [Calls.updTxn, txns_setTxn] at hy
  split at hy
  · rename_i he
    subst he
    obtain ⟨x, hx, rfl⟩ := Option.map_eq_some_iff.mp hy
    exact ⟨x, hx, hf x⟩
  · exact ⟨y, hy, rfl⟩

theorem freeTransaction_carry (v : Calls) (t : TxnId) :
    CarryLabels v.txns (v.freeTransaction t).txns := by
  intro u y hy
  rw [txns_freeTransaction] at hy
  split at hy
  · cases hy
  · exact ⟨y, hy, rfl⟩

theorem txns_enqueue (v : Calls) (w : Work) (q : Queue) : (v.enqueue w q).txns = v.txns := by
  rw [enqueue_eq]

theorem txns_answer (v : Calls) (sender : Option ThreadId) (t : TxnId) (br : BR) :
    (v.answer sender t br).txns = v.txns := by
  rw [answer_eq]

theorem txns_failUndelivered (v : Calls) (t : TxnId) (br : BR) :
    (v.failUndelivered t br).txns = v.txns := by
  unfold failUndelivered
  split
  · split
    · exact txns_answer v _ t br
    · rfl
  · rfl

theorem txns_freePayload (v : Calls) (p : ProcId) (b : Option BufferId) :
    (v.freePayload p b).txns = v.txns := by
  cases b <;> rfl

theorem dropTransaction_carry (v : Calls) (p : ProcId) (t : TxnId) :
    CarryLabels v.txns (v.dropTransaction p t).txns := by
  have hpayload := carry_of_eq (txns_freePayload v p ((v.txns t).bind (·.buffer)))
  exact hpayload.trans (freeTransaction_carry _ t)

theorem QuietMove.carry (h : QuietMove v v') : CarryLabels v.txns v'.txns := by
  cases h with
  | drop n t x hx ho hloc => exact freeTransaction_carry v t
  | _ => exact .refl _

theorem Quiet.carry (h : Quiet v v') : CarryLabels v.txns v'.txns :=
  h.invariant (P := fun v' => CarryLabels v.txns v'.txns)
    (fun _ _ hv hmove => hv.trans hmove.carry) (.refl _)

/-- The walk of a stack relabels nothing. -/
theorem Walk.carry {p : ProcId} {th : ThreadId} {top : Option TxnId} (h : Walk p th v top v') :
    CarryLabels v.txns v'.txns := by
  induction h with
  | done v => exact .refl _
  | stale hx => exact .refl _
  | foreign hx hfrom hto => exact .refl _
  | @sent v v' t x hx hfrom _ ih =>
      have hclear := updTxn_carry v t (f := fun x => { x with fromThread := none }) fun _ => rfl
      exact hclear.trans ih
  | @received v v₁ v' t x hx hfrom hto h₁ _ ih =>
      have hclear := updTxn_carry v t (f := fun x => { x with toThread := none }) fun _ => rfl
      have hpayload := carry_of_eq (txns_freePayload v₁ p x.buffer)
      have hempty := updTxn_carry (v₁.freePayload p x.buffer) t
        (f := fun x => { x with buffer := none }) fun _ => rfl
      have hanswer := carry_of_eq (txns_answer ((v₁.freePayload p x.buffer).updTxn t fun x =>
        { x with buffer := none }) x.fromThread t .deadReply)
      exact ((((hclear.trans h₁.carry).trans hpayload).trans hempty).trans hanswer).trans ih

theorem HandBack.carry {p : ProcId} {w : Work} (h : HandBack p v w v') :
    CarryLabels v.txns v'.txns := by
  cases h with
  | back t hp => exact carry_of_eq (txns_enqueue _ _ _)
  | drop t hp hquiet => exact (Quiet.carry hquiet).trans (dropTransaction_carry _ p t)
  | error th => exact .refl _

theorem Each.carry {α : Type} {R : Calls → α → Calls → Prop} {as : List α}
    (hstep : ∀ v a v', R v a v' → CarryLabels v.txns v'.txns) (h : Each R v as v') :
    CarryLabels v.txns v'.txns :=
  h.invariant (I := fun _ u => CarryLabels v.txns u.txns)
    (fun a _ u u' hu hR => hu.trans (hstep u a u' hR)) (.refl _)

theorem Depart.carry {p : ProcId} {th : ThreadId} (h : Depart p th v v') :
    CarryLabels v.txns v'.txns := by
  cases h with
  | mk ws hwalk hnodup hws hback =>
      have hgiven := Each.carry (fun _ _ _ h => h.carry) hback
      exact (Walk.carry hwalk).trans hgiven

theorem Undeliver.carry {p : ProcId} {w : Work} (h : Undeliver p v w v') :
    CarryLabels v.txns v'.txns := by
  cases h with
  | txn t hquiet =>
      have hfail := carry_of_eq (txns_failUndelivered (v.dequeue (.transaction t)) t .deadReply)
      exact (hfail.trans (Quiet.carry hquiet)).trans (dropTransaction_carry _ p t)
  | error th => exact .refl _

theorem Close.carry {p : ProcId} (h : Close p v v') : CarryLabels v.txns v'.txns := by
  cases h with
  | mk ws ths hquiet hnodup hws hundeliver hths hdistinct hdeparts =>
      have hleft := Each.carry (fun _ _ _ h => h.carry) hundeliver
      have hgone := Each.carry (fun _ _ _ h => h.carry) hdeparts
      exact ((Quiet.carry hquiet).trans hleft).trans hgone

/-- `BC_FREE_BUFFER` rewrites no label. -/
theorem FreeBuffer.carry {p : ProcId} {ptr : Nat} (h : FreeBuffer p ptr v v') :
    CarryLabels v.txns v'.txns := by
  cases h with
  | quiet h => exact h.carry
  | @free v₁ v₂ _ b buf h₁ hbuf huser haddr h₂ h₃ =>
      have hfree : CarryLabels v₁.txns v₂.txns := by
        subst h₂
        split
        · rename_i t _
          exact updTxn_carry v₁ t (f := fun x => { x with buffer := none }) fun _ => rfl
        · exact .refl _
      have hall := (Quiet.carry h₁).trans hfree
      rcases h₃ with rfl | ⟨n, t, -, -, rfl⟩
      · exact hall
      · exact hall.trans (carry_of_eq (txns_enqueue (v₂.dequeue (.transaction t)) _ _))

theorem Read.carry {fault tear : Prop} {th : ThreadId} (h : Read fault tear th v v') :
    CarryLabels v.txns v'.txns := by
  cases h with
  | quiet hq => exact hq.carry
  | call t x b buf cmd htakes hx hxb hbuf hnode hreply hcmd =>
      exact updTxn_carry (v.emitTxn th t x b cmd) t
        (f := fun y => { y with
          toThread := some th, toParent := (v.emitTxn th t x b cmd).stackOf th }) fun _ => rfl
  | other t x b buf cmd htakes hx hxb hbuf hkind hcmd =>
      exact freeTransaction_carry (v.emitTxn th t x b cmd) t
  | undeliverable t x htakes hx hq =>
      have hfail := carry_of_eq (txns_failUndelivered (v.dequeue (.transaction t)) t .failedReply)
      exact (hfail.trans (Quiet.carry hq)).trans (dropTransaction_carry _ _ t)
  | _ => exact .refl _

end Calls

/-- As before, but for records above `bound` whose labels are `new`. -/
def GrowLabels (new : Label → Prop) (bound : Nat) (T T' : Table Txn) : Prop :=
  ∀ t y, T' t = some y → (∃ x, T t = some x ∧ y.label = x.label) ∨ bound ≤ t ∧ new y.label

section Growth

variable {new : Label → Prop} {bound : Nat} {T T' T'' : Table Txn}

theorem CarryLabels.grow (h : CarryLabels T T') : GrowLabels new bound T T' :=
  fun t y hy => .inl (h t y hy)

theorem GrowLabels.after (h : GrowLabels new bound T' T'') (hcarry : CarryLabels T T') :
    GrowLabels new bound T T'' := by
  intro t z hz
  rcases h t z hz with ⟨y, hy, hzy⟩ | hnew
  · obtain ⟨x, hx, hyx⟩ := hcarry t y hy
    exact .inl ⟨x, hx, hzy.trans hyx⟩
  · exact .inr hnew

theorem GrowLabels.carry (h : GrowLabels new bound T T') (hcarry : CarryLabels T' T'') :
    GrowLabels new bound T T'' := by
  intro t z hz
  obtain ⟨y, hy, hzy⟩ := hcarry t z hz
  rcases h t y hy with ⟨x, hx, hyx⟩ | ⟨hle, hnew⟩
  · exact .inl ⟨x, hx, hzy.trans hyx⟩
  · exact .inr ⟨hle, hzy ▸ hnew⟩

end Growth

/-! ## A send writes one label -/

namespace Driver

open Calls

variable {s s' : Driver}

theorem freeTransaction_labels (s : Driver) (t : TxnId) :
    CarryLabels s.txns (s.freeTransaction t).txns := by
  have hcarry := freeTransaction_carry s.view t
  rw [← view_freeTransaction] at hcarry
  exact hcarry

theorem dropAsync_labels (s : Driver) (w : Work) : CarryLabels s.txns (s.dropAsync w).txns := by
  cases w with
  | transaction t => exact freeTransaction_labels (s.dequeueWork (.transaction t)) t
  | _ => exact .refl _

theorem foldl_dropAsync_labels (l : List Work) (s : Driver) :
    CarryLabels s.txns (l.foldl dropAsync s).txns := by
  induction l generalizing s with
  | nil => exact .refl _
  | cons w l ih => exact (dropAsync_labels s w).trans (ih (s.dropAsync w))

theorem clearManager_txns (s : Driver) (p : ProcId) (n : NodeId) :
    (s.clearManager p n).txns = s.txns := by
  unfold clearManager
  split
  · rfl
  split
  · rfl
  · rfl

theorem nodeMaybeFree_labels (s : Driver) (n : NodeId) :
    CarryLabels s.txns (s.nodeMaybeFree n).txns := by
  unfold nodeMaybeFree
  split
  · exact .refl _
  rename_i nd _
  split
  · exact .refl _
  split
  · exact .refl _
  split
  · exact .refl _
  have hdrop := foldl_dropAsync_labels (s.items (.node n)) s
  unfold nodeFree
  cases nd.proc with
  | none => exact hdrop
  | some p =>
      simp only [forgetNode, clearManager_txns]
      exact hdrop

theorem dropTarget_labels (s : Driver) (tgt : Target) :
    CarryLabels s.txns (s.dropTarget tgt).txns := by
  unfold dropTarget
  split
  · rename_i n _
    exact nodeMaybeFree_labels (s.updNode n fun nd => { nd with tmpRefs := nd.tmpRefs - 1 }) n
  · exact .refl _

theorem wakeupThread_txns (s : Driver) (th : ThreadId) : (s.wakeupThread th).txns = s.txns := by
  unfold wakeupThread
  split <;> rfl

/-- Queueing relabels nothing. -/
theorem queueTransaction_labels (s : Driver) (th : ThreadId) (tgt : Target) (oneway : Bool)
    (t : TxnId) : CarryLabels s.txns (s.queueTransaction th tgt oneway t).txns := by
  unfold queueTransaction
  split
  · rename_i call _
    have hfree := freeTransaction_labels s call
    split
    · rw [wakeupThread_txns]
      exact hfree
    · exact hfree
  split
  · split
    · exact .refl _
    · split
      · exact .refl _
      · exact .refl _
  · have hparent := updTxn_carry s.view t (f := fun x =>
      { x with fromParent := (s.threads th).bind (·.transactionStack) }) fun _ => rfl
    rw [← view_updTxn] at hparent
    split
    · rw [wakeupThread_txns]
      exact hparent
    · exact hparent

/-- The label an accepted send of `p` writes. -/
def SendLabel (env : Env) (pid : Nat) (tr : TransactionData) (l : Label) : Prop :=
  ∃ q, l = ⟨q, tr.code, tr.flags, pid, env.uid⟩

/-- The one record that is new is labelled with its sender. -/
theorem acceptSend_labels (env : Env) (s : Driver) {p : ProcId} {pid : Nat}
    (hpid : (s.procs p).map (·.pid) = some pid) (th : ThreadId) (tgt : Target)
    (tr : TransactionData) (reply oneway : Bool) (b : BufferId) {bound : Nat} {t : TxnId}
    (hbound : bound ≤ t) (c : Nat) :
    GrowLabels (SendLabel env pid tr) bound s.txns
      (acceptSend env s p th tgt tr reply oneway b t c).txns := by
  have hnew : GrowLabels (SendLabel env pid tr) bound s.txns
      (newTransaction env s p th tgt tr reply oneway b t).txns := by
    intro u y hy
    by_cases hu : u = t
    · subst hu
      have hrecord : y = newRecord env s p th tgt tr reply oneway b := by
        simpa [newTransaction, insertTxn, updBuffer, updArena, updStats] using hy.symm
      refine .inr ⟨hbound, tgt.proc, ?_⟩
      rw [hrecord]
      simp only [Txn.label, newRecord, hpid, Option.getD_some]
    · refine .inl ⟨y, ?_, rfl⟩
      simpa [newTransaction, insertTxn, updBuffer, updArena, updStats, hu] using hy
  have hqueued := hnew.carry (queueTransaction_labels _ th tgt oneway t)
  exact hqueued.carry (dropTarget_labels _ tgt)

theorem refuseSend_labels (hs : Sound s) (th : ThreadId) {tgt : Target} {buf : Option BufferId}
    (hblank : ∀ b, buf = some b → s.view.Blank tgt.proc b) :
    CarryLabels s.txns (s.refuseSend th tgt buf).txns := by
  have hundo := Quiet.carry (undo_hushed hs th hblank).quiet
  have hundone : CarryLabels s.txns ((s.txnError th .failedReply).undoSend th tgt buf).txns := by
    unfold undoSend
    split
    · exact hundo
    · exact hundo
  exact hundone.trans (dropTarget_labels _ tgt)

/-- The record of a send that is accepted shows the sender as it is. -/
theorem sendTo_labels (hs : Sound s) (env : Env) {p : ProcId} {pid : Nat}
    (hpid : (s.procs p).map (·.pid) = some pid) (th : ThreadId) (tgt : Target)
    (tr : TransactionData) (extraSize : Nat) (reply oneway : Bool) :
    GrowLabels (SendLabel env pid tr) s.nextId s.txns
      (sendTo env s p th tgt tr extraSize reply oneway).txns := by
  have hstanding := s.sendTo_standing env p th tgt tr extraSize reply oneway
  rcases sendTo_cases hs env p th tgt tr extraSize reply oneway with
    ⟨s₁, buf, hushed, hblank, heq⟩ | ⟨s₁, b, hushed, hblank, heq⟩
  · rw [heq]
    have hrefuse := refuseSend_labels hushed.sound th hblank
    exact (hushed.quiet.carry.trans hrefuse).grow
  · rw [heq] at hstanding ⊢
    rw [acceptSend_standing] at hstanding
    have hprocs : s₁.procs = s.procs := congrArg Standing.procs hstanding
    have hpid₁ : (s₁.bumpId.bumpId.procs p).map (·.pid) = some pid := by
      rw [← hpid, ← hprocs]
      rfl
    have haccept := acceptSend_labels env s₁.bumpId.bumpId hpid₁ th tgt tr reply oneway b
      hushed.quiet.nextId_le (s₁.nextId + 1)
    exact haccept.after hushed.quiet.carry

theorem selectReply_labels (s : Driver) (th : ThreadId) :
    CarryLabels s.txns (s.selectReply th).drv.txns := by
  rcases s.selectReply_ends th with heq | ⟨t, s₁, -, rfl, ⟨heq, -⟩ | ⟨_, _, -, -, -, heq⟩⟩ <;>
    rw [heq]
  · exact .refl _
  · exact freeTransaction_labels
      ((s.setStack th ((s.txns t).bind (·.toParent))).txnError th .deadReply) t
  · exact .refl _

theorem selectCall_labels (s : Driver) (p : ProcId) (th : ThreadId) (handle : Nat)
    (oneway : Bool) : CarryLabels s.txns (s.selectCall p th handle oneway).drv.txns := by
  unfold selectCall
  split
  · exact .refl _
  split
  · exact .refl _
  · exact .refl _

/-- **A send labels its record with its sender.** -/
theorem transaction_labels (hs : Sound s) (env : Env) {p : ProcId} {pid : Nat}
    (hpid : (s.procs p).map (·.pid) = some pid) (th : ThreadId) (tr : TransactionData)
    (reply isSg : Bool) :
    GrowLabels (SendLabel env pid tr) s.nextId s.txns
      (transaction env s p th tr reply isSg).txns := by
  apply transaction_rule (P := fun s' => GrowLabels (SendLabel env pid tr) s.nextId s.txns s'.txns)
    (Q := fun sel => Sound sel.drv ∧ CarryLabels s.txns sel.drv.txns ∧
      sel.drv.standing = s.standing ∧ sel.drv.nextId = s.nextId)
  · exact ⟨(selectReply_refines hs th).sound, selectReply_labels s th, s.selectReply_standing th,
      selectReply_nextId s th⟩
  · exact ⟨(selectCall_refines hs p th _ _).sound, selectCall_labels s p th _ _,
      s.selectCall_standing p th _ _, selectCall_nextId s p th _ _⟩
  · exact fun s₁ hsel => hsel.2.1.grow
  · rintro s₁ tgt ⟨hs₁, hcarry, hstanding, hid⟩
    have hprocs : s₁.procs = s.procs := congrArg Standing.procs hstanding
    have hsend := sendTo_labels hs₁ env (hprocs ▸ hpid) th tgt tr
      (if isSg then tr.buffersSize else 0) reply (!reply && isOneWay tr.flags)
    rw [hid] at hsend
    exact hsend.after hcarry

/-! ## Labels along a run -/

/-- In state `s` action `a` is a send by a thread of a process: it makes a record,
and the label is what the thread sent, under the identity of its process. -/
inductive Sent (s : Driver) : Action → Label → Prop
  | mk {env : Env} {th : ThreadId} {reply isSg : Bool} {tr : TransactionData} {thread : Thread}
      {proc : Proc} {t : TxnId} {x : Txn} (hth : s.threads th = some thread)
      (hproc : s.procs thread.proc = some proc) (hnew : s.txns t = none)
      (hmade : (s.act (.command env th (.transaction reply isSg tr))).txns t = some x) :
      Sent s (.command env th (.transaction reply isSg tr))
        ⟨x.toProc, tr.code, tr.flags, proc.pid, env.uid⟩

/-- After a send every label is an old one or the sender's. -/
theorem Reachable.send_labels (h : Reachable s) (env : Env) (th : ThreadId) (reply isSg : Bool)
    (tr : TransactionData) {t : TxnId} {y : Txn}
    (hy : (s.act (.command env th (.transaction reply isSg tr))).txns t = some y) :
    (∃ x, s.txns t = some x ∧ y.label = x.label) ∨
      s.Sent (.command env th (.transaction reply isSg tr)) y.label := by
  have hmade := hy
  rw [act, withIdle] at hy
  split at hy
  · rename_i thread hidle
    obtain ⟨hth, halive⟩ := idleThread_eq_some hidle
    obtain ⟨proc, hproc⟩ : ∃ proc, s.procs thread.proc = some proc := by
      have hsome := procs_isSome_of_alive halive
      simpa [view, Option.isSome_iff_exists] using hsome
    have hpid : (s.procs thread.proc).map (·.pid) = some proc.pid := by rw [hproc, Option.map_some]
    have hgrow := transaction_labels h.steady.sound env hpid th tr reply isSg
    rcases hgrow t y hy with hold | ⟨hle, q, hlabel⟩
    · exact .inl hold
    · have hnew : s.txns t = none := by
        cases hx : s.txns t with
        | none => rfl
        | some x => exact absurd (h.steady.base.txns_lt t x hx) (Nat.not_lt.mpr hle)
      have hto : y.toProc = q := congrArg Label.toProc hlabel
      rw [hlabel, ← hto]
      exact .inr (.mk hth hproc hnew hmade)
  · exact .inl ⟨y, hy, rfl⟩

/-- **Only a send writes a label.**  A record after an action was there before,
with the same label, or the action is the send that made it. -/
theorem Reachable.act_labels (h : Reachable s) (a : Action) {t : TxnId} {y : Txn}
    (hy : (s.act a).txns t = some y) :
    (∃ x, s.txns t = some x ∧ y.label = x.label) ∨ s.Sent a y.label := by
  have hacts := act_refines h.steady.sound h.steady.base h.steady.aimed a
  have hcarried : CarryLabels s.view.txns (s.act a).view.txns →
      (∃ x, s.txns t = some x ∧ y.label = x.label) ∨ s.Sent a y.label :=
    fun hcarry => .inl (hcarry t y hy)
  generalize hv : (s.act a).view = v' at hacts hcarried
  cases hacts with
  | quiet a hquiet => exact hcarried hquiet.carry
  | openProc env pid ctx => exact hcarried (.refl _)
  | enter env p tid hp => exact hcarried (.refl _)
  | send env th p reply isSg tr hth hsend => exact h.send_labels env th reply isSg tr hy
  | free env th ptr p hth hp hfree => exact hcarried hfree.carry
  | read env th rc hrc hread => exact hcarried hread.carry
  | depart th p hth hp hdepart => exact hcarried hdepart.carry
  | close p hp hclose => exact hcarried hclose.carry

end Driver

end Binder
