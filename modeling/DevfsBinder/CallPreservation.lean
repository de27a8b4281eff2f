import DevfsBinder.CallInvariants

/-!
# Sends, reads and departures keep the base facts

The compound steps of the call machine, each taken apart into the elementary
changes of `CallInvariants`.
-/

namespace Binder

namespace Calls

variable {v v' : Calls}

/-! ## Sends -/

/-- **A call that is accepted** goes on its sender's stack and on one queue. -/
theorem Base.acceptCall {th : ThreadId} {x : Txn} {b : BufferId} {n : NodeId} {q : Queue}
    (h : Base v) (hth : (v.procOf th).isSome) (hx : v.IsCall th x b n q) :
    Base (v.acceptCall th x b n q) := by
  have htop : ∀ u, x.fromParent = some u → v.CallId u := fun u hu =>
    h.stack th u (hx.fromParent ▸ hu)
  have hplace : Base (v.bump.bump.place v.nextId x b (some n)) := by
    refine h.place ⟨hx.buffer, hx.blank, h.procs_lt _ _ hx.alive, htop, ?_, ?_, ?_, ?_, ?_, ?_⟩
    · simp [hx.toParent]
    · simp [hx.needReply]
    · rw [hx.fromThread]
      rintro _ ⟨⟩
      exact h.thread_lt hth
    · intro target ht
      have hqueue := hx.queue
      rw [ht] at hqueue
      exact h.threads_lt target _ hqueue.2
    · intro target p ht hp
      have hqueue := hx.queue
      rw [ht] at hqueue
      rw [hqueue.2] at hp
      exact (Option.some.inj hp).symm
    · simp [hx.needReply]
  have htxn : (v.bump.bump.place v.nextId x b (some n)).txns v.nextId = some x :=
    (txns_setTxn _ _ _ _).trans (if_pos rfl)
  have hlt : v.nextId < v.bump.bump.nextId := Nat.lt_succ_of_lt (Nat.lt_succ_self _)
  have hstack : Base ((v.bump.bump.place v.nextId x b (some n)).setStack th (some v.nextId)) :=
    hplace.setStack (by
    rintro t ⟨⟩
    refine ⟨hlt, ?_⟩
    intro y hy
    rw [htxn] at hy
    cases hy
    exact hx.needReply)
  have hwait := hstack.enqueueTxn (t := v.nextId) (x := x) (q := q) htxn (by
    have hqueue := hx.queue
    cases ht : x.toThread with
    | none =>
        rw [ht] at hqueue
        subst hqueue
        exact ⟨rfl, by
          change (v.procs x.toProc).isSome = true
          rw [hx.alive]
          rfl⟩
    | some target =>
        rw [ht] at hqueue
        obtain ⟨rfl, hproc⟩ := hqueue
        change (Calls.setStack _ th _).procOf target = _
        rw [procOf_setStack]
        exact hproc)
  refine hwait.note ?_
  rw [enqueue_eq]
  exact ⟨Nat.lt_succ_of_lt (Nat.lt_succ_of_lt (h.thread_lt hth)), hlt⟩


/-- **A oneway call that is accepted** goes on no stack. -/
theorem Base.acceptOneway {th : ThreadId} {x : Txn} {b : BufferId} {n : NodeId} {q : Queue}
    (h : Base v) (hth : (v.procOf th).isSome) (hx : v.IsOneway x b n q) :
    Base (v.acceptOneway th x b n q) := by
  have hplace : Base (v.bump.bump.place v.nextId x b (some n)) := by
    refine h.place ⟨hx.buffer, hx.blank, h.procs_lt _ _ hx.alive, ?_, ?_,
      fun _ => hx.oneway.fromThread, ?_, ?_, ?_, ?_⟩
    · simp [hx.fromParent]
    · simp [hx.toParent]
    · simp [hx.oneway.fromThread]
    · simp [hx.oneway.toThread]
    · simp [hx.oneway.toThread]
    · simp [hx.oneway.toThread]
  have htxn : (v.bump.bump.place v.nextId x b (some n)).txns v.nextId = some x :=
    (txns_setTxn _ _ _ _).trans (if_pos rfl)
  have hhome : (v.bump.bump.place v.nextId x b (some n)).Home x q := by
    rcases hx.queue with rfl | rfl
    · refine ⟨rfl, ?_⟩
      change (v.procs x.toProc).isSome = true
      rw [hx.alive]
      rfl
    · exact hx.oneway
  refine (hplace.enqueueTxn htxn hhome).note ?_
  rw [enqueue_eq]
  exact ⟨Nat.lt_succ_of_lt (Nat.lt_succ_of_lt (h.thread_lt hth)),
    Nat.lt_succ_of_lt (Nat.lt_succ_self _)⟩

/-- **A reply that is accepted** ends the call it answers. -/
theorem Base.acceptReply {th target : ThreadId} {call : TxnId} {x : Txn} {b : BufferId}
    (h : Base v) (hth : (v.procOf th).isSome) (hx : v.IsReply th target call x b) :
    Base (v.acceptReply th target call x b) := by
  obtain ⟨y, hy, -⟩ := Option.bind_eq_some_iff.mp hx.sender
  have hcall : call < v.nextId := h.txns_lt call y hy
  have hpop : Base (v.setStack th ((v.txns call).bind (·.toParent))) := by
    refine h.setStack ?_
    intro u hu
    rw [hy] at hu
    exact h.toParent call y u hy hu
  obtain ⟨d, hd⟩ := Option.isSome_iff_exists.mp (h.threadProc target _ hx.toProc)
  have hplace : Base ((v.setStack th ((v.txns call).bind (·.toParent))).bump.bump.place v.nextId x
      b none) := hpop.place ⟨hx.buffer, hx.blank,
    h.procs_lt _ d hd, by simp [hx.fromParent], by simp [hx.toParent], fun _ => hx.fromThread,
    by simp [hx.fromThread], by
      rw [hx.toThread]
      rintro _ ⟨⟩
      exact h.threads_lt target _ hx.toProc, by
      intro th' p ht hp
      rw [hx.toThread] at ht
      cases ht
      rw [procOf_setStack, hx.toProc] at hp
      exact (Option.some.inj hp).symm, by simp [hx.needReply, hx.toThread]⟩
  have hfree := (hplace.freeTransaction call).note (e := .reply th call v.nextId) (by
    rw [freeTransaction_eq]
    exact ⟨Nat.lt_succ_of_lt (Nat.lt_succ_of_lt (h.thread_lt hth)),
      Nat.lt_succ_of_lt (Nat.lt_succ_of_lt hcall), Nat.lt_succ_of_lt (Nat.lt_succ_self _)⟩)
  have hwait := hfree.enqueueTxn (t := v.nextId) (x := x) (q := .thread target) (by
      change (Calls.freeTransaction _ call).txns v.nextId = some x
      rw [txns_freeTransaction, if_neg (Nat.ne_of_gt hcall)]
      exact (txns_setTxn _ _ _ _).trans (if_pos rfl)) (by
      change (Calls.freeTransaction _ call).procOf target = some x.toProc
      rw [procOf_freeTransaction]
      change (v.setStack th _).procOf target = some x.toProc
      rw [procOf_setStack]
      exact hx.toProc)
  refine hwait.note ?_
  rw [enqueue_eq]
  change th < (Calls.freeTransaction _ call).nextId ∧
    v.nextId < (Calls.freeTransaction _ call).nextId
  rw [freeTransaction_eq]
  exact ⟨Nat.lt_succ_of_lt (Nat.lt_succ_of_lt (h.thread_lt hth)),
    Nat.lt_succ_of_lt (Nat.lt_succ_self _)⟩

/-- Every end of a send keeps the invariants. -/
theorem Base.send {aim : NodeId → Txn → Prop} {th : ThreadId} {reply : Bool} (h : Base v)
    (hth : (v.procOf th).isSome) (hsend : Send aim th reply v v') : Base v' := by
  cases hsend with
  | refused br hbr h₁ h₂ =>
      refine ((h.quiet h₁).refuse (.inr hbr) ?_).quiet h₂
      rw [h₁.procOf]
      exact hth
  | deadReply hreply t ht hdead =>
      have hpop : Base (v.setStack th ((v.txns t).bind (·.toParent))) := by
        refine h.setStack ?_
        intro u hu
        obtain ⟨x, hx, hxu⟩ := Option.bind_eq_some_iff.mp hu
        exact h.toParent t x u hx hxu
      exact (hpop.refuse (.inr (.inr rfl)) (by simpa using hth)).freeTransaction t
  | call hreply x b n q h₁ hx _ h₂ =>
      exact ((h.quiet h₁).acceptCall (h₁.procOf ▸ hth) hx).quiet h₂
  | oneway hreply x b n q h₁ hx _ h₂ =>
      exact ((h.quiet h₁).acceptOneway (h₁.procOf ▸ hth) hx).quiet h₂
  | reply hreply target call x b h₁ hx h₂ =>
      exact ((h.quiet h₁).acceptReply (h₁.procOf ▸ hth) hx).quiet h₂

/-! ## Reads -/

/-- An item a thread takes is meant for its process. -/
theorem Base.takes {th : ThreadId} {t : TxnId} {x : Txn} (h : Base v)
    (htakes : v.Takes th (.transaction t)) (hx : v.txns t = some x) :
    v.procOf th = some x.toProc := by
  obtain ⟨p, hp, hloc⟩ := htakes
  rcases hloc with hloc | ⟨hloc, -⟩
  · obtain ⟨z, hz, hhome⟩ := h.waiting t _ hloc
    rw [hx] at hz
    cases hz
    exact hhome
  · obtain ⟨z, hz, hhome⟩ := h.waiting t _ hloc
    rw [hx] at hz
    cases hz
    rw [hp, hhome.1]

theorem Base.takes_lt {th : ThreadId} {t : TxnId} (h : Base v)
    (htakes : v.Takes th (.transaction t)) : th < v.nextId ∧ t < v.nextId := by
  obtain ⟨p, hp, hloc⟩ := htakes
  refine ⟨h.threads_lt th p hp, ?_⟩
  rcases hloc with hloc | ⟨hloc, -⟩
  · obtain ⟨x, hx, -⟩ := h.waiting t _ hloc
    exact h.txns_lt t x hx
  · obtain ⟨x, hx, -⟩ := h.waiting t _ hloc
    exact h.txns_lt t x hx

theorem Base.emitTxn {th : ThreadId} {t : TxnId} (h : Base v)
    (htakes : v.Takes th (.transaction t)) (x : Txn) (b : BufferId) (cmd : BR) :
    Base (v.emitTxn th t x b cmd) := by
  have hnote := (h.dequeue (.transaction t)).note (e := .emit th cmd (.transaction t))
    (h.takes_lt htakes)
  exact hnote.updBuffer (fun _ => rfl) (fun _ => rfl)

/-- A call that is read goes on the reader's stack. -/
theorem Base.pushCall {th : ThreadId} {t : TxnId} {x : Txn} (h : Base v)
    (hx : v.txns t = some x) (hcall : x.needReply = true) (hp : v.procOf th = some x.toProc)
    (hloc : v.loc (.transaction t) = none) : Base (v.pushCall th t) := by
  have hstack : ∀ u, v.stackOf th = some u → v.CallId u := h.stack th
  have hupd : Base (v.updTxn t fun x =>
      { x with toThread := some th, toParent := v.stackOf th }) := by
    refine h.updTxn ?_
    intro x' hx'
    rw [hx] at hx'
    cases hx'
    refine ⟨⟨rfl, rfl, fun u hu => h.fromParent t x u hx hu, hstack, ?_, ?_,
      fun A hA => h.fromThread_lt t x A hx hA, ?_, ?_, ?_⟩, rfl⟩
    · exact h.notCall t x hx
    · simp [hcall]
    · rintro th' ⟨⟩
      exact h.threads_lt th _ hp
    · rintro th' p ⟨⟩ hp'
      rw [hp] at hp'
      exact (Option.some.inj hp').symm
    · intro n hn
      rw [hloc] at hn
      cases hn
  refine hupd.setStack ?_
  rintro u ⟨⟩
  refine ⟨h.txns_lt t x hx, ?_⟩
  intro z hz
  rw [updTxn_of_some hx, txns_setTxn, if_pos rfl] at hz
  cases hz
  exact hcall

/-- Every end of a read keeps the invariants. -/
theorem Base.read {fault tear : Prop} {th : ThreadId} (h : Base v)
    (hread : Read fault tear th v v') : Base v' := by
  cases hread with
  | quiet hq => exact h.quiet hq
  | call t x b buf cmd htakes hx hb hbuf hnode hreply hcmd =>
      refine (h.emitTxn htakes x b cmd).pushCall hx hreply (h.takes htakes hx) ?_
      simp [Calls.emitTxn, Calls.updBuffer, Calls.setBuffer, Calls.note, Calls.dequeue]
  | other t x b buf cmd htakes hx hb hbuf hkind hcmd =>
      exact (h.emitTxn htakes x b cmd).freeTransaction t
  | undeliverable t x htakes hx hq =>
      have hfail : Base ((v.dequeue (.transaction t)).failUndelivered t .failedReply) :=
        (h.dequeue (.transaction t)).failUndelivered (.inr (.inl rfl)) (h.txns_lt t x hx)
      refine (hfail.quiet hq).dropTransaction ?_
      have hkept := hq.keeps_unqueued (t := t) (by simp [loc_failUndelivered, Calls.dequeue])
      rw [hkept.1, failUndelivered_eq]
      intro y hy
      rw [show v.txns t = some y from hy] at hx
      cases hx
      rfl
  | torn htear t htakes => exact h.note (h.takes_lt htakes)
  | lost t htakes hwhy => exact h.dequeue _
  | tornLost hfault htear t htakes => exact (h.dequeue _).note (h.takes_lt htakes)
  | error e cmd htakes =>
      obtain ⟨p, hp, -⟩ := htakes
      exact ((h.dequeue _).setError e (.inl rfl)).note (h.threads_lt th p hp)
  | errorLost hfault e htakes => exact h.dequeue _

/-! ## Departures -/

theorem freePayload_eq (v : Calls) (p : ProcId) (b : Option BufferId) :
    v.freePayload p b = { v with buffers := (v.freePayload p b).buffers } := by
  cases b <;> rfl

/-- A thread on its way out gives back a payload it received. -/
theorem Base.releasePayload {p : ProcId} {t : TxnId} {x : Txn} (h : Base v)
    (hx : v.txns t = some x) (hp : x.toProc = p) (halive : (v.procs p).isSome) :
    Base ((v.freePayload p x.buffer).updTxn t fun x => { x with buffer := none }) := by
  cases hb : x.buffer with
  | none =>
      refine h.updTxn ?_
      intro y hy
      rw [hx] at hy
      cases hy
      exact ⟨h.kept hx rfl rfl rfl rfl (.inl rfl) (.inl rfl), hb.symm⟩
  | some b =>
      subst hp
      obtain ⟨buf, hbuf, ht, -⟩ := h.link t x b hx hb halive
      exact h.unlink hbuf ht

theorem Base.clearFrom {t : TxnId} (h : Base v) :
    Base (v.updTxn t fun x => { x with fromThread := none }) := by
  refine h.updTxn ?_
  intro x hx
  exact ⟨h.kept hx rfl rfl rfl rfl (.inr rfl) (.inl rfl), rfl⟩

theorem Base.clearTo {t : TxnId} (h : Base v) (hcall : v.CallId t) :
    Base (v.updTxn t fun x => { x with toThread := none }) := by
  refine h.updTxn ?_
  intro x hx
  exact ⟨h.kept hx rfl rfl rfl rfl (.inl rfl) (.inr ⟨hcall.2 x hx, rfl⟩), rfl⟩

theorem CallId.updTxn {t u : TxnId} {f : Txn → Txn} (h : v.CallId u)
    (hf : ∀ x, (f x).needReply = x.needReply) : (v.updTxn t f).CallId u := by
  refine h.setTxn ?_
  rintro y hy rfl
  obtain ⟨x, hx, rfl⟩ := Option.map_eq_some_iff.mp hy
  rw [hf]
  exact h.2 x hx

theorem QuietMove.callId {t : TxnId} (hmove : QuietMove v v') (h : v.CallId t) :
    v'.CallId t := by
  refine ⟨Nat.lt_of_lt_of_le h.1 hmove.nextId_le, ?_⟩
  intro x hx
  cases hmove with
  | drop n u y hy ho hloc =>
      change (v.freeTransaction u).txns t = some x at hx
      rw [txns_freeTransaction] at hx
      split at hx
      · cases hx
      · exact h.2 x hx
  | _ => exact h.2 x hx

theorem Quiet.callId {t : TxnId} (hquiet : Quiet v v') (h : v.CallId t) : v'.CallId t :=
  hquiet.invariant (P := fun w => w.CallId t) (fun _ _ hw hm => hm.callId hw) h

theorem CallId.answer {t u : TxnId} (h : v.CallId u) (sender : Option ThreadId) (br : BR) :
    (v.answer sender t br).CallId u := by
  rw [answer_eq]
  exact h

theorem procOf_answer (v : Calls) (sender : Option ThreadId) (t : TxnId) (br : BR) :
    (v.answer sender t br).procOf = v.procOf := by
  unfold Calls.answer
  split
  · split
    · unfold Calls.queueError
      rw [enqueue_eq]
      exact procOf_setError v _ br
    · rfl
  · rfl

/-- The stack walk keeps the base facts, and neither processes nor threads come
or go in it. -/
theorem Base.walk {p : ProcId} {th : ThreadId} {top : Option TxnId} (hwalk : Walk p th v top v')
    (h : Base v) (htop : ∀ t, top = some t → v.CallId t) (hp : v.procOf th = some p) :
    Base v' ∧ v'.procs = v.procs ∧ v'.procOf = v.procOf := by
  induction hwalk with
  | done v => exact ⟨h, rfl, rfl⟩
  | stale hx => exact ⟨h, rfl, rfl⟩
  | foreign hx _ _ => exact ⟨h, rfl, rfl⟩
  | sent hx hfrom hrest ih =>
      exact ih h.clearFrom (fun u hu => (h.fromParent _ _ u hx hu).updTxn fun _ => rfl) hp
  | @received v v₁ v' t x hx hfrom hto h₁ hrest ih =>
      have hcall := htop t rfl
      have hclear := h.clearTo hcall
      have hquiet := hclear.quiet h₁
      have hxq : v₁.txns t = some { x with toThread := none } := by
        refine (h₁.keeps_call (x := { x with toThread := none }) ?_ (hcall.2 x hx)).1
        rw [updTxn_of_some hx, txns_setTxn, if_pos rfl]
      have hproc : x.toProc = p := (h.toHome t x th p hx hto hp).symm
      have hprocs : v₁.procs = v.procs := h₁.procs
      have hprocOf : v₁.procOf = v.procOf := h₁.procOf
      have halive : (v₁.procs p).isSome := by
        rw [hprocs]
        exact h.threadProc th p hp
      have hfree := hquiet.releasePayload hxq hproc halive
      have hanswer : Base (((v₁.freePayload p x.buffer).updTxn t fun x =>
          { x with buffer := none }).answer x.fromThread t .deadReply) :=
        hfree.answer (.inr (.inr rfl)) (by
          rw [freePayload_eq]
          exact hquiet.txns_lt t _ hxq)
      obtain ⟨hbase, hprocs', hprocOf'⟩ := ih hanswer (by
          intro u hu
          refine CallId.answer ?_ _ _
          refine CallId.updTxn ?_ fun _ => rfl
          rw [freePayload_eq]
          exact h₁.callId ((h.toParent t x u hx hu).updTxn fun _ => rfl)) (by
          rw [procOf_answer, freePayload_eq]
          exact (congrFun hprocOf th).trans hp)
      refine ⟨hbase, ?_, ?_⟩
      · rw [hprocs', answer_eq, freePayload_eq]
        exact hprocs
      · rw [hprocOf', procOf_answer, freePayload_eq]
        exact hprocOf

theorem dequeue_loc (v : Calls) (w w' : Work) :
    (v.dequeue w).loc w' = if w' = w then none else v.loc w' := by
  by_cases hw : w' = w <;> simp [Calls.dequeue, hw]

theorem loc_dropTransaction (v : Calls) (p : ProcId) (t : TxnId) {w : Work}
    (hw : w ≠ .transaction t) : (v.dropTransaction p t).loc w = v.loc w := by
  cases hx : v.txns t with
  | none => simp only [Calls.dropTransaction, hx, Option.bind_none, freePayload,
      Calls.freeTransaction]
  | some x =>
      rw [dropTransaction_eq hx, freePayload_eq]
      change (v.freeTransaction t).loc w = _
      rw [loc_freeTransaction hx, dequeue_loc, if_neg hw]

@[simp] theorem procOf_dropTransaction (v : Calls) (p : ProcId) (t : TxnId) :
    (v.dropTransaction p t).procOf = v.procOf := by
  simp only [Calls.dropTransaction, procOf_freeTransaction]
  rw [freePayload_eq]
  rfl

theorem procs_dropTransaction (v : Calls) (p : ProcId) (t : TxnId) :
    (v.dropTransaction p t).procs = v.procs := by
  simp only [Calls.dropTransaction]
  rw [freeTransaction_eq, freePayload_eq]

theorem nextId_dropTransaction (v : Calls) (p : ProcId) (t : TxnId) :
    (v.dropTransaction p t).nextId = v.nextId := by
  simp only [Calls.dropTransaction]
  rw [freeTransaction_eq, freePayload_eq]

theorem QuietMove.loc_le (h : QuietMove v v') {w : Work} {q : Queue}
    (hq : v'.loc w = some q) : v.loc w = some q := by
  cases h with
  | drop n t x hx ho hloc =>
      change (v.freeTransaction t).loc w = some q at hq
      rw [loc_freeTransaction hx, dequeue_loc] at hq
      split at hq
      · cases hq
      · exact hq
  | _ => exact hq

theorem Quiet.loc_le (h : Quiet v v') {w : Work} {q : Queue} (hq : v'.loc w = some q) :
    v.loc w = some q := by
  induction h with
  | refl => exact hq
  | tail _ hmove ih => exact ih (hmove.loc_le hq)

/-- What waits for a thread is not dropped quietly. -/
theorem QuietMove.loc_kept (h : QuietMove v v') {w : Work} {q : Queue}
    (hnode : ∀ n, q ≠ .node n) (hq : v.loc w = some q) : v'.loc w = some q := by
  cases h with
  | drop n t x hx ho hloc =>
      change (v.freeTransaction t).loc w = some q
      rw [loc_freeTransaction hx, dequeue_loc, if_neg]
      · exact hq
      · rintro rfl
        rw [hloc] at hq
        exact hnode n (Option.some.inj hq).symm
  | _ => exact hq

theorem Quiet.loc_kept (h : Quiet v v') {w : Work} {q : Queue} (hnode : ∀ n, q ≠ .node n)
    (hq : v.loc w = some q) : v'.loc w = some q :=
  h.invariant (P := fun u => u.loc w = some q) (fun _ _ hu hm => hm.loc_kept hnode hu) hq

theorem loc_dropTransaction_self {p : ProcId} {t : TxnId} {x : Txn} (hx : v.txns t = some x) :
    (v.dropTransaction p t).loc (.transaction t) = none := by
  rw [dropTransaction_eq hx, freePayload_eq]
  change (v.freeTransaction t).loc _ = none
  rw [loc_freeTransaction hx, dequeue_loc, if_pos rfl]

/-- A step during which processes and threads stay, `w` leaves its queue, and
nothing else does but oneway transactions behind a node. -/
structure Leaves (v v' : Calls) (w : Work) : Prop where
  procs : v'.procs = v.procs
  procOf : v'.procOf = v.procOf
  gone : v'.loc w = none
  le : ∀ w' q, v'.loc w' = some q → v.loc w' = some q
  kept : ∀ w' q, w' ≠ w → (∀ n, q ≠ .node n) → v.loc w' = some q → v'.loc w' = some q

theorem dequeue_leaves (v : Calls) (w : Work) : Leaves v (v.dequeue w) w where
  procs := rfl
  procOf := rfl
  gone := by rw [dequeue_loc, if_pos rfl]
  le w' q hq := by
    rw [dequeue_loc] at hq
    split at hq
    · cases hq
    · exact hq
  kept w' q hne _ hq := by rw [dequeue_loc, if_neg hne, hq]

/-- Dropping a transaction that was taken off its queue, after a quiet
stretch. -/
theorem Leaves.drop {v₁ v₂ : Calls} {t : TxnId} {x : Txn} (h : Leaves v v₁ (.transaction t))
    (hquiet : Quiet v₁ v₂) (hx : v₂.txns t = some x) (p : ProcId) :
    Leaves v (v₂.dropTransaction p t) (.transaction t) where
  procs := by rw [procs_dropTransaction, hquiet.procs, h.procs]
  procOf := by rw [procOf_dropTransaction, hquiet.procOf, h.procOf]
  gone := loc_dropTransaction_self hx
  le w' q hq := by
    by_cases hw : w' = .transaction t
    · subst hw
      rw [loc_dropTransaction_self hx] at hq
      cases hq
    · rw [loc_dropTransaction v₂ p t hw] at hq
      exact h.le w' q (hquiet.loc_le hq)
  kept w' q hne hnode hq := by
    rw [loc_dropTransaction v₂ p t hne]
    exact hquiet.loc_kept hnode (h.kept w' q hne hnode hq)

theorem Base.home_proc {p : ProcId} {th : ThreadId} {t : TxnId} (h : Base v)
    (hp : v.procOf th = some p) (hloc : v.loc (.transaction t) = some (.thread th)) :
    ∃ x, v.txns t = some x ∧ x.toProc = p := by
  obtain ⟨x, hx, hhome⟩ := h.waiting t _ hloc
  rw [show v.procOf th = some x.toProc from hhome] at hp
  exact ⟨x, hx, Option.some.inj hp⟩

/-- One item of a thread on its way out, in a process that goes too. -/
theorem Base.dropItem {p : ProcId} {v₁ : Calls} {t : TxnId} {x : Txn} (h : Base v)
    (hx : v.txns t = some x) (hp : x.toProc = p) (hquiet : Quiet (v.dequeue (.transaction t)) v₁) :
    Base ((v₁.dropTransaction p t).note (.discard t)) ∧
      Leaves v ((v₁.dropTransaction p t).note (.discard t)) (.transaction t) := by
  have hbase := (h.dequeue (.transaction t)).quiet hquiet
  have hx₁ : v₁.txns t = some x :=
    (hquiet.keeps_unqueued (by rw [dequeue_loc, if_pos rfl])).1.trans hx
  have hdrop : Base (v₁.dropTransaction p t) := by
    refine hbase.dropTransaction ?_
    intro y hy
    rw [hx₁] at hy
    cases hy
    exact hp
  have hleaves := (dequeue_leaves v (.transaction t)).drop hquiet hx₁ p
  refine ⟨hdrop.note ?_, ⟨hleaves.procs, hleaves.procOf, hleaves.gone, hleaves.le, hleaves.kept⟩⟩
  rw [nextId_dropTransaction]
  exact hbase.txns_lt t x hx₁

/-- An item goes back to the process. -/
theorem Base.giveBack {p : ProcId} {t : TxnId} {x : Txn} (h : Base v)
    (hx : v.txns t = some x) (hp : x.toProc = p) (halive : v.procs p = some false) :
    Base ((v.dequeue (.transaction t)).enqueue (.transaction t) (.proc p)) := by
  refine (h.dequeue (.transaction t)).enqueueTxn hx ⟨hp.symm, ?_⟩
  change (v.procs p).isSome = true
  rw [halive]
  rfl

theorem giveBack_loc (v : Calls) (p : ProcId) (t : TxnId) (w : Work) :
    ((v.dequeue (.transaction t)).enqueue (.transaction t) (.proc p)).loc w =
      if w = .transaction t then some (.proc p) else v.loc w := by
  rw [enqueue_loc, dequeue_loc, dequeue_loc]
  by_cases hw : w = .transaction t <;> simp [hw]

/-- What the hand-back of the items `ws` of thread `th` has come to so far. -/
structure HandingBack (p : ProcId) (th : ThreadId) (v : Calls) (ws : List Work) (u : Calls) :
    Prop where
  base : Base u
  nodup : ws.Nodup
  procs : u.procs = v.procs
  procOf : u.procOf = v.procOf
  items : ∀ w, w ∈ ws ↔ u.loc w = some (.thread th)
  le : ∀ w q, u.loc w = some q → v.loc w = some q ∨ q = .proc p ∧ v.procs p = some false

/-- One item of a departing thread is handed back or dropped. -/
theorem HandingBack.step {p : ProcId} {th : ThreadId} {u u' : Calls} {w : Work} {ws : List Work}
    (hp : v.procOf th = some p) (h : HandingBack p th v (w :: ws) u) (hstep : HandBack p u w u') :
    HandingBack p th v ws u' := by
  have hnodup := List.nodup_cons.mp h.nodup
  have hloc : u.loc w = some (.thread th) := (h.items w).mp (by simp)
  have hpu : u.procOf th = some p := (congrFun h.procOf th).trans hp
  -- once `w` has left the queue of `th`, the rest of the list is what is on it
  have hitems : ∀ u₁ : Calls, u₁.loc w ≠ some (.thread th) →
      (∀ w', w' ≠ w → (u₁.loc w' = some (.thread th) ↔ u.loc w' = some (.thread th))) →
      ∀ w', w' ∈ ws ↔ u₁.loc w' = some (.thread th) := by
    intro u₁ hw hsame w'
    by_cases hne : w' = w
    · subst hne
      exact ⟨fun hmem => absurd hmem hnodup.1, fun hl => absurd hl hw⟩
    · rw [hsame w' hne, ← h.items w']
      simp [hne]
  cases hstep with
  | back t halive =>
      obtain ⟨x, hx, hxp⟩ := h.base.home_proc hpu hloc
      refine ⟨h.base.giveBack hx hxp halive, hnodup.2, ?_, ?_, ?_, ?_⟩
      · rw [enqueue_eq]
        exact h.procs
      · rw [enqueue_eq]
        exact h.procOf
      · refine hitems _ (by simp [giveBack_loc]) ?_
        intro w' hne
        rw [giveBack_loc, if_neg hne]
      · intro w' q hq
        rw [giveBack_loc] at hq
        split at hq
        · cases hq
          exact .inr ⟨rfl, h.procs ▸ halive⟩
        · exact h.le w' q hq
  | drop t hdead hquiet =>
      obtain ⟨x, hx, hxp⟩ := h.base.home_proc hpu hloc
      obtain ⟨hbase, hleaves⟩ := h.base.dropItem hx hxp hquiet
      refine ⟨hbase, hnodup.2, hleaves.procs.trans h.procs, hleaves.procOf.trans h.procOf, ?_, ?_⟩
      · refine hitems _ (by rw [hleaves.gone]; simp) ?_
        intro w' hne
        exact ⟨hleaves.le w' _, hleaves.kept w' _ hne (by simp)⟩
      · intro w' q hq
        exact h.le w' q (hleaves.le w' q hq)
  | error A =>
      refine ⟨h.base.dequeue _, hnodup.2, h.procs, h.procOf, ?_, ?_⟩
      · refine hitems _ (by rw [dequeue_loc, if_pos rfl]; simp) ?_
        intro w' hne
        rw [dequeue_loc, if_neg hne]
      · intro w' q hq
        rw [dequeue_loc] at hq
        split at hq
        · cases hq
        · exact h.le w' q hq

/-- A thread with an empty queue is forgotten. -/
theorem Base.setThreadNone {th : ThreadId} (h : Base v)
    (hloc : ∀ w, v.loc w ≠ some (.thread th)) : Base (v.setThread th none) := by
  have hprocOf : ∀ th' p, (v.setThread th none).procOf th' = some p →
      th' ≠ th ∧ v.procOf th' = some p := by
    intro th' p hp
    by_cases hth : th' = th
    · simp [procOf, setThread, hth] at hp
    · exact ⟨hth, by simpa [procOf, setThread, hth] using hp⟩
  exact
    { h with
      threads_lt := fun th' p hp => h.threads_lt th' p (hprocOf th' p hp).2
      threadProc := fun th' p hp => h.threadProc th' p (hprocOf th' p hp).2
      codes := by
        intro th' thread ht
        by_cases hth : th' = th
        · simp [setThread, hth] at ht
        · exact h.codes th' thread (by simpa [setThread, hth] using ht)
      stack := by
        intro th' t ht
        by_cases hth : th' = th
        · simp [stackOf, setThread, hth] at ht
        · exact h.stack th' t (by simpa [stackOf, setThread, hth] using ht)
      toHome := fun t x th' p hx ht hp => h.toHome t x th' p hx ht (hprocOf th' p hp).2
      waiting := by
        intro t q hq
        obtain ⟨x, hx, hhome⟩ := h.waiting t q hq
        refine ⟨x, hx, ?_⟩
        cases q with
        | proc p => exact hhome
        | node n => exact hhome
        | thread th' =>
            have hth : th' ≠ th := fun he => hloc _ (he ▸ hq)
            have hold : v.procOf th' = some x.toProc := hhome
            change (v.setThread th none).procOf th' = some x.toProc
            simpa [procOf, setThread, hth] using hold
      errors := by
        intro th' q hq
        obtain ⟨rfl, hsome⟩ := h.errors th' q hq
        have hth : th' ≠ th := fun he => hloc _ (he ▸ hq)
        exact ⟨rfl, by simpa [procOf, setThread, hth] using hsome⟩ }

/-- What happens to the queues while a thread walks its stack: senders hear of
it, and nothing else moves but oneway transactions behind a node. -/
theorem walk_loc {p : ProcId} {th : ThreadId} {top : Option TxnId}
    (hwalk : Walk p th v top v') {w : Work} {q : Queue} (hq : v'.loc w = some q) :
    v.loc w = some q ∨ ∃ A, w = .returnError A ∧ q = .thread A := by
  have hanswer : ∀ (u : Calls) sender t br, (u.answer sender t br).loc w = some q →
      u.loc w = some q ∨ ∃ A, w = .returnError A ∧ q = .thread A := by
    intro u sender t br hu
    unfold Calls.answer at hu
    split at hu
    · split at hu
      · rename_i A _
        change ((u.setError A br).enqueue _ _).loc w = some q at hu
        rw [enqueue_loc] at hu
        split at hu
        · rename_i hw
          exact .inr ⟨A, hw.1, (Option.some.inj hu).symm⟩
        · exact .inl hu
      · exact .inl hu
    · exact .inl hu
  induction hwalk with
  | done v => exact .inl hq
  | stale hx => exact .inl hq
  | foreign hx _ _ => exact .inl hq
  | sent hx hfrom hrest ih => exact ih hq
  | received hx hfrom hto h₁ hrest ih =>
      rcases ih hq with hu | herr
      · rcases hanswer _ _ _ _ hu with hu | herr
        · rw [freePayload_eq] at hu
          exact .inl (h₁.loc_le hu)
        · exact .inr herr
      · exact .inr herr

/-- **A thread goes away.** -/
theorem Base.depart {p : ProcId} {th : ThreadId} (h : Base v) (hp : v.procOf th = some p)
    (hdepart : Depart p th v v') :
    Base v' ∧ v'.procs = v.procs ∧ v'.procOf = Function.update v.procOf th none ∧
      ∀ w q, v'.loc w = some q → v.loc w = some q ∨ (∃ A, w = .returnError A ∧ q = .thread A) ∨
        q = .proc p ∧ v.procs p = some false := by
  obtain ⟨ws, hwalk, hnodup, hws, hback⟩ := hdepart
  rename_i v₁ v₂
  obtain ⟨hbase, hprocs, hprocOf⟩ := Base.walk hwalk (h.setDead th)
    (fun t ht => h.stack th t ht) (by rw [procOf_setDead]; exact hp)
  rw [procOf_setDead] at hprocOf
  have hstart : HandingBack p th (v₁.setStack th none) ws (v₁.setStack th none) :=
    ⟨hbase.setStack (by simp), hnodup, rfl, rfl, hws, fun _ _ hq => .inl hq⟩
  have hp₁ : (v₁.setStack th none).procOf th = some p := by
    rw [procOf_setStack, hprocOf]
    exact hp
  have hend := hback.invariant (I := fun ws u => HandingBack p th (v₁.setStack th none) ws u)
    (fun _ _ _ _ hu hstep => hu.step hp₁ hstep) hstart
  have hempty : ∀ w, v₂.loc w ≠ some (.thread th) := by
    intro w hw
    have hmem := (hend.items w).mpr hw
    cases hmem
  refine ⟨hend.base.setThreadNone hempty, hend.procs.trans hprocs, ?_, ?_⟩
  · have hprocOf₂ : v₂.procOf = v.procOf := by
      rw [hend.procOf, procOf_setStack, hprocOf]
    funext th'
    by_cases hth : th' = th
    · simp [procOf, setThread, hth]
    · simp only [Function.update_of_ne hth, ← hprocOf₂]
      simp [procOf, setThread, hth]
  · intro w q hq
    rcases hend.le w q hq with hq | ⟨rfl, halive⟩
    · rcases walk_loc hwalk hq with hq | herr
      · exact .inl hq
      · exact .inr (.inl herr)
    · exact .inr (.inr ⟨rfl, hprocs ▸ halive⟩)

/-- What answering the senders of the items `ws` of process `p` has come to so
far. -/
structure Undelivering (p : ProcId) (v : Calls) (ws : List Work) (u : Calls) : Prop where
  base : Base u
  nodup : ws.Nodup
  procs : u.procs = v.procs
  procOf : u.procOf = v.procOf
  items : ∀ w, w ∈ ws ↔ u.loc w = some (.proc p)

theorem procOf_failUndelivered (v : Calls) (t : TxnId) (br : BR) :
    (v.failUndelivered t br).procOf = v.procOf := by
  unfold Calls.failUndelivered
  split
  · split
    · exact procOf_answer v _ t br
    · rfl
  · rfl

theorem failUndelivered_loc_proc (v : Calls) (t : TxnId) (br : BR) (w : Work) (p : ProcId) :
    (v.failUndelivered t br).loc w = some (.proc p) ↔ v.loc w = some (.proc p) := by
  have hqueue : ∀ A, (v.queueError A br).loc w = some (.proc p) ↔ v.loc w = some (.proc p) := by
    intro A
    unfold Calls.queueError
    rw [enqueue_loc]
    split
    · rename_i hw
      rw [hw.1, show v.loc (.returnError A) = none from hw.2]
      simp
    · rfl
  unfold Calls.failUndelivered
  split
  · split
    · rename_i hlive
      simp only [Calls.answer, hlive, if_true]
      exact hqueue _
    · rfl
  · rfl

/-- One item of a closing process is returned to its sender or dropped. -/
theorem Undelivering.step {p : ProcId} {u u' : Calls} {w : Work} {ws : List Work}
    (h : Undelivering p v (w :: ws) u) (hstep : Undeliver p u w u') :
    Undelivering p v ws u' := by
  have hnodup := List.nodup_cons.mp h.nodup
  have hloc : u.loc w = some (.proc p) := (h.items w).mp (by simp)
  have hitems : ∀ u₁ : Calls, u₁.loc w ≠ some (.proc p) →
      (∀ w', w' ≠ w → (u₁.loc w' = some (.proc p) ↔ u.loc w' = some (.proc p))) →
      ∀ w', w' ∈ ws ↔ u₁.loc w' = some (.proc p) := by
    intro u₁ hw hsame w'
    by_cases hne : w' = w
    · subst hne
      exact ⟨fun hmem => absurd hmem hnodup.1, fun hl => absurd hl hw⟩
    · rw [hsame w' hne, ← h.items w']
      simp [hne]
  cases hstep with
  | txn t hquiet =>
      rename_i v₁
      obtain ⟨x, hx, hhome⟩ := h.base.waiting t _ hloc
      have hfail := (h.base.dequeue (.transaction t)).failUndelivered (t := t)
        (.inr (.inr rfl)) (h.base.txns_lt t x hx)
      have hgone : ((u.dequeue (.transaction t)).failUndelivered t .deadReply).loc
          (.transaction t) = none := by
        rw [loc_failUndelivered, dequeue_loc, if_pos rfl]
      have hx₁ : v₁.txns t = some x := by
        rw [(hquiet.keeps_unqueued hgone).1, failUndelivered_eq]
        exact hx
      have hleaves := Leaves.drop ⟨rfl, rfl, hgone, fun _ _ hq => hq, fun _ _ _ _ hq => hq⟩
        hquiet hx₁ p
      refine ⟨(hfail.quiet hquiet).dropTransaction ?_, hnodup.2, ?_, ?_, ?_⟩
      · intro y hy
        rw [hx₁] at hy
        cases hy
        exact hhome.1.symm
      · rw [hleaves.procs, failUndelivered_eq]
        exact h.procs
      · rw [hleaves.procOf, procOf_failUndelivered]
        exact h.procOf
      · refine hitems _ (by rw [hleaves.gone]; simp) ?_
        intro w' hne
        have hsame : (v₁.dropTransaction p t).loc w' = some (.proc p) ↔
            ((u.dequeue (.transaction t)).failUndelivered t .deadReply).loc w' =
              some (.proc p) :=
          ⟨hleaves.le w' _, hleaves.kept w' _ hne (by simp)⟩
        rw [hsame, failUndelivered_loc_proc, dequeue_loc, if_neg hne]
  | error A =>
      refine ⟨h.base.dequeue _, hnodup.2, h.procs, h.procOf, ?_⟩
      refine hitems _ (by rw [dequeue_loc, if_pos rfl]; simp) ?_
      intro w' hne
      rw [dequeue_loc, if_neg hne]

/-- A process is marked as going away. -/
theorem Base.closing {p : ProcId} (h : Base v) (hp : (v.procs p).isSome) :
    Base (v.setProc p (some true)) := by
  have hsame : ∀ q, ((v.setProc p (some true)).procs q).isSome = (v.procs q).isSome := by
    intro q
    by_cases hqp : q = p
    · subst hqp
      simp [Calls.setProc, hp]
    · simp [Calls.setProc, hqp]
  exact
    { h with
      procs_lt := by
        intro q d hq
        have hold : (v.procs q).isSome := by
          rw [← hsame q, hq]
          rfl
        obtain ⟨d', hd'⟩ := Option.isSome_iff_exists.mp hold
        exact h.procs_lt q d' hd'
      threadProc := by
        intro th q hq
        rw [hsame]
        exact h.threadProc th q hq
      link := by
        intro t x b hx hb halive
        rw [hsame] at halive
        exact h.link t x b hx hb halive
      waiting := by
        intro t q hq
        obtain ⟨x, hx, hhome⟩ := h.waiting t q hq
        refine ⟨x, hx, ?_⟩
        cases q with
        | proc q => exact ⟨hhome.1, (hsame q).trans hhome.2⟩
        | thread th => exact hhome
        | node n => exact hhome }

/-- The last trace of a process goes. -/
theorem Base.tearDown {p : ProcId} (h : Base v) (hthreads : ∀ th, v.procOf th ≠ some p)
    (hloc : ∀ w, v.loc w ≠ some (.proc p)) : Base (v.tearDown p) := by
  have hsome : ∀ q, ((v.tearDown p).procs q).isSome → q ≠ p ∧ (v.procs q).isSome := by
    intro q hq
    by_cases hqp : q = p
    · simp [Calls.tearDown, Calls.setProc, hqp] at hq
    · exact ⟨hqp, by simpa [Calls.tearDown, Calls.setProc, hqp] using hq⟩
  exact
    { h with
      procs_lt := by
        intro q d hq
        obtain ⟨hne, -⟩ := hsome q (by rw [hq]; rfl)
        exact h.procs_lt q d (by simpa [Calls.tearDown, Calls.setProc, hne] using hq)
      threadProc := by
        intro th q hq
        have hne : q ≠ p := fun he => hthreads th (he ▸ hq)
        have hold := h.threadProc th q hq
        simpa [Calls.tearDown, Calls.setProc, hne] using hold
      link := by
        intro t x b hx hb halive
        obtain ⟨hne, hold⟩ := hsome _ halive
        obtain ⟨buf, hbuf, hrest⟩ := h.link t x b hx hb hold
        exact ⟨buf, by simpa [Calls.tearDown, hne] using hbuf, hrest⟩
      back := by
        intro q b buf t hbuf ht
        by_cases hqp : q = p
        · simp [Calls.tearDown, hqp] at hbuf
        · exact h.back q b buf t (by simpa [Calls.tearDown, hqp] using hbuf) ht
      waiting := by
        intro t q hq
        obtain ⟨x, hx, hhome⟩ := h.waiting t q hq
        refine ⟨x, hx, ?_⟩
        cases q with
        | proc q =>
            have hne : q ≠ p := fun he => hloc _ (he ▸ hq)
            exact ⟨hhome.1, by simpa [Calls.tearDown, Calls.setProc, hne] using hhome.2⟩
        | thread th => exact hhome
        | node n => exact hhome }

/-- What the departure of the threads `ths` of a closing process has come to so
far. -/
structure Departing (p : ProcId) (ths : List ThreadId) (u : Calls) : Prop where
  base : Base u
  nodup : ths.Nodup
  closing : u.procs p = some true
  threads : ∀ th, th ∈ ths ↔ u.procOf th = some p
  empty : ∀ w, u.loc w ≠ some (.proc p)

/-- One thread of a closing process departs. -/
theorem Departing.step {p : ProcId} {u u' : Calls} {th : ThreadId} {ths : List ThreadId}
    (h : Departing p (th :: ths) u) (hstep : Depart p th u u') : Departing p ths u' := by
  have hnodup := List.nodup_cons.mp h.nodup
  obtain ⟨hbase, hprocs, hprocOf, hloc⟩ :=
    h.base.depart ((h.threads th).mp (by simp)) hstep
  refine ⟨hbase, hnodup.2, hprocs ▸ h.closing, ?_, ?_⟩
  · intro th'
    rw [hprocOf]
    by_cases hth : th' = th
    · subst hth
      simp [hnodup.1]
    · rw [Function.update_of_ne hth, ← h.threads th']
      simp [hth]
  · intro w hw
    rcases hloc w _ hw with hw | ⟨A, -, hq⟩ | ⟨-, halive⟩
    · exact h.empty w hw
    · cases hq
    · rw [h.closing] at halive
      cases halive

/-- Once the senders of everything that waits for a closing process are
answered, its threads depart. -/
theorem Base.undelivered {p : ProcId} {v₁ v₂ : Calls} {ws : List Work} {ths : List ThreadId}
    (h : Base v) (hp : (v.procs p).isSome) (hquiet : Quiet (v.setProc p (some true)) v₁)
    (hnodup : ws.Nodup) (hws : ∀ w, w ∈ ws ↔ v₁.loc w = some (.proc p))
    (hundeliver : Each (Undeliver p) v₁ ws v₂) (hths : ∀ th, th ∈ ths ↔ v.procOf th = some p)
    (hdistinct : ths.Nodup) : Departing p ths v₂ := by
  have hstart : Undelivering p v₁ ws v₁ :=
    ⟨(h.closing hp).quiet hquiet, hnodup, rfl, rfl, hws⟩
  have hmid := hundeliver.invariant (I := fun ws u => Undelivering p v₁ ws u)
    (fun _ _ _ _ hu hstep => hu.step hstep) hstart
  have hprocs : v₂.procs = (v.setProc p (some true)).procs := hmid.procs.trans hquiet.procs
  have hprocOf : v₂.procOf = v.procOf := hmid.procOf.trans hquiet.procOf
  refine ⟨hmid.base, hdistinct, ?_, ?_, ?_⟩
  · rw [hprocs]
    simp [Calls.setProc]
  · rw [hprocOf]
    exact hths
  · intro w hw
    have hmem := (hmid.items w).mpr hw
    cases hmem

/-- **A process goes away.** -/
theorem Base.close {p : ProcId} (h : Base v) (hp : (v.procs p).isSome) (hclose : Close p v v') :
    Base v' := by
  obtain ⟨ws, ths, hquiet, hnodup, hws, hundeliver, hths, hdistinct, hdeparts⟩ := hclose
  have hend := hdeparts.invariant (I := fun ths u => Departing p ths u)
    (fun _ _ _ _ hu hstep => hu.step hstep)
    (h.undelivered hp hquiet hnodup hws hundeliver hths hdistinct)
  refine hend.base.tearDown ?_ hend.empty
  intro th hth
  have hmem := (hend.threads th).mpr hth
  cases hmem

/-! ## Arrivals -/

/-- A device is opened. -/
theorem Base.openProc (h : Base v) : Base (v.bump.setProc v.nextId (some false)) := by
  have hsome : ∀ q, q < v.nextId →
      ((v.bump.setProc v.nextId (some false)).procs q).isSome = (v.procs q).isSome := by
    intro q hq
    simp [Calls.setProc, Calls.bump, Nat.ne_of_lt hq]
  have hbump := h.bump
  exact
    { hbump with
      procs_lt := by
        intro q d hq
        by_cases hqn : q = v.nextId
        · subst hqn
          exact Nat.lt_succ_self _
        · exact hbump.procs_lt q d (by simpa [Calls.setProc, hqn] using hq)
      threadProc := by
        intro th q hq
        obtain ⟨d, hd⟩ := Option.isSome_iff_exists.mp (h.threadProc th q hq)
        rw [hsome q (h.procs_lt q d hd), hd]
        rfl
      link := by
        intro t x b hx hb halive
        rw [hsome _ (h.toProc_lt t x hx)] at halive
        exact h.link t x b hx hb halive
      waiting := by
        intro t q hq
        obtain ⟨x, hx, hhome⟩ := h.waiting t q hq
        refine ⟨x, hx, ?_⟩
        cases q with
        | proc q =>
            refine ⟨hhome.1, (hsome q ?_).trans hhome.2⟩
            rw [hhome.1]
            exact h.toProc_lt t x hx
        | thread th => exact hhome
        | node n => exact hhome }

/-- A thread makes its first ioctl. -/
theorem Base.enterThread {p : ProcId} (h : Base v) (hp : (v.procs p).isSome) :
    Base (v.bump.setThread v.nextId (some ⟨p, false, none, .ok⟩)) := by
  have hbump := h.bump
  have hold : ∀ th, th < v.nextId →
      (v.bump.setThread v.nextId (some ⟨p, false, none, .ok⟩)).procOf th = v.procOf th := by
    intro th hth
    simp [procOf, setThread, Calls.bump, Nat.ne_of_lt hth]
  have hcase : ∀ th thread,
      (v.bump.setThread v.nextId (some ⟨p, false, none, .ok⟩)).threads th = some thread →
      th = v.nextId ∧ thread = ⟨p, false, none, .ok⟩ ∨ v.threads th = some thread := by
    intro th thread hthread
    by_cases hth : th = v.nextId
    · subst hth
      exact .inl ⟨rfl, by simpa [setThread] using hthread.symm⟩
    · exact .inr (by simpa [setThread, hth, Calls.bump] using hthread)
  exact
    { hbump with
      threads_lt := by
        intro th q hq
        obtain ⟨thread, hthread, -⟩ := Option.map_eq_some_iff.mp hq
        rcases hcase th thread hthread with ⟨rfl, -⟩ | hthread
        · exact Nat.lt_succ_self _
        · exact Nat.lt_succ_of_lt (h.thread_lt (by simp [procOf, hthread]))
      threadProc := by
        intro th q hq
        obtain ⟨thread, hthread, rfl⟩ := Option.map_eq_some_iff.mp hq
        rcases hcase th thread hthread with ⟨rfl, rfl⟩ | hthread
        · exact hp
        · exact h.threadProc th _ (by simp [procOf, hthread])
      codes := by
        intro th thread hthread
        rcases hcase th thread hthread with ⟨rfl, rfl⟩ | hthread
        · exact .inl rfl
        · exact h.codes th thread hthread
      stack := by
        intro th t ht
        obtain ⟨thread, hthread, hstack⟩ := Option.bind_eq_some_iff.mp ht
        rcases hcase th thread hthread with ⟨rfl, rfl⟩ | hthread
        · cases hstack
        · exact (h.stack th t (Option.bind_eq_some_iff.mpr ⟨thread, hthread, hstack⟩)).bump
      toHome := by
        intro t x th q hx hth hq
        rw [hold th (h.toThread_lt t x th hx hth)] at hq
        exact h.toHome t x th q hx hth hq
      waiting := by
        intro t q hq
        obtain ⟨x, hx, hhome⟩ := h.waiting t q hq
        refine ⟨x, hx, ?_⟩
        cases q with
        | proc q => exact hhome
        | node n => exact hhome
        | thread th =>
            have hproc : v.procOf th = some x.toProc := hhome
            exact (hold th (h.threads_lt th _ hproc)).trans hproc
      errors := by
        intro th q hq
        obtain ⟨hq', hsome⟩ := h.errors th q hq
        exact ⟨hq', by rw [hold th (h.thread_lt hsome)]; exact hsome⟩ }

end Calls

end Binder
