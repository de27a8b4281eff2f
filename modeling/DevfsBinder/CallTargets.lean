import DevfsBinder.CallPreservation

/-!
# Everything about a node is in one process

A buffer aimed at a node lies in the arena of the process that implements it,
and what waits behind the node is meant for that process.  Nothing but an
accepted send aims at a node, and a send aims where the owner is; every other
step only forgets.
-/

namespace Binder

namespace Calls

variable {v v' v'' : Calls}

/-- Everything about a node is about its owner. -/
def Aimed (v : Calls) : Prop := ∀ n p, v.AimedAt n p → v.Owned n p

/-- Nothing new is aimed at a node, and owners are only forgotten. -/
structure Shrinks (v v' : Calls) : Prop where
  aims : ∀ n p, v'.AimedAt n p → v.AimedAt n p
  owner : ∀ n, n < v.nextId → v'.owner n = v.owner n ∨ v'.owner n = none
  nextId : v.nextId ≤ v'.nextId

theorem Shrinks.refl (v : Calls) : Shrinks v v :=
  ⟨fun _ _ h => h, fun _ _ => .inl rfl, Nat.le_refl _⟩

theorem Shrinks.trans (h : Shrinks v v') (h' : Shrinks v' v'') : Shrinks v v'' where
  aims n p hn := h.aims n p (h'.aims n p hn)
  owner n hn := by
    rcases h'.owner n (Nat.lt_of_lt_of_le hn h.nextId) with he | he
    · rw [he]
      exact h.owner n hn
    · exact .inr he
  nextId := Nat.le_trans h.nextId h'.nextId

theorem Owned.shrink {n : NodeId} {p : ProcId} (h : v.Owned n p) (hs : Shrinks v v') :
    v'.Owned n p where
  lt := Nat.lt_of_lt_of_le h.lt hs.nextId
  owner := by
    rcases hs.owner n h.lt with he | he
    · rw [he]
      exact h.owner
    · exact .inr he
  only p' hp' := h.only p' (hs.aims n p' hp')

theorem Aimed.shrink (h : Aimed v) (hs : Shrinks v v') : Aimed v' :=
  fun n p hn => (h n p (hs.aims n p hn)).shrink hs

/-- Only node `n` gains something, and that in `p`. -/
theorem Aimed.grow {n : NodeId} {p : ProcId} (h : Aimed v) (howned : v.Owned n p)
    (haims : ∀ n' p', v'.AimedAt n' p' → v.AimedAt n' p' ∨ n' = n ∧ p' = p)
    (howner : v'.owner = v.owner) (hid : v.nextId ≤ v'.nextId) : Aimed v' := by
  have honly : ∀ p', v'.AimedAt n p' → p' = p := by
    intro p' hp'
    rcases haims n p' hp' with hold | ⟨-, rfl⟩
    · exact howned.only p' hold
    · rfl
  intro n' p' hp'
  by_cases hn : n' = n
  · subst hn
    obtain rfl := honly p' hp'
    exact ⟨Nat.lt_of_lt_of_le howned.lt hid, by rw [howner]; exact howned.owner, honly⟩
  · have hold := (haims n' p' hp').resolve_right fun he => hn he.1
    have hown := h n' p' hold
    refine ⟨Nat.lt_of_lt_of_le hown.lt hid, by rw [howner]; exact hown.owner, ?_⟩
    intro p'' hp''
    exact hown.only p'' ((haims n' p'' hp'').resolve_right fun he => hn he.1)

/-! ## Elementary changes -/

/-- A change that neither buffers nor queues nor records notice. -/
theorem Shrinks.of_same (hbuf : v'.buffers = v.buffers) (hloc : v'.loc = v.loc)
    (htxns : v'.txns = v.txns) (howner : v'.owner = v.owner) (hid : v.nextId ≤ v'.nextId) :
    Shrinks v v' := by
  refine ⟨?_, fun n _ => .inl (congrFun howner n), hid⟩
  intro n p hn
  unfold AimedAt at hn ⊢
  rw [hbuf, hloc, htxns] at hn
  exact hn

theorem note_shrinks (v : Calls) (e : Event) : Shrinks v (v.note e) :=
  .of_same rfl rfl rfl rfl (Nat.le_refl _)

theorem bump_shrinks (v : Calls) : Shrinks v v.bump :=
  .of_same rfl rfl rfl rfl (Nat.le_succ _)

theorem setThread_shrinks (v : Calls) (th : ThreadId) (thread : Option ThreadView) :
    Shrinks v (v.setThread th thread) :=
  .of_same rfl rfl rfl rfl (Nat.le_refl _)

theorem setProc_shrinks (v : Calls) (p : ProcId) (proc : Option Bool) :
    Shrinks v (v.setProc p proc) :=
  .of_same rfl rfl rfl rfl (Nat.le_refl _)

theorem setOwner_shrinks (v : Calls) (n : NodeId) {p : Option ProcId}
    (h : v.nextId ≤ n ∨ p = none) : Shrinks v (v.setOwner n p) := by
  refine ⟨fun _ _ hn => hn, ?_, Nat.le_refl _⟩
  intro n' hn'
  by_cases hn : n' = n
  · subst hn
    rcases h with h | rfl
    · exact absurd hn' (Nat.not_lt.mpr h)
    · exact .inr (by simp [setOwner])
  · exact .inl (by simp [setOwner, hn])

/-- An item that moves to a queue other than a node's, or nowhere. -/
theorem setLoc_shrinks {loc : Work → Option Queue}
    (h : ∀ w n, loc w = some (.node n) → v.loc w = some (.node n)) :
    Shrinks v { v with loc := loc } := by
  refine ⟨?_, fun _ _ => .inl rfl, Nat.le_refl _⟩
  rintro n p (hbuf | ⟨t, x, hloc, hx, hp⟩)
  · exact .inl hbuf
  · exact .inr ⟨t, x, h _ n hloc, hx, hp⟩

theorem dequeue_shrinks (v : Calls) (w : Work) : Shrinks v (v.dequeue w) := by
  refine setLoc_shrinks ?_
  intro w' n hn
  have hn' : (v.dequeue w).loc w' = some (.node n) := hn
  rw [dequeue_loc] at hn'
  split at hn'
  · cases hn'
  · exact hn'

theorem enqueue_shrinks (v : Calls) (w : Work) {q : Queue} (hq : ∀ n, q ≠ .node n) :
    Shrinks v (v.enqueue w q) := by
  rw [enqueue_eq]
  refine setLoc_shrinks ?_
  intro w' n hn
  rw [enqueue_loc] at hn
  split at hn
  · exact absurd (Option.some.inj hn) (hq n)
  · exact hn

theorem setBuffer_shrinks (v : Calls) (p : ProcId) (b : BufferId) {buf : Option BufferView}
    (h : ∀ buf' n, buf = some buf' → buf'.targetNode = some n → v.AimedAt n p) :
    Shrinks v (v.setBuffer p b buf) := by
  refine ⟨?_, fun _ _ => .inl rfl, Nat.le_refl _⟩
  rintro n p' (⟨b', buf', hbuf, hn⟩ | hwait)
  · rw [buffers_setBuffer] at hbuf
    split at hbuf
    · rename_i heq
      obtain ⟨rfl, rfl⟩ := heq
      exact h buf' n hbuf hn
    · exact .inl ⟨b', buf', hbuf, hn⟩
  · exact .inr hwait

theorem updBuffer_shrinks (v : Calls) (p : ProcId) (b : BufferId) {f : BufferView → BufferView}
    (hf : ∀ buf, (f buf).targetNode = buf.targetNode) : Shrinks v (v.updBuffer p b f) := by
  refine setBuffer_shrinks v p b ?_
  intro buf' n hbuf hn
  obtain ⟨buf, hold, rfl⟩ := Option.map_eq_some_iff.mp hbuf
  rw [hf] at hn
  exact .inl ⟨b, buf, hold, hn⟩

theorem setTxn_shrinks (v : Calls) (t : TxnId) {y : Option Txn}
    (h : ∀ z, y = some z → ∃ x, v.txns t = some x ∧ x.toProc = z.toProc) :
    Shrinks v (v.setTxn t y) := by
  refine ⟨?_, fun _ _ => .inl rfl, Nat.le_refl _⟩
  rintro n p (hbuf | ⟨u, z, hloc, hz, hp⟩)
  · exact .inl hbuf
  · rw [txns_setTxn] at hz
    split at hz
    · rename_i hut
      subst hut
      obtain ⟨x, hx, hxp⟩ := h z hz
      exact .inr ⟨u, x, hloc, hx, hxp.trans hp⟩
    · exact .inr ⟨u, z, hloc, hz, hp⟩

theorem updTxn_shrinks (v : Calls) (t : TxnId) {f : Txn → Txn}
    (hf : ∀ x, (f x).toProc = x.toProc) : Shrinks v (v.updTxn t f) := by
  refine setTxn_shrinks v t ?_
  intro z hz
  obtain ⟨x, hx, rfl⟩ := Option.map_eq_some_iff.mp hz
  exact ⟨x, hx, (hf x).symm⟩

theorem popFrom_shrinks (v : Calls) (th : Option ThreadId) (t : TxnId) (parent : Option TxnId) :
    Shrinks v (v.popFrom th t parent) := by
  rw [popFrom_eq]
  exact .of_same rfl rfl rfl rfl (Nat.le_refl _)

theorem detachBuffer_shrinks (v : Calls) (p : ProcId) (b : Option BufferId) :
    Shrinks v (v.detachBuffer p b) := by
  cases b with
  | none => exact .refl v
  | some b => exact updBuffer_shrinks v p b fun _ => rfl

theorem freeTransaction_shrinks (v : Calls) (t : TxnId) : Shrinks v (v.freeTransaction t) := by
  cases hx : v.txns t with
  | none =>
      simp only [Calls.freeTransaction, hx]
      exact .refl v
  | some x =>
      rw [freeTransaction_of_some hx]
      exact ((((dequeue_shrinks v _).trans (popFrom_shrinks _ _ _ _)).trans
        (popFrom_shrinks _ _ _ _)).trans (detachBuffer_shrinks _ _ _)).trans
          (setTxn_shrinks _ t (by simp))

theorem freePayload_shrinks (v : Calls) (p : ProcId) (b : Option BufferId) :
    Shrinks v (v.freePayload p b) := by
  cases b with
  | none => exact .refl v
  | some b => exact setBuffer_shrinks v p b (by simp)

theorem dropTransaction_shrinks (v : Calls) (p : ProcId) (t : TxnId) :
    Shrinks v (v.dropTransaction p t) :=
  (freePayload_shrinks v p _).trans (freeTransaction_shrinks _ t)

theorem queueError_shrinks (v : Calls) (th : ThreadId) (br : BR) :
    Shrinks v (v.queueError th br) :=
  (setThread_shrinks v th _).trans (enqueue_shrinks _ _ (by simp))

theorem refuse_shrinks (v : Calls) (th : ThreadId) (br : BR) : Shrinks v (v.refuse th br) :=
  (queueError_shrinks v th br).trans (note_shrinks _ _)

theorem answer_shrinks (v : Calls) (sender : Option ThreadId) (t : TxnId) (br : BR) :
    Shrinks v (v.answer sender t br) := by
  unfold Calls.answer
  split
  · split
    · exact (queueError_shrinks v _ br).trans (note_shrinks _ _)
    · exact .refl v
  · exact .refl v

theorem failUndelivered_shrinks (v : Calls) (t : TxnId) (br : BR) :
    Shrinks v (v.failUndelivered t br) := by
  unfold Calls.failUndelivered
  split
  · split
    · exact answer_shrinks v _ t br
    · exact note_shrinks v _
  · exact note_shrinks v _

theorem QuietMove.shrinks (h : QuietMove v v') : Shrinks v v' := by
  cases h with
  | bump => exact bump_shrinks v
  | own p =>
      -- The node is new, so it is none of those whose owner is known.
      exact (setOwner_shrinks v v.nextId (.inl (Nat.le_refl _))).trans (bump_shrinks _)
  | disown n => exact setOwner_shrinks v n (.inr rfl)
  | alloc p b load hnone => exact setBuffer_shrinks v p b (by rintro _ n ⟨⟩ ⟨⟩)
  | fill p b load hblank => exact setBuffer_shrinks v p b (by rintro _ n ⟨⟩ ⟨⟩)
  | free p b hblank => exact setBuffer_shrinks v p b (by simp)
  | complete th cmd c => exact note_shrinks v _
  | drop n t x hx ho hloc => exact (freeTransaction_shrinks v t).trans (note_shrinks _ _)

theorem Quiet.shrinks (h : Quiet v v') : Shrinks v v' :=
  h.invariant (P := Shrinks v) (fun _ _ hs hmove => hs.trans hmove.shrinks) (.refl v)

/-! ## Sends -/

/-- A new record aims its buffer where the record goes. -/
theorem place_aims {t : TxnId} {x : Txn} {b : BufferId} {node : Option NodeId} {n : NodeId}
    {p : ProcId} (hloc : v.loc (.transaction t) = none)
    (h : (v.place t x b node).AimedAt n p) : v.AimedAt n p ∨ node = some n ∧ p = x.toProc := by
  rcases h with ⟨b', buf', hbuf, hn⟩ | ⟨u, y, hu, hy, hp⟩
  · simp only [Calls.place, Calls.updBuffer, buffers_setBuffer] at hbuf
    split at hbuf
    · rename_i heq
      obtain ⟨rfl, rfl⟩ := heq
      obtain ⟨buf, -, rfl⟩ := Option.map_eq_some_iff.mp hbuf
      exact .inr ⟨hn, rfl⟩
    · exact .inl (.inl ⟨b', buf', hbuf, hn⟩)
  · have hu' : v.loc (.transaction u) = some (.node n) := hu
    have hut : u ≠ t := by
      rintro rfl
      rw [hloc] at hu'
      cases hu'
    have hy' : (v.setTxn t (some x)).txns u = some y := hy
    rw [txns_setTxn, if_neg hut] at hy'
    exact .inl (.inr ⟨u, y, hu', hy', hp⟩)

/-- An item that joins a queue. -/
theorem enqueue_aims {t : TxnId} {q : Queue} {n : NodeId} {p : ProcId}
    (h : (v.enqueue (.transaction t) q).AimedAt n p) :
    v.AimedAt n p ∨ q = .node n ∧ ∃ x, v.txns t = some x ∧ x.toProc = p := by
  rcases h with ⟨b, buf, hbuf, hn⟩ | ⟨u, y, hu, hy, hp⟩
  · rw [enqueue_eq] at hbuf
    exact .inl (.inl ⟨b, buf, hbuf, hn⟩)
  · rw [enqueue_loc] at hu
    have hy' : v.txns u = some y := by
      rw [enqueue_eq] at hy
      exact hy
    split at hu
    · rename_i heq
      obtain rfl : u = t := by
        have := heq.1
        cases this
        rfl
      exact .inr ⟨Option.some.inj hu, y, hy', hp⟩
    · exact .inl (.inr ⟨u, y, hu, hy', hp⟩)

/-- Nothing waits under an address still to be handed out. -/
theorem Base.loc_nextId (h : Base v) : v.loc (.transaction v.nextId) = none := by
  cases hq : v.loc (.transaction v.nextId) with
  | none => rfl
  | some q =>
      obtain ⟨x, hx, -⟩ := h.waiting _ q hq
      exact absurd (h.txns_lt _ x hx) (Nat.lt_irrefl _)

/-- A record placed on a queue: only its node gains something. -/
theorem accept_aims {x : Txn} {b : BufferId} {n : NodeId} {q : Queue} {n' : NodeId} {p : ProcId}
    (hb : Base v) (hq : ∀ n', q = .node n' → n' = n)
    (h : ((v.bump.bump.place v.nextId x b (some n)).enqueue (.transaction v.nextId) q).AimedAt
      n' p) : v.AimedAt n' p ∨ n' = n ∧ p = x.toProc := by
  rcases enqueue_aims h with h | ⟨hn, y, hy, rfl⟩
  · rcases place_aims (v := v.bump.bump) hb.loc_nextId h with h | ⟨hn, hp⟩
    · exact .inl h
    · exact .inr ⟨(Option.some.inj hn).symm, hp⟩
  · have hy' : (v.bump.bump.setTxn v.nextId (some x)).txns v.nextId = some y := hy
    rw [txns_setTxn, if_pos rfl] at hy'
    cases hy'
    exact .inr ⟨hq n' hn, rfl⟩

/-- A oneway call is aimed at the owner of its node. -/
theorem Aimed.acceptOneway {th : ThreadId} {x : Txn} {b : BufferId} {n : NodeId} {q : Queue}
    (hb : Base v) (h : Aimed v) (hx : v.IsOneway x b n q) :
    Aimed (v.acceptOneway th x b n q) := by
  have hgrow : Aimed ((v.bump.bump.place v.nextId x b (some n)).enqueue
      (.transaction v.nextId) q) := by
    refine h.grow hx.owned ?_ ?_ ?_
    · intro n' p hn'
      refine accept_aims hb ?_ hn'
      rintro n'' rfl
      rcases hx.queue with hq | hq <;> cases hq
      rfl
    · rw [enqueue_eq]
      rfl
    · rw [enqueue_eq]
      exact Nat.le_add_right v.nextId 2
  exact hgrow.shrink (note_shrinks _ _)

/-- So is a call. -/
theorem Aimed.acceptCall {th : ThreadId} {x : Txn} {b : BufferId} {n : NodeId} {q : Queue}
    (hb : Base v) (h : Aimed v) (hx : v.IsCall th x b n q) :
    Aimed (v.acceptCall th x b n q) := by
  have hnode : ∀ n', q ≠ .node n' := by
    rintro n' rfl
    have hqueue := hx.queue
    split at hqueue
    · exact absurd hqueue.1 (by simp)
    · cases hqueue
  have hplace : Aimed (v.bump.bump.place v.nextId x b (some n)) := by
    refine h.grow hx.owned ?_ rfl (Nat.le_add_right v.nextId 2)
    intro n' p hn'
    rcases place_aims (v := v.bump.bump) hb.loc_nextId hn' with h | ⟨hn, hp⟩
    · exact .inl h
    · exact .inr ⟨(Option.some.inj hn).symm, hp⟩
  exact hplace.shrink (((setThread_shrinks _ th _).trans (enqueue_shrinks _ _ hnode)).trans
    (note_shrinks _ _))

theorem Aimed.acceptReply {th target : ThreadId} {call : TxnId} {x : Txn} {b : BufferId}
    (hb : Base v) (h : Aimed v) : Aimed (v.acceptReply th target call x b) := by
  have hplace : Shrinks (v.setStack th ((v.txns call).bind (·.toParent)))
      ((v.setStack th ((v.txns call).bind (·.toParent))).bump.bump.place v.nextId x b none) := by
    refine ⟨?_, fun _ _ => .inl rfl, Nat.le_add_right v.nextId 2⟩
    intro n p hn
    rcases place_aims hb.loc_nextId hn with h | ⟨hn, -⟩
    · exact h
    · cases hn
  exact h.shrink ((((setThread_shrinks v th _).trans hplace).trans
    ((freeTransaction_shrinks _ call).trans (note_shrinks _ _))).trans
      ((enqueue_shrinks _ _ (by simp)).trans (note_shrinks _ _)))

theorem Aimed.send {aim : NodeId → Txn → Prop} {th : ThreadId} {reply : Bool} (hb : Base v)
    (h : Aimed v) (hsend : Send aim th reply v v') : Aimed v' := by
  cases hsend with
  | refused br hbr h₁ h₂ =>
      exact h.shrink ((h₁.shrinks.trans (refuse_shrinks _ th br)).trans h₂.shrinks)
  | deadReply hreply t ht hdead =>
      exact h.shrink (((setThread_shrinks v th _).trans (refuse_shrinks _ th _)).trans
        (freeTransaction_shrinks _ t))
  | call hreply x b n q h₁ hx _ h₂ =>
      exact ((h.shrink h₁.shrinks).acceptCall (hb.quiet h₁) hx).shrink h₂.shrinks
  | oneway hreply x b n q h₁ hx _ h₂ =>
      exact ((h.shrink h₁.shrinks).acceptOneway (hb.quiet h₁) hx).shrink h₂.shrinks
  | reply hreply target call x b h₁ hx h₂ =>
      exact ((h.shrink h₁.shrinks).acceptReply (hb.quiet h₁)).shrink h₂.shrinks

/-! ## Everything else -/

theorem emitTxn_shrinks (v : Calls) (th : ThreadId) (t : TxnId) (x : Txn) (b : BufferId)
    (cmd : BR) : Shrinks v (v.emitTxn th t x b cmd) :=
  ((dequeue_shrinks v _).trans (note_shrinks _ _)).trans
    (updBuffer_shrinks _ _ b (by intro _; rfl))

theorem pushCall_shrinks (v : Calls) (th : ThreadId) (t : TxnId) :
    Shrinks v (v.pushCall th t) :=
  (updTxn_shrinks v t (by intro _; rfl)).trans (setThread_shrinks _ th _)

/-- A read makes no record. -/
theorem Read.shrinks {fault tear : Prop} {th : ThreadId} (h : Read fault tear th v v') :
    Shrinks v v' := by
  cases h with
  | quiet h => exact h.shrinks
  | call t x b buf cmd htakes hx hb hbuf hnode hreply hcmd =>
      exact (emitTxn_shrinks v th t x b cmd).trans (pushCall_shrinks _ th t)
  | other t x b buf cmd htakes hx hb hbuf hkind hcmd =>
      exact (emitTxn_shrinks v th t x b cmd).trans (freeTransaction_shrinks _ t)
  | undeliverable t x htakes hx h =>
      exact (((dequeue_shrinks v _).trans (failUndelivered_shrinks _ t _)).trans h.shrinks).trans
        (dropTransaction_shrinks _ _ t)
  | torn htear t htakes => exact note_shrinks v _
  | lost t htakes hwhy => exact dequeue_shrinks v _
  | tornLost hfault htear t htakes => exact (dequeue_shrinks v _).trans (note_shrinks _ _)
  | error e cmd htakes =>
      exact ((dequeue_shrinks v _).trans (setThread_shrinks _ e _)).trans (note_shrinks _ _)
  | errorLost hfault e htakes => exact dequeue_shrinks v _

/-- The payload of a buffer is given back. -/
theorem unlink_shrinks (v : Calls) (p : ProcId) (b : BufferId) (t : Option TxnId) :
    Shrinks v (match t with
      | some t => (v.updTxn t fun x => { x with buffer := none }).setBuffer p b none
      | none => v.setBuffer p b none) := by
  split
  · exact (updTxn_shrinks v _ (by intro _; rfl)).trans
      (setBuffer_shrinks _ p b (by intro _ _ h; cases h))
  · exact setBuffer_shrinks v p b (by simp)

theorem FreeBuffer.shrinks {p : ProcId} {ptr : Nat} (h : FreeBuffer p ptr v v') :
    Shrinks v v' := by
  cases h with
  | quiet h => exact h.shrinks
  | @free v₁ v₂ v₃ b buf h₁ hbuf huser haddr h₂ h₃ =>
      have hs₂ : Shrinks v₁ v₂ := h₂ ▸ unlink_shrinks v₁ p b buf.transaction
      refine (h₁.shrinks.trans hs₂).trans ?_
      rcases h₃ with rfl | ⟨n, t, -, -, rfl⟩
      · exact .refl _
      · exact (dequeue_shrinks v₂ _).trans (enqueue_shrinks _ _ (by simp))

/-- The transaction let through waited behind a node of this very process. -/
theorem Base.freeBuffer {p : ProcId} (h : Base v) (ha : Aimed v) (hp : (v.procs p).isSome)
    {ptr : Nat} (hfree : FreeBuffer p ptr v v') : Base v' := by
  cases hfree with
  | quiet hq => exact h.quiet hq
  | @free v₁ v₂ v₃ b buf h₁ hbuf huser haddr h₂ h₃ =>
      have hb₁ := h.quiet h₁
      have hprocs : v₂.procs = v.procs := by
        rw [h₂, ← h₁.procs]
        split <;> rfl
      have hb₂ : Base v₂ := by
        rw [h₂]
        split
        · exact hb₁.unlink hbuf (by assumption)
        · refine hb₁.setUnlinked ?_ (by simp)
          intro buf' hbuf'
          rw [hbuf] at hbuf'
          cases hbuf'
          assumption
      rcases h₃ with rfl | ⟨n, t, hn, hloc, rfl⟩
      · exact hb₂
      · obtain ⟨x, hx, -⟩ := hb₂.waiting t _ hloc
        have hs₂ : Shrinks v₁ v₂ := h₂ ▸ unlink_shrinks v₁ p b buf.transaction
        have hown := (ha.shrink h₁.shrinks n p (.inl ⟨b, buf, hbuf, hn⟩)).shrink hs₂
        have hxp : x.toProc = p := hown.only _ (.inr ⟨t, x, hloc, hx, rfl⟩)
        refine (hb₂.dequeue _).enqueueTxn hx ⟨hxp.symm, ?_⟩
        exact hprocs ▸ hp

theorem Walk.shrinks {p : ProcId} {th : ThreadId} {top : Option TxnId}
    (h : Walk p th v top v') : Shrinks v v' := by
  induction h with
  | done v => exact .refl v
  | stale hx => exact .refl _
  | sent hx hfrom _ ih =>
      refine Shrinks.trans ?_ ih
      exact updTxn_shrinks _ _ (by intro _; rfl)
  | @received v v₁ v' t x hx hfrom hto h₁ _ ih =>
      refine Shrinks.trans (Shrinks.trans ?_ h₁.shrinks) (Shrinks.trans ?_ ih)
      · exact updTxn_shrinks _ _ (by intro _; rfl)
      · refine (freePayload_shrinks v₁ p x.buffer).trans (Shrinks.trans ?_ (answer_shrinks _ _ t _))
        exact updTxn_shrinks _ _ (by intro _; rfl)
  | foreign hx hfrom hto => exact .refl _

theorem HandBack.shrinks {p : ProcId} {w : Work} (h : HandBack p v w v') : Shrinks v v' := by
  cases h with
  | back t hp => exact (dequeue_shrinks v _).trans (enqueue_shrinks _ _ (by simp))
  | drop t hp h =>
      exact (((dequeue_shrinks v _).trans h.shrinks).trans (dropTransaction_shrinks _ p t)).trans
        (note_shrinks _ _)
  | error th => exact dequeue_shrinks v _

/-- A loop whose turns only forget only forgets. -/
theorem Each.shrinks {α : Type} {R : Calls → α → Calls → Prop}
    (hstep : ∀ a v v', R v a v' → Shrinks v v') {as : List α} (h : Each R v as v') :
    Shrinks v v' :=
  h.invariant (I := fun _ v'' => Shrinks v v'')
    (fun a _ _ _ hs hmove => hs.trans (hstep a _ _ hmove)) (.refl v)

theorem Depart.shrinks {p : ProcId} {th : ThreadId} (h : Depart p th v v') : Shrinks v v' := by
  obtain @⟨v₁, v₂, ws, hwalk, -, -, hback⟩ := h
  exact (((setThread_shrinks v th _).trans hwalk.shrinks).trans
    ((setThread_shrinks v₁ th _).trans (Each.shrinks (fun _ _ _ => HandBack.shrinks) hback))).trans
      (setThread_shrinks v₂ th _)

theorem Undeliver.shrinks {p : ProcId} {w : Work} (h : Undeliver p v w v') : Shrinks v v' := by
  cases h with
  | txn t h =>
      exact (((dequeue_shrinks v _).trans (failUndelivered_shrinks _ t _)).trans h.shrinks).trans
        (dropTransaction_shrinks _ p t)
  | error th => exact dequeue_shrinks v _

theorem tearDown_shrinks (v : Calls) (p : ProcId) : Shrinks v (v.tearDown p) := by
  refine ⟨?_, fun _ _ => .inl rfl, Nat.le_refl _⟩
  rintro n p' (⟨b, buf, hbuf, hn⟩ | hwait)
  · by_cases hp : p' = p
    · subst hp
      simp [Calls.tearDown] at hbuf
    · simp only [Calls.tearDown, Function.update_of_ne hp] at hbuf
      exact .inl ⟨b, buf, hbuf, hn⟩
  · exact .inr hwait

theorem Close.shrinks {p : ProcId} (h : Close p v v') : Shrinks v v' := by
  obtain @⟨v₁, v₂, v₃, ws, ths, hquiet, -, -, hundeliver, -, -, hdeparts⟩ := h
  exact (((setProc_shrinks v p _).trans hquiet.shrinks).trans
    ((Each.shrinks (fun _ _ _ => Undeliver.shrinks) hundeliver).trans
      (Each.shrinks (fun _ _ _ => Depart.shrinks) hdeparts))).trans (tearDown_shrinks v₃ p)

end Calls

end Binder
