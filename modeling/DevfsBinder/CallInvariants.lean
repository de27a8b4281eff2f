import DevfsBinder.CallMachine

/-!
# What holds in every run of the call machine

`Base` collects the facts no client can break: addresses in use have been
handed out, a thread belongs to an open process, stacks and parent links name
calls, a transaction and the buffer that carries it point at each other, and
whatever waits waits where its receiver will look.

Each elementary change keeps `Base` under conditions of its own; the lemmas
for sends, reads and departures put these together.
-/

namespace Binder

/-- Every transaction and thread an event speaks of has an address below `k`. -/
def Event.Below (k : Nat) : Event → Prop
  | .accept th t _ _ | .fail th t | .emit th _ (.transaction t) => th < k ∧ t < k
  | .refuse th | .emit th _ (.returnError _) => th < k
  | .reply th t r => th < k ∧ t < k ∧ r < k
  | .discard t => t < k
  | .emit _ _ _ => True

theorem Event.Below.mono {k k' : Nat} (hk : k ≤ k') {e : Event} (h : e.Below k) :
    e.Below k' := by
  cases e with
  | accept th t p call => exact ⟨Nat.lt_of_lt_of_le h.1 hk, Nat.lt_of_lt_of_le h.2 hk⟩
  | emit th cmd w =>
      cases w with
      | transaction t => exact ⟨Nat.lt_of_lt_of_le h.1 hk, Nat.lt_of_lt_of_le h.2 hk⟩
      | returnError e => exact Nat.lt_of_lt_of_le h hk
      | _ => trivial
  | fail th t => exact ⟨Nat.lt_of_lt_of_le h.1 hk, Nat.lt_of_lt_of_le h.2 hk⟩
  | refuse th => exact Nat.lt_of_lt_of_le h hk
  | reply th t r =>
      exact ⟨Nat.lt_of_lt_of_le h.1 hk, Nat.lt_of_lt_of_le h.2.1 hk,
        Nat.lt_of_lt_of_le h.2.2 hk⟩
  | discard t => exact Nat.lt_of_lt_of_le h hk

namespace Calls

variable {v v' : Calls}

/-- An address that is or was a call's. -/
def CallId (v : Calls) (t : TxnId) : Prop :=
  t < v.nextId ∧ ∀ x, v.txns t = some x → x.needReply = true

/-- Where a transaction may wait. -/
def Home (v : Calls) (x : Txn) : Queue → Prop
  | .proc p => p = x.toProc ∧ (v.procs p).isSome
  | .thread th => v.procOf th = some x.toProc
  | .node _ => x.Oneway

/-- The errors a thread can be told. -/
def ErrorCode (br : BR) : Prop := br = .ok ∨ br = .failedReply ∨ br = .deadReply

structure Base (v : Calls) : Prop where
  procs_lt : ∀ p d, v.procs p = some d → p < v.nextId
  threads_lt : ∀ th p, v.procOf th = some p → th < v.nextId
  txns_lt : ∀ t x, v.txns t = some x → t < v.nextId
  toProc_lt : ∀ t x, v.txns t = some x → x.toProc < v.nextId
  trace_lt : ∀ e ∈ v.trace, e.Below v.nextId
  threadProc : ∀ th p, v.procOf th = some p → (v.procs p).isSome
  codes : ∀ th thread, v.threads th = some thread → ErrorCode thread.error
  stack : ∀ th t, v.stackOf th = some t → v.CallId t
  fromParent : ∀ t x u, v.txns t = some x → x.fromParent = some u → v.CallId u
  toParent : ∀ t x u, v.txns t = some x → x.toParent = some u → v.CallId u
  notCall : ∀ t x, v.txns t = some x → x.needReply = false → x.fromThread = none
  fromThread_lt : ∀ t x th, v.txns t = some x → x.fromThread = some th → th < v.nextId
  toThread_lt : ∀ t x th, v.txns t = some x → x.toThread = some th → th < v.nextId
  toHome : ∀ t x th p, v.txns t = some x → x.toThread = some th → v.procOf th = some p →
    p = x.toProc
  link : ∀ t x b, v.txns t = some x → x.buffer = some b → (v.procs x.toProc).isSome →
    ∃ buf, v.buffers x.toProc b = some buf ∧ buf.transaction = some t ∧
      (buf.targetNode.isSome = true ↔ x.needReply = true ∨ x.toThread = none)
  back : ∀ p b buf t, v.buffers p b = some buf → buf.transaction = some t →
    ∃ x, v.txns t = some x ∧ x.toProc = p ∧ x.buffer = some b
  waiting : ∀ t q, v.loc (.transaction t) = some q → ∃ x, v.txns t = some x ∧ v.Home x q
  errors : ∀ th q, v.loc (.returnError th) = some q → q = .thread th ∧ (v.procOf th).isSome

/-! ## Elementary changes -/

theorem CallId.bump {t : TxnId} (h : v.CallId t) : v.bump.CallId t :=
  ⟨Nat.lt_succ_of_lt h.1, h.2⟩

theorem Base.bump (h : Base v) : Base v.bump :=
  { h with
    procs_lt := fun p d hp => Nat.lt_succ_of_lt (h.procs_lt p d hp)
    threads_lt := fun th p hp => Nat.lt_succ_of_lt (h.threads_lt th p hp)
    txns_lt := fun t x hx => Nat.lt_succ_of_lt (h.txns_lt t x hx)
    toProc_lt := fun t x hx => Nat.lt_succ_of_lt (h.toProc_lt t x hx)
    trace_lt := fun e he => (h.trace_lt e he).mono (Nat.le_succ _)
    fromThread_lt := fun t x th hx ht => Nat.lt_succ_of_lt (h.fromThread_lt t x th hx ht)
    toThread_lt := fun t x th hx ht => Nat.lt_succ_of_lt (h.toThread_lt t x th hx ht)
    stack := fun th t ht => (h.stack th t ht).bump
    fromParent := fun t x u hx hu => (h.fromParent t x u hx hu).bump
    toParent := fun t x u hx hu => (h.toParent t x u hx hu).bump }

theorem Base.setOwner (h : Base v) (n : NodeId) (p : Option ProcId) : Base (v.setOwner n p) :=
  { h with }

theorem Base.note (h : Base v) {e : Event} (he : e.Below v.nextId) : Base (v.note e) :=
  { h with
    trace_lt := by
      intro e' he'
      rcases List.mem_cons.mp he' with rfl | he'
      · exact he
      · exact h.trace_lt e' he' }

theorem Base.dequeue (h : Base v) (w : Work) : Base (v.dequeue w) := by
  have hloc : ∀ w' q, (v.dequeue w).loc w' = some q → v.loc w' = some q := by
    intro w' q hq
    by_cases hw : w' = w
    · simp [Calls.dequeue, hw] at hq
    · simpa [Calls.dequeue, hw] using hq
  exact
    { h with
      waiting := fun t q hq => h.waiting t q (hloc _ q hq)
      errors := fun th q hq => h.errors th q (hloc _ q hq) }

theorem enqueue_loc (v : Calls) (w : Work) (q : Queue) (w' : Work) :
    (v.enqueue w q).loc w' = if w' = w ∧ v.loc w = none then some q else v.loc w' := by
  cases hw : v.loc w with
  | some q' => simp [enqueue, hw]
  | none => by_cases hw' : w' = w <;> simp [enqueue, hw, hw']

/-- Linking an item changes nothing else. -/
theorem enqueue_eq (v : Calls) (w : Work) (q : Queue) :
    v.enqueue w q = { v with loc := (v.enqueue w q).loc } := by
  unfold enqueue
  split <;> rfl

theorem Base.setLoc (h : Base v) {loc : Work → Option Queue}
    (hwaiting : ∀ t q, loc (.transaction t) = some q →
      v.loc (.transaction t) = some q ∨ ∃ x, v.txns t = some x ∧ v.Home x q)
    (herrors : ∀ th q, loc (.returnError th) = some q →
      v.loc (.returnError th) = some q ∨ q = .thread th ∧ (v.procOf th).isSome) :
    Base { v with loc := loc } :=
  { h with
    waiting := fun t q hq => (hwaiting t q hq).elim (h.waiting t q) id
    errors := fun th q hq => (herrors th q hq).elim (h.errors th q) id }

theorem Base.enqueueTxn (h : Base v) {t : TxnId} {x : Txn} {q : Queue}
    (hx : v.txns t = some x) (hq : v.Home x q) : Base (v.enqueue (.transaction t) q) := by
  rw [enqueue_eq]
  refine h.setLoc ?_ ?_ <;> intro a q' hq' <;> rw [enqueue_loc] at hq' <;> split at hq'
  · rename_i heq
    cases heq.1
    cases hq'
    exact .inr ⟨x, hx, hq⟩
  · exact .inl hq'
  · rename_i heq
    cases heq.1
  · exact .inl hq'

theorem Base.enqueueError (h : Base v) {th : ThreadId} (hth : (v.procOf th).isSome) :
    Base (v.enqueue (.returnError th) (.thread th)) := by
  rw [enqueue_eq]
  refine h.setLoc ?_ ?_ <;> intro a q' hq' <;> rw [enqueue_loc] at hq' <;> split at hq'
  · rename_i heq
    cases heq.1
  · exact .inl hq'
  · rename_i heq
    cases heq.1
    cases hq'
    exact .inr ⟨rfl, hth⟩
  · exact .inl hq'

/-! ## Threads -/

theorem procOf_updThread (v : Calls) (th : ThreadId) {f : ThreadView → ThreadView}
    (hf : ∀ x, (f x).proc = x.proc) : (v.updThread th f).procOf = v.procOf := by
  funext th'
  by_cases hth : th' = th
  · subst hth
    cases hx : v.threads th' <;> simp [procOf, updThread, setThread, hx, hf]
  · simp [procOf, updThread, setThread, hth]

theorem stackOf_updThread (v : Calls) (th : ThreadId) {f : ThreadView → ThreadView}
    (hf : ∀ x, (f x).stack = x.stack) : (v.updThread th f).stackOf = v.stackOf := by
  funext th'
  by_cases hth : th' = th
  · subst hth
    cases hx : v.threads th' <;> simp [stackOf, updThread, setThread, hx, hf]
  · simp [stackOf, updThread, setThread, hth]

@[simp] theorem procOf_setStack (v : Calls) (th : ThreadId) (top : Option TxnId) :
    (v.setStack th top).procOf = v.procOf :=
  procOf_updThread v th fun _ => rfl

@[simp] theorem procOf_setError (v : Calls) (th : ThreadId) (br : BR) :
    (v.setError th br).procOf = v.procOf :=
  procOf_updThread v th fun _ => rfl

@[simp] theorem procOf_setDead (v : Calls) (th : ThreadId) :
    (v.setDead th).procOf = v.procOf :=
  procOf_updThread v th fun _ => rfl

@[simp] theorem stackOf_setError (v : Calls) (th : ThreadId) (br : BR) :
    (v.setError th br).stackOf = v.stackOf :=
  stackOf_updThread v th fun _ => rfl

@[simp] theorem stackOf_setDead (v : Calls) (th : ThreadId) :
    (v.setDead th).stackOf = v.stackOf :=
  stackOf_updThread v th fun _ => rfl

@[simp] theorem live_setStack (v : Calls) (th : ThreadId) (top : Option TxnId) :
    (v.setStack th top).live = v.live := by
  funext th'
  by_cases hth : th' = th
  · subst hth
    cases hx : v.threads th' <;> simp [live, setStack, updThread, setThread, hx]
  · simp [live, setStack, updThread, setThread, hth]

theorem setStack_setStack (v : Calls) (th : ThreadId) (top top' : Option TxnId) :
    (v.setStack th top).setStack th top' = v.setStack th top' := by
  simp only [setStack, updThread, setThread, Function.update_self, Function.update_idem,
    Option.map_map]
  rfl

theorem setStack_stackOf (v : Calls) (th : ThreadId) : v.setStack th (v.stackOf th) = v := by
  have hthread : (v.threads th).map (fun thread => { thread with stack := v.stackOf th }) =
      v.threads th := by
    cases hx : v.threads th <;> simp [stackOf, hx]
  simp only [setStack, updThread, setThread]
  rw [hthread, Function.update_eq_self]

theorem stackOf_setStack_same {v : Calls} {th : ThreadId} {p : ProcId}
    (h : v.procOf th = some p) (top : Option TxnId) : (v.setStack th top).stackOf th = top := by
  cases hx : v.threads th with
  | none => simp [procOf, hx] at h
  | some x => simp [stackOf, setStack, updThread, setThread, hx]

theorem stackOf_setStack_of_ne (v : Calls) {th th' : ThreadId} (h : th' ≠ th)
    (top : Option TxnId) : (v.setStack th top).stackOf th' = v.stackOf th' := by
  simp [stackOf, setStack, updThread, setThread, h]

theorem stackOf_setStack_le (v : Calls) (th th' : ThreadId) (top : Option TxnId) (t : TxnId)
    (h : (v.setStack th top).stackOf th' = some t) :
    v.stackOf th' = some t ∨ th' = th ∧ top = some t := by
  by_cases hth : th' = th
  · subst hth
    cases hx : v.threads th' with
    | none => simp [stackOf, setStack, updThread, setThread, hx] at h
    | some x => exact .inr ⟨rfl, by simpa [stackOf, setStack, updThread, setThread, hx] using h⟩
  · rw [stackOf_setStack_of_ne v hth] at h
    exact .inl h

theorem Home.congr {x : Txn} {q : Queue} (hprocs : v'.procs = v.procs)
    (hthreads : v'.procOf = v.procOf) (h : v.Home x q) : v'.Home x q := by
  cases q with
  | proc p => exact ⟨h.1, hprocs ▸ h.2⟩
  | thread th => exact (congrFun hthreads th).trans h
  | node n => exact h

/-- Changing a thread in place. -/
theorem Base.updThread (h : Base v) (th : ThreadId) {f : ThreadView → ThreadView}
    (hproc : ∀ x, (f x).proc = x.proc)
    (hcode : ∀ x, v.threads th = some x → ErrorCode (f x).error)
    (hstack : ∀ x t, v.threads th = some x → (f x).stack = some t → v.CallId t) :
    Base (v.updThread th f) := by
  have hprocOf : (v.updThread th f).procOf = v.procOf := procOf_updThread v th hproc
  have hthread : ∀ th' y, (v.updThread th f).threads th' = some y →
      v.threads th' = some y ∨ ∃ x, v.threads th = some x ∧ y = f x := by
    intro th' y hy
    by_cases hth : th' = th
    · subst hth
      simp only [Calls.updThread, setThread, Function.update_self, Option.map_eq_some_iff] at hy
      obtain ⟨x, hx, rfl⟩ := hy
      exact .inr ⟨x, hx, rfl⟩
    · exact .inl (by simpa [Calls.updThread, setThread, hth] using hy)
  exact
    { h with
      threads_lt := fun th' p hp => h.threads_lt th' p (hprocOf ▸ hp)
      threadProc := fun th' p hp => h.threadProc th' p (hprocOf ▸ hp)
      codes := by
        intro th' y hy
        rcases hthread th' y hy with hy | ⟨x, hx, rfl⟩
        · exact h.codes th' y hy
        · exact hcode x hx
      stack := by
        intro th' t ht
        obtain ⟨y, hy, hyt⟩ := Option.bind_eq_some_iff.mp ht
        rcases hthread th' y hy with hy | ⟨x, hx, rfl⟩
        · exact h.stack th' t (Option.bind_eq_some_iff.mpr ⟨y, hy, hyt⟩)
        · exact hstack x t hx hyt
      toHome := fun t x th' p hx ht hp => h.toHome t x th' p hx ht (hprocOf ▸ hp)
      waiting := by
        intro t q hq
        obtain ⟨x, hx, hhome⟩ := h.waiting t q hq
        exact ⟨x, hx, Home.congr (v := v) rfl hprocOf hhome⟩
      errors := by
        intro th' q hq
        rw [hprocOf]
        exact h.errors th' q hq }

theorem Base.setStack (h : Base v) {th : ThreadId} {top : Option TxnId}
    (htop : ∀ t, top = some t → v.CallId t) : Base (v.setStack th top) :=
  h.updThread th (fun _ => rfl) (fun x hx => h.codes th x hx) (fun _ t _ ht => htop t ht)

theorem Base.setError (h : Base v) (th : ThreadId) {br : BR} (hbr : ErrorCode br) :
    Base (v.setError th br) :=
  h.updThread th (fun _ => rfl) (fun _ _ => hbr)
    (fun x t hx ht => h.stack th t (Option.bind_eq_some_iff.mpr ⟨x, hx, ht⟩))

theorem Base.setDead (h : Base v) (th : ThreadId) : Base (v.setDead th) :=
  h.updThread th (fun _ => rfl) (fun x hx => h.codes th x hx)
    (fun x t hx ht => h.stack th t (Option.bind_eq_some_iff.mpr ⟨x, hx, ht⟩))

theorem Base.popFrom (h : Base v) (th : Option ThreadId) (t : TxnId) {parent : Option TxnId}
    (hparent : ∀ u, parent = some u → v.CallId u) : Base (v.popFrom th t parent) := by
  cases th with
  | none => exact h
  | some th =>
      unfold Calls.popFrom
      simp only
      split
      · exact h.setStack hparent
      · exact h

theorem Base.queueError (h : Base v) {th : ThreadId} {br : BR} (hbr : ErrorCode br)
    (hth : (v.procOf th).isSome) : Base (v.queueError th br) :=
  (h.setError th hbr).enqueueError (by simpa using hth)

theorem Base.thread_lt {th : ThreadId} (h : Base v) (hth : (v.procOf th).isSome) :
    th < v.nextId := by
  obtain ⟨p, hp⟩ := Option.isSome_iff_exists.mp hth
  exact h.threads_lt th p hp

theorem queueError_nextId (v : Calls) (th : ThreadId) (br : BR) :
    (v.queueError th br).nextId = v.nextId := by
  unfold queueError
  rw [enqueue_eq]
  rfl

theorem Base.refuse (h : Base v) {th : ThreadId} {br : BR} (hbr : ErrorCode br)
    (hth : (v.procOf th).isSome) : Base (v.refuse th br) := by
  refine (h.queueError hbr hth).note ?_
  rw [queueError_nextId]
  exact h.thread_lt hth

theorem live_procOf {th : ThreadId} (h : v.live th = true) : (v.procOf th).isSome := by
  unfold live at h
  unfold procOf
  cases hx : v.threads th <;> simp_all

/-- Answering a sender touches its error slot only. -/
theorem answer_eq (v : Calls) (sender : Option ThreadId) (t : TxnId) (br : BR) :
    v.answer sender t br =
      { v with
        threads := (v.answer sender t br).threads
        loc := (v.answer sender t br).loc
        trace := (v.answer sender t br).trace } := by
  unfold Calls.answer
  split
  · split
    · unfold Calls.queueError
      rw [enqueue_eq]
      rfl
    · rfl
  · rfl

theorem loc_queueError (v : Calls) (th : ThreadId) (br : BR) (t : TxnId) :
    (v.queueError th br).loc (.transaction t) = v.loc (.transaction t) := by
  unfold Calls.queueError
  rw [enqueue_loc, if_neg (by simp)]
  rfl

theorem loc_answer (v : Calls) (sender : Option ThreadId) (t : TxnId) (br : BR) (u : TxnId) :
    (v.answer sender t br).loc (.transaction u) = v.loc (.transaction u) := by
  unfold Calls.answer
  split
  · split
    · exact loc_queueError v _ br u
    · rfl
  · rfl

theorem failUndelivered_eq (v : Calls) (t : TxnId) (br : BR) :
    v.failUndelivered t br =
      { v with
        threads := (v.failUndelivered t br).threads
        loc := (v.failUndelivered t br).loc
        trace := (v.failUndelivered t br).trace } := by
  unfold Calls.failUndelivered
  split
  · split
    · rw [answer_eq]
    · rfl
  · rfl

theorem loc_failUndelivered (v : Calls) (t : TxnId) (br : BR) (u : TxnId) :
    (v.failUndelivered t br).loc (.transaction u) = v.loc (.transaction u) := by
  unfold Calls.failUndelivered
  split
  · split
    · exact loc_answer v _ t br u
    · rfl
  · rfl

theorem Base.answer (h : Base v) {sender : Option ThreadId} {t : TxnId} {br : BR}
    (hbr : ErrorCode br) (ht : t < v.nextId) : Base (v.answer sender t br) := by
  unfold Calls.answer
  split
  · split
    · rename_i th hlive
      refine (h.queueError hbr (live_procOf hlive)).note ?_
      rw [queueError_nextId]
      exact ⟨h.thread_lt (live_procOf hlive), ht⟩
    · exact h
  · exact h

theorem Base.failUndelivered (h : Base v) {t : TxnId} {br : BR}
    (hbr : ErrorCode br) (ht : t < v.nextId) : Base (v.failUndelivered t br) := by
  unfold Calls.failUndelivered
  split
  · split
    · exact h.answer hbr ht
    · exact h.note ht
  · exact h.note ht

/-! ## Buffers -/

theorem buffers_setBuffer (v : Calls) (p p' : ProcId) (b b' : BufferId)
    (buf : Option BufferView) : (v.setBuffer p b buf).buffers p' b' =
      if p' = p ∧ b' = b then buf else v.buffers p' b' := by
  by_cases hp : p' = p
  · subst hp
    by_cases hb : b' = b <;> simp [Calls.setBuffer, hb]
  · simp [Calls.setBuffer, hp]

/-- A buffer changes: the record it is tied to must still be tied to it. -/
theorem Base.setBuffer (h : Base v) {p : ProcId} {b : BufferId} {buf : Option BufferView}
    (hlink : ∀ t x, v.txns t = some x → x.buffer = some b → x.toProc = p →
      (v.procs p).isSome → ∃ buf', buf = some buf' ∧ buf'.transaction = some t ∧
        (buf'.targetNode.isSome = true ↔ x.needReply = true ∨ x.toThread = none))
    (hback : ∀ buf' t, buf = some buf' → buf'.transaction = some t →
      ∃ x, v.txns t = some x ∧ x.toProc = p ∧ x.buffer = some b) :
    Base (v.setBuffer p b buf) :=
  { h with
    link := by
      intro t x b' hx hb hp
      rw [buffers_setBuffer]
      split
      · rename_i heq
        obtain ⟨hpp, rfl⟩ := heq
        exact hlink t x hx hb hpp (hpp ▸ hp)
      · exact h.link t x b' hx hb hp
    back := by
      intro p' b' buf' t hbuf ht
      rw [buffers_setBuffer] at hbuf
      split at hbuf
      · rename_i heq
        obtain ⟨rfl, rfl⟩ := heq
        exact hback buf' t hbuf ht
      · exact h.back p' b' buf' t hbuf ht }

/-- A buffer nobody's transaction is tied to may go or be taken. -/
theorem Base.setUnlinked (h : Base v) {p : ProcId} {b : BufferId} {buf : Option BufferView}
    (hold : ∀ buf', v.buffers p b = some buf' → buf'.transaction = none)
    (hnew : ∀ buf', buf = some buf' → buf'.transaction = none) :
    Base (v.setBuffer p b buf) := by
  refine h.setBuffer ?_ ?_
  · intro t x hx hb hp halive
    subst hp
    obtain ⟨buf', hbuf', ht, -⟩ := h.link t x b hx hb halive
    rw [hold buf' hbuf'] at ht
    cases ht
  · intro buf' t hbuf' ht
    rw [hnew buf' hbuf'] at ht
    cases ht

/-- Giving a buffer to the client leaves its ties alone. -/
theorem Base.updBuffer (h : Base v) {p : ProcId} {b : BufferId} {f : BufferView → BufferView}
    (htxn : ∀ buf, (f buf).transaction = buf.transaction)
    (hnode : ∀ buf, (f buf).targetNode = buf.targetNode) : Base (v.updBuffer p b f) := by
  refine h.setBuffer ?_ ?_
  · intro t x hx hb hp halive
    subst hp
    obtain ⟨buf', hbuf', ht, hiff⟩ := h.link t x b hx hb halive
    exact ⟨f buf', by simp [hbuf'], by rw [htxn, ht], by rw [hnode]; exact hiff⟩
  · intro buf' t hbuf' ht
    obtain ⟨buf₀, hbuf₀, rfl⟩ := Option.map_eq_some_iff.mp hbuf'
    rw [htxn] at ht
    exact h.back p b buf₀ t hbuf₀ ht

/-! ## Transactions -/

theorem CallId.setTxn {t u : TxnId} {x : Option Txn} (h : v.CallId u)
    (hx : ∀ y, x = some y → u = t → y.needReply = true) : (v.setTxn t x).CallId u := by
  refine ⟨h.1, ?_⟩
  intro y hy
  by_cases hut : u = t
  · subst hut
    exact hx y (by simpa [Calls.setTxn] using hy) rfl
  · exact h.2 y (by simpa [Calls.setTxn, hut] using hy)

/-- A record after a change that keeps what it is and what carries it. -/
structure Kept (v : Calls) (t : TxnId) (x y : Txn) : Prop where
  toProc : y.toProc = x.toProc
  needReply : y.needReply = x.needReply
  fromParent : ∀ u, y.fromParent = some u → v.CallId u
  toParent : ∀ u, y.toParent = some u → v.CallId u
  fromThread : y.needReply = false → y.fromThread = none
  toThread : y.needReply = false → y.toThread = x.toThread
  fromThread_lt : ∀ th, y.fromThread = some th → th < v.nextId
  toThread_lt : ∀ th, y.toThread = some th → th < v.nextId
  toHome : ∀ th p, y.toThread = some th → v.procOf th = some p → p = y.toProc
  oneway : ∀ n, v.loc (.transaction t) = some (.node n) → y.Oneway

theorem Kept.shape {t : TxnId} {x y : Txn} (h : v.Kept t x y) :
    (y.needReply = true ∨ y.toThread = none) ↔ (x.needReply = true ∨ x.toThread = none) := by
  by_cases hy : y.needReply = true
  · simp [hy, h.needReply ▸ hy]
  · rw [Bool.not_eq_true] at hy
    rw [h.toThread hy, h.needReply]

/-- The parts of `Base` that do not speak of buffers, after a change of one
record. -/
theorem Base.replace {t : TxnId} {x y : Txn} {buffers : ProcId → Table BufferView} (h : Base v)
    (hx : v.txns t = some x) (hy : v.Kept t x y)
    (hlink : ∀ u z b, (v.setTxn t (some y)).txns u = some z → z.buffer = some b →
      (v.procs z.toProc).isSome → ∃ buf, buffers z.toProc b = some buf ∧
        buf.transaction = some u ∧
        (buf.targetNode.isSome = true ↔ z.needReply = true ∨ z.toThread = none))
    (hback : ∀ p b buf u, buffers p b = some buf → buf.transaction = some u →
      ∃ z, (v.setTxn t (some y)).txns u = some z ∧ z.toProc = p ∧ z.buffer = some b) :
    Base { v.setTxn t (some y) with buffers := buffers } := by
  have hcall : ∀ u, v.CallId u → (v.setTxn t (some y)).CallId u := by
    intro u hu
    refine hu.setTxn ?_
    rintro z hz rfl
    cases hz
    rw [hy.needReply]
    exact hu.2 x hx
  -- a record of the new state is the changed one or an old one
  have hcase : ∀ u z, (v.setTxn t (some y)).txns u = some z →
      u = t ∧ z = y ∨ u ≠ t ∧ v.txns u = some z := by
    intro u z hz
    by_cases hut : u = t
    · subst hut
      exact .inl ⟨rfl, by simpa [Calls.setTxn] using hz.symm⟩
    · exact .inr ⟨hut, by simpa [Calls.setTxn, hut] using hz⟩
  exact
    { h with
      link := hlink
      back := hback
      txns_lt := by
        intro u z hz
        rcases hcase u z hz with ⟨rfl, rfl⟩ | ⟨-, hz⟩
        · exact h.txns_lt u x hx
        · exact h.txns_lt u z hz
      toProc_lt := by
        intro u z hz
        rcases hcase u z hz with ⟨rfl, rfl⟩ | ⟨-, hz⟩
        · rw [hy.toProc]
          exact h.toProc_lt u x hx
        · exact h.toProc_lt u z hz
      stack := fun th u hu => hcall u (h.stack th u hu)
      fromParent := by
        intro u z w hz hw
        rcases hcase u z hz with ⟨rfl, rfl⟩ | ⟨-, hz⟩
        · exact hcall w (hy.fromParent w hw)
        · exact hcall w (h.fromParent u z w hz hw)
      toParent := by
        intro u z w hz hw
        rcases hcase u z hz with ⟨rfl, rfl⟩ | ⟨-, hz⟩
        · exact hcall w (hy.toParent w hw)
        · exact hcall w (h.toParent u z w hz hw)
      notCall := by
        intro u z hz hneed
        rcases hcase u z hz with ⟨rfl, rfl⟩ | ⟨-, hz⟩
        · exact hy.fromThread hneed
        · exact h.notCall u z hz hneed
      fromThread_lt := by
        intro u z th hz hth
        rcases hcase u z hz with ⟨rfl, rfl⟩ | ⟨-, hz⟩
        · exact hy.fromThread_lt th hth
        · exact h.fromThread_lt u z th hz hth
      toThread_lt := by
        intro u z th hz hth
        rcases hcase u z hz with ⟨rfl, rfl⟩ | ⟨-, hz⟩
        · exact hy.toThread_lt th hth
        · exact h.toThread_lt u z th hz hth
      toHome := by
        intro u z th p hz hth hp
        rcases hcase u z hz with ⟨rfl, rfl⟩ | ⟨-, hz⟩
        · exact hy.toHome th p hth hp
        · exact h.toHome u z th p hz hth hp
      waiting := by
        intro u q hq
        obtain ⟨z, hz, hhome⟩ := h.waiting u q hq
        by_cases hut : u = t
        · subst hut
          rw [hx] at hz
          cases hz
          refine ⟨y, by simp [Calls.setTxn], ?_⟩
          cases q with
          | proc p => exact ⟨hhome.1.trans hy.toProc.symm, hhome.2⟩
          | thread th => exact hhome.trans (by rw [hy.toProc])
          | node n => exact hy.oneway n hq
        · exact ⟨z, by simpa [Calls.setTxn, hut] using hz, hhome⟩ }

/-- A record changes, but not its buffer. -/
theorem Base.setTxn {t : TxnId} {x y : Txn} (h : Base v) (hx : v.txns t = some x)
    (hy : v.Kept t x y) (hb : y.buffer = x.buffer) : Base (v.setTxn t (some y)) := by
  refine h.replace hx hy ?_ ?_
  · intro u z b hz hzb hp
    by_cases hut : u = t
    · subst hut
      have hzy : y = z := by simpa [Calls.setTxn] using hz
      subst hzy
      rw [hy.toProc] at hp ⊢
      obtain ⟨buf, hbuf, ht, hiff⟩ := h.link u x b hx (hb ▸ hzb) hp
      exact ⟨buf, hbuf, ht, hiff.trans hy.shape.symm⟩
    · exact h.link u z b (by simpa [Calls.setTxn, hut] using hz) hzb hp
  · intro p b buf u hbuf hu
    obtain ⟨z, hz, hzp, hzb⟩ := h.back p b buf u hbuf hu
    by_cases hut : u = t
    · subst hut
      rw [hx] at hz
      cases hz
      exact ⟨y, by simp [Calls.setTxn], hy.toProc.trans hzp, hb.trans hzb⟩
    · exact ⟨z, by simpa [Calls.setTxn, hut] using hz, hzp, hzb⟩

theorem updTxn_of_none {t : TxnId} (hx : v.txns t = none) (f : Txn → Txn) :
    v.updTxn t f = v := by
  have hsame : Function.update v.txns t none = v.txns := by
    rw [← hx]
    exact Function.update_eq_self t v.txns
  simp only [Calls.updTxn, Calls.setTxn, hx, Option.map_none, hsame]

theorem updTxn_of_some {t : TxnId} {x : Txn} (hx : v.txns t = some x) (f : Txn → Txn) :
    v.updTxn t f = v.setTxn t (some (f x)) := by
  simp only [Calls.updTxn, hx, Option.map_some]

theorem txns_setTxn (v : Calls) (t u : TxnId) (x : Option Txn) :
    (v.setTxn t x).txns u = if u = t then x else v.txns u := by
  by_cases hut : u = t <;> simp [Calls.setTxn, hut]

theorem Base.updTxn {t : TxnId} {f : Txn → Txn} (h : Base v)
    (hf : ∀ x, v.txns t = some x → v.Kept t x (f x) ∧ (f x).buffer = x.buffer) :
    Base (v.updTxn t f) := by
  cases hx : v.txns t with
  | none =>
      rw [updTxn_of_none hx]
      exact h
  | some x =>
      rw [updTxn_of_some hx]
      exact h.setTxn hx (hf x hx).1 (hf x hx).2

/-- A record stays what it is when only a pointer of it is cleared. -/
theorem Base.kept {t : TxnId} {x y : Txn} (h : Base v) (hx : v.txns t = some x)
    (hproc : y.toProc = x.toProc) (hneed : y.needReply = x.needReply)
    (hfromParent : y.fromParent = x.fromParent) (htoParent : y.toParent = x.toParent)
    (hfrom : y.fromThread = x.fromThread ∨ y.fromThread = none)
    (hto : y.toThread = x.toThread ∨ x.needReply = true ∧ y.toThread = none) :
    v.Kept t x y where
  toProc := hproc
  needReply := hneed
  fromParent u hu := h.fromParent t x u hx (hfromParent ▸ hu)
  toParent u hu := h.toParent t x u hx (htoParent ▸ hu)
  fromThread hn := by
    rcases hfrom with hfrom | hfrom
    · rw [hfrom]
      exact h.notCall t x hx (hneed ▸ hn)
    · exact hfrom
  toThread hn := by
    rcases hto with hto | ⟨hcall, -⟩
    · exact hto
    · rw [hneed, hcall] at hn
      cases hn
  fromThread_lt th hth := by
    rcases hfrom with hfrom | hfrom
    · exact h.fromThread_lt t x th hx (hfrom ▸ hth)
    · rw [hfrom] at hth
      cases hth
  toThread_lt th hth := by
    rcases hto with hto | ⟨-, hto⟩
    · exact h.toThread_lt t x th hx (hto ▸ hth)
    · rw [hto] at hth
      cases hth
  toHome th p hth hp := by
    rw [hproc]
    rcases hto with hto | ⟨-, hto⟩
    · exact h.toHome t x th p hx (hto ▸ hth) hp
    · rw [hto] at hth
      cases hth
  oneway n hn := by
    obtain ⟨z, hz, hone⟩ := h.waiting t _ hn
    rw [hx] at hz
    cases hz
    refine ⟨?_, ?_, hneed.trans hone.needReply⟩
    · exact hfrom.elim (fun he => he.trans hone.fromThread) id
    · exact hto.elim (fun he => he.trans hone.toThread) And.right

/-- A payload goes and its transaction forgets it. -/
theorem Base.unlink {p : ProcId} {b : BufferId} {buf : BufferView} {t : TxnId} (h : Base v)
    (hbuf : v.buffers p b = some buf) (ht : buf.transaction = some t) :
    Base ((v.updTxn t fun x => { x with buffer := none }).setBuffer p b none) := by
  obtain ⟨x, hx, hxp, hxb⟩ := h.back p b buf t hbuf ht
  rw [updTxn_of_some hx]
  change Base { v.setTxn t (some { x with buffer := none }) with
    buffers := (v.setBuffer p b none).buffers }
  refine h.replace hx (h.kept hx rfl rfl rfl rfl (.inl rfl) (.inl rfl)) ?_ ?_
  · intro u z b' hz hzb halive
    rw [txns_setTxn] at hz
    split at hz
    · cases hz
      cases hzb
    · rename_i hut
      obtain ⟨buf', hbuf', hu, hiff⟩ := h.link u z b' hz hzb halive
      refine ⟨buf', ?_, hu, hiff⟩
      rw [buffers_setBuffer, if_neg]
      · exact hbuf'
      · -- the buffer that goes is tied to `t`, not to `u`
        rintro ⟨hzp, rfl⟩
        rw [hzp, hbuf] at hbuf'
        cases hbuf'
        rw [ht] at hu
        exact hut (Option.some.inj hu).symm
  · intro p' b' buf' u hbuf' hu
    rw [buffers_setBuffer] at hbuf'
    split at hbuf'
    · cases hbuf'
    · rename_i hne
      obtain ⟨z, hz, hzp, hzb⟩ := h.back p' b' buf' u hbuf' hu
      refine ⟨z, ?_, hzp, hzb⟩
      rw [txns_setTxn, if_neg]
      · exact hz
      · rintro rfl
        rw [hx] at hz
        cases hz
        rw [hxb] at hzb
        exact hne ⟨hzp.symm.trans hxp, (Option.some.inj hzb).symm⟩

theorem detachBuffer_eq (v : Calls) (p : ProcId) (b : Option BufferId) :
    v.detachBuffer p b = { v with buffers := (v.detachBuffer p b).buffers } := by
  cases b <;> rfl

/-- A detached buffer is no longer tied to the transaction; the others are as
they were. -/
theorem buffers_detachBuffer (v : Calls) (p : ProcId) (b : Option BufferId) (p' : ProcId)
    (b' : BufferId) : (v.detachBuffer p b).buffers p' b' =
      if p' = p ∧ b = some b' then
        (v.buffers p' b').map fun buf => { buf with transaction := none }
      else v.buffers p' b' := by
  cases b with
  | none => simp [detachBuffer]
  | some b =>
      simp only [detachBuffer, Calls.updBuffer, buffers_setBuffer, Option.some.injEq]
      by_cases hp : p' = p
      · by_cases hb : b' = b
        · subst hp hb
          simp
        · simp [hb, Ne.symm hb]
      · simp [hp]

/-- A record that waits nowhere is released. -/
theorem Base.forget {t : TxnId} {x : Txn} (h : Base v) (hx : v.txns t = some x)
    (hloc : v.loc (.transaction t) = none) :
    Base ((v.detachBuffer x.toProc x.buffer).setTxn t none) := by
  rw [detachBuffer_eq]
  have hcall : ∀ u, v.CallId u → (v.setTxn t none).CallId u := fun u hu =>
    hu.setTxn (by simp)
  have hold : ∀ u z, (v.setTxn t none).txns u = some z → u ≠ t ∧ v.txns u = some z := by
    intro u z hz
    rw [txns_setTxn] at hz
    split at hz
    · cases hz
    · exact ⟨by assumption, hz⟩
  exact
    { h with
      txns_lt := fun u z hz => h.txns_lt u z (hold u z hz).2
      toProc_lt := fun u z hz => h.toProc_lt u z (hold u z hz).2
      stack := fun th u hu => hcall u (h.stack th u hu)
      fromParent := fun u z w hz hw => hcall w (h.fromParent u z w (hold u z hz).2 hw)
      toParent := fun u z w hz hw => hcall w (h.toParent u z w (hold u z hz).2 hw)
      notCall := fun u z hz => h.notCall u z (hold u z hz).2
      fromThread_lt := fun u z th hz => h.fromThread_lt u z th (hold u z hz).2
      toThread_lt := fun u z th hz => h.toThread_lt u z th (hold u z hz).2
      toHome := fun u z th p hz => h.toHome u z th p (hold u z hz).2
      link := by
        intro u z b hz hzb halive
        obtain ⟨hut, hz⟩ := hold u z hz
        obtain ⟨buf, hbuf, hu, hiff⟩ := h.link u z b hz hzb halive
        refine ⟨buf, ?_, hu, hiff⟩
        change (v.detachBuffer x.toProc x.buffer).buffers z.toProc b = some buf
        rw [buffers_detachBuffer, if_neg]
        · exact hbuf
        · -- one buffer is not tied to two transactions
          rintro ⟨hp, hb⟩
          obtain ⟨buf', hbuf', ht, -⟩ := h.link t x b hx hb (hp ▸ halive)
          rw [← hp, hbuf] at hbuf'
          cases hbuf'
          rw [hu] at ht
          exact hut (Option.some.inj ht)
      back := by
        intro p b buf u hbuf hu
        change (v.detachBuffer x.toProc x.buffer).buffers p b = some buf at hbuf
        rw [buffers_detachBuffer] at hbuf
        split at hbuf
        · obtain ⟨buf', -, rfl⟩ := Option.map_eq_some_iff.mp hbuf
          cases hu
        · rename_i hne
          obtain ⟨z, hz, hzp, hzb⟩ := h.back p b buf u hbuf hu
          refine ⟨z, ?_, hzp, hzb⟩
          change (v.setTxn t none).txns u = some z
          rw [txns_setTxn, if_neg]
          · exact hz
          · rintro rfl
            rw [hx] at hz
            cases hz
            exact hne ⟨hzp.symm, hzb⟩
      waiting := by
        intro u q hq
        obtain ⟨z, hz, hhome⟩ := h.waiting u q hq
        have hut : u ≠ t := by
          rintro rfl
          rw [show v.loc (.transaction u) = some q from hq] at hloc
          cases hloc
        refine ⟨z, ?_, hhome⟩
        change (v.setTxn t none).txns u = some z
        rw [txns_setTxn, if_neg hut]
        exact hz }

/-- A pop changes nothing but the stack. -/
theorem popFrom_eq (v : Calls) (th : Option ThreadId) (t : TxnId) (parent : Option TxnId) :
    v.popFrom th t parent = { v with threads := (v.popFrom th t parent).threads } := by
  cases th with
  | none => rfl
  | some th =>
      unfold Calls.popFrom
      simp only
      split <;> rfl

theorem popFrom_txns (v : Calls) (th : Option ThreadId) (t : TxnId) (parent : Option TxnId) :
    (v.popFrom th t parent).txns = v.txns := by
  rw [popFrom_eq]

theorem popFrom_loc (v : Calls) (th : Option ThreadId) (t : TxnId) (parent : Option TxnId) :
    (v.popFrom th t parent).loc = v.loc := by
  rw [popFrom_eq]

theorem CallId.popFrom {u : TxnId} (h : v.CallId u) (th : Option ThreadId) (t : TxnId)
    (parent : Option TxnId) : (v.popFrom th t parent).CallId u := by
  rw [popFrom_eq]
  exact h

theorem Base.freeTransaction (h : Base v) (t : TxnId) : Base (v.freeTransaction t) := by
  unfold Calls.freeTransaction
  split
  · exact h
  · rename_i x hx
    have h₁ := h.dequeue (.transaction t)
    have h₂ := h₁.popFrom x.fromThread t (h₁.fromParent t x · hx)
    have h₃ := h₂.popFrom x.toThread t fun u hu =>
      (h₁.toParent t x u hx hu).popFrom x.fromThread t x.fromParent
    refine h₃.forget ?_ ?_
    · rw [popFrom_txns, popFrom_txns]
      exact hx
    · rw [popFrom_loc, popFrom_loc]
      simp [Calls.dequeue]

theorem freeTransaction_of_some {t : TxnId} {x : Txn} (hx : v.txns t = some x) :
    v.freeTransaction t =
      ((((v.dequeue (.transaction t)).popFrom x.fromThread t x.fromParent).popFrom
        x.toThread t x.toParent).detachBuffer x.toProc x.buffer).setTxn t none := by
  simp only [Calls.freeTransaction, hx]

/-- What releasing a record leaves alone. -/
theorem freeTransaction_eq (v : Calls) (t : TxnId) :
    v.freeTransaction t =
      { v with
        threads := (v.freeTransaction t).threads
        buffers := (v.freeTransaction t).buffers
        txns := (v.freeTransaction t).txns
        loc := (v.freeTransaction t).loc } := by
  cases hx : v.txns t with
  | none => simp only [Calls.freeTransaction, hx]
  | some x =>
      rw [freeTransaction_of_some hx, detachBuffer_eq, popFrom_eq, popFrom_eq]
      rfl

theorem buffers_freeTransaction {t : TxnId} {x : Txn} (hx : v.txns t = some x) :
    (v.freeTransaction t).buffers = (v.detachBuffer x.toProc x.buffer).buffers := by
  rw [freeTransaction_of_some hx]
  funext p b
  change (Calls.detachBuffer _ x.toProc x.buffer).buffers p b = _
  rw [buffers_detachBuffer, buffers_detachBuffer, popFrom_eq, popFrom_eq]
  rfl

theorem popFrom_setBuffer (v : Calls) (th : Option ThreadId) (t : TxnId) (parent : Option TxnId)
    (p : ProcId) (b : BufferId) (buf : Option BufferView) :
    (v.setBuffer p b buf).popFrom th t parent = (v.popFrom th t parent).setBuffer p b buf := by
  cases th with
  | none => rfl
  | some th =>
      unfold Calls.popFrom
      simp only
      by_cases hst : v.stackOf th = some t
      · have hst' : (v.setBuffer p b buf).stackOf th = some t := hst
        rw [if_pos hst, if_pos hst']
        rfl
      · have hst' : ¬ (v.setBuffer p b buf).stackOf th = some t := hst
        rw [if_neg hst, if_neg hst']

/-- Releasing the payload first or last makes no difference. -/
theorem dropTransaction_eq {p : ProcId} {t : TxnId} {x : Txn} (hx : v.txns t = some x) :
    v.dropTransaction p t = (v.freeTransaction t).freePayload p x.buffer := by
  simp only [dropTransaction, hx, Option.bind_some]
  cases hb : x.buffer with
  | none => rfl
  | some b =>
      have hx' : (v.setBuffer p b none).txns t = some x := hx
      simp only [freePayload, freeTransaction_of_some hx, freeTransaction_of_some hx', hb]
      change ((((v.dequeue (.transaction t)).setBuffer p b none |>.popFrom _ _ _).popFrom
        _ _ _).detachBuffer x.toProc (some b)).setTxn t none = _
      rw [popFrom_setBuffer, popFrom_setBuffer]
      generalize ((v.dequeue (.transaction t)).popFrom x.fromThread t x.fromParent).popFrom
        x.toThread t x.toParent = w
      have hbuf : ((w.setBuffer p b none).detachBuffer x.toProc (some b)).buffers =
          ((w.detachBuffer x.toProc (some b)).setBuffer p b none).buffers := by
        funext p' b'
        rw [buffers_detachBuffer, buffers_setBuffer, buffers_setBuffer, buffers_detachBuffer]
        by_cases hpb : p' = p ∧ b' = b
        · simp [hpb]
        · simp [hpb]
      rw [detachBuffer_eq, hbuf]
      rfl

/-- A transaction that is dropped goes with its buffer. -/
theorem Base.dropTransaction {p : ProcId} {t : TxnId} (h : Base v)
    (hp : ∀ x, v.txns t = some x → x.toProc = p) : Base (v.dropTransaction p t) := by
  cases hx : v.txns t with
  | none =>
      simp only [Calls.dropTransaction, hx, Option.bind_none, freePayload]
      exact h.freeTransaction t
  | some x =>
      rw [dropTransaction_eq hx]
      have hfree := h.freeTransaction t
      cases hb : x.buffer with
      | none => exact hfree
      | some b =>
          refine hfree.setUnlinked ?_ (by simp)
          intro buf hbuf
          rw [buffers_freeTransaction hx, buffers_detachBuffer, hp x hx, hb, if_pos ⟨rfl, rfl⟩]
            at hbuf
          obtain ⟨buf', -, rfl⟩ := Option.map_eq_some_iff.mp hbuf
          rfl

theorem Blank.transaction {p : ProcId} {b : BufferId} (h : v.Blank p b) :
    ∀ buf, v.buffers p b = some buf → buf.transaction = none := by
  obtain ⟨load, hload⟩ := h
  intro buf hbuf
  rw [hload] at hbuf
  cases hbuf
  rfl

/-- **A quiet move keeps everything.** -/
theorem Base.quietMove (h : Base v) (hmove : QuietMove v v') : Base v' := by
  cases hmove with
  | bump => exact h.bump
  | own p => exact h.bump.setOwner _ _
  | disown n => exact h.setOwner _ _
  | alloc p b load hnone => exact h.setUnlinked (by simp [hnone]) (by simp)
  | fill p b load hblank => exact h.setUnlinked hblank.transaction (by simp)
  | free p b hblank => exact h.setUnlinked hblank.transaction (by simp)
  | complete th cmd c => exact h.note trivial
  | drop n t x hx ho hloc =>
      refine (h.freeTransaction t).note ?_
      rw [freeTransaction_eq]
      exact h.txns_lt t x hx

theorem Base.quiet (h : Base v) (hquiet : Quiet v v') : Base v' :=
  hquiet.invariant (fun _ _ => Base.quietMove) h

/-! ## Sends -/

theorem QuietMove.threads (h : QuietMove v v') : v'.threads = v.threads := by
  cases h with
  | drop n t x hx ho hloc =>
      rw [freeTransaction_oneway hx ho, detachBuffer_eq]
      rfl
  | _ => rfl

theorem QuietMove.procs (h : QuietMove v v') : v'.procs = v.procs := by
  cases h with
  | drop n t x hx ho hloc =>
      rw [freeTransaction_oneway hx ho, detachBuffer_eq]
      rfl
  | _ => rfl

theorem QuietMove.nextId_le (h : QuietMove v v') : v.nextId ≤ v'.nextId := by
  cases h with
  | bump => exact Nat.le_succ _
  | own p => exact Nat.le_succ _
  | drop n t x hx ho hloc =>
      rw [freeTransaction_oneway hx ho, detachBuffer_eq]
      exact Nat.le_refl _
  | _ => exact Nat.le_refl _

theorem Quiet.threads (h : Quiet v v') : v'.threads = v.threads :=
  h.invariant (P := fun w => w.threads = v.threads) (fun _ _ hw hm => hm.threads.trans hw) rfl

theorem Quiet.procs (h : Quiet v v') : v'.procs = v.procs :=
  h.invariant (P := fun w => w.procs = v.procs) (fun _ _ hw hm => hm.procs.trans hw) rfl

theorem Quiet.nextId_le (h : Quiet v v') : v.nextId ≤ v'.nextId :=
  h.invariant (P := fun w => v.nextId ≤ w.nextId)
    (fun _ _ hw hm => Nat.le_trans hw hm.nextId_le) (Nat.le_refl _)

theorem Quiet.procOf (h : Quiet v v') : v'.procOf = v.procOf := by
  funext th
  simp only [Calls.procOf, h.threads]

theorem Quiet.stackOf (h : Quiet v v') : v'.stackOf = v.stackOf := by
  funext th
  simp only [Calls.stackOf, h.threads]

theorem Quiet.live (h : Quiet v v') : v'.live = v.live := by
  funext th
  simp only [Calls.live, h.threads]

/-- Only a oneway transaction behind a node is dropped. -/
theorem QuietMove.keeps (h : QuietMove v v') {t : TxnId}
    (hkeep : ∀ x n, v.txns t = some x → x.Oneway → v.loc (.transaction t) ≠ some (.node n)) :
    v'.txns t = v.txns t ∧ v'.loc (.transaction t) = v.loc (.transaction t) := by
  cases h with
  | drop n u x hx ho hloc =>
      have hut : t ≠ u := fun he => hkeep x n (he ▸ hx) ho (he ▸ hloc)
      rw [freeTransaction_oneway hx ho, detachBuffer_eq]
      constructor
      · exact (txns_setTxn _ u t none).trans (if_neg hut)
      · simp [Calls.note, Calls.setTxn, Calls.dequeue, hut]
  | _ => exact ⟨rfl, rfl⟩

theorem Quiet.keeps (h : Quiet v v') {t : TxnId}
    (hkeep : ∀ x n, v.txns t = some x → x.Oneway → v.loc (.transaction t) ≠ some (.node n)) :
    v'.txns t = v.txns t ∧ v'.loc (.transaction t) = v.loc (.transaction t) := by
  refine h.invariant (P := fun w => w.txns t = v.txns t ∧
    w.loc (.transaction t) = v.loc (.transaction t)) ?_ ⟨rfl, rfl⟩
  rintro w w' ⟨htxn, hloc⟩ hmove
  obtain ⟨htxn', hloc'⟩ := hmove.keeps (t := t) (by rw [htxn, hloc]; exact hkeep)
  exact ⟨htxn'.trans htxn, hloc'.trans hloc⟩

/-- A call is never dropped quietly. -/
theorem Quiet.keeps_call (h : Quiet v v') {t : TxnId} {x : Txn} (hx : v.txns t = some x)
    (hcall : x.needReply = true) :
    v'.txns t = some x ∧ v'.loc (.transaction t) = v.loc (.transaction t) := by
  rw [← hx]
  refine h.keeps ?_
  intro y n hy ho
  rw [hx] at hy
  cases hy
  rw [ho.needReply] at hcall
  cases hcall

/-- Neither is what waits nowhere. -/
theorem Quiet.keeps_unqueued (h : Quiet v v') {t : TxnId}
    (hloc : v.loc (.transaction t) = none) :
    v'.txns t = v.txns t ∧ v'.loc (.transaction t) = none := by
  obtain ⟨htxn, hloc'⟩ := h.keeps (t := t) (by simp [hloc])
  exact ⟨htxn, hloc'.trans hloc⟩

/-- The record of a transaction about to be placed. -/
structure Placeable (v : Calls) (x : Txn) (b : BufferId) (node : Option NodeId) : Prop where
  buffer : x.buffer = some b
  blank : v.Blank x.toProc b
  toProc_lt : x.toProc < v.nextId
  fromParent : ∀ u, x.fromParent = some u → v.CallId u
  toParent : ∀ u, x.toParent = some u → v.CallId u
  notCall : x.needReply = false → x.fromThread = none
  fromThread_lt : ∀ th, x.fromThread = some th → th < v.nextId
  toThread_lt : ∀ th, x.toThread = some th → th < v.nextId
  toHome : ∀ th p, x.toThread = some th → v.procOf th = some p → p = x.toProc
  shape : node.isSome = true ↔ x.needReply = true ∨ x.toThread = none

/-- A record is the fresh one or was there before. -/
theorem place_cases {x z : Txn} {b : BufferId} {node : Option NodeId} {u : TxnId}
    (hz : (v.bump.bump.place v.nextId x b node).txns u = some z) :
    u = v.nextId ∧ z = x ∨ v.txns u = some z := by
  change (v.bump.bump.setTxn v.nextId (some x)).txns u = some z at hz
  rw [txns_setTxn] at hz
  split at hz
  · exact .inl ⟨by assumption, (Option.some.inj hz).symm⟩
  · exact .inr hz

/-- The records there were stay. -/
theorem Base.place_old (h : Base v) {x z : Txn} {u : TxnId} (hz : v.txns u = some z) :
    (v.bump.bump.setTxn v.nextId (some x)).txns u = some z := by
  rw [txns_setTxn, if_neg (Nat.ne_of_lt (h.txns_lt u z hz))]
  exact hz

/-- The blank buffer is tied to the fresh record. -/
theorem buffers_place {x : Txn} {b : BufferId} {node : Option NodeId} {load : Load}
    (hload : v.buffers x.toProc b = some { load := load }) (p : ProcId) (b' : BufferId) :
    (v.bump.bump.place v.nextId x b node).buffers p b' =
      if p = x.toProc ∧ b' = b then
        some { load := load, transaction := some v.nextId, targetNode := node }
      else v.buffers p b' := by
  unfold Calls.place Calls.updBuffer
  rw [buffers_setBuffer]
  change (if _ then (v.buffers x.toProc b).map _ else v.buffers p b') = _
  rw [hload]
  rfl

/-- A fresh record takes its place. -/
theorem Base.place {x : Txn} {b : BufferId} {node : Option NodeId} (h : Base v)
    (hx : v.Placeable x b node) : Base (v.bump.bump.place v.nextId x b node) := by
  have hbump := h.bump.bump
  have hlt : v.nextId < v.bump.bump.nextId := Nat.lt_succ_of_lt (Nat.lt_succ_self _)
  have hcall : ∀ u, v.CallId u → (v.bump.bump.setTxn v.nextId (some x)).CallId u := by
    intro u hu
    refine hu.bump.bump.setTxn ?_
    rintro y - rfl
    exact absurd hu.1 (Nat.lt_irrefl _)
  obtain ⟨load, hload⟩ := hx.blank
  exact
    { hbump with
      txns_lt := by
        intro u z hz
        rcases place_cases hz with ⟨rfl, -⟩ | hz
        · exact hlt
        · exact hbump.txns_lt u z hz
      toProc_lt := by
        intro u z hz
        rcases place_cases hz with ⟨-, rfl⟩ | hz
        · exact Nat.lt_succ_of_lt (Nat.lt_succ_of_lt hx.toProc_lt)
        · exact hbump.toProc_lt u z hz
      stack := fun th u hu => hcall u (h.stack th u hu)
      fromParent := by
        intro u z w hz hw
        rcases place_cases hz with ⟨-, rfl⟩ | hz
        · exact hcall w (hx.fromParent w hw)
        · exact hcall w (h.fromParent u z w hz hw)
      toParent := by
        intro u z w hz hw
        rcases place_cases hz with ⟨-, rfl⟩ | hz
        · exact hcall w (hx.toParent w hw)
        · exact hcall w (h.toParent u z w hz hw)
      notCall := by
        intro u z hz
        rcases place_cases hz with ⟨-, rfl⟩ | hz
        · exact hx.notCall
        · exact h.notCall u z hz
      fromThread_lt := by
        intro u z th hz hth
        rcases place_cases hz with ⟨-, rfl⟩ | hz
        · exact Nat.lt_succ_of_lt (Nat.lt_succ_of_lt (hx.fromThread_lt th hth))
        · exact hbump.fromThread_lt u z th hz hth
      toThread_lt := by
        intro u z th hz hth
        rcases place_cases hz with ⟨-, rfl⟩ | hz
        · exact Nat.lt_succ_of_lt (Nat.lt_succ_of_lt (hx.toThread_lt th hth))
        · exact hbump.toThread_lt u z th hz hth
      toHome := by
        intro u z th p hz
        rcases place_cases hz with ⟨-, rfl⟩ | hz
        · exact hx.toHome th p
        · exact h.toHome u z th p hz
      link := by
        intro u z b' hz hzb halive
        rw [buffers_place hload]
        rcases place_cases hz with ⟨rfl, rfl⟩ | hz
        · rw [hx.buffer] at hzb
          cases hzb
          rw [if_pos ⟨rfl, rfl⟩]
          exact ⟨_, rfl, rfl, hx.shape⟩
        · obtain ⟨buf, hbuf', hu, hiff⟩ := h.link u z b' hz hzb halive
          rw [if_neg]
          · exact ⟨buf, hbuf', hu, hiff⟩
          · -- the blank buffer is tied to nobody
            rintro ⟨hp, rfl⟩
            rw [hp, hload] at hbuf'
            cases hbuf'
            cases hu
      back := by
        intro p b' buf u hbuf' hu
        rw [buffers_place hload] at hbuf'
        split at hbuf'
        · rename_i heq
          cases hbuf'
          cases hu
          exact ⟨x, by rw [Calls.place]; exact (txns_setTxn _ _ _ _).trans (if_pos rfl),
            heq.1.symm, by rw [heq.2]; exact hx.buffer⟩
        · obtain ⟨z, hz, hzp, hzb⟩ := h.back p b' buf u hbuf' hu
          exact ⟨z, h.place_old hz, hzp, hzb⟩
      waiting := by
        intro u q hq
        obtain ⟨z, hz, hhome⟩ := h.waiting u q hq
        exact ⟨z, h.place_old hz, hhome⟩ }

theorem txns_freeTransaction (v : Calls) (t u : TxnId) :
    (v.freeTransaction t).txns u = if u = t then none else v.txns u := by
  cases hx : v.txns t with
  | none =>
      simp only [Calls.freeTransaction, hx]
      split
      · rename_i hut
        rw [hut, hx]
      · rfl
  | some x =>
      rw [freeTransaction_of_some hx, txns_setTxn, detachBuffer_eq]
      simp only [popFrom_txns]
      rfl

theorem loc_freeTransaction {t : TxnId} {x : Txn} (hx : v.txns t = some x) :
    (v.freeTransaction t).loc = (v.dequeue (.transaction t)).loc := by
  rw [freeTransaction_of_some hx, detachBuffer_eq]
  change Calls.loc (Calls.popFrom _ _ _ _) = _
  simp only [popFrom_loc]

@[simp] theorem procOf_popFrom (v : Calls) (th : Option ThreadId) (t : TxnId)
    (parent : Option TxnId) : (v.popFrom th t parent).procOf = v.procOf := by
  cases th with
  | none => rfl
  | some th =>
      unfold Calls.popFrom
      simp only
      split
      · exact procOf_setStack v th parent
      · rfl

@[simp] theorem procOf_freeTransaction (v : Calls) (t : TxnId) :
    (v.freeTransaction t).procOf = v.procOf := by
  cases hx : v.txns t with
  | none => simp only [Calls.freeTransaction, hx]
  | some x =>
      rw [freeTransaction_of_some hx, detachBuffer_eq]
      change Calls.procOf (Calls.popFrom _ _ _ _) = _
      rw [procOf_popFrom, procOf_popFrom]
      rfl

end Calls

end Binder
