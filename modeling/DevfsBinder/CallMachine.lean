import DevfsBinder.DriverState
import Mathlib.Logic.Relation

/-!
# The call machine

What transactions are made of, with everything else forgotten: which processes
and threads there are, each thread's stack and pending error, the transactions,
where each waits, which buffer carries it, and what has happened so far.  No
bytes, no objects, no order of waiting: a step takes any item that waits where
the thread may look.

The driver is one way of running this machine; what is proved of every run of
the machine holds of the driver.
-/

/-- `R` once for each element of a list, from one state to the next. -/
inductive Each {σ α : Type} (R : σ → α → σ → Prop) : σ → List α → σ → Prop
  | nil (v : σ) : Each R v [] v
  | cons {v v₁ v' : σ} {a : α} {as : List α} (h₁ : R v a v₁) (h : Each R v₁ as v') :
      Each R v (a :: as) v'

/-- What one turn hands on to the rest of the list. -/
theorem Each.invariant {σ α : Type} {R : σ → α → σ → Prop} {I : List α → σ → Prop}
    (hstep : ∀ a as v v', I (a :: as) v → R v a v' → I as v') {v v' : σ} {as : List α}
    (h : Each R v as v') (hv : I as v) : I [] v' := by
  induction h with
  | nil v => exact hv
  | cons h₁ _ ih => exact ih (hstep _ _ _ _ hv h₁)

namespace Binder

/-- What a call can see of a thread. -/
structure ThreadView where
  proc : ProcId
  isDead : Bool
  stack : Option TxnId
  error : BR
  deriving DecidableEq

/-- Where a buffer is, at a distance from the base of its arena, and the payload
it carries. -/
structure Load where
  base : Nat := 0
  offset : Nat := 0
  size : Nat := 0
  dataSize : Nat := 0
  offsetsSize : Nat := 0
  extraBuffersSize : Nat := 0
  kdata : Option LittleEndian.Bytes := none
  deriving DecidableEq

/-- The address a client knows a buffer by. -/
def Load.address (load : Load) : Nat := load.base + load.offset

/-- What a call can see of a buffer in use. -/
structure BufferView where
  load : Load := {}
  transaction : Option TxnId := none
  targetNode : Option NodeId := none
  allowUserFree : Bool := false
  deriving DecidableEq

/-- Transactions and errors, as opposed to completions and news about
objects. -/
def Work.isCall : Work → Bool
  | .transaction _ | .returnError _ => true
  | _ => false

/-- A transaction nobody is waiting for and no thread is meant for. -/
structure Txn.Oneway (x : Txn) : Prop where
  fromThread : x.fromThread = none
  toThread : x.toThread = none
  needReply : x.needReply = false

/-- `procs p` says whether the open process `p` is going away, and `owner n` is
the process that implements node `n`. -/
structure Calls where
  procs : Table Bool
  owner : NodeId → Option ProcId
  threads : Table ThreadView
  buffers : ProcId → Table BufferView
  txns : Table Txn
  loc : Work → Option Queue
  trace : List Event
  nextId : Nat

namespace Calls

variable (v : Calls)

/-! ## Elementary changes -/

def bump : Calls := { v with nextId := v.nextId + 1 }

def setProc (p : ProcId) (proc : Option Bool) : Calls :=
  { v with procs := Function.update v.procs p proc }

def setOwner (n : NodeId) (p : Option ProcId) : Calls :=
  { v with owner := Function.update v.owner n p }

def setThread (th : ThreadId) (thread : Option ThreadView) : Calls :=
  { v with threads := Function.update v.threads th thread }

def updThread (th : ThreadId) (f : ThreadView → ThreadView) : Calls :=
  v.setThread th ((v.threads th).map f)

def setStack (th : ThreadId) (top : Option TxnId) : Calls :=
  v.updThread th fun thread => { thread with stack := top }

def setError (th : ThreadId) (br : BR) : Calls :=
  v.updThread th fun thread => { thread with error := br }

/-- The thread is on its way out. -/
def setDead (th : ThreadId) : Calls :=
  v.updThread th fun thread => { thread with isDead := true }

def setTxn (t : TxnId) (x : Option Txn) : Calls :=
  { v with txns := Function.update v.txns t x }

def updTxn (t : TxnId) (f : Txn → Txn) : Calls :=
  v.setTxn t ((v.txns t).map f)

def setBuffer (p : ProcId) (b : BufferId) (buf : Option BufferView) : Calls :=
  { v with buffers := Function.update v.buffers p (Function.update (v.buffers p) b buf) }

def updBuffer (p : ProcId) (b : BufferId) (f : BufferView → BufferView) : Calls :=
  v.setBuffer p b ((v.buffers p b).map f)

def note (e : Event) : Calls := { v with trace := e :: v.trace }

def dequeue (w : Work) : Calls := { v with loc := Function.update v.loc w none }

/-- Link an item, unless it is already waiting somewhere. -/
def enqueue (w : Work) (q : Queue) : Calls :=
  if (v.loc w).isSome then v else { v with loc := Function.update v.loc w (some q) }

/-! ## Stacks -/

/-- The process of a thread. -/
def procOf (th : ThreadId) : Option ProcId := (v.threads th).map (·.proc)

/-- The top of a thread's stack. -/
def stackOf (th : ThreadId) : Option TxnId := (v.threads th).bind (·.stack)

/-- Pop `t` off a thread's stack if it is on top. -/
def popFrom (th : Option ThreadId) (t : TxnId) (parent : Option TxnId) : Calls :=
  match th with
  | some th => if v.stackOf th = some t then v.setStack th parent else v
  | none => v

/-- The buffer of a transaction forgets it. -/
def detachBuffer (p : ProcId) (b : Option BufferId) : Calls :=
  match b with
  | some b => v.updBuffer p b fun buf => { buf with transaction := none }
  | none => v

def freeTransaction (t : TxnId) : Calls :=
  match v.txns t with
  | none => v
  | some x =>
      let v := v.dequeue (.transaction t)
      let v := v.popFrom x.fromThread t x.fromParent
      let v := v.popFrom x.toThread t x.toParent
      (v.detachBuffer x.toProc x.buffer).setTxn t none

/-- A thread that exists and is not on its way out. -/
def live (th : ThreadId) : Bool :=
  match v.threads th with
  | some thread => !thread.isDead
  | none => false

/-! ## Errors -/

/-- Fill a thread's error slot and queue it. -/
def queueError (th : ThreadId) (br : BR) : Calls :=
  (v.setError th br).enqueue (.returnError th) (.thread th)

/-- An error answering a send of the thread's own. -/
def refuse (th : ThreadId) (br : BR) : Calls := (v.queueError th br).note (.refuse th)

/-- An error answering call `t` of the thread, if that is still there to hear
it. -/
def answer (sender : Option ThreadId) (t : TxnId) (br : BR) : Calls :=
  match sender with
  | some th => if v.live th then (v.queueError th br).note (.fail th t) else v
  | none => v

/-- The same, with a note when nobody hears. -/
def failUndelivered (t : TxnId) (br : BR) : Calls :=
  match (v.txns t).bind (·.fromThread) with
  | some th => if v.live th then v.answer (some th) t br else v.note (.discard t)
  | none => v.note (.discard t)

/-! ## Payloads -/

/-- The payload of a transaction is released. -/
def freePayload (p : ProcId) (b : Option BufferId) : Calls :=
  match b with
  | some b => v.setBuffer p b none
  | none => v

/-- An undelivered transaction is released together with its payload. -/
def dropTransaction (p : ProcId) (t : TxnId) : Calls :=
  (v.freePayload p ((v.txns t).bind (·.buffer))).freeTransaction t

/-- A buffer that is tied to nothing and has been given to nobody. -/
def Blank (p : ProcId) (b : BufferId) : Prop :=
  ∃ load, v.buffers p b = some { load := load }

/-! ## What happens without any call noticing -/

/-- Addresses are used up, nodes and payload memory come and go, completions
are reported, and oneway transactions behind a released node are dropped. -/
inductive QuietMove (v : Calls) : Calls → Prop
  | bump : QuietMove v v.bump
  | own (p : ProcId) : QuietMove v (v.bump.setOwner v.nextId (some p))
  | disown (n : NodeId) : QuietMove v (v.setOwner n none)
  | alloc (p : ProcId) (b : BufferId) (load : Load) (h : v.buffers p b = none) :
      QuietMove v (v.setBuffer p b (some { load := load }))
  | fill (p : ProcId) (b : BufferId) (load : Load) (h : v.Blank p b) :
      QuietMove v (v.setBuffer p b (some { load := load }))
  | free (p : ProcId) (b : BufferId) (h : v.Blank p b) : QuietMove v (v.setBuffer p b none)
  | complete (th : ThreadId) (cmd : BR) (c : Nat) :
      QuietMove v (v.note (.emit th cmd (.complete c)))
  | drop (n : NodeId) (t : TxnId) (x : Txn) (hx : v.txns t = some x) (ho : x.Oneway)
      (hloc : v.loc (.transaction t) = some (.node n)) :
      QuietMove v ((v.freeTransaction t).note (.discard t))

def Quiet : Calls → Calls → Prop := Relation.ReflTransGen QuietMove

variable {v} {v' v'' : Calls}

theorem Quiet.refl (v : Calls) : Quiet v v := Relation.ReflTransGen.refl

theorem Quiet.trans (h : Quiet v v') (h' : Quiet v' v'') : Quiet v v'' :=
  Relation.ReflTransGen.trans h h'

theorem QuietMove.quiet (h : QuietMove v v') : Quiet v v' := Relation.ReflTransGen.single h

/-- What every quiet move keeps, a quiet stretch keeps. -/
theorem Quiet.invariant {P : Calls → Prop} (hstep : ∀ v v', P v → QuietMove v v' → P v')
    (h : Quiet v v') (hv : P v) : P v' := by
  induction h with
  | refl => exact hv
  | tail _ hmove ih => exact hstep _ _ ih hmove

/-- A oneway transaction is on nobody's stack. -/
theorem freeTransaction_oneway {t : TxnId} {x : Txn} (hx : v.txns t = some x) (ho : x.Oneway) :
    v.freeTransaction t =
      ((v.dequeue (.transaction t)).detachBuffer x.toProc x.buffer).setTxn t none := by
  simp only [freeTransaction, hx, ho.fromThread, ho.toThread, popFrom]

/-- Nothing quiet looks at a stack. -/
theorem QuietMove.setStack (h : QuietMove v v') (th : ThreadId) (top : Option TxnId) :
    QuietMove (v.setStack th top) (v'.setStack th top) := by
  cases h with
  | bump => exact .bump
  | own p => exact .own p
  | disown n => exact .disown n
  | alloc p b load h => exact .alloc p b load h
  | fill p b load h => exact .fill p b load h
  | free p b h => exact .free p b h
  | complete th' cmd c => exact .complete th' cmd c
  | drop n t x hx ho hloc =>
      have hmove : QuietMove (v.setStack th top)
          (((v.setStack th top).freeTransaction t).note (.discard t)) := .drop n t x hx ho hloc
      rw [freeTransaction_oneway (v := v.setStack th top) hx ho] at hmove
      rw [freeTransaction_oneway hx ho]
      cases hb : x.buffer with
      | none =>
          simp only [detachBuffer, hb] at hmove ⊢
          exact hmove
      | some b =>
          simp only [detachBuffer, hb] at hmove ⊢
          exact hmove

theorem Quiet.setStack (h : Quiet v v') (th : ThreadId) (top : Option TxnId) :
    Quiet (v.setStack th top) (v'.setStack th top) := by
  induction h with
  | refl => exact .refl _
  | tail _ hmove ih => exact ih.trans (hmove.setStack th top).quiet

/-! ## Sends -/

section Sends

variable (v : Calls)

/-- A new record, tied to the buffer that carries it. -/
def place (t : TxnId) (x : Txn) (b : BufferId) (node : Option NodeId) : Calls :=
  (v.setTxn t (some x)).updBuffer x.toProc b fun buf =>
    { buf with transaction := some t, targetNode := node }

/-- A call is accepted: it goes on its sender's stack and waits on `q`. -/
def acceptCall (th : ThreadId) (x : Txn) (b : BufferId) (n : NodeId) (q : Queue) : Calls :=
  let t := v.nextId
  let v := (v.bump.bump.place t x b (some n)).setStack th (some t)
  (v.enqueue (.transaction t) q).note (.accept th t x.toProc true)

/-- A oneway transaction is accepted. -/
def acceptOneway (th : ThreadId) (x : Txn) (b : BufferId) (n : NodeId) (q : Queue) : Calls :=
  let t := v.nextId
  let v := v.bump.bump.place t x b (some n)
  (v.enqueue (.transaction t) q).note (.accept th t x.toProc false)

/-- A reply to `call` is accepted: the call leaves the stack of the thread that
answers it and is released, and the reply waits for the thread that sent it. -/
def acceptReply (th target : ThreadId) (call : TxnId) (x : Txn) (b : BufferId) : Calls :=
  let r := v.nextId
  let v := v.setStack th ((v.txns call).bind (·.toParent))
  let v := v.bump.bump.place r x b none
  let v := (v.freeTransaction call).note (.reply th call r)
  (v.enqueue (.transaction r) (.thread target)).note (.accept th r x.toProc false)

/-- Something of process `p` is about node `n`: a buffer aimed at it, or a
transaction that waits behind it. -/
def AimedAt (n : NodeId) (p : ProcId) : Prop :=
  (∃ b buf, v.buffers p b = some buf ∧ buf.targetNode = some n) ∨
    ∃ t x, v.loc (.transaction t) = some (.node n) ∧ v.txns t = some x ∧ x.toProc = p

/-- Node `n` is or was implemented by `p`. -/
structure Owned (n : NodeId) (p : ProcId) : Prop where
  lt : n < v.nextId
  owner : v.owner n = some p ∨ v.owner n = none
  only : ∀ p', v.AimedAt n p' → p' = p

/-- The record of a call to node `n` that waits on `q`. -/
structure IsCall (th : ThreadId) (x : Txn) (b : BufferId) (n : NodeId) (q : Queue) : Prop where
  fromThread : x.fromThread = some th
  fromParent : x.fromParent = v.stackOf th
  toParent : x.toParent = none
  needReply : x.needReply = true
  buffer : x.buffer = some b
  blank : v.Blank x.toProc b
  alive : v.procs x.toProc = some false
  queue : match x.toThread with
    | some target => q = .thread target ∧ v.procOf target = some x.toProc
    | none => q = .proc x.toProc
  owned : v.Owned n x.toProc

/-- The record of a oneway transaction to node `n` that waits on `q`. -/
structure IsOneway (x : Txn) (b : BufferId) (n : NodeId) (q : Queue) : Prop where
  oneway : x.Oneway
  fromParent : x.fromParent = none
  toParent : x.toParent = none
  buffer : x.buffer = some b
  blank : v.Blank x.toProc b
  alive : v.procs x.toProc = some false
  queue : q = .proc x.toProc ∨ q = .node n
  owned : v.Owned n x.toProc

/-- The record of a reply to `call`, which `target` sent. -/
structure IsReply (th target : ThreadId) (call : TxnId) (x : Txn) (b : BufferId) : Prop where
  stack : v.stackOf th = some call
  sender : (v.txns call).bind (·.fromThread) = some target
  live : v.live target = true
  toProc : v.procOf target = some x.toProc
  fromThread : x.fromThread = none
  fromParent : x.fromParent = none
  toThread : x.toThread = some target
  toParent : x.toParent = none
  needReply : x.needReply = false
  buffer : x.buffer = some b
  blank : v.Blank x.toProc b

/-- What a `BC_TRANSACTION` or `BC_REPLY` of `th` can come to.  `aim` is what the
command says about the node and the receiver of a transaction. -/
inductive Send (aim : NodeId → Txn → Prop) (th : ThreadId) (reply : Bool) (v : Calls) :
    Calls → Prop
  | refused {v₁ v₂ : Calls} (br : BR) (hbr : br = .failedReply ∨ br = .deadReply)
      (h₁ : Quiet v v₁) (h₂ : Quiet (v₁.refuse th br) v₂) : Send aim th reply v v₂
  | deadReply (hreply : reply = true) (t : TxnId) (ht : v.stackOf th = some t)
      (hdead : ∀ target, (v.txns t).bind (·.fromThread) = some target → v.live target = false) :
      Send aim th reply v
        (((v.setStack th ((v.txns t).bind (·.toParent))).refuse th .deadReply).freeTransaction t)
  | call {v₁ v₂ : Calls} (hreply : reply = false) (x : Txn) (b : BufferId) (n : NodeId) (q : Queue)
      (h₁ : Quiet v v₁) (hx : v₁.IsCall th x b n q) (haim : aim n x)
      (h₂ : Quiet (v₁.acceptCall th x b n q) v₂) : Send aim th reply v v₂
  | oneway {v₁ v₂ : Calls} (hreply : reply = false) (x : Txn) (b : BufferId) (n : NodeId)
      (q : Queue)
      (h₁ : Quiet v v₁) (hx : v₁.IsOneway x b n q) (haim : aim n x)
      (h₂ : Quiet (v₁.acceptOneway th x b n q) v₂) : Send aim th reply v v₂
  | reply {v₁ v₂ : Calls} (hreply : reply = true) (target : ThreadId) (call : TxnId) (x : Txn)
      (b : BufferId) (h₁ : Quiet v v₁) (hx : v₁.IsReply th target call x b)
      (h₂ : Quiet (v₁.acceptReply th target call x b) v₂) : Send aim th reply v v₂

end Sends

/-! ## Reads -/

section Reads

variable (v : Calls)

/-- `th` may take `w`: it waits for the thread itself, or for the pool of its
process while the thread owes and awaits nothing. -/
def Takes (th : ThreadId) (w : Work) : Prop :=
  ∃ p, v.procOf th = some p ∧
    (v.loc w = some (.thread th) ∨ v.loc w = some (.proc p) ∧ v.stackOf th = none)

/-- A transaction is written to the read buffer of `th` and its payload given
to the client. -/
def emitTxn (th : ThreadId) (t : TxnId) (x : Txn) (b : BufferId) (cmd : BR) : Calls :=
  ((v.dequeue (.transaction t)).note (.emit th cmd (.transaction t))).updBuffer x.toProc b
    fun buf => { buf with allowUserFree := true }

/-- A delivered call is owed a reply by the thread that took it. -/
def pushCall (th : ThreadId) (t : TxnId) : Calls :=
  (v.updTxn t fun x => { x with toThread := some th, toParent := v.stackOf th }).setStack th
    (some t)

/-- What one turn of a read of `th` can come to.  `fault` says that a copy to
the client may fail in it, and `tear` that an emission may be cut short. -/
inductive Read (fault tear : Prop) (th : ThreadId) (v : Calls) : Calls → Prop
  | quiet {v' : Calls} (h : Quiet v v') : Read fault tear th v v'
  | call (t : TxnId) (x : Txn) (b : BufferId) (buf : BufferView) (cmd : BR)
      (htakes : v.Takes th (.transaction t)) (hx : v.txns t = some x) (hb : x.buffer = some b)
      (hbuf : v.buffers x.toProc b = some buf) (hnode : buf.targetNode.isSome = true)
      (hreply : x.needReply = true) (hcmd : cmd = .transaction ∨ cmd = .transactionSecCtx) :
      Read fault tear th v ((v.emitTxn th t x b cmd).pushCall th t)
  | other (t : TxnId) (x : Txn) (b : BufferId) (buf : BufferView) (cmd : BR)
      (htakes : v.Takes th (.transaction t)) (hx : v.txns t = some x) (hb : x.buffer = some b)
      (hbuf : v.buffers x.toProc b = some buf)
      (hkind : (buf.targetNode.isSome && x.needReply) = false)
      (hcmd : cmd = .reply ↔ buf.targetNode = none) :
      Read fault tear th v ((v.emitTxn th t x b cmd).freeTransaction t)
  | undeliverable {v₁ : Calls} (t : TxnId) (x : Txn) (htakes : v.Takes th (.transaction t))
      (hx : v.txns t = some x)
      (h : Quiet ((v.dequeue (.transaction t)).failUndelivered t .failedReply) v₁) :
      Read fault tear th v (v₁.dropTransaction x.toProc t)
  | torn (htear : tear) (t : TxnId) (htakes : v.Takes th (.transaction t)) :
      Read fault tear th v (v.note (.emit th .transactionSecCtx (.transaction t)))
  | lost (t : TxnId) (htakes : v.Takes th (.transaction t))
      (hwhy : fault ∨ ∀ x, v.txns t = some x → x.buffer = none) :
      Read fault tear th v (v.dequeue (.transaction t))
  | tornLost (hfault : fault) (htear : tear) (t : TxnId) (htakes : v.Takes th (.transaction t)) :
      Read fault tear th v
        ((v.dequeue (.transaction t)).note (.emit th .transactionSecCtx (.transaction t)))
  | error (e : ThreadId) (cmd : BR) (htakes : v.Takes th (.returnError e)) :
      Read fault tear th v
        (((v.dequeue (.returnError e)).setError e .ok).note (.emit th cmd (.returnError e)))
  | errorLost (hfault : fault) (e : ThreadId) (htakes : v.Takes th (.returnError e)) :
      Read fault tear th v (v.dequeue (.returnError e))

/-- What `BC_FREE_BUFFER` of `ptr` by a thread of `p` can come to: nothing, or the
buffer is given back and the next oneway transaction of its node let through. -/
inductive FreeBuffer (p : ProcId) (ptr : Nat) (v : Calls) : Calls → Prop
  | quiet {v' : Calls} (h : Quiet v v') : FreeBuffer p ptr v v'
  | free {v₁ v₂ v₃ : Calls} (b : BufferId) (buf : BufferView) (h₁ : Quiet v v₁)
      (hbuf : v₁.buffers p b = some buf) (huser : buf.allowUserFree = true)
      (haddr : buf.load.address = ptr)
      (h₂ : v₂ = match buf.transaction with
        | some t => (v₁.updTxn t fun x => { x with buffer := none }).setBuffer p b none
        | none => v₁.setBuffer p b none)
      (h₃ : v₃ = v₂ ∨ ∃ n t, buf.targetNode = some n ∧
        v₂.loc (.transaction t) = some (.node n) ∧
        v₃ = (v₂.dequeue (.transaction t)).enqueue (.transaction t) (.proc p)) :
      FreeBuffer p ptr v v₃

end Reads

/-! ## Departures -/

/-- The stack walk of a thread on its way out. -/
inductive Walk (p : ProcId) (th : ThreadId) : Calls → Option TxnId → Calls → Prop
  | done (v : Calls) : Walk p th v none v
  | stale {v : Calls} {t : TxnId} (hx : v.txns t = none) : Walk p th v (some t) v
  | sent {v v' : Calls} {t : TxnId} {x : Txn} (hx : v.txns t = some x)
      (hfrom : x.fromThread = some th)
      (h : Walk p th (v.updTxn t fun x => { x with fromThread := none }) x.fromParent v') :
      Walk p th v (some t) v'
  | received {v v₁ v' : Calls} {t : TxnId} {x : Txn} (hx : v.txns t = some x)
      (hfrom : x.fromThread ≠ some th) (hto : x.toThread = some th)
      (h₁ : Quiet (v.updTxn t fun x => { x with toThread := none }) v₁)
      (h : Walk p th (((v₁.freePayload p x.buffer).updTxn t fun x =>
        { x with buffer := none }).answer x.fromThread t .deadReply) x.toParent v') :
      Walk p th v (some t) v'
  | foreign {v : Calls} {t : TxnId} {x : Txn} (hx : v.txns t = some x)
      (hfrom : x.fromThread ≠ some th) (hto : x.toThread ≠ some th) : Walk p th v (some t) v

/-- An item left waiting for a thread on its way out: a transaction goes back
to the process, or is dropped with it. -/
inductive HandBack (p : ProcId) (v : Calls) : Work → Calls → Prop
  | back (t : TxnId) (hp : v.procs p = some false) :
      HandBack p v (.transaction t)
        ((v.dequeue (.transaction t)).enqueue (.transaction t) (.proc p))
  | drop {v₁ : Calls} (t : TxnId) (hp : v.procs p ≠ some false)
      (h : Quiet (v.dequeue (.transaction t)) v₁) :
      HandBack p v (.transaction t) ((v₁.dropTransaction p t).note (.discard t))
  | error (th : ThreadId) : HandBack p v (.returnError th) (v.dequeue (.returnError th))

/-- A thread goes away. -/
inductive Depart (p : ProcId) (th : ThreadId) (v : Calls) : Calls → Prop
  | mk {v₁ v₂ : Calls} (ws : List Work)
      (hwalk : Walk p th (v.setDead th) (v.stackOf th) v₁)
      (hnodup : ws.Nodup) (hws : ∀ w, w ∈ ws ↔ v₁.loc w = some (.thread th))
      (hback : Each (HandBack p) (v₁.setStack th none) ws v₂) :
      Depart p th v (v₂.setThread th none)

/-- An item left waiting for a process on its way out: the sender of a
transaction is answered. -/
inductive Undeliver (p : ProcId) (v : Calls) : Work → Calls → Prop
  | txn {v₁ : Calls} (t : TxnId)
      (h : Quiet ((v.dequeue (.transaction t)).failUndelivered t .deadReply) v₁) :
      Undeliver p v (.transaction t) (v₁.dropTransaction p t)
  | error (th : ThreadId) : Undeliver p v (.returnError th) (v.dequeue (.returnError th))

/-- All buffers of a process go with its arena. -/
def tearDown (v : Calls) (p : ProcId) : Calls :=
  { v.setProc p none with buffers := Function.update v.buffers p fun _ => none }

/-- A process goes away. -/
inductive Close (p : ProcId) (v : Calls) : Calls → Prop
  | mk {v₁ v₂ v₃ : Calls} (ws : List Work) (ths : List ThreadId)
      (hquiet : Quiet (v.setProc p (some true)) v₁)
      (hnodup : ws.Nodup) (hws : ∀ w, w ∈ ws ↔ v₁.loc w = some (.proc p))
      (hundeliver : Each (Undeliver p) v₁ ws v₂)
      (hths : ∀ th, th ∈ ths ↔ v.procOf th = some p)
      (hdistinct : ths.Nodup) (hdeparts : Each (fun v th => Depart p th v) v₂ ths v₃) :
      Close p v (v₃.tearDown p)

end Calls

end Binder
