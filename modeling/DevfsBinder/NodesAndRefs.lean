import DevfsBinder.ArenaAllocator

/-!
# Objects and the handles that name them

`binder_node.c` together with `binder_free_transaction`, which releasing a
node needs.  A node is something a process implements, a reference is another
process's handle to it.  None of the accounting below talks to the owner: it
queues the node as a work item, and the read loop later compares what the
owner was told with what is true.
-/

namespace Binder

/-- `binder_node_has_strong` -/
def Node.hasStrong (nd : Node) : Bool :=
  nd.internalStrongRefs ≠ 0 || nd.localStrongRefs ≠ 0

namespace Driver

variable (s : Driver)

/-- `binder_node_has_weak`: any handle at all keeps a node weakly alive. -/
def nodeHasWeak (n : NodeId) (nd : Node) : Bool :=
  nd.hasStrong || nd.localWeakRefs ≠ 0 || !(s.nodeRefs n).isEmpty

/-! ## Releasing a transaction -/

/-- Pop `t` off a thread's stack if it is on top. -/
def popStack (th : ThreadId) (t : TxnId) (parent : Option TxnId) : Driver :=
  s.updThread th fun thread =>
    if thread.transactionStack = some t then
      { thread with transactionStack := parent }
    else thread

/-- The same for one of the two thread pointers of a transaction. -/
def popFrom (th : Option ThreadId) (t : TxnId) (parent : Option TxnId) : Driver :=
  match th with
  | some th => s.popStack th t parent
  | none => s

/-- The buffer of a transaction forgets it. -/
def detachBuffer (p : ProcId) (b : Option BufferId) : Driver :=
  match b with
  | some b => s.updBuffer p b fun buf => { buf with transaction := none }
  | none => s

/-- Release the record itself. -/
def forgetTxn (t : TxnId) : Driver :=
  { s with
    txns := Function.update s.txns t none
    stats := { s.stats with transactions := s.stats.transactions - 1 } }

/-- `binder_free_transaction`: unlink the record from its queue, from the two
stacks it may be on top of and from its buffer, then release it. -/
def freeTransaction (t : TxnId) : Driver :=
  match s.txns t with
  | none => s
  | some x =>
      let s := s.dequeueWork (.transaction t)
      let s := s.popFrom x.fromThread t x.fromParent
      let s := s.popFrom x.toThread t x.toParent
      (s.detachBuffer x.toProc x.buffer).forgetTxn t

/-! ## Nodes -/

/-- `binder_node_find` -/
def nodeFind (p : ProcId) (ptr : Nat) : Option NodeId :=
  (s.procNodes p).find? fun n =>
    match s.nodes n with
    | some nd => nd.ptr = ptr
    | none => false

/-- A new node at the head of its owner's list. -/
def insertNode (n : NodeId) (p : ProcId) (ptr cookie flags : Nat) : Driver :=
  { s with
    nodes := Function.update s.nodes n (some
      { proc := some p
        ptr := ptr
        cookie := cookie
        flags := flags
        acceptFds := acceptsFds flags })
    procNodes := Function.update s.procNodes p (n :: s.procNodes p)
    stats := { s.stats with nodes := s.stats.nodes + 1 } }

/-- `binder_node_new`: the process's node at `ptr`, made if there is none. -/
def nodeNew (env : Env) (p : ProcId) (ptr cookie flags : Nat) : Option NodeId × Driver :=
  match s.nodeFind p ptr with
  | some n => (some n, s)
  | none =>
      match s.allocMem env with
      | (none, s) => (none, s)
      | (some n, s) => (some n, s.insertNode n p ptr cookie flags)

/-- The three ends of the search for a node: it is there, it is made, or there
is no memory for it and an address is spent. -/
theorem nodeNew_ends (env : Env) (p : ProcId) (ptr cookie flags : Nat) :
    (∃ n, s.nodeFind p ptr = some n ∧ s.nodeNew env p ptr cookie flags = (some n, s)) ∨
      s.nodeFind p ptr = none ∧ s.nodeNew env p ptr cookie flags =
        (some s.nextId, s.bumpId.insertNode s.nextId p ptr cookie flags) ∨
      s.nodeNew env p ptr cookie flags = (none, s.bumpId) := by
  unfold nodeNew allocMem
  cases hfind : s.nodeFind p ptr with
  | some n => exact .inl ⟨n, rfl, rfl⟩
  | none =>
      cases env.allocOk s.nextId with
      | true => exact .inr (.inl ⟨rfl, rfl⟩)
      | false => exact .inr (.inr rfl)

theorem nodeNew_kept (env : Env) (p : ProcId) (ptr cookie flags : Nat) :
    (s.nodeNew env p ptr cookie flags).2.refs = s.refs ∧
      (s.nodeNew env p ptr cookie flags).2.procs = s.procs ∧
      (s.nodeNew env p ptr cookie flags).2.contexts = s.contexts := by
  rcases s.nodeNew_ends env p ptr cookie flags with ⟨n, -, heq⟩ | ⟨-, heq⟩ | heq <;> rw [heq] <;>
    exact ⟨rfl, rfl, rfl⟩

/-- `binder_node_inc_tmpref` -/
def nodeIncTmpref (n : NodeId) : Driver :=
  s.updNode n fun nd => { nd with tmpRefs := nd.tmpRefs + 1 }

/-- One turn of the drain of `async_todo` when a node is released. -/
def dropAsync (w : Work) : Driver :=
  match w with
  | .transaction t => ((s.dequeueWork w).freeTransaction t).note (.discard t)
  | _ => s.dequeueWork w

/-- Give up the manager role if `n` holds it in `p`'s context. -/
def clearManager (p : ProcId) (n : NodeId) : Driver :=
  match s.procs p with
  | none => s
  | some proc =>
      if (s.contexts proc.context).mgrNode = some n then
        s.updContext proc.context fun ctx => { ctx with mgrNode := none }
      else s

/-- `LIST_REMOVE(node, proc_entry)` -/
def unlistNode (p : ProcId) (n : NodeId) : Driver :=
  { s with procNodes := Function.update s.procNodes p ((s.procNodes p).erase n) }

/-- Release the record of a node. -/
def forgetNode (n : NodeId) : Driver :=
  { s with
    nodes := Function.update s.nodes n none
    stats := { s.stats with nodes := s.stats.nodes - 1 } }

/-- The part of `binder_node_maybe_free` that releases the record. -/
def nodeFree (n : NodeId) (nd : Node) : Driver :=
  let s := (s.items (.node n)).foldl dropAsync s
  let s := match nd.proc with
    | some p => (s.unlistNode p n).clearManager p n
    | none => s
  s.forgetNode n

/-- `binder_node_maybe_free`: release a node once nothing points at it and its
owner has nothing left to be told. -/
def nodeMaybeFree (n : NodeId) : Driver :=
  match s.nodes n with
  | none => s
  | some nd =>
      if nd.tmpRefs ≠ 0 ∨ s.nodeHasWeak n nd then s
      else if nd.hasStrongRef || nd.hasWeakRef then s
      else if s.workQueued (.node n) then s
      else s.nodeFree n nd

/-- `binder_node_dec_tmpref` -/
def nodeDecTmpref (n : NodeId) : Driver :=
  (s.updNode n fun nd => { nd with tmpRefs := nd.tmpRefs - 1 }).nodeMaybeFree n

/-- `binder_node_notify_owner` -/
def nodeNotifyOwner (n : NodeId) (thread : Option ThreadId) : Driver :=
  match (s.nodes n).bind (·.proc) with
  | none => s
  | some p =>
      match s.procs p with
      | none => s
      | some proc =>
          if proc.isDead then s
          else if s.workQueued (.node n) then s
          else
            match thread with
            | some th =>
                if (s.threads th).map (·.proc) = some p then
                  s.enqueueThreadWork th (.node n)
                else s.enqueueWork p (.node n)
            | none => s.enqueueWork p (.node n)

/-- The counts of a node after one reference more or less, `none` where the
source answers `EINVAL`.  A handle's weak count is not a count of the node. -/
def Node.count (nd : Node) (strong increment internal : Bool) : Option Node :=
  match strong, increment, internal with
  | true, true, true => some { nd with internalStrongRefs := nd.internalStrongRefs + 1 }
  | true, true, false => some { nd with localStrongRefs := nd.localStrongRefs + 1 }
  | true, false, true =>
      if nd.internalStrongRefs = 0 then none
      else some { nd with internalStrongRefs := nd.internalStrongRefs - 1 }
  | true, false, false =>
      if nd.localStrongRefs = 0 then none
      else some { nd with localStrongRefs := nd.localStrongRefs - 1 }
  | false, true, true => some nd
  | false, true, false => some { nd with localWeakRefs := nd.localWeakRefs + 1 }
  | false, false, true => some nd
  | false, false, false =>
      if nd.localWeakRefs = 0 then none
      else some { nd with localWeakRefs := nd.localWeakRefs - 1 }

/-- `binder_node_update_refs`: the one entry point for changing a node's
counts. -/
def nodeUpdateRefs (n : NodeId) (strong increment internal : Bool)
    (thread : Option ThreadId) : Driver × Option Errno :=
  match s.nodes n with
  | none => (s, none)
  | some nd =>
      match Node.count nd strong increment internal with
      | none => (s, some .einval)
      | some nd' =>
          let s' := s.updNode n fun _ => nd'
          let s' :=
            if nd'.hasStrong ≠ nd.hasStrong ∨ s'.nodeHasWeak n nd' ≠ s.nodeHasWeak n nd then
              s'.nodeNotifyOwner n thread
            else s'
          (s'.nodeMaybeFree n, none)

/-- One turn of the loop of `binder_node_died` over the node's handles. -/
def notifyDeath (r : RefId) : Driver :=
  match s.refs r with
  | none => s
  | some ref =>
      match ref.death with
      | none => s
      | some d =>
          if s.workQueued (.death d) then s
          else
            ((s.updDeath d fun death => { death with type := .deadBinder }).enqueueWork
              ref.proc (.death d)).wakeupProc ref.proc

/-- `binder_node_died`: the owner is gone; holders that asked hear about it. -/
def nodeDied (n : NodeId) : Driver :=
  (s.nodeRefs n).foldl notifyDeath
    (s.updNode n fun nd => { nd with isDead := true, proc := none })

/-! ## References -/

/-- `binder_ref_find_by_desc` -/
def refFindByDesc (p : ProcId) (desc : Nat) : Option RefId :=
  (s.procRefs p).find? fun r =>
    match s.refs r with
    | some ref => ref.desc = desc
    | none => false

/-- `binder_ref_find_for_node` -/
def refFindForNode (p : ProcId) (n : NodeId) : Option RefId :=
  (s.procRefs p).find? fun r =>
    match s.refs r with
    | some ref => ref.node = n
    | none => false

/-- The manager node of the context a process was opened in. -/
def mgrNodeOf (p : ProcId) : Option NodeId :=
  (s.procs p).bind fun proc => (s.contexts proc.context).mgrNode

/-- The upward search for a free handle number, wrapping at `2 ^ 32`. -/
def nextDescFrom (p : ProcId) : Nat → Nat → Nat
  | 0, _ => 0
  | fuel+1, desc =>
      if desc = 2 ^ 32 then 0
      else if s.refFindByDesc p desc = none then desc
      else nextDescFrom p fuel (desc+1)

/-- `binder_ref_next_desc`: zero for the manager, else the lowest number not in
use.  A process with `k` handles has a free number among the first `k+1`, so
the search needs no more turns than that. -/
def refNextDesc (p : ProcId) (n : NodeId) : Nat :=
  if s.mgrNodeOf p = some n then 0
  else s.nextDescFrom p ((s.procRefs p).length + 1) 1

/-- A new handle at the head of its holder's and its node's lists. -/
def insertRef (r : RefId) (p : ProcId) (n : NodeId) : Driver :=
  { s with
    refs := Function.update s.refs r (some
      { proc := p, node := n, desc := s.refNextDesc p n })
    procRefs := Function.update s.procRefs p (r :: s.procRefs p)
    nodeRefs := Function.update s.nodeRefs n (r :: s.nodeRefs n)
    stats := { s.stats with refs := s.stats.refs + 1 } }

/-- `binder_ref_get_for_node`: the process's handle to a node, made if it has
none. -/
def refGetForNode (env : Env) (p : ProcId) (n : NodeId) : Option RefId × Driver :=
  match s.refFindForNode p n with
  | some r => (some r, s)
  | none =>
      match s.allocMem env with
      | (none, s) => (none, s)
      | (some r, s) => (some r, s.insertRef r p n)

/-- The search for a handle has the same three ends. -/
theorem refGetForNode_ends (env : Env) (p : ProcId) (n : NodeId) :
    (∃ r, s.refFindForNode p n = some r ∧ s.refGetForNode env p n = (some r, s)) ∨
      s.refFindForNode p n = none ∧
        s.refGetForNode env p n = (some s.nextId, s.bumpId.insertRef s.nextId p n) ∨
      s.refGetForNode env p n = (none, s.bumpId) := by
  unfold refGetForNode allocMem
  cases hfind : s.refFindForNode p n with
  | some r => exact .inl ⟨r, rfl, rfl⟩
  | none =>
      cases env.allocOk s.nextId with
      | true => exact .inr (.inl ⟨rfl, rfl⟩)
      | false => exact .inr (.inr rfl)

/-- Release a death record. -/
def forgetDeath (d : DeathId) : Driver :=
  { s with
    deaths := Function.update s.deaths d none
    freed := d :: s.freed }

/-- Unlink and release the death record of a handle, if it has one. -/
def releaseDeath (death : Option DeathId) : Driver :=
  match death with
  | some d => (s.dequeueWork (.death d)).forgetDeath d
  | none => s

/-- Unlink a handle from both its lists and release the record. -/
def forgetRef (r : RefId) (ref : Ref) : Driver :=
  { s with
    refs := Function.update s.refs r none
    procRefs := Function.update s.procRefs ref.proc ((s.procRefs ref.proc).erase r)
    nodeRefs := Function.update s.nodeRefs ref.node ((s.nodeRefs ref.node).erase r)
    stats := { s.stats with refs := s.stats.refs - 1 } }

/-- `binder_ref_delete`: drop a handle and whatever it was still holding. -/
def refDelete (r : RefId) : Driver :=
  match s.refs r with
  | none => s
  | some ref =>
      let s := s.releaseDeath ref.death
      ((s.forgetRef r ref).nodeUpdateRefs ref.node (0 < ref.strong) false true none).1

/-- The tail of `binder_ref_update`: a handle with no count left is deleted. -/
def refReap (r : RefId) : Driver :=
  match s.refs r with
  | none => s
  | some ref => if ref.strong = 0 ∧ ref.weak = 0 then s.refDelete r else s

/-- `binder_ref_update`: the counts are the process's, and the node only hears
about the crossings. -/
def refUpdate (r : RefId) (strong increment : Bool) (thread : Option ThreadId) :
    Driver × Option Errno :=
  match s.refs r with
  | none => (s, none)
  | some ref =>
      match strong, increment with
      | true, true =>
          let s := if ref.strong = 0 then
              (s.nodeUpdateRefs ref.node true true true thread).1
            else s
          ((s.updRef r fun ref => { ref with strong := ref.strong + 1 }).refReap r, none)
      | true, false =>
          if ref.strong = 0 then (s, some .einval)
          else
            let s := s.updRef r fun ref => { ref with strong := ref.strong - 1 }
            let (s, ret) := if ref.strong = 1 then
                s.nodeUpdateRefs ref.node true false true thread
              else (s, none)
            (s.refReap r, ret)
      | false, true =>
          ((s.updRef r fun ref => { ref with weak := ref.weak + 1 }).refReap r, none)
      | false, false =>
          if ref.weak = 0 then (s, some .einval)
          else ((s.updRef r fun ref => { ref with weak := ref.weak - 1 }).refReap r, none)

/-! ## The context manager -/

/-- `binder_context_mgr_set` -/
def contextMgrSet (env : Env) (p : ProcId) (ptr cookie flags : Nat) :
    Driver × Option Errno :=
  match s.procs p with
  | none => (s, some .einval)
  | some proc =>
      let ctx := s.contexts proc.context
      if ctx.mgrNode ≠ none then (s, some .ebusy)
      else if ctx.mgrUidValid ∧ ctx.mgrUid ≠ env.uid then (s, some .eperm)
      else
        let s := s.updContext proc.context fun ctx =>
          { ctx with mgrUid := env.uid, mgrUidValid := true }
        match s.nodeNew env p ptr cookie flags with
        | (none, s) => (s, some .enomem)
        | (some n, s) =>
            let s := s.updContext proc.context fun ctx => { ctx with mgrNode := some n }
            (s.updNode n fun nd =>
              { nd with
                localStrongRefs := nd.localStrongRefs + 1
                localWeakRefs := nd.localWeakRefs + 1
                hasStrongRef := true
                hasWeakRef := true }, none)

/-! ## Death notifications -/

/-- Whether a node is known to be dead. -/
def nodeIsDead (n : NodeId) : Bool :=
  match s.nodes n with
  | some nd => nd.isDead
  | none => false

def insertDeath (d : DeathId) (death : Death) : Driver :=
  { s with deaths := Function.update s.deaths d (some death) }

/-- `binder_death_request` -/
def deathRequest (env : Env) (p : ProcId) (th : ThreadId) (handle cookie : Nat) :
    Driver × Option Errno :=
  match s.refFindByDesc p handle with
  | none => (s, some .einval)
  | some r =>
      match s.refs r with
      | none => (s, some .einval)
      | some ref =>
          if ref.death ≠ none then (s, some .einval)
          else
            match s.allocMem env with
            | (none, s) => (s, some .enomem)
            | (some d, s) =>
                let s := s.insertDeath d { cookie := cookie, type := .deadBinder }
                let s := s.updRef r fun ref => { ref with death := some d }
                (if s.nodeIsDead ref.node then s.enqueueThreadWork th (.death d) else s, none)

/-- `binder_death_clear` -/
def deathClear (p : ProcId) (th : ThreadId) (handle cookie : Nat) :
    Driver × Option Errno :=
  match s.refFindByDesc p handle with
  | none => (s, some .einval)
  | some r =>
      match (s.refs r).bind (·.death) with
      | none => (s, some .einval)
      | some d =>
          if (s.deaths d).map (·.cookie) ≠ some cookie then (s, some .einval)
          else
            let s :=
              if s.workQueued (.death d) then
                s.updDeath d fun death => { death with type := .deadBinderAndClear }
              else
                (s.updDeath d fun death =>
                  { death with type := .clearDeathNotification }).enqueueThreadWork th (.death d)
            (s.updRef r fun ref => { ref with death := none }, none)

end Driver

end Binder
