import DevfsBinder.NodesAndRefs

/-!
# Sending a transaction

`binder_txn.c`: taking a parcel from one process, rewriting every object in it
into the terms of another, and queueing it where that process will find it.

A parcel is bytes plus an array of offsets saying where its objects sit.  The
kernel copy `kdata` holds the data area, the offsets array and the
scatter-gather area one after the other, each rounded up to eight bytes; the
translation loop rewrites objects in place and re-reads the offsets from the
same copy.  `touched` lists every access the loop makes to the copy, as a
distance from its start and a length; the source keeps no such list.
-/

namespace Binder

open LittleEndian

/-! ## Objects in a payload -/

/-- `binder_object_at`: the type of the whole, aligned object at `offset`
inside the data area, if there is one. -/
def objectAt (kdata : Bytes) (dataSize offset : Nat) : Option ObjectType :=
  if offset % 8 ≠ 0 ∨ dataSize ≤ offset then none
  else if dataSize - offset < 4 then none
  else
    match ObjectType.ofCode (field kdata offset 4) with
    | none => none
    | some type => if dataSize - offset < objectSize type then none else some type

/-- An access to the kernel copy: distance from its start, and length. -/
abbrev Span := Nat × Nat

/-- The header `binder_object_at` reads, when it gets that far. -/
def objectAtTouches (dataSize offset : Nat) : List Span :=
  if offset % 8 ≠ 0 ∨ dataSize ≤ offset then []
  else if dataSize - offset < 4 then []
  else [(offset, 4)]

/-- Entry `i` of the offsets array at `offArea`. -/
def offsetEntry (kdata : Bytes) (offArea i : Nat) : Nat :=
  field kdata (offArea + 8 * i) 8

/-- An eight-byte load relative to the kernel copy, wherever the address
falls: outside the copy it finds whatever the kernel keeps there. -/
def wildField (env : Env) (kdata : Bytes) (addr : Nat) : Nat :=
  leNat ((List.range 8).map fun i =>
    let x := (addr + i) % 2 ^ 64
    (kdata[x]?).getD (env.wild x))

namespace Driver

/-! ## Errors -/

/-- Queue an error to a thread through its one `return_error` slot. -/
def queueError (s : Driver) (th : ThreadId) (br : BR) : Driver :=
  (s.updThread th fun thread => { thread with returnError := br }).enqueueThreadWork th
    (.returnError th)

/-- `binder_txn_error` -/
def txnError (s : Driver) (th : ThreadId) (br : BR) : Driver :=
  ((s.updStats fun st =>
    { st with failedTransactions := st.failedTransactions + 1 }).queueError th br).note
      (.refuse th)

/-- Answer call `t` with an error to its sender, if that is still there to hear
it. -/
def failCaller (s : Driver) (sender : Option ThreadId) (t : TxnId) (br : BR) : Driver :=
  match sender with
  | none => s
  | some th =>
      match s.threads th with
      | none => s
      | some thread =>
          if thread.isDead then s
          else ((s.queueError th br).wakeupThread th).note (.fail th t)

/-! ## Object translation -/

/-- Rewrite a `flat_binder_object` into a handle. -/
def writeHandle (kdata : Bytes) (off : Nat) (strong : Bool) (desc : Nat) : Bytes :=
  let type : ObjectType := if strong then .handle else .weakHandle
  setField (setField (setField (setField kdata off 4 type.code) (off + 8) 8 0)
    (off + 8) 4 desc) (off + 16) 8 0

/-- Rewrite a `flat_binder_object` into the owner's own object. -/
def writeBinder (kdata : Bytes) (off : Nat) (strong : Bool) (nd : Node) : Bytes :=
  let type : ObjectType := if strong then .binder else .weakBinder
  setField (setField (setField kdata off 4 type.code) (off + 8) 8 nd.ptr)
    (off + 16) 8 nd.cookie

/-- `binder_translate_binder`: one of the sender's own objects becomes a
handle of the receiver. -/
def translateBinder (env : Env) (s : Driver) (p : ProcId) (th : ThreadId)
    (tp : ProcId) (kdata : Bytes) (off : Nat) (strong : Bool) :
    Driver × Bytes × Option Errno :=
  let ptr := field kdata (off + 8) 8
  let cookie := field kdata (off + 16) 8
  match s.nodeNew env p ptr cookie (field kdata (off + 4) 4) with
  | (none, s) => (s, kdata, some .enomem)
  | (some n, s) =>
      if (s.nodes n).map (·.cookie) ≠ some cookie then (s, kdata, some .einval)
      else
        match s.refGetForNode env tp n with
        | (none, s) => (s, kdata, some .enomem)
        | (some r, s) =>
            let desc := ((s.refs r).map (·.desc)).getD 0
            let s := (s.refUpdate r strong true (some th)).1
            (s, writeHandle kdata off strong desc, none)

/-- `binder_translate_handle`: a handle of the sender becomes the receiver's
own object when the receiver owns it, else a handle of the receiver. -/
def translateHandle (env : Env) (s : Driver) (p : ProcId) (th : ThreadId)
    (tp : ProcId) (kdata : Bytes) (off : Nat) (strong : Bool) :
    Driver × Bytes × Option Errno :=
  match (s.refFindByDesc p (field kdata (off + 8) 4)).bind s.refs with
  | none => (s, kdata, some .einval)
  | some ref =>
      match s.nodes ref.node with
      | none => (s, kdata, some .einval)
      | some nd =>
          if nd.proc = some tp then
            let s := (s.nodeUpdateRefs ref.node strong true false (some th)).1
            (s, writeBinder kdata off strong nd, none)
          else
            match s.refGetForNode env tp ref.node with
            | (none, s) => (s, kdata, some .enomem)
            | (some r, s) =>
                let desc := ((s.refs r).map (·.desc)).getD 0
                let s := (s.refUpdate r strong true (some th)).1
                (s, setField kdata (off + 8) 4 desc, none)

/-- `binder_translate_fd`: the descriptor number stays, the sender's pid goes
beside it. -/
def translateFd (s : Driver) (p : ProcId) (targetNode : Option NodeId)
    (kdata : Bytes) (off : Nat) : Bytes × Option Errno :=
  match targetNode.bind s.nodes with
  | some nd =>
      if nd.acceptFds then (setField kdata (off + 16) 8 (((s.procs p).map (·.pid)).getD 0), none)
      else (kdata, some .eperm)
  | none => (setField kdata (off + 16) 8 (((s.procs p).map (·.pid)).getD 0), none)

end Driver

/-- What the translation loop knows from outside: who sends to whom, the
layout of the kernel copy and the receiver's address of its first byte. -/
structure Parcel where
  env : Env
  proc : ProcId
  thread : ThreadId
  targetProc : ProcId
  targetNode : Option NodeId
  dataSize : Nat
  offArea : Nat
  sgArea : Nat
  extraSize : Nat
  count : Nat
  uaddr : Nat

/-- What the translation loop changes. -/
structure LoopState where
  drv : Driver
  kdata : Bytes
  sgUsed : Nat := 0
  touched : List Span := []

def LoopState.touch (ls : LoopState) (spans : List Span) : LoopState :=
  { ls with touched := ls.touched ++ spans }

/-- The search for the entry that names a nested buffer's parent. -/
def findParent (kdata : Bytes) (offArea parent : Nat) (count : Nat) : Option Nat :=
  (List.range count).find? fun j => offsetEntry kdata offArea j = parent

/-- The entries that search reads. -/
def findParentTouches (kdata : Bytes) (offArea parent : Nat) (count : Nat) : List Span :=
  let turns := match findParent kdata offArea parent count with
    | some j => j + 1
    | none => count
  (List.range turns).map fun j => (offArea + 8 * j, 8)

/-- The parent of a nested buffer is trusted to be a buffer object: its entry
in the offsets array was matched, not validated. -/
def parentContains (env : Env) (kdata : Bytes) (parent buffer length : Nat) : Bool :=
  let parentBuffer := wildField env kdata (parent + 8)
  let parentLength := wildField env kdata (parent + 16)
  parentBuffer ≤ buffer &&
    (buffer + length) % 2 ^ 64 ≤ (parentBuffer + parentLength) % 2 ^ 64

/-- The loads of that check; the second is made only when the first passes. -/
def parentTouches (env : Env) (kdata : Bytes) (parent buffer : Nat) : List Span :=
  ((parent + 8) % 2 ^ 64, 8) ::
    if wildField env kdata (parent + 8) ≤ buffer then [((parent + 16) % 2 ^ 64, 8)] else []

/-- The part of the `BINDER_TYPE_PTR` case behind the parent check: copy the
sender's bytes in and give the object its receiver address. -/
def translatePtrCopy (c : Parcel) (ls : LoopState) (off : Nat) :
    LoopState × Option Errno :=
  let buffer := field ls.kdata (off + 8) 8
  let length := field ls.kdata (off + 16) 8
  let need := align length
  if c.extraSize < length ∨ align c.extraSize < (ls.sgUsed + need) % 2 ^ 64 then
    (ls, some .einval)
  else
    let ls := ls.touch [(c.sgArea + ls.sgUsed, length)]
    match c.env.copyin buffer length with
    | none => (ls, some .efault)
    | some bytes =>
        let dest := c.sgArea + ls.sgUsed
        let kdata := setField (patch ls.kdata dest bytes) (off + 8) 8
          ((c.uaddr + dest) % 2 ^ 64)
        ({ ls.touch [(off + 8, 8)] with kdata := kdata, sgUsed := ls.sgUsed + need }, none)

/-- The `BINDER_TYPE_PTR` case of the translation loop. -/
def translatePtr (c : Parcel) (ls : LoopState) (off : Nat) : LoopState × Option Errno :=
  let flags := field ls.kdata (off + 4) 4
  let buffer := field ls.kdata (off + 8) 8
  let length := field ls.kdata (off + 16) 8
  let parent := field ls.kdata (off + 24) 8
  let ls := ls.touch [(off + 4, 4), (off + 8, 8), (off + 16, 8)]
  if hasParent flags then
    let ls := ls.touch ((off + 24, 8) ::
      findParentTouches ls.kdata c.offArea parent c.count)
    match findParent ls.kdata c.offArea parent c.count with
    | none => (ls, some .einval)
    | some _ =>
        let ls := ls.touch (parentTouches c.env ls.kdata parent buffer)
        if parentContains c.env ls.kdata parent buffer length then
          translatePtrCopy c ls off
        else (ls, some .einval)
  else translatePtrCopy c ls off

theorem translatePtrCopy_drv (c : Parcel) (ls : LoopState) (off : Nat) :
    (translatePtrCopy c ls off).1.drv = ls.drv := by
  unfold translatePtrCopy
  simp only
  split
  · rfl
  · split <;> rfl

theorem translatePtr_drv (c : Parcel) (ls : LoopState) (off : Nat) :
    (translatePtr c ls off).1.drv = ls.drv := by
  unfold translatePtr
  simp only
  split
  · split
    · rfl
    · split
      · exact translatePtrCopy_drv c _ off
      · rfl
  · exact translatePtrCopy_drv c _ off

/-- One turn of the translation loop, for entry `i` of the offsets array. -/
def translateObject (c : Parcel) (ls : LoopState) (i : Nat) : LoopState × Option Errno :=
  let off := offsetEntry ls.kdata c.offArea i
  let ls := ls.touch ((c.offArea + 8 * i, 8) :: objectAtTouches c.dataSize off)
  match objectAt ls.kdata c.dataSize off with
  | none => (ls, some .einval)
  | some .binder | some .weakBinder =>
      let strong := decide (objectAt ls.kdata c.dataSize off = some .binder)
      let (drv, kdata, error) :=
        Driver.translateBinder c.env ls.drv c.proc c.thread c.targetProc ls.kdata off strong
      ({ ls.touch [(off, 24)] with drv := drv, kdata := kdata }, error)
  | some .handle | some .weakHandle =>
      let strong := decide (objectAt ls.kdata c.dataSize off = some .handle)
      let (drv, kdata, error) :=
        Driver.translateHandle c.env ls.drv c.proc c.thread c.targetProc ls.kdata off strong
      ({ ls.touch [(off, 24)] with drv := drv, kdata := kdata }, error)
  | some .fd =>
      let (kdata, error) := ls.drv.translateFd c.proc c.targetNode ls.kdata off
      ({ ls.touch [(off + 16, 8)] with kdata := kdata }, error)
  | some .ptr => translatePtr c ls off
  | some .fda => (ls, none)

/-- The translation loop over the entries listed, stopping at the first
error. -/
def translateLoop (c : Parcel) (ls : LoopState) : List Nat → LoopState × Option Errno
  | [] => (ls, none)
  | i :: rest =>
      match translateObject c ls i with
      | (ls, none) => translateLoop c ls rest
      | (ls, some error) => (ls, some error)

/-- What the driver may do for one entry of a parcel keeps `P`, which is also
given how many addresses have been spent. -/
structure KeptByTranslation (c : Parcel) (P : Nat → Driver → Prop) : Prop where
  spare : ∀ {k s}, P k s → P (k + 1) s
  node : ∀ {k s} ptr cookie flags, P k s → P (k + 1) (s.nodeNew c.env c.proc ptr cookie flags).2
  ref : ∀ {k s} n, P k s → P (k + 1) (s.refGetForNode c.env c.targetProc n).2
  take : ∀ {k s} r strong, P k s → P k (s.refUpdate r strong true (some c.thread)).1
  own : ∀ {k s} n strong, P k s → P k (s.nodeUpdateRefs n strong true false (some c.thread)).1

namespace KeptByTranslation

variable {c : Parcel} {P : Nat → Driver → Prop} {k : Nat} {s : Driver}

/-- A node and a handle at most. -/
theorem translateBinder (hP : KeptByTranslation c P) (h : P k s) (kdata : Bytes) (off : Nat)
    (strong : Bool) :
    P (k + 2) (s.translateBinder c.env c.proc c.thread c.targetProc kdata off strong).1 := by
  have hnew := hP.node (field kdata (off + 8) 8) (field kdata (off + 16) 8)
    (field kdata (off + 4) 4) h
  unfold Driver.translateBinder
  simp only
  generalize s.nodeNew c.env c.proc _ _ _ = r at hnew ⊢
  obtain ⟨_ | n, s₁⟩ := r
  · exact hP.spare hnew
  simp only
  split
  · exact hP.spare hnew
  have hget := hP.ref n hnew
  generalize s₁.refGetForNode c.env c.targetProc n = r at hget ⊢
  obtain ⟨_ | r, s₂⟩ := r
  · exact hget
  · exact hP.take r strong hget

/-- A handle at most. -/
theorem translateHandle (hP : KeptByTranslation c P) (h : P k s) (kdata : Bytes) (off : Nat)
    (strong : Bool) :
    P (k + 2) (s.translateHandle c.env c.proc c.thread c.targetProc kdata off strong).1 := by
  unfold Driver.translateHandle
  split
  · exact hP.spare (hP.spare h)
  rename_i ref _
  split
  · exact hP.spare (hP.spare h)
  split
  · exact hP.spare (hP.spare (hP.own _ strong h))
  have hget := hP.ref ref.node h
  generalize s.refGetForNode c.env c.targetProc ref.node = r at hget ⊢
  obtain ⟨_ | r, s₁⟩ := r
  · exact hP.spare hget
  · exact hP.spare (hP.take r strong hget)

/-- **One turn** spends two addresses at most. -/
theorem translateObject (hP : KeptByTranslation c P) {ls : LoopState} (h : P k ls.drv) (i : Nat) :
    P (k + 2) (translateObject c ls i).1.drv := by
  have hsame := hP.spare (hP.spare h)
  unfold Binder.translateObject
  simp only
  split
  · exact hsame
  · exact hP.translateBinder h ..
  · exact hP.translateBinder h ..
  · exact hP.translateHandle h ..
  · exact hP.translateHandle h ..
  · exact hsame
  · rw [translatePtr_drv]
    exact hsame
  · exact hsame

/-- **The loop** spends two for every entry. -/
theorem translateLoop (hP : KeptByTranslation c P) {ls : LoopState} (h : P k ls.drv)
    (entries : List Nat) : P (k + 2 * entries.length) (translateLoop c ls entries).1.drv := by
  induction entries generalizing k ls with
  | nil => exact h
  | cons i rest ih =>
      have hturn := hP.translateObject h i
      have hspare : ∀ m, P (k + 2 + m) (Binder.translateObject c ls i).1.drv := by
        intro m
        induction m with
        | zero => exact hturn
        | succ m ih => exact hP.spare ih
      rw [List.length_cons, Nat.mul_succ, Nat.add_comm (2 * _), ← Nat.add_assoc,
        Binder.translateLoop]
      generalize Binder.translateObject c ls i = r at hturn hspare ⊢
      obtain ⟨ls', error⟩ := r
      cases error with
      | none => exact ih hturn
      | some error => exact hspare _

end KeptByTranslation

namespace Driver

/-! ## Releasing a payload -/

/-- One turn of `binder_transaction_buffer_release`: give back, in the terms
of `p`, the reference the object at `off` stands for. -/
def releaseObject (s : Driver) (p : ProcId) (kdata : Bytes) (dataSize off : Nat) : Driver :=
  match objectAt kdata dataSize off with
  | some .binder =>
      match s.nodeFind p (field kdata (off + 8) 8) with
      | some n => (s.nodeUpdateRefs n true false false none).1
      | none => s
  | some .weakBinder =>
      match s.nodeFind p (field kdata (off + 8) 8) with
      | some n => (s.nodeUpdateRefs n false false false none).1
      | none => s
  | some .handle =>
      match s.refFindByDesc p (field kdata (off + 8) 4) with
      | some r => (s.refUpdate r true false none).1
      | none => s
  | some .weakHandle =>
      match s.refFindByDesc p (field kdata (off + 8) 4) with
      | some r => (s.refUpdate r false false none).1
      | none => s
  | _ => s

/-- One turn of the release gives back a count on a node or on a handle, or
does nothing. -/
theorem releaseObject_rule {P : Driver → Prop} (s : Driver) (p : ProcId) (kdata : Bytes)
    (dataSize off : Nat) (hsame : P s)
    (hnode : ∀ n strong, (strong = false → objectAt kdata dataSize off = some .weakBinder) →
      P (s.nodeUpdateRefs n strong false false none).1)
    (href : ∀ desc r strong, (strong = false → objectAt kdata dataSize off = some .weakHandle) →
      s.refFindByDesc p desc = some r → P (s.refUpdate r strong false none).1) :
    P (s.releaseObject p kdata dataSize off) := by
  unfold releaseObject
  split
  · split
    · exact hnode _ true (by simp)
    · exact hsame
  · rename_i hobj
    split
    · exact hnode _ false fun _ => hobj
    · exact hsame
  · split
    · rename_i hfind
      exact href _ _ true (by simp) hfind
    · exact hsame
  · rename_i hobj
    split
    · rename_i hfind
      exact href _ _ false (fun _ => hobj) hfind
    · exact hsame
  · exact hsame

/-- The walk of `binder_transaction_buffer_release` over a payload. -/
def releaseObjects (s : Driver) (p : ProcId) (kdata : Bytes)
    (dataSize offsetsSize : Nat) : Driver :=
  (List.range (offsetsSize / 8)).foldl
    (fun s i => s.releaseObject p kdata dataSize (offsetEntry kdata (align dataSize) i)) s

/-- The accesses of one turn of the walk to the kernel copy. -/
def releaseObjectTouches (kdata : Bytes) (dataSize off : Nat) : List Span :=
  objectAtTouches dataSize off ++
    match objectAt kdata dataSize off with
    | some .binder | some .weakBinder => [(off + 8, 8)]
    | some .handle | some .weakHandle => [(off + 8, 4)]
    | _ => []

/-- The accesses of the whole walk. -/
def releaseTouches (kdata : Bytes) (dataSize offsetsSize : Nat) : List Span :=
  (List.range (offsetsSize / 8)).flatMap fun i =>
    (align dataSize + 8 * i, 8) ::
      releaseObjectTouches kdata dataSize (offsetEntry kdata (align dataSize) i)

/-- `binder_transaction_buffer_release` -/
def bufferRelease (s : Driver) (p : ProcId) (b : BufferId) : Driver :=
  match s.findBuffer p b with
  | none => s
  | some buf =>
      match buf.kdata with
      | none => s
      | some kdata => s.releaseObjects p kdata buf.dataSize buf.offsetsSize

/-- Release the references of a payload, then the bytes themselves. -/
def releaseAndFree (s : Driver) (p : ProcId) (b : BufferId) : Driver :=
  (s.bufferRelease p b).bufferFree p b

/-- The same for the payload of a record, if it has one. -/
def releasePayload (s : Driver) (p : ProcId) (buf : Option BufferId) : Driver :=
  match buf with
  | some b => s.releaseAndFree p b
  | none => s

/-! ## Choosing the receiver -/

/-- The walk of `binder_target_thread_for`.  Parents are older than their
children, so the walk is over before the addresses run out. -/
def targetThreadWalk (s : Driver) (tp : ProcId) : Nat → Option TxnId → Option ThreadId
  | 0, _ => none
  | _, none => none
  | fuel+1, some t =>
      match s.txns t with
      | none => none
      | some x =>
          match x.fromThread with
          | some th =>
              if (s.threads th).map (·.proc) = some tp then some th
              else targetThreadWalk s tp fuel x.fromParent
          | none => targetThreadWalk s tp fuel x.fromParent

/-- `binder_target_thread_for` -/
def targetThreadFor (s : Driver) (th : ThreadId) (tp : ProcId) : Option ThreadId :=
  s.targetThreadWalk tp (s.nextId + 1) ((s.threads th).bind (·.transactionStack))

/-- Where a transaction is going. -/
structure Target where
  proc : ProcId
  thread : Option ThreadId
  node : Option NodeId
  inReplyTo : Option TxnId

/-- The outcome of choosing a receiver: an error already queued, or a target,
with the answered call off the caller's stack or the target node held. -/
inductive Selected
  | refused (s : Driver)
  | target (s : Driver) (tgt : Target)

def setStack (s : Driver) (th : ThreadId) (top : Option TxnId) : Driver :=
  s.updThread th fun thread => { thread with transactionStack := top }

/-- Choose the receiver of a `BC_REPLY`: whoever sent the call on top of the
caller's stack, which is popped. -/
def selectReply (s : Driver) (th : ThreadId) : Selected :=
  match (s.threads th).bind (·.transactionStack) with
  | none => .refused (s.txnError th .failedReply)
  | some t =>
      let call := s.txns t
      let s := s.setStack th (call.bind (·.toParent))
      match call.bind (·.fromThread) with
      | none => .refused ((s.txnError th .deadReply).freeTransaction t)
      | some target =>
          match s.threads target with
          | none => .refused ((s.txnError th .deadReply).freeTransaction t)
          | some thread =>
              if thread.isDead then
                .refused ((s.txnError th .deadReply).freeTransaction t)
              else
                .target s
                  { proc := thread.proc, thread := some target, node := none, inReplyTo := some t }

/-- The ends of `selectReply`: no call to answer, a caller that is gone, or the
caller. -/
theorem selectReply_ends (s : Driver) (th : ThreadId) :
    s.selectReply th = .refused (s.txnError th .failedReply) ∨
    ∃ t s₁, (s.threads th).bind (·.transactionStack) = some t ∧
      s.setStack th ((s.txns t).bind (·.toParent)) = s₁ ∧
      (s.selectReply th = .refused ((s₁.txnError th .deadReply).freeTransaction t) ∧
          (∀ target thread, (s.txns t).bind (·.fromThread) = some target →
            s₁.threads target = some thread → thread.isDead = true) ∨
        ∃ target thread, (s.txns t).bind (·.fromThread) = some target ∧
          s₁.threads target = some thread ∧ thread.isDead = false ∧
          s.selectReply th = .target s₁
            { proc := thread.proc, thread := some target, node := none, inReplyTo := some t }) := by
  unfold selectReply
  cases htop : (s.threads th).bind (·.transactionStack) with
  | none => exact .inl rfl
  | some t =>
      refine .inr ⟨t, _, rfl, rfl, ?_⟩
      simp only
      generalize s.setStack th ((s.txns t).bind (·.toParent)) = s₁
      cases hfrom : (s.txns t).bind (·.fromThread) with
      | none => exact .inl ⟨rfl, by simp⟩
      | some target =>
          simp only
          have hone : (∀ thread, s₁.threads target = some thread → thread.isDead = true) →
              ∀ target' thread, some target = some target' → s₁.threads target' = some thread →
                thread.isDead = true := by
            rintro h _ thread ⟨⟩
            exact h thread
          cases hthread : s₁.threads target with
          | none => exact .inl ⟨rfl, hone (by simp [hthread])⟩
          | some thread =>
              cases hdead : thread.isDead with
              | true => exact .inl ⟨by simp [hdead], hone (by simp [hthread, hdead])⟩
              | false => exact .inr ⟨target, thread, rfl, hthread, hdead, by simp [hdead]⟩

/-- The node a `BC_TRANSACTION` names, or the error it gets instead. -/
def targetNodeOf (s : Driver) (p : ProcId) (handle : Nat) : Except BR NodeId :=
  if handle ≠ 0 then
    match (s.refFindByDesc p handle).bind s.refs with
    | none => .error .failedReply
    | some ref => .ok ref.node
  else
    match s.mgrNodeOf p with
    | none => .error .deadReply
    | some n => .ok n

/-- The live owner of a node. -/
def nodeOwner (s : Driver) (n : NodeId) : Option ProcId :=
  match s.nodes n with
  | none => none
  | some nd =>
      if nd.isDead then none
      else
        match nd.proc with
        | none => none
        | some p =>
            match s.procs p with
            | none => none
            | some proc => if proc.isDead then none else some p

/-- Choose the receiver of a `BC_TRANSACTION`. -/
def selectCall (s : Driver) (p : ProcId) (th : ThreadId) (handle : Nat) (oneway : Bool) :
    Selected :=
  match s.targetNodeOf p handle with
  | .error br => .refused (s.txnError th br)
  | .ok n =>
      match s.nodeOwner n with
      | none => .refused (s.txnError th .deadReply)
      | some tp =>
          let s := s.nodeIncTmpref n
          .target s
            { proc := tp
              thread := if oneway then none else s.targetThreadFor th tp
              node := some n
              inReplyTo := none }

/-! ## The send itself -/

/-- The bounds the rest of the send trusts. -/
def sizesOk (tr : TransactionData) (extraSize : Nat) : Bool :=
  tr.dataSize ≤ maxTransactionSize && tr.offsetsSize ≤ maxTransactionSize &&
    extraSize ≤ maxTransactionSize && tr.offsetsSize % 8 = 0

def offAreaOf (tr : TransactionData) : Nat := align tr.dataSize

def sgAreaOf (tr : TransactionData) : Nat := (offAreaOf tr + align tr.offsetsSize) % 2 ^ 64

def totalOf (tr : TransactionData) (extraSize : Nat) : Nat :=
  (sgAreaOf tr + align extraSize) % 2 ^ 64

/-- The kernel copy before translation: data, offsets, scatter-gather area,
each padded with zeroes. -/
def layoutOf (data offsets : Bytes) (offArea total : Nat) : Bytes :=
  data ++ List.replicate (offArea - data.length) 0 ++ offsets ++
    List.replicate (total - offArea - offsets.length) 0

/-- A payload on its way to the translation loop: refused, perhaps with a
buffer to give back, or in the kernel with a buffer reserved for it. -/
inductive Fetched
  | refused (s : Driver) (buf : Option BufferId)
  | ready (s : Driver) (buf : Buffer) (kdata : Bytes)

/-- The driver after the payload was fetched. -/
def Fetched.drv : Fetched → Driver
  | .refused s _ => s
  | .ready s _ _ => s

/-- The allocations and copies of a send, up to the translation loop. -/
def fetchPayload (env : Env) (s : Driver) (tp : ProcId) (tr : TransactionData)
    (extraSize : Nat) (oneway : Bool) : Fetched :=
  if (s.arenas tp).size = 0 then .refused s none
  else if ¬ sizesOk tr extraSize then .refused s none
  else if totalOf tr extraSize = 0 ∨ maxTransactionSize < totalOf tr extraSize then
    .refused s none
  else
    match s.bufferAlloc env tp tr.dataSize tr.offsetsSize extraSize oneway with
    | (none, s) => .refused s none
    | (some b, s) =>
        match s.allocMem env with
        | (none, s) => .refused s (some b)
        | (some _, s) =>
            match env.copyin tr.buffer tr.dataSize, env.copyin tr.offsets tr.offsetsSize with
            | some data, some offsets =>
                match s.findBuffer tp b with
                | none => .refused s none
                | some buf =>
                    .ready
                      (s.updStats fun st =>
                        { st with kdataBytes := st.kdataBytes + totalOf tr extraSize })
                      buf (layoutOf data offsets (offAreaOf tr) (totalOf tr extraSize))
            | _, _ => .refused s (some b)

/-- The ends of `fetchPayload`: refused before there is a buffer, refused with one
to give back, or ready. -/
theorem fetchPayload_rule {P : Fetched → Prop} (env : Env) (s : Driver) (tp : ProcId)
    (tr : TransactionData) (extraSize : Nat) (oneway : Bool) (hsame : P (.refused s none))
    (hfull : ∀ s₁, s.bufferAlloc env tp tr.dataSize tr.offsetsSize extraSize oneway = (none, s₁) →
      P (.refused s₁ none))
    (halloc : ∀ b s₁, s.bufferAlloc env tp tr.dataSize tr.offsetsSize extraSize oneway =
        (some b, s₁) →
      P (.refused s₁.bumpId (some b)) ∧ P (.refused s₁.bumpId none) ∧
      ∀ data offsets buf, sizesOk tr extraSize = true →
        totalOf tr extraSize ≤ maxTransactionSize →
        env.copyin tr.buffer tr.dataSize = some data →
        env.copyin tr.offsets tr.offsetsSize = some offsets →
        s₁.bumpId.findBuffer tp b = some buf →
        P (.ready (s₁.bumpId.updStats fun st =>
            { st with kdataBytes := st.kdataBytes + totalOf tr extraSize })
          buf (layoutOf data offsets (offAreaOf tr) (totalOf tr extraSize)))) :
    P (fetchPayload env s tp tr extraSize oneway) := by
  unfold fetchPayload
  split
  · exact hsame
  split
  · exact hsame
  rename_i hsizes
  split
  · exact hsame
  rename_i htotal
  cases hb : s.bufferAlloc env tp tr.dataSize tr.offsetsSize extraSize oneway with
  | mk b s₁ =>
      cases b with
      | none => exact hfull s₁ hb
      | some b =>
          obtain ⟨hback, hlost, hready⟩ := halloc b s₁ hb
          simp only [allocMem]
          cases env.allocOk s₁.nextId with
          | false => exact hback
          | true =>
              simp only [if_true]
              cases hdata : env.copyin tr.buffer tr.dataSize with
              | none => exact hback
              | some data =>
                  cases hoffsets : env.copyin tr.offsets tr.offsetsSize with
                  | none => exact hback
                  | some offsets =>
                      simp only
                      cases hfind : s₁.bumpId.findBuffer tp b with
                      | none => exact hlost
                      | some buf =>
                          exact hready data offsets buf (by simpa using hsizes) (by omega) hdata
                            hoffsets hfind

/-- What is known of a payload that reached the translation loop. -/
theorem fetchPayload_ready {env : Env} {s s' : Driver} {tp : ProcId} {tr : TransactionData}
    {extraSize : Nat} {oneway : Bool} {buf : Buffer} {kdata : Bytes}
    (h : fetchPayload env s tp tr extraSize oneway = .ready s' buf kdata) :
    sizesOk tr extraSize = true ∧ totalOf tr extraSize ≤ maxTransactionSize ∧
      ∃ data offsets, env.copyin tr.buffer tr.dataSize = some data ∧
        env.copyin tr.offsets tr.offsetsSize = some offsets ∧
        kdata = layoutOf data offsets (offAreaOf tr) (totalOf tr extraSize) := by
  revert h
  refine fetchPayload_rule (P := fun r => r = .ready s' buf kdata → _) env s tp tr extraSize
    oneway ?_ ?_ ?_
  · simp
  · simp
  · refine fun b s₁ _ => ⟨by simp, by simp, ?_⟩
    rintro data offsets _ hsizes htotal hdata hoffsets _ ⟨⟩
    exact ⟨hsizes, htotal, data, offsets, hdata, hoffsets, rfl⟩

/-- The parcel the translation loop works on. -/
def parcelOf (env : Env) (s : Driver) (p : ProcId) (th : ThreadId) (tgt : Target)
    (tr : TransactionData) (extraSize : Nat) (buf : Buffer) : Parcel where
  env := env
  proc := p
  thread := th
  targetProc := tgt.proc
  targetNode := tgt.node
  dataSize := tr.dataSize
  offArea := offAreaOf tr
  sgArea := sgAreaOf tr
  extraSize := extraSize
  count := tr.offsetsSize / 8
  uaddr := s.bufferUaddr tgt.proc buf

/-- Where the translation of a fetched payload starts. -/
def translationOf (env : Env) (s : Driver) (p : ProcId) (th : ThreadId) (tgt : Target)
    (tr : TransactionData) (extraSize : Nat) (oneway : Bool) : Option (Parcel × LoopState) :=
  match fetchPayload env s tgt.proc tr extraSize oneway with
  | .refused _ _ => none
  | .ready s buf kdata =>
      some (parcelOf env s p th tgt tr extraSize buf, { drv := s, kdata := kdata })

/-- `TAILQ_INSERT_TAIL` on a node's `async_todo`, by hand. -/
def linkBehindNode (s : Driver) (n : NodeId) (t : TxnId) : Driver :=
  { s with queues := s.queues.link (.node n) (.transaction t) }

/-- Queue an accepted transaction: a reply to the caller of the answered call,
a call to the thread that waits or to the pool, a oneway call to the pool or
behind the one its node already has outstanding. -/
def queueTransaction (s : Driver) (th : ThreadId) (tgt : Target) (oneway : Bool)
    (t : TxnId) : Driver :=
  match tgt.inReplyTo with
  | some call =>
      let s := (s.freeTransaction call).note (.reply th call t)
      match tgt.thread with
      | some target =>
          (s.enqueueThreadWork target (.transaction t)).wakeupThread target
      | none => s
  | none =>
      if oneway then
        match tgt.node with
        | none => s
        | some n =>
            if ((s.nodes n).map (·.hasAsyncTransaction)).getD false then
              s.linkBehindNode n t
            else
              ((s.updNode n fun nd => { nd with hasAsyncTransaction := true }).enqueueWork
                tgt.proc (.transaction t)).wakeupProc tgt.proc
      else
        let s := s.updTxn t fun x =>
          { x with fromParent := (s.threads th).bind (·.transactionStack) }
        let s := s.setStack th (some t)
        match tgt.thread with
        | some target =>
            (s.enqueueThreadWork target (.transaction t)).wakeupThread target
        | none => (s.enqueueWork tgt.proc (.transaction t)).wakeupProc tgt.proc

def insertTxn (s : Driver) (t : TxnId) (x : Txn) : Driver :=
  { s with txns := Function.update s.txns t (some x) }

/-- The transaction record, before it is put on a stack. -/
def newRecord (env : Env) (s : Driver) (p : ProcId) (th : ThreadId) (tgt : Target)
    (tr : TransactionData) (reply oneway : Bool) (b : BufferId) : Txn where
  fromThread := if reply || oneway then none else some th
  toProc := tgt.proc
  toThread := tgt.thread
  needReply := !reply && !oneway
  buffer := some b
  code := tr.code
  flags := tr.flags
  senderPid := ((s.procs p).map (·.pid)).getD 0
  senderEuid := env.uid

/-- Make the transaction record and tie it to its buffer. -/
def newTransaction (env : Env) (s : Driver) (p : ProcId) (th : ThreadId) (tgt : Target)
    (tr : TransactionData) (reply oneway : Bool) (b : BufferId) (t : TxnId) : Driver :=
  let s := s.insertTxn t (newRecord env s p th tgt tr reply oneway b)
  (s.updBuffer tgt.proc b fun buf =>
    { buf with transaction := some t, targetNode := tgt.node }).updStats fun st =>
      { st with transactions := st.transactions + 1 }

/-- Undo a refused send: the references its payload took, the bytes, and the
pop of the call it was to answer. -/
def undoSend (s : Driver) (th : ThreadId) (tgt : Target) (buf : Option BufferId) : Driver :=
  let s := s.releasePayload tgt.proc buf
  match tgt.inReplyTo with
  | some t => s.setStack th (some t)
  | none => s

/-- Drop the hold on the target node. -/
def dropTarget (s : Driver) (tgt : Target) : Driver :=
  match tgt.node with
  | some n => s.nodeDecTmpref n
  | none => s

/-- Refuse a send after its receiver was chosen. -/
def refuseSend (s : Driver) (th : ThreadId) (tgt : Target) (buf : Option BufferId) : Driver :=
  ((s.txnError th .failedReply).undoSend th tgt buf).dropTarget tgt

/-- Queue the transaction and its completion, and let go of the target. -/
def acceptSend (env : Env) (s : Driver) (p : ProcId) (th : ThreadId) (tgt : Target)
    (tr : TransactionData) (reply oneway : Bool) (b : BufferId) (t tcomplete : Nat) : Driver :=
  let s := newTransaction env s p th tgt tr reply oneway b t
  let s := s.queueTransaction th tgt oneway t
  let s := s.enqueueThreadWork th (.complete tcomplete)
  (s.note (.accept th t tgt.proc (!reply && !oneway))).dropTarget tgt

/-- A send whose receiver is chosen. -/
def sendTo (env : Env) (s : Driver) (p : ProcId) (th : ThreadId) (tgt : Target)
    (tr : TransactionData) (extraSize : Nat) (reply oneway : Bool) : Driver :=
  match fetchPayload env s tgt.proc tr extraSize oneway with
  | .refused s buf => s.refuseSend th tgt buf
  | .ready s buf kdata =>
      let c := parcelOf env s p th tgt tr extraSize buf
      let (ls, error) := translateLoop c { drv := s, kdata := kdata } (List.range c.count)
      let s := ls.drv.updBuffer tgt.proc buf.id fun buf => { buf with kdata := some ls.kdata }
      match error with
      | some _ => s.refuseSend th tgt (some buf.id)
      | none =>
          match s.allocMem env with
          | (t, s) =>
              match s.allocMem env with
              | (tcomplete, s) =>
                  match t, tcomplete with
                  | some t, some tcomplete =>
                      acceptSend env s p th tgt tr reply oneway buf.id t tcomplete
                  | _, _ => s.refuseSend th tgt (some buf.id)

/-- `binder_transaction` -/
def transaction (env : Env) (s : Driver) (p : ProcId) (th : ThreadId)
    (tr : TransactionData) (reply isSg : Bool) : Driver :=
  let extraSize := if isSg then tr.buffersSize else 0
  let oneway := !reply && isOneWay tr.flags
  match if reply then s.selectReply th else s.selectCall p th tr.handle oneway with
  | .refused s => s
  | .target s tgt => sendTo env s p th tgt tr extraSize reply oneway

/-- The ends of `sendTo`: the payload is refused, the translation or the
allocation of the records fails, or the send is accepted. -/
theorem sendTo_ends (env : Env) (s : Driver) (p : ProcId) (th : ThreadId) (tgt : Target)
    (tr : TransactionData) (extraSize : Nat) (reply oneway : Bool) :
    (∃ s₁ buf, fetchPayload env s tgt.proc tr extraSize oneway = .refused s₁ buf ∧
      sendTo env s p th tgt tr extraSize reply oneway = s₁.refuseSend th tgt buf) ∨
    ∃ s₁ buf kdata c ls error s₂,
      fetchPayload env s tgt.proc tr extraSize oneway = .ready s₁ buf kdata ∧
      parcelOf env s₁ p th tgt tr extraSize buf = c ∧
      translateLoop c { drv := s₁, kdata := kdata } (List.range c.count) = (ls, error) ∧
      (ls.drv.updBuffer tgt.proc buf.id fun buf => { buf with kdata := some ls.kdata }) = s₂ ∧
      (sendTo env s p th tgt tr extraSize reply oneway = s₂.refuseSend th tgt (some buf.id) ∨
        sendTo env s p th tgt tr extraSize reply oneway =
          s₂.bumpId.bumpId.refuseSend th tgt (some buf.id) ∨
        sendTo env s p th tgt tr extraSize reply oneway =
          acceptSend env s₂.bumpId.bumpId p th tgt tr reply oneway buf.id s₂.nextId
            (s₂.nextId + 1)) := by
  unfold sendTo
  cases hf : fetchPayload env s tgt.proc tr extraSize oneway with
  | refused s₁ buf => exact .inl ⟨s₁, buf, rfl, rfl⟩
  | ready s₁ buf kdata =>
      simp only
      generalize hloop : translateLoop (parcelOf env s₁ p th tgt tr extraSize buf)
        { drv := s₁, kdata := kdata }
        (List.range (parcelOf env s₁ p th tgt tr extraSize buf).count) = r
      obtain ⟨ls, error⟩ := r
      refine .inr ⟨s₁, buf, kdata, _, ls, error, _, rfl, rfl, hloop, rfl, ?_⟩
      simp only
      generalize (ls.drv.updBuffer tgt.proc buf.id fun buf =>
        { buf with kdata := some ls.kdata }) = s₂
      cases error with
      | some error => exact .inl rfl
      | none =>
          simp only [allocMem]
          by_cases h₁ : env.allocOk s₂.nextId = true
          · by_cases h₂ : env.allocOk s₂.bumpId.nextId = true
            · simp only [h₁, h₂, if_true]
              exact .inr (.inr rfl)
            · simp only [h₁, h₂, if_true]
              exact .inr (.inl rfl)
          · simp only [h₁]
            exact .inr (.inl rfl)

/-- A transaction is the choice of a receiver, then the send to it. -/
theorem transaction_rule {Q : Selected → Prop} {P : Driver → Prop} (env : Env) (s : Driver)
    (p : ProcId) (th : ThreadId) (tr : TransactionData) (reply isSg : Bool)
    (hreply : Q (s.selectReply th))
    (hcall : Q (s.selectCall p th tr.handle (!reply && isOneWay tr.flags)))
    (hrefused : ∀ s₁, Q (.refused s₁) → P s₁)
    (htarget : ∀ s₁ tgt, Q (.target s₁ tgt) → P (sendTo env s₁ p th tgt tr
      (if isSg then tr.buffersSize else 0) reply (!reply && isOneWay tr.flags))) :
    P (transaction env s p th tr reply isSg) := by
  have hselect : Q (if reply then s.selectReply th
      else s.selectCall p th tr.handle (!reply && isOneWay tr.flags)) := by
    split
    · exact hreply
    · exact hcall
  unfold transaction
  simp only
  generalize (if reply then s.selectReply th
    else s.selectCall p th tr.handle (!reply && isOneWay tr.flags)) = sel at hselect ⊢
  cases sel with
  | refused s₁ => exact hrefused s₁ hselect
  | target s₁ tgt => exact htarget s₁ tgt hselect

end Driver

end Binder
