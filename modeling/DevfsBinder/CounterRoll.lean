import DevfsBinder.FiniteTotals
import DevfsBinder.PoolFrame

/-!
# The counters and what they count

`devfs.c` publishes eight counters, which the driver moves by hand wherever it
makes or releases a record, registers an arena or keeps a payload.  `roll` is the
driver with everything forgotten but the counters and what they are about: which
records there are, how large the arenas are, and which payload each buffer holds.

The roll is `Audited` when every counter is the total of what it counts, up to
`k` bytes of payload that are counted but have not reached their buffer: a send
counts its payload before it translates it.
-/

namespace Binder

/-- One where the table has a record. -/
def present {α : Type} (t : Table α) (i : Nat) : ℤ := if (t i).isSome then 1 else 0

theorem present_insert {α : Type} (t : Table α) (i : Nat) (a : α) :
    present (Function.update t i (some a)) = Function.update (present t) i 1 := by
  funext j
  by_cases hj : j = i
  · subst hj
    simp [present]
  · simp [present, hj]

theorem present_erase {α : Type} (t : Table α) (i : Nat) :
    present (Function.update t i none) = Function.update (present t) i 0 := by
  funext j
  by_cases hj : j = i
  · subst hj
    simp [present]
  · simp [present, hj]

@[simp] theorem present_map {α : Type} (t : Table α) (i : Nat) (f : α → α) :
    present (Function.update t i ((t i).map f)) = present t := by
  funext j
  by_cases hj : j = i
  · subst hj
    simp [present]
  · simp [present, hj]

theorem present_of_some {α : Type} {t : Table α} {i : Nat} {a : α} (h : t i = some a) :
    present t i = 1 := by
  simp [present, h]

/-- A buffer, as far as payload memory is concerned. -/
structure Slot where
  id : BufferId
  free : Bool
  kdata : Option LittleEndian.Bytes

def Buffer.slot (buf : Buffer) : Slot := ⟨buf.id, buf.free, buf.kdata⟩

/-- The payload bytes on a shelf of buffers. -/
def shelved : List Slot → ℤ
  | [] => 0
  | slot :: rest => ((slot.kdata.getD []).length : ℤ) + shelved rest

/-- What the counters are about, and the counters. -/
structure Roll where
  procs : Nat → ℤ
  threads : Nat → ℤ
  nodes : Nat → ℤ
  refs : Nat → ℤ
  txns : Nat → ℤ
  sizes : ProcId → ℤ
  shelves : ProcId → List Slot
  nextId : Nat
  stats : Stats

namespace Roll

/-- A shelf whose buffers have names of their own, and hold payloads only while
they are in use. -/
structure Tidy (shelf : List Slot) (bound : Nat) : Prop where
  nodup : (shelf.map Slot.id).Nodup
  lt : ∀ slot ∈ shelf, slot.id < bound
  empty : ∀ slot ∈ shelf, slot.free = true → slot.kdata = none

/-- Every counter is the total of what it counts. -/
structure Audited (k : ℤ) (r : Roll) : Prop where
  procs : Tally r.procs r.stats.procs r.nextId
  threads : Tally r.threads r.stats.threads r.nextId
  nodes : Tally r.nodes r.stats.nodes r.nextId
  refs : Tally r.refs r.stats.refs r.nextId
  txns : Tally r.txns r.stats.transactions r.nextId
  arenaBytes : Totals r.sizes r.stats.arenaBytes
  kdataBytes : Totals (fun p => shelved (r.shelves p)) (r.stats.kdataBytes - k)
  tidy : ∀ p, Tidy (r.shelves p) r.nextId

theorem Tidy.mono {shelf : List Slot} {k k' : Nat} (h : Tidy shelf k) (hk : k ≤ k') :
    Tidy shelf k' :=
  ⟨h.nodup, fun slot hslot => Nat.lt_of_lt_of_le (h.lt slot hslot) hk, h.empty⟩

end Roll

namespace Driver

variable (s : Driver)

def roll : Roll where
  procs := present s.procs
  threads := present s.threads
  nodes := present s.nodes
  refs := present s.refs
  txns := present s.txns
  sizes p := (s.arenas p).size
  shelves p := (s.arenas p).buffers.map Buffer.slot
  nextId := s.nextId
  stats := s.stats

/-! ## What leaves the roll alone -/

@[simp] theorem updProc_roll (p : ProcId) (f : Proc → Proc) :
    (s.updProc p f).roll = s.roll := by
  simp [roll, updProc]

@[simp] theorem updThread_roll (th : ThreadId) (f : Thread → Thread) :
    (s.updThread th f).roll = s.roll := by
  simp [roll, updThread]

@[simp] theorem updNode_roll (n : NodeId) (f : Node → Node) :
    (s.updNode n f).roll = s.roll := by
  simp [roll, updNode]

@[simp] theorem updRef_roll (r : RefId) (f : Ref → Ref) : (s.updRef r f).roll = s.roll := by
  simp [roll, updRef]

@[simp] theorem updTxn_roll (t : TxnId) (f : Txn → Txn) : (s.updTxn t f).roll = s.roll := by
  simp [roll, updTxn]

@[simp] theorem updDeath_roll (d : DeathId) (f : Death → Death) :
    (s.updDeath d f).roll = s.roll := rfl

@[simp] theorem updContext_roll (c : Nat) (f : Context → Context) :
    (s.updContext c f).roll = s.roll := rfl

/-- A buffer keeps its name and its payload. -/
theorem updBuffer_roll (p : ProcId) (b : BufferId) {f : Buffer → Buffer}
    (hf : ∀ buf, (f buf).slot = buf.slot) : (s.updBuffer p b f).roll = s.roll := by
  have hbuf : ∀ buf : Buffer, (if buf.id = b then f buf else buf).slot = buf.slot := by
    intro buf
    split
    · exact hf buf
    · rfl
  have hshelves : (fun q => ((s.updBuffer p b f).arenas q).buffers.map Buffer.slot) =
      fun q => (s.arenas q).buffers.map Buffer.slot := by
    funext q
    by_cases hq : q = p
    · subst hq
      simp [updBuffer, updArena, Function.comp_def, hbuf]
    · simp [updBuffer, updArena, hq]
  have hsizes : (fun q => (((s.updBuffer p b f).arenas q).size : ℤ)) =
      fun q => ((s.arenas q).size : ℤ) := by
    funext q
    by_cases hq : q = p
    · subst hq
      simp [updBuffer, updArena]
    · simp [updBuffer, updArena, hq]
  simp only [roll, hshelves, hsizes]
  rfl

@[simp] theorem note_roll (e : Event) : (s.note e).roll = s.roll := rfl

@[simp] theorem tell_roll (th : ThreadId) (cmd : BR) (w : Work) :
    (s.tell th cmd w).roll = s.roll := rfl

@[simp] theorem enqueueWork_roll (p : ProcId) (w : Work) :
    (s.enqueueWork p w).roll = s.roll := rfl

@[simp] theorem enqueueThreadWork_roll (th : ThreadId) (w : Work) :
    (s.enqueueThreadWork th w).roll = s.roll := rfl

@[simp] theorem dequeueWork_roll (w : Work) : (s.dequeueWork w).roll = s.roll := rfl

@[simp] theorem linkBehindNode_roll (n : NodeId) (t : TxnId) :
    (s.linkBehindNode n t).roll = s.roll := rfl

@[simp] theorem putBack_roll (q : Queue) (w : Work) : (s.putBack q w).roll = s.roll := rfl

@[simp] theorem insertDeath_roll (d : DeathId) (death : Death) :
    (s.insertDeath d death).roll = s.roll := rfl

@[simp] theorem forgetDeath_roll (d : DeathId) : (s.forgetDeath d).roll = s.roll := rfl

@[simp] theorem unlistNode_roll (p : ProcId) (n : NodeId) :
    (s.unlistNode p n).roll = s.roll := rfl

@[simp] theorem selWakeup_roll (p : ProcId) : (s.selWakeup p).roll = s.roll := rfl

@[simp] theorem wake_roll (c : Channel) : (s.wake c).roll = s.roll := rfl

@[simp] theorem setLock_roll (owner : Option ThreadId) : (s.setLock owner).roll = s.roll := rfl

@[simp] theorem setCall_roll (th : ThreadId) (rc : ReadCall) :
    (s.setCall th rc).roll = s.roll := rfl

@[simp] theorem clearCall_roll (th : ThreadId) : (s.clearCall th).roll = s.roll := rfl

@[simp] theorem finishRead_roll (th : ThreadId) (rc : ReadCall) (error : Option Errno) :
    (s.finishRead th rc error).roll = s.roll := rfl

@[simp] theorem wakeupProc_roll (p : ProcId) : (s.wakeupProc p).roll = s.roll := rfl

@[simp] theorem wakeupThread_roll (th : ThreadId) : (s.wakeupThread th).roll = s.roll := by
  unfold wakeupThread
  split
  · rfl
  · rfl

@[simp] theorem setStack_roll (th : ThreadId) (top : Option TxnId) :
    (s.setStack th top).roll = s.roll := s.updThread_roll th _

@[simp] theorem queueError_roll (th : ThreadId) (br : BR) :
    (s.queueError th br).roll = s.roll := by
  simp [queueError]

@[simp] theorem failCaller_roll (sender : Option ThreadId) (t : TxnId) (br : BR) :
    (s.failCaller sender t br).roll = s.roll := by
  unfold failCaller
  split
  · rfl
  split
  · rfl
  split
  · rfl
  · rw [note_roll]
    simp

@[simp] theorem failUndelivered_roll (t : TxnId) (br : BR) :
    (s.failUndelivered t br).roll = s.roll := by
  unfold failUndelivered
  split
  · simp
  · exact note_roll ..

@[simp] theorem popFrom_roll (th : Option ThreadId) (t : TxnId) (parent : Option TxnId) :
    (s.popFrom th t parent).roll = s.roll := by
  unfold popFrom popStack
  split
  · simp
  · rfl

@[simp] theorem detachBuffer_roll (p : ProcId) (b : Option BufferId) :
    (s.detachBuffer p b).roll = s.roll := by
  unfold detachBuffer
  split
  · exact s.updBuffer_roll p _ fun _ => rfl
  · rfl

@[simp] theorem clearManager_roll (p : ProcId) (n : NodeId) :
    (s.clearManager p n).roll = s.roll := by
  unfold clearManager
  split
  · rfl
  split
  · rfl
  · rfl

@[simp] theorem nodeNotifyOwner_roll (n : NodeId) (thread : Option ThreadId) :
    (s.nodeNotifyOwner n thread).roll = s.roll := by
  unfold nodeNotifyOwner
  split
  · rfl
  split
  · rfl
  split
  · rfl
  split
  · rfl
  split
  · split
    · rfl
    · rfl
  · rfl

@[simp] theorem notifyDeath_roll (r : RefId) : (s.notifyDeath r).roll = s.roll := by
  unfold notifyDeath
  split
  · rfl
  split
  · rfl
  split
  · rfl
  · simp

@[simp] theorem nodeDied_roll (n : NodeId) : (s.nodeDied n).roll = s.roll := by
  simp [nodeDied, foldl_kept roll notifyDeath_roll]

@[simp] theorem releaseDeath_roll (death : Option DeathId) :
    (s.releaseDeath death).roll = s.roll := by
  unfold releaseDeath
  split
  · simp
  · rfl

@[simp] theorem releaseManager_roll (p : ProcId) : (s.releaseManager p).roll = s.roll := by
  apply releaseManager_rule (P := fun s' => s'.roll = s.roll) p rfl
  intro proc m _ _ _
  simp

end Driver

end Binder
