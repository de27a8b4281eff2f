import DevfsBinder.WireFormat
import DevfsBinder.IntrusiveQueue

/-!
# The driver's own state

What a binder process, thread, node, reference, buffer and transaction are on
the driver's side of the ioctl (`binder_internal.h`).

A record is named by its address, here a natural number that is never handed
out twice.  `binder_free_mem` removes the record from its table, so a pointer
that outlives its record is a number no table knows: a write through it is
lost and a read through it finds nothing.  Reference counts are unbounded.

The list heads of `struct binder_proc` and `struct binder_node` are columns of
their own (`procRefs`, `nodeRefs`, ...), so that an operation on one of them
visibly leaves the rest of the record alone.  `lockedBy` is the thread whose
read loop holds `binder_lock` between two of its turns.  `trace`, `told` and
`freed` are not in the source: newest first, they record what became of
transactions, which news about objects was written to which thread's read
buffer, and which death records were released.
-/

namespace Binder

open LittleEndian

abbrev ProcId := Nat
abbrev ThreadId := Nat
abbrev NodeId := Nat
abbrev RefId := Nat
abbrev TxnId := Nat
abbrev BufferId := Nat
abbrev DeathId := Nat

/-- Records by address; a released record is absent. -/
abbrev Table (α : Type) := Nat → Option α

/-! ## Work items -/

/-- The three kinds of list a work item can be linked on: a process's `todo`,
a thread's `todo`, a node's `async_todo`. -/
inductive Queue
  | proc (p : ProcId)
  | thread (th : ThreadId)
  | node (n : NodeId)
  deriving DecidableEq, Repr

/-- A `binder_work`, named by the record it is embedded in. -/
inductive Work
  | transaction (t : TxnId)
  | complete (c : Nat)
  | returnError (th : ThreadId)
  | node (n : NodeId)
  | death (d : DeathId)
  deriving DecidableEq, Repr

/-- The work types a death record takes in turn. -/
inductive DeathWork
  | deadBinder
  | deadBinderAndClear
  | clearDeathNotification
  deriving DecidableEq, Repr

/-- Sleep channels: a process's queue for pool threads, the thread itself for
directed work. -/
inductive Channel
  | proc (p : ProcId)
  | thread (th : ThreadId)
  deriving DecidableEq, Repr

/-! ## Records -/

structure Node where
  proc : Option ProcId
  ptr : Nat
  cookie : Nat
  flags : Nat
  internalStrongRefs : Nat := 0
  localStrongRefs : Nat := 0
  localWeakRefs : Nat := 0
  tmpRefs : Nat := 0
  hasStrongRef : Bool := false
  hasWeakRef : Bool := false
  pendingStrongRef : Bool := false
  pendingWeakRef : Bool := false
  hasAsyncTransaction : Bool := false
  acceptFds : Bool
  isDead : Bool := false
  deriving DecidableEq, Repr

structure Death where
  cookie : Nat
  type : DeathWork
  deriving DecidableEq, Repr

/-- A handle.  `node` is set when the handle is made and never cleared. -/
structure Ref where
  proc : ProcId
  node : NodeId
  desc : Nat
  strong : Nat := 0
  weak : Nat := 0
  death : Option DeathId := none
  deriving DecidableEq, Repr

/-- One allocation inside a process's arena.  `kdata_size` is the length of
`kdata`. -/
structure Buffer where
  id : BufferId
  offset : Nat
  size : Nat
  free : Bool := true
  async : Bool := false
  allowUserFree : Bool := false
  dataSize : Nat := 0
  offsetsSize : Nat := 0
  extraBuffersSize : Nat := 0
  transaction : Option TxnId := none
  targetNode : Option NodeId := none
  kdata : Option Bytes := none
  deriving DecidableEq, Repr

/-- The arena half of `struct binder_proc`. -/
structure Arena where
  addr : Nat := 0
  size : Nat := 0
  freeAsyncSpace : Nat := 0
  buffers : List Buffer := []
  deriving DecidableEq, Repr

structure Txn where
  fromThread : Option ThreadId
  fromParent : Option TxnId := none
  toProc : ProcId
  toThread : Option ThreadId
  toParent : Option TxnId := none
  needReply : Bool
  buffer : Option BufferId
  code : Nat
  flags : Nat
  senderPid : Nat
  senderEuid : Nat
  deriving DecidableEq, Repr

/-- The bits of `binder_thread.looper`. -/
structure Looper where
  registered : Bool := false
  entered : Bool := false
  exited : Bool := false
  invalid : Bool := false
  waiting : Bool := false
  needReturn : Bool := false
  deriving DecidableEq, Repr

structure Thread where
  proc : ProcId
  tid : Nat
  looper : Looper := {}
  isDead : Bool := false
  transactionStack : Option TxnId := none
  returnError : BR := .ok
  frozen : Bool := false
  freezeTimeoutMs : Nat := 0
  deriving DecidableEq, Repr

structure Proc where
  pid : Nat
  context : Nat
  maxThreads : Nat := 15
  requestedThreads : Nat := 0
  requestedThreadsStarted : Nat := 0
  readyThreads : Nat := 0
  isDead : Bool := false
  deriving DecidableEq, Repr

structure Context where
  mgrNode : Option NodeId := none
  mgrUid : Nat := 0
  mgrUidValid : Bool := false
  deriving DecidableEq, Repr

/-- The `binder_stat_*` counters. -/
structure Stats where
  procs : Int := 0
  threads : Int := 0
  nodes : Int := 0
  refs : Int := 0
  transactions : Int := 0
  arenaBytes : Int := 0
  kdataBytes : Int := 0
  failedTransactions : Int := 0
  deriving DecidableEq, Repr

/-! ## A read in progress -/

/-- Where a call of `binder_thread_read` has got to.  A sleeper remembers its
channel and whether it has been woken since it went to sleep. -/
inductive ReadStatus
  | running
  | asleep (chan : Channel) (woken : Bool)
  | returned (error : Option Errno)
  deriving DecidableEq, Repr

/-- The arguments and locals of `binder_thread_read`.  `out` is the bytes the
call has appended to the read buffer and `cmds` the commands it meant by them,
payloads included; the source keeps neither. -/
structure ReadCall where
  buffer : Nat
  size : Nat
  start : Nat
  consumed : Nat
  wroteSomething : Bool := false
  status : ReadStatus := .running
  out : Bytes := []
  cmds : List (BR × Bytes) := []
  deriving DecidableEq, Repr

/-- Wake a sleeper that sleeps on `c`. -/
def ReadCall.wake (c : Channel) (rc : ReadCall) : ReadCall :=
  match rc.status with
  | .asleep chan _ => if chan = c then { rc with status := .asleep chan true } else rc
  | _ => rc

/-! ## History -/

/-- What the driver did, as far as its clients can tell.

* `accept th t p call`: a send by `th` was accepted as transaction `t` for
  process `p`; `call` says that a reply is owed;
* `emit th cmd w`: command `cmd` was written to a read buffer of `th` on
  behalf of `w`, a transaction, a completion or an error;
* `fail th t`: an error answering call `t` was queued to its sender `th`;
* `refuse th`: an error answering a send of its own was queued to `th`;
* `reply th t r`: a `BC_REPLY` of `th` answered call `t` with transaction `r`;
* `discard t`: transaction `t` was released undelivered with nobody told. -/
inductive Event
  | accept (th : ThreadId) (t : TxnId) (p : ProcId) (call : Bool)
  | emit (th : ThreadId) (cmd : BR) (w : Work)
  | fail (th : ThreadId) (t : TxnId)
  | refuse (th : ThreadId)
  | reply (th : ThreadId) (t r : TxnId)
  | discard (t : TxnId)
  deriving DecidableEq, Repr

/-! ## The driver -/

structure Driver where
  procs : Table Proc := fun _ => none
  procThreads : ProcId → List ThreadId := fun _ => []
  procNodes : ProcId → List NodeId := fun _ => []
  procRefs : ProcId → List RefId := fun _ => []
  arenas : ProcId → Arena := fun _ => {}
  threads : Table Thread := fun _ => none
  nodes : Table Node := fun _ => none
  nodeRefs : NodeId → List RefId := fun _ => []
  refs : Table Ref := fun _ => none
  deaths : Table Death := fun _ => none
  txns : Table Txn := fun _ => none
  queues : Queues Queue Work := Queues.empty
  contexts : Nat → Context := fun _ => {}
  calls : Table ReadCall := fun _ => none
  selRecorded : ProcId → Bool := fun _ => false
  lockedBy : Option ThreadId := none
  nextId : Nat := 1
  stats : Stats := {}
  trace : List Event := []
  told : List (ThreadId × BR × Work) := []
  freed : List DeathId := []

/-- The driver before the first open. -/
def Driver.init : Driver := {}

theorem eight_dvd_pageSize : 8 ∣ 4096 := ⟨512, rfl⟩

/-- What the kernel around the driver answers during one step: the calling
process's memory as `copyin` sees it, which `copyout`s succeed, which
allocations succeed (asked by the address they would return), the bytes of
kernel memory outside a payload copy, the caller's uid and the page size, a
multiple of eight. -/
structure Env where
  mem : Nat → Option UInt8 := fun _ => none
  copyoutOk : Nat → Nat → Bool := fun _ _ => true
  allocOk : Nat → Bool := fun _ => true
  wild : Nat → UInt8 := fun _ => 0
  uid : Nat := 0
  pageSize : Nat := 4096
  pageSize_dvd : 8 ∣ pageSize := by exact eight_dvd_pageSize

/-- `copyin` of `n` bytes: all of them, or a fault. -/
def Env.copyin (env : Env) (addr : Nat) : Nat → Option Bytes
  | 0 => some []
  | n+1 =>
      match env.mem addr, env.copyin (addr+1) n with
      | some b, some bs => some (b :: bs)
      | _, _ => none

theorem Env.copyin_length {env : Env} {addr n : Nat} {bs : Bytes}
    (h : env.copyin addr n = some bs) : bs.length = n := by
  induction n generalizing addr bs with
  | zero => simp [copyin] at h; simp [← h]
  | succ n ih =>
      rw [copyin] at h
      split at h
      · rename_i hrest
        rw [← Option.some.inj h, List.length_cons, ih hrest]
      · cases h

namespace Driver

variable (s : Driver)

/-- An address is used up. -/
def bumpId : Driver := { s with nextId := s.nextId + 1 }

/-- `binder_alloc_mem`: a fresh address, or nothing. -/
def allocMem (env : Env) : Option Nat × Driver :=
  (if env.allocOk s.nextId then some s.nextId else none, s.bumpId)

def updProc (p : ProcId) (f : Proc → Proc) : Driver :=
  { s with procs := Function.update s.procs p ((s.procs p).map f) }

def updThread (th : ThreadId) (f : Thread → Thread) : Driver :=
  { s with threads := Function.update s.threads th ((s.threads th).map f) }

def updNode (n : NodeId) (f : Node → Node) : Driver :=
  { s with nodes := Function.update s.nodes n ((s.nodes n).map f) }

def updRef (r : RefId) (f : Ref → Ref) : Driver :=
  { s with refs := Function.update s.refs r ((s.refs r).map f) }

def updTxn (t : TxnId) (f : Txn → Txn) : Driver :=
  { s with txns := Function.update s.txns t ((s.txns t).map f) }

def updDeath (d : DeathId) (f : Death → Death) : Driver :=
  { s with deaths := Function.update s.deaths d ((s.deaths d).map f) }

def updArena (p : ProcId) (f : Arena → Arena) : Driver :=
  { s with arenas := Function.update s.arenas p (f (s.arenas p)) }

def updContext (c : Nat) (f : Context → Context) : Driver :=
  { s with contexts := Function.update s.contexts c (f (s.contexts c)) }

/-- Change the buffer `b` of `p`'s arena in place. -/
def updBuffer (p : ProcId) (b : BufferId) (f : Buffer → Buffer) : Driver :=
  s.updArena p fun a =>
    { a with buffers := a.buffers.map fun buf => if buf.id = b then f buf else buf }

/-- The buffer a pointer names, if it still is in `p`'s arena. -/
def findBuffer (p : ProcId) (b : BufferId) : Option Buffer :=
  (s.arenas p).buffers.find? fun buf => buf.id = b

def updStats (f : Stats → Stats) : Driver :=
  { s with stats := f s.stats }

def note (e : Event) : Driver :=
  { s with trace := e :: s.trace }

/-- Record a command written on behalf of news about an object. -/
def tell (th : ThreadId) (cmd : BR) (w : Work) : Driver :=
  { s with told := (th, cmd, w) :: s.told }

/-! ## Queues and wake-ups -/

/-- `binder_enqueue_work` -/
def enqueueWork (p : ProcId) (w : Work) : Driver :=
  { s with queues := s.queues.insert (.proc p) w false }

/-- `binder_enqueue_thread_work` -/
def enqueueThreadWork (th : ThreadId) (w : Work) : Driver :=
  { s with queues := s.queues.insert (.thread th) w false }

/-- `binder_dequeue_work` -/
def dequeueWork (w : Work) : Driver :=
  { s with queues := s.queues.remove w }

theorem dequeueWork_loc_self (w : Work) : (s.dequeueWork w).queues.loc w = none := by
  rw [dequeueWork, Queues.remove_loc, if_pos rfl]

/-- `BINDER_WORK_QUEUED` -/
def workQueued (w : Work) : Bool := (s.queues.loc w).isSome

/-- The contents of a queue, first item first. -/
def items (q : Queue) : List Work := s.queues.items q

/-- `binder_wake` -/
def wake (c : Channel) : Driver :=
  { s with calls := fun th => (s.calls th).map (ReadCall.wake c) }

/-- The `selwakeup` of a process that recorded itself in `select`. -/
def selWakeup (p : ProcId) : Driver :=
  { s with selRecorded := Function.update s.selRecorded p false }

/-- `binder_wakeup_proc` -/
def wakeupProc (p : ProcId) : Driver :=
  (s.wake (.proc p)).selWakeup p

/-- `binder_wakeup_thread` -/
def wakeupThread (th : ThreadId) : Driver :=
  match s.threads th with
  | some thread => (s.wake (.thread th)).selWakeup thread.proc
  | none => s.wake (.thread th)

end Driver

end Binder
