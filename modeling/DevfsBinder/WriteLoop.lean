import DevfsBinder.ThreadTeardown

/-!
# The write loop

The half of `BINDER_WRITE_READ` that consumes the client's `BC_` commands.
`writeCommand` is the body of the loop once the command word and its payload
have been fetched; `threadWrite` is the loop over the client's buffer.
-/

namespace Binder

open LittleEndian

namespace Driver

/-- `binder_write_ref_cmd`: a reference command naming a handle.  Asking for
handle 0 is how a process that holds no reference to the manager gets one. -/
def writeRefCmd (env : Env) (s : Driver) (p : ProcId) (th : ThreadId)
    (strong increment : Bool) (desc : Nat) : Driver × Option Errno :=
  match s.refFindByDesc p desc with
  | some r => s.refUpdate r strong increment (some th)
  | none =>
      if ¬ increment ∨ desc ≠ 0 then (s, some .einval)
      else
        match s.mgrNodeOf p with
        | none => (s, some .einval)
        | some n =>
            match s.refGetForNode env p n with
            | (none, s) => (s, some .enomem)
            | (some r, s) => s.refUpdate r strong increment (some th)

/-- Let the next oneway transaction of a node through, or note that there is
none. -/
def nextAsync (s : Driver) (p : ProcId) (n : NodeId) : Driver :=
  match s.nodes n with
  | none => s
  | some nd =>
      if nd.hasAsyncTransaction then
        match s.items (.node n) with
        | w :: _ => ((s.dequeueWork w).enqueueWork p w).wakeupProc p
        | [] => s.updNode n fun nd => { nd with hasAsyncTransaction := false }
      else s

/-- `binder_write_free_buffer` -/
def writeFreeBuffer (s : Driver) (p : ProcId) (dataPtr : Nat) : Driver × Option Errno :=
  match s.bufferLookup p dataPtr with
  | none => (s, some .einval)
  | some buf =>
      if ¬ buf.allowUserFree then (s, some .einval)
      else
        let s := s.bufferRelease p buf.id
        let s := match buf.transaction with
          | some t =>
              (s.updTxn t fun x => { x with buffer := none }).updBuffer p buf.id
                fun buf => { buf with transaction := none }
          | none => s
        let s := s.bufferFree p buf.id
        match buf.targetNode with
        | some n => (s.nextAsync p n, none)
        | none => (s, none)

/-- `BC_INCREFS_DONE` and `BC_ACQUIRE_DONE` -/
def writeDone (s : Driver) (p : ProcId) (strong : Bool) (ptr : Nat) : Driver × Option Errno :=
  match s.nodeFind p ptr with
  | none => (s, some .einval)
  | some n =>
      (s.updNode n fun nd =>
        if strong then { nd with pendingStrongRef := false }
        else { nd with pendingWeakRef := false }, none)

/-- `BC_REGISTER_LOOPER` -/
def registerLooper (s : Driver) (p : ProcId) (th : ThreadId) : Driver :=
  (s.updProc p fun proc =>
    if 0 < proc.requestedThreads then
      { proc with
        requestedThreads := proc.requestedThreads - 1
        requestedThreadsStarted := proc.requestedThreadsStarted + 1 }
    else proc).updThread th fun thread =>
      { thread with looper := { thread.looper with registered := true } }

/-- `BC_ENTER_LOOPER` -/
def enterLooper (s : Driver) (th : ThreadId) : Driver :=
  s.updThread th fun thread =>
    { thread with
      looper :=
        { thread.looper with
          invalid := thread.looper.invalid || thread.looper.registered
          entered := true } }

/-- `BC_EXIT_LOOPER` -/
def exitLooper (s : Driver) (th : ThreadId) : Driver :=
  s.updThread th fun thread =>
    { thread with looper := { thread.looper with exited := true } }

/-- One command of `binder_thread_write`. -/
def writeCommand (env : Env) (s : Driver) (p : ProcId) (th : ThreadId) :
    Command → Driver × Option Errno
  | .reference strong increment desc => s.writeRefCmd env p th strong increment desc
  | .done strong ptr => s.writeDone p strong ptr
  | .freeBuffer ptr => s.writeFreeBuffer p ptr
  | .transaction reply isSg tr => (transaction env s p th tr reply isSg, none)
  | .registerLooper => (s.registerLooper p th, none)
  | .enterLooper => (s.enterLooper th, none)
  | .exitLooper => (s.exitLooper th, none)
  | .requestDeathNotification handle cookie => s.deathRequest env p th handle cookie
  | .clearDeathNotification handle cookie => s.deathClear p th handle cookie
  | .deadBinderDone _ => (s, none)
  | .refused => (s, some .einval)

/-- Fetch the next command of a write buffer: the word, then its payload, each
moving `consumed` as it is read. -/
def fetchCommand (env : Env) (buffer consumed : Nat) : Nat × Option Command :=
  match env.copyin ((buffer + consumed) % 2 ^ 64) 4 with
  | none => (consumed, none)
  | some word =>
      let code := field word 0 4
      let consumed := (consumed + 4) % 2 ^ 64
      match env.copyin ((buffer + consumed) % 2 ^ 64) (commandPayload code) with
      | none => (consumed, none)
      | some payload =>
          ((consumed + commandPayload code) % 2 ^ 64, some (decodeCommand code payload))

/-- `binder_thread_write`, at most `fuel` commands of it: the driver, the bytes
consumed and the error. -/
def threadWrite (env : Env) (p : ProcId) (th : ThreadId) (buffer size : Nat) :
    Nat → Driver → Nat → Driver × Nat × Option Errno
  | 0, s, consumed => (s, consumed, none)
  | fuel+1, s, consumed =>
      if (consumed + 4) % 2 ^ 64 ≤ size then
        match fetchCommand env buffer consumed with
        | (consumed, none) => (s, consumed, some .efault)
        | (consumed, some c) =>
            match s.writeCommand env p th c with
            | (s, some error) => (s, consumed, some error)
            | (s, none) => threadWrite env p th buffer size fuel s consumed
      else (s, consumed, none)

end Driver

end Binder
