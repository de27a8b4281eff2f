import DevfsBinder.ReadLoop

/-!
# Runs of the driver

The device as its clients see it: opens, closes and ioctls of any number of
processes, interleaved in any order the driver lock allows.  One `Action` is
what happens under the lock between two points where another thread could
take it, except that a read is cut into its turns and a write into its
commands.  `lockedBy` keeps every other thread out while a read is between two
turns; a write may stop after any command anyway, since a client may submit
its commands one ioctl at a time.

`act` does nothing when the action is not enabled.  `Reaches ok` are the
states of the runs all of whose steps satisfy `ok`.
-/

namespace Binder

namespace Driver

inductive Action
  /-- `open` of a clone of context `ctx`'s device -/
  | devOpen (env : Env) (pid ctx : Nat)
  /-- the last close of that device -/
  | devClose (p : ProcId)
  /-- an ioctl of a thread the driver may not know yet -/
  | enter (env : Env) (p : ProcId) (tid : Nat)
  /-- `BINDER_MSL_SET_ARENA` -/
  | setArena (env : Env) (th : ThreadId) (addr size : Nat)
  /-- `BINDER_SET_MAX_THREADS` -/
  | setMaxThreads (th : ThreadId) (max : Nat)
  /-- `BINDER_SET_CONTEXT_MGR_EXT`; the plain form passes zeroes -/
  | setContextMgr (env : Env) (th : ThreadId) (ptr cookie flags : Nat)
  /-- `BINDER_THREAD_EXIT` -/
  | threadExit (th : ThreadId)
  /-- `BINDER_FREEZE` -/
  | freeze (th : ThreadId) (tid : Nat) (enable : Bool) (timeoutMs : Nat)
  /-- `d_select` by a thread that finds nothing to read -/
  | select (p : ProcId)
  /-- one command of a write -/
  | command (env : Env) (th : ThreadId) (c : Command)
  /-- the prologue of a read -/
  | readStart (env : Env) (th : ThreadId) (buffer size consumed : Nat)
  /-- one turn of a read -/
  | readTurn (env : Env) (th : ThreadId)
  /-- a sleeping read comes back -/
  | resume (th : ThreadId) (signal : Bool)
  /-- a finished read returns to its client -/
  | leave (th : ThreadId)

/-- A thread that may start an ioctl: the driver knows it, its process is open,
it is not inside a read and nobody holds the lock. -/
def idleThread (s : Driver) (th : ThreadId) : Option Thread :=
  match s.threads th with
  | none => none
  | some thread =>
      if s.lockedBy = none ∧ s.calls th = none ∧ s.procAlive thread.proc then some thread
      else none

/-- `BINDER_FREEZE` -/
def freezeThread (s : Driver) (p : ProcId) (tid : Nat) (enable : Bool) (timeoutMs : Nat) :
    Driver × Option Errno :=
  match s.threadLookup p tid with
  | none => (s, some .einval)
  | some th =>
      (s.updThread th fun thread =>
        { thread with frozen := enable, freezeTimeoutMs := timeoutMs }, none)

/-- `BINDER_SET_MAX_THREADS` -/
def setMaxThreads (s : Driver) (p : ProcId) (max : Nat) : Driver × Option Errno :=
  if 1024 < max then (s, some .einval)
  else (s.updProc p fun proc => { proc with maxThreads := max }, none)

/-- Run `f` for a thread that may start an ioctl. -/
def withIdle (s : Driver) (th : ThreadId) (f : Thread → Driver) : Driver :=
  match s.idleThread th with
  | some thread => f thread
  | none => s

/-- Run `f` for a read that is in the state `pick` accepts. -/
def withCall {α : Type} (s : Driver) (th : ThreadId) (pick : ReadStatus → Option α)
    (f : Thread → ReadCall → α → Driver) : Driver :=
  match s.threads th, s.calls th with
  | some thread, some rc =>
      match pick rc.status with
      | some a => f thread rc a
      | none => s
  | _, _ => s

def ReadStatus.running? : ReadStatus → Option Unit
  | .running => some ()
  | _ => none

def ReadStatus.asleep? : ReadStatus → Option (Channel × Bool)
  | .asleep chan woken => some (chan, woken)
  | _ => none

def ReadStatus.returned? : ReadStatus → Option (Option Errno)
  | .returned error => some error
  | _ => none

/-- What an action does. -/
def act (s : Driver) : Action → Driver
  | .devOpen env pid ctx => if s.lockedBy = none then (procNew env s pid ctx).2 else s
  | .devClose p => if s.lockedBy = none ∧ (s.procs p).isSome then s.procRelease p else s
  | .enter env p tid =>
      if s.lockedBy = none ∧ s.procAlive p then (threadGet env s p tid).2 else s
  | .setArena env th addr size =>
      s.withIdle th fun thread => (s.arenaRegister env thread.proc addr size).1
  | .setMaxThreads th max =>
      s.withIdle th fun thread => (s.setMaxThreads thread.proc max).1
  | .setContextMgr env th ptr cookie flags =>
      s.withIdle th fun thread => (s.contextMgrSet env thread.proc ptr cookie flags).1
  | .threadExit th => s.withIdle th fun thread => s.threadRelease thread.proc th
  | .freeze th tid enable timeoutMs =>
      s.withIdle th fun thread => (s.freezeThread thread.proc tid enable timeoutMs).1
  | .select p =>
      if s.lockedBy = none ∧ s.procAlive p then
        { s with selRecorded := Function.update s.selRecorded p true }
      else s
  | .command env th c =>
      s.withIdle th fun thread => (s.writeCommand env thread.proc th c).1
  | .readStart env th buffer size consumed =>
      s.withIdle th fun _ =>
        if 0 < size then readStart env s th buffer size consumed else s
  | .readTurn env th =>
      s.withCall th ReadStatus.running? fun thread rc _ => readTurn env s th thread rc
  | .resume th signal =>
      s.withCall th ReadStatus.asleep? fun thread rc sleep =>
        if s.lockedBy = none ∧ (sleep.2 ∨ signal) then s.resume th thread rc sleep.1 signal
        else s
  | .leave th =>
      s.withCall th ReadStatus.returned? fun thread _ _ => s.leaveRead th thread

/-- What an action comes to: nothing, where it is not possible or is refused, and
otherwise a call of what serves it. -/
inductive Performs (s : Driver) : Action → Driver → Prop
  | refused (a : Action) : Performs s a s
  | devOpen (env : Env) (pid ctx : Nat) :
      Performs s (.devOpen env pid ctx) (procNew env s pid ctx).2
  | devClose (p : ProcId) (hopen : (s.procs p).isSome) : Performs s (.devClose p) (s.procRelease p)
  | enter (env : Env) (p : ProcId) (tid : Nat) (halive : s.procAlive p = true) :
      Performs s (.enter env p tid) (threadGet env s p tid).2
  | setArena (env : Env) (th : ThreadId) (thread : Thread) (addr size : Nat)
      (hidle : s.idleThread th = some thread) :
      Performs s (.setArena env th addr size) (s.arenaRegister env thread.proc addr size).1
  | setMaxThreads (th : ThreadId) (thread : Thread) (max : Nat)
      (hidle : s.idleThread th = some thread) :
      Performs s (.setMaxThreads th max)
        (s.updProc thread.proc fun proc => { proc with maxThreads := max })
  | setContextMgr (env : Env) (th : ThreadId) (thread : Thread) (ptr cookie flags : Nat)
      (hidle : s.idleThread th = some thread) :
      Performs s (.setContextMgr env th ptr cookie flags)
        (s.contextMgrSet env thread.proc ptr cookie flags).1
  | threadExit (th : ThreadId) (thread : Thread) (hidle : s.idleThread th = some thread) :
      Performs s (.threadExit th) (s.threadRelease thread.proc th)
  | freeze (th th' : ThreadId) (tid : Nat) (enable : Bool) (timeoutMs : Nat) :
      Performs s (.freeze th tid enable timeoutMs) (s.updThread th' fun thread =>
        { thread with frozen := enable, freezeTimeoutMs := timeoutMs })
  | select (p : ProcId) :
      Performs s (.select p) { s with selRecorded := Function.update s.selRecorded p true }
  | command (env : Env) (th : ThreadId) (thread : Thread) (c : Command)
      (hidle : s.idleThread th = some thread) :
      Performs s (.command env th c) (s.writeCommand env thread.proc th c).1
  | readStart (env : Env) (th : ThreadId) (thread : Thread) (buffer size consumed : Nat)
      (hidle : s.idleThread th = some thread) :
      Performs s (.readStart env th buffer size consumed) (readStart env s th buffer size consumed)
  | readTurn (env : Env) (th : ThreadId) (thread : Thread) (rc : ReadCall)
      (hth : s.threads th = some thread) (hrc : s.calls th = some rc)
      (hrunning : rc.status = .running) :
      Performs s (.readTurn env th) (readTurn env s th thread rc)
  | resume (th : ThreadId) (thread : Thread) (rc : ReadCall) (chan : Channel)
      (woken signal : Bool) (hth : s.threads th = some thread) (hrc : s.calls th = some rc)
      (hasleep : rc.status = .asleep chan woken) (hlock : s.lockedBy = none) :
      Performs s (.resume th signal) (s.resume th thread rc chan signal)
  | leave (th : ThreadId) (thread : Thread) (rc : ReadCall) (error : Option Errno)
      (hth : s.threads th = some thread) (hrc : s.calls th = some rc)
      (hreturned : rc.status = .returned error) : Performs s (.leave th) (s.leaveRead th thread)

theorem withIdle_rule {P : Driver → Prop} {s : Driver} {th : ThreadId} {f : Thread → Driver}
    (hs : P s) (hf : ∀ thread, s.idleThread th = some thread → P (f thread)) :
    P (s.withIdle th f) := by
  unfold withIdle
  split
  · exact hf _ (by assumption)
  · exact hs

theorem withCall_rule {P : Driver → Prop} {α : Type} {s : Driver} {th : ThreadId}
    {pick : ReadStatus → Option α} {f : Thread → ReadCall → α → Driver} (hs : P s)
    (hf : ∀ thread rc a, s.threads th = some thread → s.calls th = some rc →
      pick rc.status = some a → P (f thread rc a)) : P (s.withCall th pick f) := by
  unfold withCall
  split
  · split
    · exact hf _ _ _ (by assumption) (by assumption) (by assumption)
    · exact hs
  · exact hs

/-- **Rule.**  Whatever is to be said of an action is said of what serves it. -/
theorem act_performs (s : Driver) (a : Action) : Performs s a (s.act a) := by
  cases a with
  | devOpen env pid ctx =>
      rw [act]
      split
      · exact .devOpen env pid ctx
      · exact .refused _
  | devClose p =>
      rw [act]
      split
      · exact .devClose p (And.right ‹_›)
      · exact .refused _
  | enter env p tid =>
      rw [act]
      split
      · exact .enter env p tid (And.right ‹_›)
      · exact .refused _
  | setArena env th addr size =>
      exact withIdle_rule (.refused _) fun thread hidle => .setArena env th thread addr size hidle
  | setMaxThreads th max =>
      refine withIdle_rule (.refused _) fun thread hidle => ?_
      unfold setMaxThreads
      split
      · exact .refused _
      · exact .setMaxThreads th thread max hidle
  | setContextMgr env th ptr cookie flags =>
      exact withIdle_rule (.refused _) fun thread hidle =>
        .setContextMgr env th thread ptr cookie flags hidle
  | threadExit th =>
      exact withIdle_rule (.refused _) fun thread hidle => .threadExit th thread hidle
  | freeze th tid enable timeoutMs =>
      refine withIdle_rule (.refused _) fun thread _ => ?_
      unfold freezeThread
      split
      · exact .refused _
      · exact .freeze th _ tid enable timeoutMs
  | select p =>
      rw [act]
      split
      · exact .select p
      · exact .refused _
  | command env th c =>
      exact withIdle_rule (.refused _) fun thread hidle => .command env th thread c hidle
  | readStart env th buffer size consumed =>
      refine withIdle_rule (.refused _) fun thread hidle => ?_
      split
      · exact .readStart env th thread buffer size consumed hidle
      · exact .refused _
  | readTurn env th =>
      refine withCall_rule (.refused _) fun thread rc x hth hrc hpick =>
        .readTurn env th thread rc hth hrc ?_
      unfold ReadStatus.running? at hpick
      split at hpick
      · assumption
      · cases hpick
  | resume th signal =>
      refine withCall_rule (.refused _) fun thread rc sleep hth hrc hpick => ?_
      unfold ReadStatus.asleep? at hpick
      split at hpick
      · cases hpick
        split
        · exact .resume th thread rc _ _ signal hth hrc ‹_› (And.left ‹_›)
        · exact .refused _
      · cases hpick
  | leave th =>
      refine withCall_rule (.refused _) fun thread rc error hth hrc hpick => ?_
      unfold ReadStatus.returned? at hpick
      split at hpick
      · exact .leave th thread rc _ hth hrc ‹_›
      · cases hpick

/-- The states of the runs from `s₀` whose every step, taken in state `s` by action
`a`, satisfies `ok s a`. -/
inductive RunsFrom (ok : Driver → Action → Prop) (s₀ : Driver) : Driver → Prop
  | start : RunsFrom ok s₀ s₀
  | step {s : Driver} (a : Action) (h : RunsFrom ok s₀ s) (hok : ok s a) :
      RunsFrom ok s₀ (s.act a)

/-- The states of such runs of a driver that has just been loaded. -/
def Reaches (ok : Driver → Action → Prop) : Driver → Prop := RunsFrom ok Driver.init

/-- The states of all runs. -/
def Reachable (s : Driver) : Prop := Reaches (fun _ _ => True) s

section Runs

variable {ok : Driver → Action → Prop} {s₀ s : Driver}

theorem Reaches.init : Reaches ok Driver.init := RunsFrom.start

theorem Reaches.step (a : Action) (h : Reaches ok s) (hok : ok s a) : Reaches ok (s.act a) :=
  RunsFrom.step a h hok

/-- A run from a reachable state reaches only such states. -/
theorem RunsFrom.reachable (h : RunsFrom ok s₀ s) (h₀ : Reachable s₀) : Reachable s := by
  induction h with
  | start => exact h₀
  | step a _ _ ih => exact .step a ih trivial

theorem Reaches.reachable (h : Reaches ok s) : Reachable s := RunsFrom.reachable h .init

/-- **Invariant rule.**  What holds initially and is kept by every allowed step
holds in every state reached. -/
theorem Reaches.invariant {P : Driver → Prop} (hinit : P Driver.init)
    (hstep : ∀ s a, Reaches ok s → P s → ok s a → P (s.act a)) (h : Reaches ok s) : P s := by
  induction h with
  | start => exact hinit
  | step a hs hok ih => exact hstep _ a hs ih hok

/-- Run a list of actions. -/
def run (s : Driver) (as : List Action) : Driver := as.foldl act s

/-- Every state of a run from a reachable state is reachable. -/
theorem Reachable.run (h : Reachable s) (as : List Action) : Reachable (s.run as) := by
  induction as generalizing s with
  | nil => exact h
  | cons a as ih => exact ih (Reaches.step a h trivial)

/-- Every step of the run passes a check. -/
def checks (ok : Driver → Action → Bool) : Driver → List Action → Bool
  | _, [] => true
  | s, a :: as => ok s a && checks ok (s.act a) as

/-- A run whose steps all pass a check that implies `ok`. -/
theorem RunsFrom.run {check : Driver → Action → Bool}
    (himp : ∀ s a, Reachable s → check s a = true → ok s a) (h₀ : Reachable s₀)
    (h : RunsFrom ok s₀ s) (as : List Action) (has : checks check s as = true) :
    RunsFrom ok s₀ (s.run as) := by
  induction as generalizing s with
  | nil => exact h
  | cons a as ih =>
      simp only [checks, Bool.and_eq_true] at has
      exact ih (.step a h (himp s a (h.reachable h₀) has.1)) has.2

theorem Reaches.run {check : Driver → Action → Bool}
    (himp : ∀ s a, Reachable s → check s a = true → ok s a) (h : Reaches ok s)
    (as : List Action) (has : checks check s as = true) : Reaches ok (s.run as) :=
  RunsFrom.run himp .init h as has

end Runs

/-! ## Clients

How a client lays out a parcel in its memory and sends it. -/

/-- User memory made of the given regions, unmapped elsewhere. -/
def regions (rs : List (Nat × LittleEndian.Bytes)) : Nat → Option UInt8 := fun addr =>
  rs.findSome? fun r => if r.1 ≤ addr then r.2[addr - r.1]? else none

/-- A parcel: its bytes and the positions of its objects. -/
structure Message where
  handle : Nat := 0
  flags : Nat := 0
  data : LittleEndian.Bytes
  offsets : List Nat := []

/-- The client's memory with the parcel in it. -/
def Message.env (m : Message) : Env :=
  { mem := regions [(0x1000, m.data), (0x8000, m.offsets.flatMap (LittleEndian.leBytes 8))] }

/-- The transaction record that names the parcel. -/
def Message.data64 (m : Message) : TransactionData :=
  { handle := m.handle
    code := 0
    flags := m.flags
    dataSize := m.data.length
    offsetsSize := 8 * m.offsets.length
    buffer := 0x1000
    offsets := 0x8000
    buffersSize := 0 }

/-- `BC_TRANSACTION` with a parcel. -/
def Message.send (m : Message) (th : ThreadId) : Action :=
  .command m.env th (.transaction false false m.data64)

/-- `BC_REPLY` with a parcel. -/
def Message.reply (m : Message) (th : ThreadId) : Action :=
  .command m.env th (.transaction true false m.data64)

/-- Two processes in context 0: process 1 with thread 2, an arena and the
manager node 4, and process 5 with thread 6 and an arena. -/
def twoProcesses : List Action :=
  [.devOpen {} 10 0, .enter {} 1 100, .setArena {} 2 0x100000 0x20000,
    .setContextMgr {} 2 0 0 0, .devOpen {} 11 0, .enter {} 5 200,
    .setArena {} 6 0x200000 0x20000]

/-- A parcel with one object of the sender in it. -/
def objectParcel : Message :=
  { flags := 1
    data := LittleEndian.leBytes 4 0x73622a85 ++ LittleEndian.leBytes 4 0 ++
      LittleEndian.leBytes 8 0x5000 ++ LittleEndian.leBytes 8 0
    offsets := [0] }

/-- Process 5 sends the manager an object of its own, oneway. -/
def shareObject : Action := objectParcel.send 6

/-- The manager sends process 5's object a oneway transaction. -/
def tellObject : Action :=
  ({ handle := 1, flags := 1, data := LittleEndian.leBytes 8 7 } : Message).send 2

/-- Process 5 shares its object and hears about it, the manager sends the
object a oneway transaction, and thread 6 of process 5 receives it. -/
def tellAndDeliver : List Action :=
  [shareObject, .readStart {} 6 0x9000 64 0, .readTurn {} 6, .leave 6, tellObject,
    .command {} 6 .enterLooper, .readStart {} 6 0x9000 256 0, .readTurn {} 6, .readTurn {} 6,
    .readTurn {} 6, .leave 6]

/-- The two processes are up. -/
def twoProcessesUp : Driver := Driver.init.run twoProcesses

end Driver

end Binder
