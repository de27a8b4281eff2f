import DevfsBinder.OpenSlots
import DevfsBinder.ReadsInProgress
import DevfsBinder.WriteReadIoctl

/-!
# The ioctl dispatcher

`binder_dev_ioctl`.  The kernel copies the argument in according to the
direction bits of the command word, which Linux numbers the other way round, so
the dispatcher refuses the commands that read their argument when the word says
that it was not copied in.  `binder_cmd_reads_argument` lists these commands, and
the list is short of five.  `BINDER_GET_NODE_DEBUG_INFO`,
`BINDER_GET_NODE_INFO_FOR_REF`, `BINDER_FREEZE` and
`BINDER_ENABLE_ONEWAY_SPAM_DETECTION` act on an argument that nobody sent, and two
successes of theirs can differ.  `BINDER_GET_FROZEN_INFO` looks for the thread its
argument names and is refused if there is none, but all its successes are alike.  Two
successes of any other command that was not sent an argument are alike too
(`unsent_argument_unused_iff`).
-/

namespace Binder

open LittleEndian Driver

/-! ## Commands -/

inductive Ioctl
  | writeRead
  | setIdleTimeout
  | setMaxThreads
  | setIdlePriority
  | setContextMgr
  | threadExit
  | version
  | getNodeDebugInfo
  | getNodeInfoForRef
  | setContextMgrExt
  | freeze
  | getFrozenInfo
  | enableOnewaySpamDetection
  | getExtendedError
  | ctlAdd
  | mslSetArena
  | mslAbiVersion
  deriving DecidableEq, Repr

/-- The command words, with Linux's direction bits. -/
def ioctlWords : List (UInt32 × Ioctl) :=
  [(0xC0306201, .writeRead), (0x40086203, .setIdleTimeout), (0x40046205, .setMaxThreads),
    (0x40046206, .setIdlePriority), (0x40046207, .setContextMgr), (0x40046208, .threadExit),
    (0xC0046209, .version), (0xC018620B, .getNodeDebugInfo), (0xC018620C, .getNodeInfoForRef),
    (0x4018620D, .setContextMgrExt), (0x400C620E, .freeze), (0xC00C620F, .getFrozenInfo),
    (0x40046210, .enableOnewaySpamDetection), (0xC00C6211, .getExtendedError),
    (0xC1086201, .ctlAdd), (0xC01062E0, .mslSetArena), (0xC00462E1, .mslAbiVersion)]

/-- `BINDER_CMD_KEY`: the word without its direction bits. -/
def cmdKey (cmd : UInt32) : UInt32 := cmd &&& 0x3FFFFFFF

/-- `IOC_IN` -/
def iocIn : UInt32 := 0x80000000

/-- The command that a word stands for. -/
def decodeIoctl (cmd : UInt32) : Option Ioctl :=
  (ioctlWords.find? fun w => cmdKey w.1 = cmdKey cmd).map (·.2)

/-- `binder_cmd_reads_argument` -/
def Ioctl.readsArgument : Ioctl → Bool
  | .writeRead | .setMaxThreads | .setContextMgrExt | .mslSetArena | .ctlAdd => true
  | _ => false

/-! ## Answers -/

/-- `struct binder_node_debug_info` -/
structure NodeDebugInfo where
  ptr : Nat := 0
  cookie : Nat := 0
  hasStrongRef : Bool := false
  hasWeakRef : Bool := false
  deriving DecidableEq, Repr

/-- `struct binder_extended_error` -/
structure ExtendedError where
  id : Nat := 0
  command : Nat := 0
  param : Nat := 0
  deriving DecidableEq, Repr

/-- What a handler stores in the argument. -/
inductive Answer
  | nothing
  | word (value : Nat)
  | nodeDebugInfo (info : NodeDebugInfo)
  | nodeInfoForRef (strongCount weakCount : Nat)
  | frozenInfo (syncRecv asyncRecv : Nat)
  | extendedError (error : ExtendedError)
  | device (major minor : Nat)
  deriving DecidableEq, Repr

/-- The devices and what only the dispatcher uses: the major number, and of each
process whether it asked for the detection of oneway spam and its last error. -/
structure IoctlState extends Device where
  major : Nat := 0
  onewaySpamDetection : ProcId → Bool := fun _ => false
  lastError : ProcId → ExtendedError := fun _ => {}

/-- How an ioctl ends: the driver and the tables, the error and the answer; or it
goes on in `binder_ioctl_write_read`, which may sleep. -/
inductive IoctlOutcome
  | served (st : IoctlState) (error : Option Errno) (answer : Answer)
  | writeRead (st : IoctlState) (p : ProcId) (th : ThreadId) (bwr : WriteRead)

/-! ## Handlers -/

namespace Driver

variable (s : Driver)

/-- One turn of the search of `BINDER_GET_NODE_DEBUG_INFO`. -/
def debugInfoTurn (after : Nat) (info : NodeDebugInfo) (n : NodeId) : NodeDebugInfo :=
  match s.nodes n with
  | none => info
  | some nd =>
      if nd.ptr ≤ after then info
      else if info.ptr = 0 ∨ nd.ptr < info.ptr then
        { ptr := nd.ptr
          cookie := nd.cookie
          hasStrongRef := nd.hasStrongRef
          hasWeakRef := nd.hasWeakRef }
      else info

/-- `BINDER_GET_NODE_DEBUG_INFO` -/
def nodeDebugInfo (p : ProcId) (after : Nat) : NodeDebugInfo :=
  (s.procNodes p).foldl (s.debugInfoTurn after) {}

/-- `BINDER_GET_NODE_INFO_FOR_REF` -/
def nodeInfoForRef (p : ProcId) (handle : Nat) : Option (Nat × Nat) :=
  match s.refFindByDesc p handle with
  | none => none
  | some r =>
      match (s.refs r).bind fun ref => s.nodes ref.node with
      | none => none
      | some nd =>
          some ((nd.internalStrongRefs + nd.localStrongRefs) % 2^32, nd.localWeakRefs % 2^32)

end Driver

namespace IoctlState

variable (st : IoctlState)

def setDriver (s : Driver) : IoctlState := { st with driver := s }

/-- The driver did something and answers nothing. -/
def acted (r : Driver × Option Errno) : IoctlOutcome := .served (st.setDriver r.1) r.2 .nothing

/-- `struct binder_write_read` as it stands in the argument. -/
def writeReadOf (arg : Bytes) : WriteRead :=
  { writeSize := field arg 0 8
    writeConsumed := field arg 8 8
    writeBuffer := field arg 16 8
    readSize := field arg 24 8
    readConsumed := field arg 32 8
    readBuffer := field arg 40 8 }

/-- The command is served for thread `th` of process `p`. -/
def serve (env : Env) (p : ProcId) (th : ThreadId) (arg : Bytes) : Option Ioctl → IoctlOutcome
  | some .version => .served st none (.word 8)
  | some .mslAbiVersion => .served st none (.word 1)
  | some .mslSetArena => st.acted (st.driver.arenaRegister env p (field arg 0 8) (field arg 8 8))
  | some .writeRead => .writeRead st p th (writeReadOf arg)
  | some .setMaxThreads => st.acted (st.driver.setMaxThreads p (field arg 0 4))
  | some .setContextMgr => st.acted (st.driver.contextMgrSet env p 0 0 0)
  | some .setContextMgrExt =>
      st.acted (st.driver.contextMgrSet env p (field arg 8 8) (field arg 16 8) (field arg 4 4))
  | some .threadExit => st.acted (st.driver.threadRelease p th, none)
  | some .getNodeDebugInfo =>
      .served st none (.nodeDebugInfo (st.driver.nodeDebugInfo p (field arg 0 8)))
  | some .getNodeInfoForRef =>
      match st.driver.nodeInfoForRef p (field arg 0 4) with
      | none => .served st (some .einval) .nothing
      | some counts => .served st none (.nodeInfoForRef counts.1 counts.2)
  | some .setIdleTimeout | some .setIdlePriority => .served st none .nothing
  | some .freeze =>
      st.acted (st.driver.freezeThread p (field arg 0 4) (field arg 4 4 ≠ 0) (field arg 8 4))
  | some .getFrozenInfo =>
      match st.driver.threadLookup p (field arg 0 4) with
      | none => .served st (some .einval) (.frozenInfo 0 0)
      | some _ => .served st none (.frozenInfo 0 0)
  | some .enableOnewaySpamDetection =>
      .served { st with
        onewaySpamDetection := Function.update st.onewaySpamDetection p (field arg 0 4 ≠ 0) }
        none .nothing
  | some .getExtendedError =>
      .served { st with lastError := Function.update st.lastError p {} } none
        (.extendedError (st.lastError p))
  | some .ctlAdd | none => .served st (some .enotty) .nothing

/-- `binder_ctl_add`; `made` says whether `devfs` makes the node. -/
def ctlAdd (made : Bool) (arg : Bytes) : IoctlOutcome :=
  match st.nodes.ctlAdd (slice arg 0 256) made with
  | (t, .error error) => .served { st with nodes := t } (some error) .nothing
  | (t, .ok i) => .served { st with nodes := t } none (.device st.major i)

/-- `binder_dev_ioctl` by the thread with id `tid` of whoever has minor `m`
open. -/
def devIoctl (env : Env) (made : Bool) (tid m : Nat) (cmd : UInt32) (arg : Bytes) :
    IoctlOutcome :=
  match Device.slotForDev m with
  | none =>
      if m = ctlMinor ∧ decodeIoctl cmd = some .ctlAdd then
        if cmd &&& iocIn = 0 then .served st (some .einval) .nothing else st.ctlAdd made arg
      else .served st (some .enotty) .nothing
  | some i =>
      if (decodeIoctl cmd).any Ioctl.readsArgument ∧ cmd &&& iocIn = 0 then
        .served st (some .einval) .nothing
      else
        match (st.slots i).proc with
        | none => .served st (some .enxio) .nothing
        | some p =>
            if st.driver.procAlive p then
              match threadGet env st.driver p tid with
              | (none, s) => .served (st.setDriver s) (some .enomem) .nothing
              | (some th, s) => (st.setDriver s).serve env p th arg (decodeIoctl cmd)
            else .served st (some .enxio) .nothing

/-- The caller may start an ioctl: nobody holds the lock, and the calling thread is
in no read. -/
def CanEnter (tid m : Nat) : Prop :=
  st.driver.lockedBy = none ∧ ∀ i p th, Device.slotForDev m = some i →
    (st.slots i).proc = some p → st.driver.threadLookup p tid = some th →
    st.driver.calls th = none

end IoctlState

/-- The states that ioctls and everything else that happens to the devices lead
to. -/
inductive IoctlRun : IoctlState → Prop
  | init (major : Nat) : IoctlRun { major := major }
  | device {st : IoctlState} (h : IoctlRun st) (a : DeviceAction) :
      IoctlRun { st with toDevice := st.toDevice.act a }
  | ioctl {st st' : IoctlState} {error : Option Errno} {answer : Answer} (h : IoctlRun st)
      (env : Env) (made : Bool) (tid m : Nat) (cmd : UInt32) (arg : Bytes)
      (henter : st.CanEnter tid m)
      (heq : st.devIoctl env made tid m cmd arg = .served st' error answer) : IoctlRun st'

/-! ## The devices in such runs -/

namespace Driver

variable {s s' : Driver}

/-- The thread that an ioctl is served for may start it. -/
theorem Reachable.threadGet_idle (h : Reachable s) {env : Env} {p : ProcId} {tid : Nat}
    {th : ThreadId} (hlock : s.lockedBy = none) (halive : s.procAlive p = true)
    (hcalls : ∀ th, s.threadLookup p tid = some th → s.calls th = none)
    (heq : threadGet env s p tid = (some th, s')) :
    s' = s.act (.enter env p tid) ∧
      ∃ thread, s'.idleThread th = some thread ∧ thread.proc = p := by
  have hact : s' = s.act (.enter env p tid) := by
    rw [act, if_pos ⟨hlock, halive⟩, heq]
  refine ⟨hact, ?_⟩
  unfold threadGet at heq
  split at heq
  · rename_i th' hlookup
    cases heq
    obtain ⟨thread, hth, hproc⟩ := (h.steady.sound.threads.mem_iff p th).mp
      (List.mem_of_find?_eq_some hlookup)
    cases hproc
    refine ⟨thread, ?_, rfl⟩
    rw [idleThread, hth]
    exact if_pos ⟨hlock, hcalls th hlookup, halive⟩
  · split at heq
    · cases heq
    · rename_i hlookup _ th' s₁ halloc
      cases heq
      obtain ⟨hnew, hbump⟩ := Prod.mk.inj halloc
      obtain rfl : s.nextId = th := by
        split at hnew
        · exact Option.some.inj hnew
        · cases hnew
      subst hbump
      have hfresh : s.calls s.nextId = none := by
        rw [Option.eq_none_iff_forall_ne_some]
        intro rc hrc
        have hknown := h.attended.known s.nextId rc.unwoken (by simp [standing, hrc])
        have hhome : (s.view.procOf s.nextId).isSome := by
          rw [view_procOf]
          exact hknown
        exact Nat.lt_irrefl _ (h.steady.base.thread_lt hhome)
      refine ⟨{ proc := p, tid := tid }, ?_, rfl⟩
      have hth : (s.bumpId.insertThread s.nextId p tid).threads s.nextId =
          some { proc := p, tid := tid } := Function.update_self ..
      rw [idleThread, hth]
      exact if_pos ⟨hlock, hfresh, halive⟩

end Driver

namespace IoctlState

open Device

variable {st st' : IoctlState} {error : Option Errno} {answer : Answer}

/-- What a handler leaves is what an action of the driver leaves. -/
theorem kept_of_acted (h : st.toDevice.Kept) {r : Driver × Option Errno} (a : Action)
    (ha : ∀ p, a ≠ .devClose p) (hact : st.driver.act a = r.1)
    (heq : st.acted r = .served st' error answer) : st'.toDevice.Kept := by
  cases heq
  rw [setDriver, ← hact]
  exact h.driver fun _ p _ => ha p

/-- **Every command that is served at once** keeps the device's invariant. -/
theorem serve_kept (h : st.toDevice.Kept) {env : Env} {th : ThreadId} {thread : Thread}
    {arg : Bytes} (hidle : st.driver.idleThread th = some thread) (cmd : Option Ioctl)
    (heq : st.serve env thread.proc th arg cmd = .served st' error answer) :
    st'.toDevice.Kept := by
  have hwith : ∀ f, st.driver.withIdle th f = f thread := by
    intro f
    rw [withIdle, hidle]
  cases cmd with
  | none => cases heq; exact h
  | some c =>
      cases c with
      | mslSetArena =>
          refine kept_of_acted h (.setArena env th (field arg 0 8) (field arg 8 8)) ?_ (hwith _) heq
          exact fun _ ha => by cases ha
      | setMaxThreads =>
          refine kept_of_acted h (.setMaxThreads th (field arg 0 4)) ?_ (hwith _) heq
          exact fun _ ha => by cases ha
      | setContextMgr =>
          refine kept_of_acted h (.setContextMgr env th 0 0 0) ?_ (hwith _) heq
          exact fun _ ha => by cases ha
      | setContextMgrExt =>
          refine kept_of_acted h (.setContextMgr env th (field arg 8 8) (field arg 16 8)
            (field arg 4 4)) ?_ (hwith _) heq
          exact fun _ ha => by cases ha
      | threadExit =>
          have hact : st.driver.act (.threadExit th) = st.driver.threadRelease thread.proc th :=
            hwith _
          refine kept_of_acted h (.threadExit th) ?_ hact heq
          exact fun _ ha => by cases ha
      | freeze =>
          refine kept_of_acted h (.freeze th (field arg 0 4) (field arg 4 4 ≠ 0) (field arg 8 4)) ?_
            (hwith _) heq
          exact fun _ ha => by cases ha
      | writeRead => cases heq
      | getNodeInfoForRef =>
          unfold serve at heq
          simp only at heq
          split at heq
          · cases heq; exact h
          · cases heq; exact h
      | getFrozenInfo =>
          unfold serve at heq
          simp only at heq
          split at heq
          · cases heq; exact h
          · cases heq; exact h
      | _ => cases heq; exact h

/-- **An ioctl** keeps the device's invariant. -/
theorem devIoctl_kept (h : st.toDevice.Kept) {env : Env} {made : Bool} {tid m : Nat}
    {cmd : UInt32} {arg : Bytes} (henter : st.CanEnter tid m)
    (heq : st.devIoctl env made tid m cmd arg = .served st' error answer) :
    st'.toDevice.Kept := by
  unfold devIoctl at heq
  split at heq
  · split at heq
    · split at heq
      · cases heq; exact h
      · unfold ctlAdd at heq
        split at heq
        · cases heq
          exact h.act (.contexts _)
        · cases heq
          exact h.act (.contexts _)
    · cases heq; exact h
  · split at heq
    · cases heq; exact h
    · split at heq
      · cases heq; exact h
      · rename_i i hslot _ _ p hproc
        split at heq
        · rename_i halive
          have hcalls := fun th => henter.2 i p th hslot hproc
          split at heq
          · rename_i s' hget
            cases heq
            have hact : s' = st.driver.act (.enter env p tid) := by
              rw [Driver.act, if_pos ⟨henter.1, halive⟩, hget]
            rw [setDriver, hact]
            exact h.driver fun _ _ _ ha => by cases ha
          · rename_i th s' hget
            obtain ⟨hact, thread, hidle, rfl⟩ :=
              h.reachable.threadGet_idle henter.1 halive hcalls hget
            refine serve_kept ?_ hidle (decodeIoctl cmd) heq
            rw [setDriver, hact]
            exact h.driver fun _ _ _ ha => by cases ha
        · cases heq; exact h

end IoctlState

/-- **Run.**  Ioctls, too, leave the slots in order and the driver in a reachable
state. -/
theorem IoctlRun.kept {st : IoctlState} (h : IoctlRun st) : st.toDevice.Kept := by
  induction h with
  | init major =>
      have hinit : DeviceRun (fun _ _ _ => True) {} [] := .init
      exact hinit.kept
  | device h a ih => exact ih.act a
  | ioctl h env made tid m cmd arg henter heq ih => exact IoctlState.devIoctl_kept ih henter heq

/-! ## Arguments that were not sent -/

/-- The commands that read their argument without being listed, and whose successes
depend on it.  `BINDER_GET_FROZEN_INFO` reads one too, but it decides only whether the
command succeeds. -/
def Ioctl.readsUnlisted : Ioctl → Bool
  | .getNodeDebugInfo | .getNodeInfoForRef | .freeze | .enableOnewaySpamDetection => true
  | _ => false

/-- The state and the answer of a success. -/
def IoctlOutcome.result : IoctlOutcome → Option (IoctlState × Answer)
  | .served st none answer => some (st, answer)
  | _ => none

/-- The outcomes are equal if both are successes. -/
def IoctlOutcome.Agrees (o o' : IoctlOutcome) : Prop :=
  ∀ r r', o.result = some r → o'.result = some r' → r = r'

theorem IoctlOutcome.Agrees.refl (o : IoctlOutcome) : o.Agrees o := by
  intro r r' hr hr'
  exact Option.some.inj (hr.symm.trans hr')

theorem IoctlOutcome.Agrees.of_left {o o' : IoctlOutcome} (h : o.result = none) : o.Agrees o' := by
  intro r r' hr
  cases h.symm.trans hr

namespace IoctlState

variable (st : IoctlState)

/-- A command that is listed neither way is served alike whatever the argument. -/
theorem serve_agrees (env : Env) (p : ProcId) (th : ThreadId) (arg arg' : Bytes)
    {cmd : Option Ioctl} (hlisted : cmd.any Ioctl.readsArgument = false)
    (hunlisted : cmd.any Ioctl.readsUnlisted = false) :
    (st.serve env p th arg cmd).Agrees (st.serve env p th arg' cmd) := by
  cases cmd with
  | none => exact .refl _
  | some c =>
      cases c with
      | writeRead | setMaxThreads | setContextMgrExt | mslSetArena | ctlAdd => cases hlisted
      | getNodeDebugInfo | getNodeInfoForRef | freeze | enableOnewaySpamDetection =>
          cases hunlisted
      | getFrozenInfo =>
          -- the answer is the same for every thread that is found
          unfold serve
          simp only
          split
          · exact .of_left rfl
          · intro r r' hr hr'
            split at hr'
            · cases hr'
            · exact Option.some.inj (hr.symm.trans hr')
      | _ => exact .refl _

/-- A command that is sent no argument, and reads none, does not depend on it. -/
theorem devIoctl_agrees (env : Env) (made : Bool) (tid m : Nat) (arg arg' : Bytes) {cmd : UInt32}
    (hin : cmd &&& iocIn = 0) (hunlisted : (decodeIoctl cmd).any Ioctl.readsUnlisted = false) :
    (st.devIoctl env made tid m cmd arg).Agrees (st.devIoctl env made tid m cmd arg') := by
  unfold devIoctl
  split
  · simp only [if_pos hin]
    exact .refl _
  · split
    · exact .refl _
    · rename_i hlisted
      split
      · exact .refl _
      · split
        · split
          · exact .refl _
          · refine serve_agrees _ env _ _ arg arg' ?_ hunlisted
            exact Bool.eq_false_iff.mpr fun hread => hlisted ⟨hread, hin⟩
        · exact .refl _

/-- An ioctl that is listed neither as reading its argument nor as `BINDER_CTL_ADD`
does not depend on the direction bits. -/
theorem devIoctl_congr (env : Env) (made : Bool) (tid m : Nat) (arg : Bytes) {cmd cmd' : UInt32}
    (hsame : decodeIoctl cmd = decodeIoctl cmd')
    (hlisted : (decodeIoctl cmd').any Ioctl.readsArgument = false) :
    st.devIoctl env made tid m cmd arg = st.devIoctl env made tid m cmd' arg := by
  have hctl : decodeIoctl cmd' ≠ some .ctlAdd := by
    intro heq
    rw [heq] at hlisted
    cases hlisted
  unfold devIoctl
  simp only [hsame, hlisted, hctl, and_false, Bool.false_eq_true, false_and, if_false]

end IoctlState

theorem IoctlRun.devices {st : IoctlState} (h : IoctlRun st) (as : List DeviceAction) :
    IoctlRun { st with toDevice := as.foldl Device.act st.toDevice } := by
  induction as generalizing st with
  | nil => exact h
  | cons a as ih => exact ih (h.device a)

/-- Processes 1 and 5 have opened the device of context 0 with slots 0 and 1.
Process 1 manages the context and holds its own node as handle 0, and process 5
has sent it an object, which it holds as handle 1. -/
def sharingState : IoctlState where
  toDevice :=
    [deviceNodesUp, .lookup 10 0, .devOpen {} 10 64, .driver (.enter {} 1 100),
      .driver (.setArena {} 2 0x100000 0x20000), .driver (.setContextMgr {} 2 0 0 0),
      .lookup 11 0, .devOpen {} 11 65, .driver (.enter {} 5 200),
      .driver (.setArena {} 6 0x200000 0x20000), .driver shareObject,
      .driver (.command {} 2 (.reference true true 0))].foldl Device.act {}

theorem sharingState_run : IoctlRun sharingState := (IoctlRun.init 0).devices _

theorem IoctlState.canEnter_of {st : IoctlState} {tid m : Nat} (i : Nat) (p : ProcId)
    (th : ThreadId) (hlock : st.driver.lockedBy = none) (hslot : Device.slotForDev m = some i)
    (hproc : (st.slots i).proc = some p) (hth : st.driver.threadLookup p tid = some th)
    (hcalls : st.driver.calls th = none) : st.CanEnter tid m := by
  refine ⟨hlock, fun i' p' th' hslot' hproc' hth' => ?_⟩
  cases hslot.symm.trans hslot'
  cases hproc.symm.trans hproc'
  cases hth.symm.trans hth'
  exact hcalls

theorem sharingState_manager : sharingState.CanEnter 100 64 :=
  IoctlState.canEnter_of 0 1 2 (by decide +kernel) (by decide) (by decide +kernel)
    (by decide +kernel) (by decide +kernel)

theorem sharingState_client : sharingState.CanEnter 200 65 :=
  IoctlState.canEnter_of 1 5 6 (by decide +kernel) (by decide) (by decide +kernel)
    (by decide +kernel) (by decide +kernel)

/-- Two successes that can be told apart. -/
theorem IoctlOutcome.not_agrees {α : Type} {o o' : IoctlOutcome} (f : IoctlState × Answer → α)
    (a a' : α) (h : o.result.map f = some a) (h' : o'.result.map f = some a') (hne : a ≠ a') :
    ¬ o.Agrees o' := by
  intro hagrees
  obtain ⟨r, hr, rfl⟩ := Option.map_eq_some_iff.mp h
  obtain ⟨r', hr', rfl⟩ := Option.map_eq_some_iff.mp h'
  exact hne (congrArg f (hagrees r r' hr hr'))

/-- Each command that reads an argument unlisted can be seen to. -/
theorem readsUnlisted_disagrees {cmd : UInt32}
    (hread : (decodeIoctl cmd).any Ioctl.readsUnlisted = true) :
    ∃ st, IoctlRun st ∧ ∃ tid m, st.CanEnter tid m ∧ ∃ arg arg',
      ¬ (st.devIoctl {} true tid m cmd arg).Agrees (st.devIoctl {} true tid m cmd arg') := by
  have hword : ∀ {c} (word : UInt32), decodeIoctl cmd = some c → decodeIoctl word = some c →
      c.readsArgument = false → ∀ tid m arg,
      sharingState.devIoctl {} true tid m cmd arg =
        sharingState.devIoctl {} true tid m word arg := by
    intro c word hc hword hlisted tid m arg
    refine sharingState.devIoctl_congr {} true tid m arg (hc.trans hword.symm) ?_
    rw [hword]
    exact hlisted
  refine ⟨sharingState, sharingState_run, ?_⟩
  cases hc : decodeIoctl cmd with
  | none =>
      rw [hc] at hread
      cases hread
  | some c =>
      rw [hc] at hread
      cases c with
      | getNodeDebugInfo =>
          refine ⟨200, 65, sharingState_client, leBytes 24 0, leBytes 24 0x6000, ?_⟩
          rw [hword 0x4018620B hc (by decide) rfl, hword 0x4018620B hc (by decide) rfl]
          exact IoctlOutcome.not_agrees (·.2) (.nodeDebugInfo { ptr := 0x5000 })
            (.nodeDebugInfo {}) (by decide +kernel) (by decide +kernel) (by decide)
      | getNodeInfoForRef =>
          refine ⟨100, 64, sharingState_manager, leBytes 24 0, leBytes 24 1, ?_⟩
          rw [hword 0x4018620C hc (by decide) rfl, hword 0x4018620C hc (by decide) rfl]
          exact IoctlOutcome.not_agrees (·.2) (.nodeInfoForRef 2 1) (.nodeInfoForRef 1 0)
            (by decide +kernel) (by decide +kernel) (by decide)
      | freeze =>
          refine ⟨200, 65, sharingState_client, leBytes 4 200 ++ leBytes 8 1,
            leBytes 4 200 ++ leBytes 8 0, ?_⟩
          rw [hword 0x400C620E hc (by decide) rfl, hword 0x400C620E hc (by decide) rfl]
          exact IoctlOutcome.not_agrees (fun r => (r.1.driver.threads 6).map (·.frozen))
            (some true) (some false) (by decide +kernel) (by decide +kernel) (by decide)
      | enableOnewaySpamDetection =>
          refine ⟨200, 65, sharingState_client, leBytes 4 1, leBytes 4 0, ?_⟩
          rw [hword 0x40046210 hc (by decide) rfl, hword 0x40046210 hc (by decide) rfl]
          exact IoctlOutcome.not_agrees (fun r => r.1.onewaySpamDetection 5) true false
            (by decide +kernel) (by decide +kernel) (by decide)
      | _ => cases hread

/-- **Arguments that were not sent.**  Take a command whose word says that the argument
was not copied in.  Any two of its successes from the same state agree in the state they
lead to and in what they answer, whatever the argument, exactly when it is none of the
four of `Ioctl.readsUnlisted`. -/
theorem unsent_argument_unused_iff (cmd : UInt32) (hin : cmd &&& iocIn = 0) :
    (∀ st, IoctlRun st → ∀ env made tid m, st.CanEnter tid m → ∀ arg arg',
      (st.devIoctl env made tid m cmd arg).Agrees (st.devIoctl env made tid m cmd arg')) ↔
      (decodeIoctl cmd).any Ioctl.readsUnlisted = false := by
  constructor
  · intro hall
    rw [Bool.eq_false_iff]
    intro hread
    obtain ⟨st, hst, tid, m, henter, arg, arg', hne⟩ := readsUnlisted_disagrees hread
    exact hne (hall st hst {} true tid m henter arg arg')
  · intro hunlisted st _ env made tid m _ arg arg'
    exact st.devIoctl_agrees env made tid m arg arg' hin hunlisted

/-- `BINDER_THREAD_EXIT` with Linux's direction bits. -/
theorem unsent_argument_unused_threadExit :
    (sharingState.devIoctl {} true 200 65 0x40046208 (leBytes 4 0)).Agrees
      (sharingState.devIoctl {} true 200 65 0x40046208 (leBytes 4 1)) :=
  (unsent_argument_unused_iff 0x40046208 (by decide)).mpr (by decide) sharingState sharingState_run
    {} true 200 65 sharingState_client _ _

/-- `BINDER_ENABLE_ONEWAY_SPAM_DETECTION` with Linux's direction bits does what an
argument says that the client did not send. -/
theorem spam_detection_unsent : (0x40046210 : UInt32) &&& iocIn = 0 ∧
    IoctlRun sharingState ∧ sharingState.CanEnter 200 65 ∧
    ¬ (sharingState.devIoctl {} true 200 65 0x40046210 (leBytes 4 1)).Agrees
      (sharingState.devIoctl {} true 200 65 0x40046210 (leBytes 4 0)) :=
  ⟨by decide, sharingState_run, sharingState_client,
    IoctlOutcome.not_agrees (fun r => r.1.onewaySpamDetection 5) true false (by decide +kernel)
      (by decide +kernel) (by decide)⟩

end Binder
