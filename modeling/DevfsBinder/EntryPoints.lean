import DevfsBinder.IoctlDispatch
import DevfsBinder.WriteStream

/-!
# The entry points of the driver

The kernel reaches the driver through `binder_clone` and the functions of
`binder_cdevsw`: open, close, ioctl and select.  Only `BINDER_WRITE_READ` does
not return at once: it executes the commands of the write buffer and goes into
the read loop, which takes turns, sleeps, wakes and leaves.  `Entry` is one step
of this machine, as the entry points take it.  A request to `binder-control` is one step
too, although `binder_ctl_add` drops the lock between reserving an entry and publishing
its node; `Adding` in `DeviceNodes` has its two parts, with other requests in between.

The driver's own machine is finer.  It takes a command at a time, and does not
care which device a thread came through.  Every step of an entry point is a run
of it, and so every state that the entry points lead to is one that the results
about the driver are about (`entry_points_reachable`).
-/

namespace Binder

open LittleEndian Driver

namespace Driver

/-- `binder_has_work`, also for a thread that the driver has not seen. -/
def pollWork (s : Driver) (p : ProcId) : Option ThreadId → Bool
  | none => !(s.items (.proc p)).isEmpty
  | some th =>
      match s.threads th with
      | some thread => s.hasWork th thread
      | none => false

/-- `binder_ioctl_write_read` up to the first turn of the read loop: the commands,
at most `fuel` of them, and unless one is refused the start of the read. -/
def ioctlWriteRead (env : Env) (s : Driver) (p : ProcId) (th : ThreadId) (bwr : WriteRead)
    (fuel : Nat) : Driver :=
  match s.writeHalf env p th bwr fuel with
  | (s, _, some _) => s
  | (s, _, none) =>
      if 0 < bwr.readSize then readStart env s th bwr.readBuffer bwr.readSize bwr.readConsumed
      else s

end Driver

/-- What a `select` waits for. -/
inductive SelectWhich
  | fread
  | fwrite
  | other

/-- `binder_dev_select` by the thread with id `tid`. -/
def Device.devSelect (d : Device) (tid m : Nat) : SelectWhich → Device × Bool
  | .fwrite => (d, true)
  | .other => (d, false)
  | .fread =>
      match slotForDev m with
      | none => (d, false)
      | some i =>
          match (d.slots i).proc with
          | none => (d, true)
          | some p =>
              if d.driver.procAlive p then
                if d.driver.pollWork p (d.driver.threadLookup p tid) then (d, true)
                else
                  ({ d with
                    driver :=
                      { d.driver with
                        selRecorded := Function.update d.driver.selRecorded p true } }, false)
              else (d, true)

/-- One step of an entry point.  Whoever needs the driver lock waits for it. -/
inductive Entry (st : IoctlState) : IoctlState → Prop
  /-- `binder_clone` for a lookup by process `pid` -/
  | lookup (pid base : Nat) (hlock : st.driver.lockedBy = none) :
      Entry st { st with toDevice := (st.toDevice.clone pid base).1 }
  | devOpen (env : Env) (pid m : Nat) (hlock : st.driver.lockedBy = none) :
      Entry st { st with toDevice := (st.toDevice.devOpen env pid m).1 }
  | devClose (m : Nat) (hlock : st.driver.lockedBy = none) :
      Entry st { st with toDevice := st.toDevice.devClose m }
  | select (tid m : Nat) (which : SelectWhich) (hlock : st.driver.lockedBy = none) :
      Entry st { st with toDevice := (st.toDevice.devSelect tid m which).1 }
  /-- an ioctl that is served at once -/
  | ioctl {st' : IoctlState} {error : Option Errno} {answer : Answer} (env : Env) (made : Bool)
      (tid m : Nat) (cmd : UInt32) (arg : Bytes) (henter : st.CanEnter tid m)
      (heq : st.devIoctl env made tid m cmd arg = .served st' error answer) : Entry st st'
  /-- `BINDER_WRITE_READ` -/
  | writeRead {st' : IoctlState} {p : ProcId} {th : ThreadId} {bwr : WriteRead} (env : Env)
      (made : Bool) (tid m : Nat) (cmd : UInt32) (arg : Bytes) (fuel : Nat)
      (henter : st.CanEnter tid m)
      (heq : st.devIoctl env made tid m cmd arg = .writeRead st' p th bwr)
      (hend : 0 < bwr.writeSize → WriteEnded bwr.writeSize
        (threadWrite env p th bwr.writeBuffer bwr.writeSize fuel st'.driver bwr.writeConsumed)) :
      Entry st (st'.setDriver (ioctlWriteRead env st'.driver p th bwr fuel))
  /-- a turn of the read loop -/
  | readTurn {th : ThreadId} {thread : Thread} {rc : ReadCall} (env : Env)
      (hth : st.driver.threads th = some thread) (hrc : st.driver.calls th = some rc)
      (hrun : rc.status = .running) :
      Entry st (st.setDriver (Driver.readTurn env st.driver th thread rc))
  /-- a sleeper in `binder_wait` is woken, or hit by a signal -/
  | wake {th : ThreadId} {thread : Thread} {rc : ReadCall} {chan : Channel} {woken : Bool}
      (signal : Bool) (hth : st.driver.threads th = some thread)
      (hrc : st.driver.calls th = some rc) (hasleep : rc.status = .asleep chan woken)
      (hlock : st.driver.lockedBy = none) (hwoken : woken = true ∨ signal = true) :
      Entry st (st.setDriver (st.driver.resume th thread rc chan signal))
  /-- `binder_ioctl_write_read` returns -/
  | leave {th : ThreadId} {thread : Thread} {rc : ReadCall} {error : Option Errno}
      (hth : st.driver.threads th = some thread) (hrc : st.driver.calls th = some rc)
      (hreturned : rc.status = .returned error) :
      Entry st (st.setDriver (st.driver.leaveRead th thread))

/-- The states the entry points lead to. -/
inductive EntryRun : IoctlState → Prop
  /-- `binder_devices_init` has published the devices -/
  | init (major : Nat) (oks : Nat → Bool) (hok : (NodeTable.devicesInit oks).2 = none) :
      EntryRun { major := major, nodes := (NodeTable.devicesInit oks).1 }
  | step {st st' : IoctlState} (h : EntryRun st) (hstep : Entry st st') : EntryRun st'

namespace Driver

variable {s : Driver}

/-- The write half is the commands it executes. -/
theorem writeHalf_run {th : ThreadId} {p : ProcId} (h : s.MayEnter th p) (env : Env)
    (bwr : WriteRead) (fuel : Nat) :
    (s.writeHalf env p th bwr fuel).1 =
        s.run ((s.writeExecuted env p th bwr fuel).map fun x => .command env th x.2) ∧
      (s.writeHalf env p th bwr fuel).1.MayEnter th p := by
  unfold writeHalf writeExecuted
  split
  · exact threadWrite_commands h
  · exact ⟨rfl, h⟩

/-- A `BINDER_WRITE_READ` is its commands and the start of its read. -/
theorem ioctlWriteRead_run {th : ThreadId} {p : ProcId} (h : s.MayEnter th p) (env : Env)
    (bwr : WriteRead) (fuel : Nat) :
    ∃ as : List Action, ioctlWriteRead env s p th bwr fuel = s.run as ∧
      ∀ a ∈ as, ∀ q, a ≠ .devClose q := by
  obtain ⟨hrun, hmay⟩ := writeHalf_run h env bwr fuel
  have hcommands : ∀ a ∈ (s.writeExecuted env p th bwr fuel).map fun x => Action.command env th x.2,
      ∀ q, a ≠ .devClose q := by
    intro a ha q heq
    obtain ⟨x, -, rfl⟩ := List.mem_map.mp ha
    cases heq
  unfold ioctlWriteRead
  generalize (s.writeExecuted env p th bwr fuel).map (fun x => Action.command env th x.2) = as
    at hrun hcommands
  generalize s.writeHalf env p th bwr fuel = r at hrun hmay ⊢
  obtain ⟨s₁, consumed, error⟩ := r
  cases error with
  | some error => exact ⟨as, hrun, hcommands⟩
  | none =>
      simp only
      split
      · rename_i hsize
        refine ⟨as ++ [.readStart env th bwr.readBuffer bwr.readSize bwr.readConsumed], ?_, ?_⟩
        · obtain ⟨thread, hidle, -⟩ := hmay
          have hact : s₁.act (.readStart env th bwr.readBuffer bwr.readSize bwr.readConsumed) =
              readStart env s₁ th bwr.readBuffer bwr.readSize bwr.readConsumed := by
            simp only [act, withIdle, hidle, if_pos hsize]
          have hlast (a : Action) : s.run (as ++ [a]) = (s.run as).act a := List.foldl_append
          rw [hlast, ← hrun]
          exact hact.symm
        · intro a ha q heq
          obtain ha | rfl := by simpa using ha
          · exact hcommands a ha q heq
          · cases heq
      · exact ⟨as, hrun, hcommands⟩

end Driver

namespace Device

variable {d : Device}

theorem Kept.run (h : d.Kept) (as : List Action) (has : ∀ a ∈ as, ∀ p, a ≠ .devClose p) :
    { d with driver := d.driver.run as }.Kept := by
  induction as generalizing d with
  | nil => exact h
  | cons a as ih =>
      have hfirst : { d with driver := d.driver.act a }.Kept :=
        h.driver fun _ p _ => has a List.mem_cons_self p
      exact ih hfirst fun a' ha' => has a' (List.mem_cons_of_mem a ha')

/-- A `select` records itself, if it does anything. -/
theorem Kept.devSelect (h : d.Kept) (hlock : d.driver.lockedBy = none) (tid m : Nat)
    (which : SelectWhich) : (d.devSelect tid m which).1.Kept := by
  unfold Device.devSelect
  split
  · exact h
  · exact h
  split
  · exact h
  split
  · exact h
  rename_i p _
  split
  · rename_i halive
    split
    · exact h
    · have hact : d.driver.act (.select p) =
          { d.driver with selRecorded := Function.update d.driver.selRecorded p true } :=
        if_pos ⟨hlock, halive⟩
      rw [← hact]
      exact h.driver fun _ _ _ ha => by cases ha
  · exact h

end Device

namespace IoctlState

variable {st st' : IoctlState}

/-- A write-read is passed on as it came. -/
theorem serve_writeRead {env : Env} {p p' : ProcId} {th th' : ThreadId} {arg : Bytes}
    {bwr : WriteRead} (cmd : Option Ioctl)
    (heq : st.serve env p th arg cmd = .writeRead st' p' th' bwr) :
    st' = st ∧ p' = p ∧ th' = th := by
  cases cmd with
  | none => cases heq
  | some c =>
      cases c with
      | writeRead =>
          cases heq
          exact ⟨rfl, rfl, rfl⟩
      | getNodeInfoForRef =>
          unfold serve at heq
          simp only at heq
          split at heq
          · cases heq
          · cases heq
      | getFrozenInfo =>
          unfold serve at heq
          simp only at heq
          split at heq
          · cases heq
          · cases heq
      | _ => cases heq

/-- An ioctl goes on in `binder_ioctl_write_read` for a thread that may start
it. -/
theorem devIoctl_writeRead (h : st.toDevice.Kept) {env : Env} {made : Bool} {tid m : Nat}
    {cmd : UInt32} {arg : Bytes} {p : ProcId} {th : ThreadId} {bwr : WriteRead}
    (henter : st.CanEnter tid m)
    (heq : st.devIoctl env made tid m cmd arg = .writeRead st' p th bwr) :
    st'.toDevice.Kept ∧ st'.driver.MayEnter th p := by
  unfold devIoctl at heq
  split at heq
  · split at heq
    · split at heq
      · cases heq
      · unfold ctlAdd at heq
        split at heq
        · cases heq
        · cases heq
    · cases heq
  · split at heq
    · cases heq
    · split at heq
      · cases heq
      · rename_i i hslot _ _ p' hproc
        split at heq
        · rename_i halive
          have hcalls := fun th => henter.2 i p' th hslot hproc
          split at heq
          · cases heq
          · rename_i th' s' hget
            obtain ⟨hact, thread, hidle, rfl⟩ :=
              h.reachable.threadGet_idle henter.1 halive hcalls hget
            have hkept : (st.setDriver s').toDevice.Kept := by
              rw [setDriver, hact]
              exact h.driver fun _ _ _ ha => by cases ha
            obtain ⟨rfl, rfl, rfl⟩ := serve_writeRead (decodeIoctl cmd) heq
            exact ⟨hkept, thread, hidle, rfl⟩
        · cases heq

end IoctlState

/-- A step of the driver is one of its actions. -/
theorem Device.Kept.acted {st : IoctlState} (h : st.toDevice.Kept) {s : Driver} (a : Action)
    (ha : ∀ p, a ≠ .devClose p) (hact : st.driver.act a = s) :
    (st.setDriver s).toDevice.Kept := by
  subst hact
  exact h.driver fun _ p _ => ha p

/-- **Step.** -/
theorem Entry.kept {st st' : IoctlState} (hstep : Entry st st') (h : st.toDevice.Kept) :
    st'.toDevice.Kept := by
  cases hstep with
  | lookup pid base hlock => exact h.clone pid base
  | devOpen env pid m hlock => exact h.devOpen hlock env pid m
  | devClose m hlock => exact h.devClose hlock m
  | select tid m which hlock => exact h.devSelect hlock tid m which
  | ioctl env made tid m cmd arg henter heq => exact IoctlState.devIoctl_kept h henter heq
  | @writeRead st₁ p th bwr env made tid m cmd arg fuel henter heq hend =>
      obtain ⟨hkept, hmay⟩ := IoctlState.devIoctl_writeRead h henter heq
      obtain ⟨as, hrun, has⟩ := ioctlWriteRead_run hmay env bwr fuel
      rw [IoctlState.setDriver, hrun]
      exact hkept.run as has
  | @readTurn th thread rc env hth hrc hrun =>
      apply h.acted (.readTurn env th)
      · intro p heq
        cases heq
      · simp only [act, withCall, hth, hrc, hrun, ReadStatus.running?]
  | @wake th thread rc chan woken signal hth hrc hasleep hlock hwoken =>
      apply h.acted (.resume th signal)
      · intro p heq
        cases heq
      · simp only [act, withCall, hth, hrc, hasleep, ReadStatus.asleep?,
          if_pos (And.intro hlock hwoken)]
  | @leave th thread rc error hth hrc hreturned =>
      apply h.acted (.leave th)
      · intro p heq
        cases heq
      · simp only [act, withCall, hth, hrc, hreturned, ReadStatus.returned?]

theorem EntryRun.kept {st : IoctlState} (h : EntryRun st) : st.toDevice.Kept := by
  induction h with
  | init major oks _ => exact ((IoctlRun.init major).device (.contexts _)).kept
  | step _ hstep ih => exact hstep.kept ih

/-- **The entry points refine the driver.**  Whatever the clients do through the
entry points, in any interleaving, the driver is in a state of a run of its own
actions. -/
theorem entry_points_reachable {st : IoctlState} (h : EntryRun st) : Reachable st.driver :=
  h.kept.reachable

/-- The device of context 0 was looked up and opened by process 10. -/
def openedState : IoctlState :=
  let st : IoctlState := { nodes := (NodeTable.devicesInit fun _ => true).1 }
  let st := { st with toDevice := (st.toDevice.clone 10 0).1 }
  { st with toDevice := (st.toDevice.devOpen {} 10 64).1 }

theorem openedState_run : EntryRun openedState := by
  apply EntryRun.step
  · apply EntryRun.step
    · exact .init 0 (fun _ => true) (by decide +kernel)
    · exact .lookup 10 0 (by decide +kernel)
  · exact .devOpen {} 10 64 (by decide +kernel)

/-- `BC_ENTER_LOOPER` in the write buffer, and nothing to read. -/
def joinPool : Env := { mem := regions [(0x1000, leBytes 4 0x630C)] }

def joinPoolArg : Bytes :=
  leBytes 8 4 ++ leBytes 8 0 ++ leBytes 8 0x1000 ++ leBytes 8 0 ++ leBytes 8 0 ++ leBytes 8 0

/-- The calling thread as the ioctl finds it. -/
def joiningState : IoctlState :=
  openedState.setDriver (threadGet joinPool openedState.driver 1 100).2

def joinedState : IoctlState :=
  joiningState.setDriver (ioctlWriteRead joinPool joiningState.driver 1 2
    (IoctlState.writeReadOf joinPoolArg) 3)

theorem openedState_canEnter : openedState.CanEnter 100 64 := by
  constructor
  · decide +kernel
  · intro i p th hslot hproc hth
    have hfirst : Device.slotForDev 64 = some 0 := by decide
    have hopened : (openedState.slots 0).proc = some 1 := by decide +kernel
    have hunknown : openedState.driver.threadLookup 1 100 = none := by decide +kernel
    cases hfirst.symm.trans hslot
    cases hopened.symm.trans hproc
    cases hunknown.symm.trans hth

theorem joinedState_run : EntryRun joinedState := by
  apply openedState_run.step
  apply Entry.writeRead joinPool true 100 64 0xC0306201 joinPoolArg 3 openedState_canEnter
  · rfl
  · intro _
    apply threadWrite_ends_from
    · decide +kernel
    · decide +kernel
    · decide +kernel

/-- A thread has joined the pool of the process that opened the device. -/
theorem entry_points_reachable_joined : Reachable joinedState.driver ∧
    (joinedState.driver.threads 2).map (·.looper.entered) = some true :=
  ⟨entry_points_reachable joinedState_run, by decide +kernel⟩

end Binder
