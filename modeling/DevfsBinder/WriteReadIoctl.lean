import DevfsBinder.DriverRun

/-!
# The ioctl around the two loops

`BINDER_WRITE_READ` takes one argument for both directions, and the kernel
copies it back to the client only when the handler returns 0.  A read that a
signal ends returns an error, so the count of consumed commands that the write
half has just advanced is thrown away with the rest, and a client that issues
the call again as it stands submits its commands a second time.
-/

namespace Binder

open LittleEndian

/-- `struct binder_write_read` -/
structure WriteRead where
  writeSize : Nat
  writeConsumed : Nat
  writeBuffer : Nat
  readSize : Nat
  readConsumed : Nat
  readBuffer : Nat
  deriving DecidableEq, Repr

/-- The argument as the client sees it after the ioctl: the handler's copy is
written back only on success. -/
def WriteRead.seen (bwr kernel : WriteRead) (ret : Option Errno) : WriteRead :=
  if ret = none then kernel else bwr

/-- There is no room for a command in what is left of the write buffer. -/
def WriteRead.NothingToWrite (bwr : WriteRead) : Prop :=
  bwr.writeSize = 0 ∨ bwr.writeSize < (bwr.writeConsumed + 4) % 2 ^ 64

instance (bwr : WriteRead) : Decidable bwr.NothingToWrite :=
  inferInstanceAs (Decidable (_ ∨ _))

namespace Driver

/-! ## The write half -/

/-- The commands `threadWrite` executes, each with the offset it was fetched
from. -/
def executed (env : Env) (p : ProcId) (th : ThreadId) (buffer size : Nat) :
    Nat → Driver → Nat → List (Nat × Command)
  | 0, _, _ => []
  | fuel+1, s, consumed =>
      if (consumed + 4) % 2 ^ 64 ≤ size then
        match fetchCommand env buffer consumed with
        | (_, none) => []
        | (next, some c) =>
            (consumed, c) ::
              match s.writeCommand env p th c with
              | (_, some _) => []
              | (s, none) => executed env p th buffer size fuel s next
      else []

/-- The write half of `binder_ioctl_write_read`, at most `fuel` commands of
it. -/
def writeHalf (env : Env) (s : Driver) (p : ProcId) (th : ThreadId) (bwr : WriteRead)
    (fuel : Nat) : Driver × Nat × Option Errno :=
  if 0 < bwr.writeSize then
    threadWrite env p th bwr.writeBuffer bwr.writeSize fuel s bwr.writeConsumed
  else (s, bwr.writeConsumed, none)

/-- The commands the write half executes. -/
def writeExecuted (env : Env) (s : Driver) (p : ProcId) (th : ThreadId) (bwr : WriteRead)
    (fuel : Nat) : List (Nat × Command) :=
  if 0 < bwr.writeSize then
    executed env p th bwr.writeBuffer bwr.writeSize fuel s bwr.writeConsumed
  else []

/-- The write half succeeds: it stops without an error, for want of a further
command and not of fuel, and leaves the driver at `s'` and the count at
`consumed`. -/
structure WriteSucceeds (env : Env) (s : Driver) (p : ProcId) (th : ThreadId) (bwr : WriteRead)
    (fuel : Nat) (s' : Driver) (consumed : Nat) : Prop where
  half : s.writeHalf env p th bwr fuel = (s', consumed, none)
  finished : WriteRead.NothingToWrite { bwr with writeConsumed := consumed }

/-! ## The read half -/

/-- The read half ends with `ret`, whatever else has happened in the meantime:
it was started at `s`, and `as` is what every thread has done since. -/
structure ReadEnds (env : Env) (s : Driver) (th : ThreadId) (bwr : WriteRead)
    (as : List Action) (rc : ReadCall) (ret : Option Errno) : Prop where
  started : 0 < bwr.readSize
  call : ((s.act (.readStart env th bwr.readBuffer bwr.readSize bwr.readConsumed)).run as).calls
    th = some rc
  ended : rc.status = .returned ret

/-! ## Issuing the call again -/

/-- Every command of `first`, the commands of the write buffer, was executed
exactly once over the two calls. -/
def ExactlyOnce (first second : List (Nat × Command)) : Prop :=
  ∀ x ∈ first, (first ++ second).count x = 1

instance (first second : List (Nat × Command)) : Decidable (ExactlyOnce first second) :=
  inferInstanceAs (Decidable (∀ x ∈ first, (first ++ second).count x = 1))

/-- The first command in the buffer is executed whatever the driver's state. -/
theorem executed_head {env : Env} {buffer size consumed next : Nat} {c : Command}
    (hroom : (consumed + 4) % 2 ^ 64 ≤ size)
    (hfetch : fetchCommand env buffer consumed = (next, some c)) (p : ProcId) (th : ThreadId)
    (fuel : Nat) (s : Driver) :
    ∃ rest, executed env p th buffer size (fuel + 1) s consumed = (consumed, c) :: rest := by
  rw [executed, if_pos hroom, hfetch]
  exact ⟨_, rfl⟩

/-- A write that succeeds has fetched its first command. -/
theorem threadWrite_fetches {env : Env} {p : ProcId} {th : ThreadId}
    {buffer size fuel consumed consumed' : Nat} {s s' : Driver}
    (hwrite : threadWrite env p th buffer size fuel s consumed = (s', consumed', none))
    (hroom : (consumed + 4) % 2 ^ 64 ≤ size) (hend : ¬ (consumed' + 4) % 2 ^ 64 ≤ size) :
    ∃ next c k, fetchCommand env buffer consumed = (next, some c) ∧ fuel = k + 1 := by
  cases fuel with
  | zero =>
      cases hwrite
      exact absurd hroom hend
  | succ k =>
      rw [threadWrite, if_pos hroom] at hwrite
      cases hfetch : fetchCommand env buffer consumed with
      | mk next c =>
          cases c with
          | none =>
              rw [hfetch] at hwrite
              cases hwrite
          | some c => exact ⟨next, c, k, rfl, rfl⟩

/-- **A call issued again executes its commands again.**  The first call's write
half succeeds and its read half is ended by a signal; the client issues the
call again with the argument it can see and its write buffer as it was.  The
commands have been executed exactly once over the two calls if and only if
there were none. -/
theorem reissued_once_iff {env env' : Env} {s s₁ s' : Driver} {p : ProcId} {th : ThreadId}
    {bwr bwr' : WriteRead} {fuel fuel' consumed : Nat} {as : List Action} {rc : ReadCall}
    (hwrite : WriteSucceeds env s p th bwr fuel s₁ consumed)
    (hread : ReadEnds env s₁ th bwr as rc (some .eintr))
    (hseen : bwr' = bwr.seen
      { bwr with writeConsumed := consumed, readConsumed := rc.consumed } (some .eintr))
    (hmem : ∀ k, fetchCommand env' bwr.writeBuffer k = fetchCommand env bwr.writeBuffer k) :
    ExactlyOnce (s.writeExecuted env p th bwr fuel)
        (s'.writeExecuted env' p th bwr' (fuel' + 1)) ↔ bwr.NothingToWrite := by
  -- the client sees the argument it passed
  have hsame : bwr' = bwr := by
    rw [hseen, WriteRead.seen, if_neg (by simp)]
  subst hsame
  constructor
  · intro honce
    by_contra hsome
    obtain ⟨hsize, hroom⟩ := not_or.mp hsome
    have hpos : 0 < bwr'.writeSize := Nat.pos_of_ne_zero hsize
    have hroom := Nat.le_of_not_lt hroom
    have hhalf := hwrite.half
    have hend : ¬ (consumed + 4) % 2 ^ 64 ≤ bwr'.writeSize := by
      rcases hwrite.finished with hzero | hlt
      · exact absurd hzero hsize
      · exact Nat.not_le_of_lt hlt
    rw [writeHalf, if_pos hpos] at hhalf
    obtain ⟨next, c, k, hfetch, rfl⟩ := threadWrite_fetches hhalf hroom hend
    have hfetch' : fetchCommand env' bwr'.writeBuffer bwr'.writeConsumed = (next, some c) := by
      rw [hmem, hfetch]
    obtain ⟨rest, hfirst⟩ := executed_head hroom hfetch p th k s
    obtain ⟨rest', hsecond⟩ := executed_head hroom hfetch' p th fuel' s'
    rw [writeExecuted, writeExecuted, if_pos hpos, if_pos hpos, hfirst, hsecond] at honce
    have hcount := honce _ (List.mem_cons_self ..)
    simp only [List.cons_append, List.count_cons_self, List.count_append] at hcount
    omega
  · intro hnone
    have hempty : s.writeExecuted env p th bwr' fuel = [] := by
      unfold writeExecuted
      split
      · rename_i hpos
        have hroom : ¬ (bwr'.writeConsumed + 4) % 2 ^ 64 ≤ bwr'.writeSize := by
          rcases hnone with hzero | hlt
          · exact absurd hzero (Nat.ne_of_gt hpos)
          · exact Nat.not_le_of_lt hlt
        cases fuel with
        | zero => rfl
        | succ k => rw [executed, if_neg hroom]
      · rfl
    intro x hx
    rw [hempty] at hx
    cases hx

theorem readEnds_of_status {env : Env} {s : Driver} {th : ThreadId} {bwr : WriteRead}
    {as : List Action} {ret : Option Errno} (hsize : 0 < bwr.readSize)
    (hcall : (((s.act (.readStart env th bwr.readBuffer bwr.readSize bwr.readConsumed)).run
      as).calls th).map (·.status) = some (.returned ret)) :
    ∃ rc, ReadEnds env s th bwr as rc ret := by
  obtain ⟨rc, hrc, hstatus⟩ := Option.map_eq_some_iff.mp hcall
  exact ⟨rc, hsize, hrc, hstatus⟩

/-- The memory of process 5: `BC_ACQUIRE` of the manager at `0x4000`. -/
def acquireBuffer : Env :=
  { mem := regions [(0x4000, leBytes 4 0x40046305 ++ leBytes 4 0)] }

/-- One `BC_ACQUIRE`, and a read. -/
def acquireAndRead : WriteRead where
  writeSize := 8
  writeConsumed := 0
  writeBuffer := 0x4000
  readSize := 256
  readConsumed := 0
  readBuffer := 0x9000

/-- The same call once its one command is consumed. -/
def readOnly : WriteRead := { acquireAndRead with writeConsumed := 8 }

/-- The read finds nothing, sleeps and is interrupted. -/
def interruptRead : List Action := [.readTurn {} 6, .resume 6 true]

/-- An interrupted call with nothing to write is safely issued again. -/
theorem reissued_once_iff_readOnly :
    readOnly.NothingToWrite ∧
      ExactlyOnce (twoProcessesUp.writeExecuted acquireBuffer 5 6 readOnly 2)
        (twoProcessesUp.writeExecuted acquireBuffer 5 6 readOnly 1) := by
  have hwrite : WriteSucceeds acquireBuffer twoProcessesUp 5 6 readOnly 2 twoProcessesUp 8 :=
    ⟨rfl, by decide⟩
  have hends : ∃ rc, ReadEnds acquireBuffer twoProcessesUp 6 readOnly interruptRead rc
      (some .eintr) := readEnds_of_status (by decide) (by decide +kernel)
  obtain ⟨rc, hread⟩ := hends
  have hnone : readOnly.NothingToWrite := by decide
  exact ⟨hnone, (reissued_once_iff hwrite hread rfl fun _ => rfl).mpr hnone⟩

/-- The driver after the first call's write half. -/
def acquired : Driver := (twoProcessesUp.writeHalf acquireBuffer 5 6 acquireAndRead 2).1

/-- The driver once the interrupted call has returned. -/
def interrupted : Driver :=
  ((acquired.act (.readStart acquireBuffer 6 0x9000 256 0)).run interruptRead).act (.leave 6)

/-- **A doubled acquire.**  Process 5 acquires the manager once and is interrupted
in the read; issued again, the call acquires it a second time. -/
theorem acquire_doubled :
    WriteSucceeds acquireBuffer twoProcessesUp 5 6 acquireAndRead 2 acquired 8 ∧
      (∃ rc, ReadEnds acquireBuffer acquired 6 acquireAndRead interruptRead rc (some .eintr)) ∧
      twoProcessesUp.writeExecuted acquireBuffer 5 6 acquireAndRead 2 =
        [(0, .reference true true 0)] ∧
      interrupted.writeExecuted acquireBuffer 5 6 acquireAndRead 2 =
        [(0, .reference true true 0)] ∧
      ((interrupted.refFindByDesc 5 0).bind interrupted.refs).map (·.strong) = some 1 ∧
      (((interrupted.writeHalf acquireBuffer 5 6 acquireAndRead 2).1.refFindByDesc 5 0).bind
        (interrupted.writeHalf acquireBuffer 5 6 acquireAndRead 2).1.refs).map (·.strong) =
          some 2 := by
  refine ⟨⟨Prod.ext rfl (by decide +kernel), by decide⟩,
    readEnds_of_status (by decide) (by decide +kernel), by decide +kernel, by decide +kernel,
    by decide +kernel, by decide +kernel⟩

end Driver

end Binder
