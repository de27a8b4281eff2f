import DevfsBinder.ReadsInProgress
import DevfsBinder.WriteReadIoctl

/-!
# The command stream

What a client writes is a sequence of command words, each with a payload whose
length the word determines, and `binder_thread_write` takes it apart again.  A
stream in the client's memory is executed command by command, in its order and
up to the first command that is refused, and `write_consumed` comes back as the
length of what was taken (`threadWrite_stream`).  Whatever the memory holds, the
loop comes to an end by itself (`threadWrite_ends`), and what it does to the
driver is what the commands it took do one after the other
(`threadWrite_commands`).
-/

namespace Binder

open LittleEndian

/-! ## Commands on the wire -/

/-- A command word with the payload it announces. -/
structure WireCommand where
  code : Nat
  payload : Bytes
  code_lt : code < 2 ^ 32
  payload_length : payload.length = commandPayload code

namespace WireCommand

/-- The command as it stands in the write buffer. -/
def bytes (w : WireCommand) : Bytes := leBytes 4 w.code ++ w.payload

/-- The command as the driver understands it. -/
def command (w : WireCommand) : Command := decodeCommand w.code w.payload

theorem bytes_length (w : WireCommand) : w.bytes.length = 4 + commandPayload w.code := by
  rw [bytes, List.length_append, leBytes_length, w.payload_length]

theorem code_eq (w : WireCommand) : field (slice w.bytes 0 4) 0 4 = w.code := by
  have hword : slice w.bytes 0 4 = leBytes 4 w.code := by
    rw [slice, List.drop_zero, bytes]
    exact List.take_left' (leBytes_length 4 w.code)
  have hslice : slice (leBytes 4 w.code) 0 4 = leBytes 4 w.code := by
    rw [slice, List.drop_zero]
    exact List.take_of_length_le (Nat.le_of_eq (leBytes_length 4 w.code))
  rw [field, hword, hslice, leNat_leBytes]
  exact Nat.mod_eq_of_lt w.code_lt

theorem payload_eq (w : WireCommand) : slice w.bytes 4 (commandPayload w.code) = w.payload := by
  have hdrop : w.bytes.drop 4 = w.payload := by
    rw [bytes]
    exact List.drop_left' (leBytes_length 4 w.code)
  rw [slice, hdrop, ← w.payload_length, List.take_length]

end WireCommand

/-! ## What can be written -/

theorem drop_leBytes {n k v : Nat} (h : n ≤ k) : (leBytes n v).drop k = [] :=
  List.drop_eq_nil_of_le (by rw [leBytes_length]; exact h)

/-- `struct binder_transaction_data`, with the fields the driver does not read
left zero. -/
def TransactionData.bytes (tr : TransactionData) : Bytes :=
  leBytes 4 tr.handle ++ (leBytes 12 0 ++ (leBytes 4 tr.code ++ (leBytes 4 tr.flags ++
    (leBytes 8 0 ++ (leBytes 8 tr.dataSize ++ (leBytes 8 tr.offsetsSize ++
      (leBytes 8 tr.buffer ++ leBytes 8 tr.offsets)))))))

/-- `struct binder_transaction_data_sg` for the scatter-gather commands. -/
def TransactionData.payload (tr : TransactionData) (isSg : Bool) : Bytes :=
  if isSg then tr.bytes ++ leBytes 8 tr.buffersSize else tr.bytes

/-- The fields fit their places on the wire. -/
structure TransactionData.Fits (tr : TransactionData) (isSg : Bool) : Prop where
  handle : tr.handle < 2 ^ 32
  code : tr.code < 2 ^ 32
  flags : tr.flags < 2 ^ 32
  dataSize : tr.dataSize < 2 ^ 64
  offsetsSize : tr.offsetsSize < 2 ^ 64
  buffer : tr.buffer < 2 ^ 64
  offsets : tr.offsets < 2 ^ 64
  buffersSize : tr.buffersSize < if isSg then 2 ^ 64 else 1

theorem take_leBytes (n v : Nat) : (leBytes n v).take n = leBytes n v :=
  List.take_of_length_le (Nat.le_of_eq (leBytes_length n v))

/-- Reading a record back, whatever follows it. -/
theorem decode_bytes (tr : TransactionData) (rest : Bytes) :
    decodeTransactionData (tr.bytes ++ rest) =
      { handle := tr.handle % 2 ^ 32
        code := tr.code % 2 ^ 32
        flags := tr.flags % 2 ^ 32
        dataSize := tr.dataSize % 2 ^ 64
        offsetsSize := tr.offsetsSize % 2 ^ 64
        buffer := tr.buffer % 2 ^ 64
        offsets := tr.offsets % 2 ^ 64
        buffersSize := field rest 0 8 } := by
  simp [decodeTransactionData, TransactionData.bytes, field, slice, List.drop_append,
    drop_leBytes, leNat_leBytes]

/-- **What a client encodes is decoded as it was.** -/
theorem decode_payload {tr : TransactionData} {isSg : Bool} (h : tr.Fits isSg) :
    decodeTransactionData (tr.payload isSg) = tr := by
  have hrest : ∃ rest, tr.payload isSg = tr.bytes ++ rest ∧ field rest 0 8 = tr.buffersSize := by
    have hsize := h.buffersSize
    cases isSg with
    | false =>
        refine ⟨[], (List.append_nil _).symm, ?_⟩
        have hzero : tr.buffersSize = 0 := by simpa using hsize
        rw [hzero]
        rfl
    | true =>
        refine ⟨leBytes 8 tr.buffersSize, rfl, ?_⟩
        rw [field, slice, List.drop_zero, take_leBytes, leNat_leBytes]
        exact Nat.mod_eq_of_lt hsize
  obtain ⟨rest, hpayload, hbuffers⟩ := hrest
  rw [hpayload, decode_bytes, hbuffers, Nat.mod_eq_of_lt h.handle, Nat.mod_eq_of_lt h.code,
    Nat.mod_eq_of_lt h.flags, Nat.mod_eq_of_lt h.dataSize, Nat.mod_eq_of_lt h.offsetsSize,
    Nat.mod_eq_of_lt h.buffer, Nat.mod_eq_of_lt h.offsets]

/-- The fields of a command fit their places on the wire. -/
def Command.Fits : Command → Prop
  | .reference _ _ desc => desc < 2 ^ 32
  | .done _ ptr => ptr < 2 ^ 64
  | .freeBuffer ptr => ptr < 2 ^ 64
  | .transaction _ isSg tr => tr.Fits isSg
  | .requestDeathNotification handle cookie => handle < 2 ^ 32 ∧ cookie < 2 ^ 64
  | .clearDeathNotification handle cookie => handle < 2 ^ 32 ∧ cookie < 2 ^ 64
  | .deadBinderDone cookie => cookie < 2 ^ 64
  | .registerLooper | .enterLooper | .exitLooper | .refused => True

/-- The word of a command.  `refused` stands for `BC_ATTEMPT_ACQUIRE`, one of the
words the driver does not know what to do with. -/
def Command.word : Command → Nat
  | .reference false true _ => 0x40046304
  | .reference true true _ => 0x40046305
  | .reference true false _ => 0x40046306
  | .reference false false _ => 0x40046307
  | .done false _ => 0x40106308
  | .done true _ => 0x40106309
  | .freeBuffer _ => 0x40086303
  | .transaction false false _ => 0x40406300
  | .transaction true false _ => 0x40406301
  | .transaction false true _ => 0x40486311
  | .transaction true true _ => 0x40486312
  | .registerLooper => 0x0000630B
  | .enterLooper => 0x0000630C
  | .exitLooper => 0x0000630D
  | .requestDeathNotification _ _ => 0x400C630E
  | .clearDeathNotification _ _ => 0x400C630F
  | .deadBinderDone _ => 0x40086310
  | .refused => 0x4008630A

/-- The payload of a command; a cookie the driver does not read is left zero. -/
def Command.payload : Command → Bytes
  | .reference _ _ desc => leBytes 4 desc
  | .done _ ptr => leBytes 8 ptr ++ leBytes 8 0
  | .freeBuffer ptr => leBytes 8 ptr
  | .transaction _ isSg tr => tr.payload isSg
  | .requestDeathNotification handle cookie => leBytes 4 handle ++ leBytes 8 cookie
  | .clearDeathNotification handle cookie => leBytes 4 handle ++ leBytes 8 cookie
  | .deadBinderDone cookie => leBytes 8 cookie
  | .registerLooper | .enterLooper | .exitLooper | .refused => []

theorem Command.payload_length (c : Command) : c.payload.length = commandPayload c.word := by
  cases c with
  | reference strong increment desc =>
      cases strong <;> cases increment <;> simp [payload, word, commandPayload]
  | done strong ptr => cases strong <;> simp [payload, word, commandPayload]
  | transaction reply isSg tr =>
      cases reply <;> cases isSg <;>
        simp [payload, word, commandPayload, TransactionData.payload, TransactionData.bytes]
  | _ => simp [payload, word, commandPayload]

theorem Command.word_lt (c : Command) : c.word < 2 ^ 32 := by
  cases c with
  | reference strong increment desc => cases strong <;> cases increment <;> simp [word]
  | done strong ptr => cases strong <;> simp [word]
  | transaction reply isSg tr => cases reply <;> cases isSg <;> simp [word]
  | _ => simp [word]

/-- A command on the wire. -/
def Command.wire (c : Command) : WireCommand where
  code := c.word
  payload := c.payload
  code_lt := c.word_lt
  payload_length := c.payload_length

theorem field_leBytes_nil {n v : Nat} (h : v < 256 ^ n) : field (leBytes n v) 0 n = v := by
  have hfield := field_leBytes_of_lt [] h
  rw [List.append_nil] at hfield
  exact hfield

theorem field_cookie {handle cookie : Nat} (h : cookie < 2 ^ 64) :
    field (leBytes 4 handle ++ leBytes 8 cookie) 4 8 = cookie := by
  rw [field, slice, List.drop_left' (leBytes_length 4 handle), take_leBytes, leNat_leBytes]
  exact Nat.mod_eq_of_lt h

/-- **Round trip.**  A command that fits the wire is read back as it was written. -/
theorem Command.wire_command {c : Command} (h : c.Fits) : c.wire.command = c := by
  cases c with
  | reference strong increment desc =>
      have hdesc := field_leBytes_nil (n := 4) h
      cases strong <;> cases increment <;>
        simp [WireCommand.command, wire, word, payload, decodeCommand, hdesc]
  | done strong ptr =>
      have hptr := field_leBytes_of_lt (n := 8) (leBytes 8 0) h
      cases strong <;> simp [WireCommand.command, wire, word, payload, decodeCommand, hptr]
  | freeBuffer ptr =>
      have hptr := field_leBytes_nil (n := 8) h
      simp [WireCommand.command, wire, word, payload, decodeCommand, hptr]
  | transaction reply isSg tr =>
      have htr := decode_payload h
      cases reply <;> cases isSg <;>
        simp [WireCommand.command, wire, word, payload, decodeCommand, htr]
  | requestDeathNotification handle cookie =>
      have hhandle := field_leBytes_of_lt (n := 4) (leBytes 8 cookie) h.1
      simp [WireCommand.command, wire, word, payload, decodeCommand, hhandle, field_cookie h.2]
  | clearDeathNotification handle cookie =>
      have hhandle := field_leBytes_of_lt (n := 4) (leBytes 8 cookie) h.1
      simp [WireCommand.command, wire, word, payload, decodeCommand, hhandle, field_cookie h.2]
  | deadBinderDone cookie =>
      have hcookie := field_leBytes_nil (n := 8) h
      simp [WireCommand.command, wire, word, payload, decodeCommand, hcookie]
  | registerLooper => rfl
  | enterLooper => rfl
  | exitLooper => rfl
  | refused => rfl

/-- What is decoded fits its places on the wire. -/
theorem decodeTransactionData_fits {bs : Bytes} {isSg : Bool}
    (h : isSg = false → bs.length ≤ 64) : (decodeTransactionData bs).Fits isSg where
  handle := field_lt bs 0 4
  code := field_lt bs 16 4
  flags := field_lt bs 20 4
  dataSize := field_lt bs 32 8
  offsetsSize := field_lt bs 40 8
  buffer := field_lt bs 48 8
  offsets := field_lt bs 56 8
  buffersSize := by
    cases isSg with
    | true => exact field_lt bs 64 8
    | false =>
        have hempty : bs.drop 64 = [] := List.drop_eq_nil_of_le (h rfl)
        simp [decodeTransactionData, field, slice, hempty, leNat]

/-- Nothing else can be written. -/
theorem WireCommand.fits (w : WireCommand) : w.command.Fits := by
  obtain ⟨code, payload, hcode, hlength⟩ := w
  change (decodeCommand code payload).Fits
  unfold decodeCommand
  split
  · exact field_lt payload 0 4
  · exact field_lt payload 0 4
  · exact field_lt payload 0 4
  · exact field_lt payload 0 4
  · exact field_lt payload 0 8
  · exact field_lt payload 0 8
  · exact field_lt payload 0 8
  · exact decodeTransactionData_fits fun _ => Nat.le_of_eq hlength
  · exact decodeTransactionData_fits fun _ => Nat.le_of_eq hlength
  · exact decodeTransactionData_fits fun h => by cases h
  · exact decodeTransactionData_fits fun h => by cases h
  · trivial
  · trivial
  · trivial
  · exact ⟨field_lt payload 0 4, field_lt payload 4 8⟩
  · exact ⟨field_lt payload 0 4, field_lt payload 4 8⟩
  · exact field_lt payload 0 8
  · trivial

/-- **What can be written.**  The commands that the driver can be made to read are
those whose fields fit the wire, and each of them can be written. -/
theorem command_fits_iff (c : Command) : c.Fits ↔ ∃ w : WireCommand, w.command = c := by
  constructor
  · intro h
    exact ⟨c.wire, Command.wire_command h⟩
  · intro ⟨w, hw⟩
    rw [← hw]
    exact w.fits

/-! ## Streams in memory -/

/-- A stream of commands, as it stands in the write buffer. -/
def streamBytes (ws : List WireCommand) : Bytes := ws.flatMap WireCommand.bytes

/-- The client's memory holds the bytes at the address. -/
def Env.Holds (env : Env) (addr : Nat) (bs : Bytes) : Prop :=
  ∀ i, (hi : i < bs.length) → env.mem (addr + i) = some (bs.get ⟨i, hi⟩)

theorem Env.Holds.copyin {env : Env} {addr : Nat} {bs : Bytes} (h : env.Holds addr bs)
    (off n : Nat) (hn : off + n ≤ bs.length) :
    env.copyin (addr + off) n = some (slice bs off n) := by
  induction n generalizing off with
  | zero => simp [Env.copyin, slice]
  | succ n ih =>
      have hbyte := h off (by omega)
      have hrest := ih (off + 1) (by omega)
      rw [Env.copyin, hbyte, Nat.add_assoc, hrest]
      have hdrop : bs.drop off = bs.get ⟨off, by omega⟩ :: bs.drop (off + 1) :=
        List.drop_eq_getElem_cons (by omega)
      simp only [slice, hdrop, List.take_succ_cons]

namespace Driver

variable {env : Env} {buffer : Nat}

/-- A command is fetched from where it stands in the buffer. -/
theorem fetchCommand_stream {pre post : Bytes} {w : WireCommand}
    (hmem : env.Holds buffer (pre ++ w.bytes ++ post))
    (hfit : buffer + (pre ++ w.bytes ++ post).length < 2 ^ 64) :
    fetchCommand env buffer pre.length = (pre.length + w.bytes.length, some w.command) := by
  have hlength : (pre ++ w.bytes ++ post).length =
      pre.length + (4 + commandPayload w.code) + post.length := by
    rw [List.length_append, List.length_append, w.bytes_length]
  have hword := hmem.copyin pre.length 4 (by omega)
  have hpayload := hmem.copyin (pre.length + 4) (commandPayload w.code) (by omega)
  have hword' : slice (pre ++ w.bytes ++ post) pre.length 4 = slice w.bytes 0 4 :=
    slice_append 0 (by rw [w.bytes_length]; omega)
  have hpayload' : slice (pre ++ w.bytes ++ post) (pre.length + 4) (commandPayload w.code) =
      slice w.bytes 4 (commandPayload w.code) :=
    slice_append 4 (by rw [w.bytes_length])
  have haddr : (buffer + (pre.length + 4)) % 2 ^ 64 = buffer + (pre.length + 4) :=
    Nat.mod_eq_of_lt (by omega)
  have hend : (pre.length + 4 + commandPayload w.code) % 2 ^ 64 = pre.length + w.bytes.length := by
    rw [w.bytes_length, Nat.mod_eq_of_lt (by omega), Nat.add_assoc]
  unfold fetchCommand
  rw [Nat.mod_eq_of_lt (by omega), hword, hword']
  simp only [w.code_eq]
  rw [Nat.mod_eq_of_lt (by omega : pre.length + 4 < 2 ^ 64), haddr, hpayload, hpayload',
    w.payload_eq]
  simp only [hend, WireCommand.command]

/-- The commands of a stream, one after the other until one is refused; `taken`
bytes have been consumed before. -/
def perform (env : Env) (p : ProcId) (th : ThreadId) :
    List WireCommand → Driver → Nat → Driver × Nat × Option Errno
  | [], s, taken => (s, taken, none)
  | w :: ws, s, taken =>
      match s.writeCommand env p th w.command with
      | (s, some error) => (s, taken + w.bytes.length, some error)
      | (s, none) => perform env p th ws s (taken + w.bytes.length)

/-- The loop of `binder_thread_write` from the middle of a stream on. -/
theorem threadWrite_from (p : ProcId) (th : ThreadId) (pre : Bytes) (ws : List WireCommand)
    (hmem : env.Holds buffer (pre ++ streamBytes ws))
    (hfit : buffer + (pre ++ streamBytes ws).length < 2 ^ 64)
    (hend : (pre ++ streamBytes ws).length + 4 < 2 ^ 64) (s : Driver) (fuel : Nat)
    (hfuel : ws.length ≤ fuel) :
    threadWrite env p th buffer (pre ++ streamBytes ws).length fuel s pre.length =
      perform env p th ws s pre.length := by
  induction ws generalizing pre s fuel with
  | nil =>
      have hstop : ¬ (pre.length + 4) % 2 ^ 64 ≤ (pre ++ streamBytes []).length := by
        simp only [streamBytes, List.flatMap_nil, List.append_nil] at hend ⊢
        rw [Nat.mod_eq_of_lt hend]
        omega
      cases fuel with
      | zero => rfl
      | succ fuel => rw [threadWrite, if_neg hstop, perform]
  | cons w ws ih =>
      have hsplit : pre ++ streamBytes (w :: ws) = pre ++ w.bytes ++ streamBytes ws := by
        rw [streamBytes, List.flatMap_cons, ← List.append_assoc, ← streamBytes]
      have hnext : (pre ++ w.bytes).length = pre.length + w.bytes.length := List.length_append
      rw [hsplit] at hmem hfit hend ⊢
      cases fuel with
      | zero => cases hfuel
      | succ fuel =>
          have hroom : (pre.length + 4) % 2 ^ 64 ≤ (pre ++ w.bytes ++ streamBytes ws).length := by
            have hlength := w.bytes_length
            rw [List.length_append, List.length_append] at hend ⊢
            rw [Nat.mod_eq_of_lt (by omega)]
            omega
          rw [threadWrite, if_pos hroom, fetchCommand_stream hmem hfit, perform]
          simp only
          generalize s.writeCommand env p th w.command = r
          obtain ⟨s', _ | error⟩ := r
          · simp only
            rw [← hnext]
            exact ih (pre ++ w.bytes) hmem hfit hend s' fuel (Nat.le_of_succ_le_succ hfuel)
          · rfl

/-- **A command stream is executed as it was written.**  The write buffer holds a
stream of commands: `binder_thread_write` executes them in order, up to the
first that is refused, and consumes exactly what it executed. -/
theorem threadWrite_stream (p : ProcId) (th : ThreadId) (ws : List WireCommand)
    (hmem : env.Holds buffer (streamBytes ws))
    (hfit : buffer + (streamBytes ws).length < 2 ^ 64)
    (hend : (streamBytes ws).length + 4 < 2 ^ 64) (s : Driver) {fuel : Nat}
    (hfuel : ws.length ≤ fuel) :
    threadWrite env p th buffer (streamBytes ws).length fuel s 0 = perform env p th ws s 0 :=
  threadWrite_from p th [] ws hmem hfit hend s fuel hfuel

/-- A thread enters the pool and acquires the context manager. -/
def joinAndAcquire : List WireCommand :=
  [Command.enterLooper.wire, (Command.reference true true 0).wire]

def joinAndAcquireEnv : Env := { mem := regions [(0x1000, streamBytes joinAndAcquire)] }

theorem joinAndAcquireEnv_holds : joinAndAcquireEnv.Holds 0x1000 (streamBytes joinAndAcquire) := by
  unfold Env.Holds
  decide +kernel

theorem threadWrite_stream_acquire :
    threadWrite joinAndAcquireEnv 5 6 0x1000 (streamBytes joinAndAcquire).length 2
        twoProcessesUp 0 = perform joinAndAcquireEnv 5 6 joinAndAcquire twoProcessesUp 0 ∧
      (perform joinAndAcquireEnv 5 6 joinAndAcquire twoProcessesUp 0).2 = (12, none) :=
  ⟨threadWrite_stream 5 6 joinAndAcquire joinAndAcquireEnv_holds (by decide +kernel)
    (by decide +kernel) twoProcessesUp (by decide), by decide +kernel⟩

/-! ## The loop comes to an end -/

theorem commandPayload_le (code : Nat) : commandPayload code ≤ 72 := by
  unfold commandPayload
  repeat' split
  all_goals omega

/-- A fetched command has moved the count by four to seventy-six bytes. -/
theorem fetchCommand_next {consumed next : Nat} {c : Command}
    (h : fetchCommand env buffer consumed = (next, some c)) :
    ∃ n, 4 ≤ n ∧ n ≤ 76 ∧ next = (consumed + n) % 2 ^ 64 := by
  unfold fetchCommand at h
  split at h
  · cases h
  · rename_i word _
    simp only at h
    split at h
    · cases h
    · have hle := commandPayload_le (field word 0 4)
      obtain ⟨rfl, -⟩ := Prod.mk.inj h
      refine ⟨4 + commandPayload (field word 0 4), by omega, by omega, ?_⟩
      rw [Nat.mod_add_mod, Nat.add_assoc]

/-- **One turn of the write loop.**  It stops for want of a command, at a fault or
at a refused command, or goes on behind the command it has executed. -/
theorem threadWrite_turn {p : ProcId} {th : ThreadId} {size fuel consumed : Nat} {s : Driver}
    {P : Driver × Nat × Option Errno → Prop}
    (hdone : ¬ (consumed + 4) % 2 ^ 64 ≤ size → P (s, consumed, none))
    (hfault : ∀ next, (consumed + 4) % 2 ^ 64 ≤ size →
      fetchCommand env buffer consumed = (next, none) → P (s, next, some .efault))
    (hrefused : ∀ next c s' error, (consumed + 4) % 2 ^ 64 ≤ size →
      fetchCommand env buffer consumed = (next, some c) →
      s.writeCommand env p th c = (s', some error) → P (s', next, some error))
    (hnext : ∀ next c s', (consumed + 4) % 2 ^ 64 ≤ size →
      fetchCommand env buffer consumed = (next, some c) →
      s.writeCommand env p th c = (s', none) → P (threadWrite env p th buffer size fuel s' next)) :
    P (threadWrite env p th buffer size (fuel + 1) s consumed) := by
  rw [threadWrite]
  by_cases hroom : (consumed + 4) % 2 ^ 64 ≤ size
  · rw [if_pos hroom]
    cases hfetch : fetchCommand env buffer consumed with
    | mk next c =>
        cases c with
        | none => exact hfault next hroom hfetch
        | some c =>
            cases hcmd : s.writeCommand env p th c with
            | mk s' error =>
                cases error with
                | none =>
                    simp only [hcmd]
                    exact hnext next c s' hroom hfetch hcmd
                | some error =>
                    simp only [hcmd]
                    exact hrefused next c s' error hroom hfetch hcmd
  · rw [if_neg hroom]
    exact hdone hroom

/-- The write loop has stopped by itself. -/
def WriteEnded (size : Nat) (r : Driver × Nat × Option Errno) : Prop :=
  r.2.2 ≠ none ∨ size < (r.2.1 + 4) % 2 ^ 64

/-- With four bytes to a command the fuel lasts. -/
theorem threadWrite_ends_from (p : ProcId) (th : ThreadId) {size : Nat}
    (hsize : size + 80 < 2 ^ 64) (s : Driver) {consumed fuel : Nat}
    (hlt : consumed ≤ size + 76) (hfuel : size ≤ consumed + 4 * fuel) :
    WriteEnded size (threadWrite env p th buffer size fuel s consumed) := by
  induction fuel generalizing s consumed with
  | zero =>
      apply Or.inr
      simp only [threadWrite]
      omega
  | succ fuel ih =>
      apply threadWrite_turn
      · intro hdone
        exact .inr (Nat.lt_of_not_le hdone)
      · intro next _ _
        exact .inl (by simp)
      · intro next c s' error _ _ _
        exact .inl (by simp)
      · intro next c s' hroom hfetch _
        obtain ⟨n, hfour, hmost, rfl⟩ := fetchCommand_next hfetch
        apply ih
        · omega
        · omega

/-- **The write loop comes to an end.**  For every memory and every count the loop
stops by itself, at an error or for want of a further command, after at most one
command for each four bytes of the buffer and two more. -/
theorem threadWrite_ends (p : ProcId) (th : ThreadId) {size : Nat}
    (hsize : size + 80 < 2 ^ 64) (s : Driver) {consumed fuel : Nat}
    (hconsumed : consumed < 2 ^ 64) (hfuel : size / 4 + 2 ≤ fuel) :
    WriteEnded size (threadWrite env p th buffer size fuel s consumed) := by
  by_cases hinside : consumed ≤ size + 76
  · exact threadWrite_ends_from p th hsize s hinside (by omega)
  -- the count is past the end, and can only come back by wrapping around
  cases fuel with
  | zero => cases hfuel
  | succ fuel =>
      apply threadWrite_turn
      · intro hdone
        exact .inr (Nat.lt_of_not_le hdone)
      · intro next _ _
        exact .inl (by simp)
      · intro next c s' error _ _ _
        exact .inl (by simp)
      · intro next c s' hroom hfetch _
        obtain ⟨n, hfour, hmost, rfl⟩ := fetchCommand_next hfetch
        apply threadWrite_ends_from p th hsize s'
        · omega
        · omega

/-- A count that is not inside the buffer at all. -/
theorem threadWrite_ends_wrapped :
    WriteEnded 12 (threadWrite joinAndAcquireEnv 5 6 0x1000 12 5 twoProcessesUp (2 ^ 64 - 4)) :=
  threadWrite_ends 5 6 (by decide) twoProcessesUp (by decide) (by decide)

/-! ## The loop and the driver's actions -/

/-- Thread `th` of process `p` may start an ioctl. -/
def MayEnter (s : Driver) (th : ThreadId) (p : ProcId) : Prop :=
  ∃ thread, s.idleThread th = some thread ∧ thread.proc = p

/-- Who may enter, in terms of the standing. -/
theorem mayEnter_iff {s : Driver} {th : ThreadId} {p : ProcId} : s.MayEnter th p ↔
    s.standing.home th = some p ∧ s.standing.lockedBy = none ∧ s.standing.reads th = none ∧
      s.procAlive p = true := by
  constructor
  · intro hmay
    obtain ⟨thread, hidle, hproc⟩ := hmay
    have halive : s.procAlive thread.proc = true := by
      unfold idleThread at hidle
      split at hidle
      · cases hidle
      split at hidle
      · rename_i hall
        cases hidle
        exact hall.2.2
      · cases hidle
    obtain ⟨hth, hlock, hcalls⟩ := idleThread_free hidle
    subst hproc
    exact ⟨by simp [standing, hth], hlock, by simp [standing, hcalls], halive⟩
  · intro hfree
    obtain ⟨hhome, hlock, hreads, halive⟩ := hfree
    obtain ⟨thread, hth, hproc⟩ := Option.map_eq_some_iff.mp hhome
    have hcalls : s.calls th = none := Option.map_eq_none_iff.mp hreads
    refine ⟨thread, ?_, hproc⟩
    subst hproc
    rw [idleThread, hth]
    exact if_pos ⟨hlock, hcalls, halive⟩

/-- A thread that has executed a command may execute the next. -/
theorem MayEnter.command {s : Driver} {th : ThreadId} {p : ProcId} (h : s.MayEnter th p)
    (env : Env) (c : Command) : (s.writeCommand env p th c).1.MayEnter th p := by
  obtain ⟨hhome, hlock, hreads, halive⟩ := mayEnter_iff.mp h
  apply mayEnter_iff.mpr
  by_cases hc : c = .registerLooper
  · -- only the counters of the pool change
    subst hc
    have hthread := updThread_standing (s.updProc p fun proc =>
      if 0 < proc.requestedThreads then
        { proc with
          requestedThreads := proc.requestedThreads - 1
          requestedThreadsStarted := proc.requestedThreadsStarted + 1 }
      else proc) th (f := fun thread =>
        { thread with looper := { thread.looper with registered := true } }) fun _ => rfl
    have hstanding : (s.writeCommand env p th .registerLooper).1.standing = _ := hthread
    rw [hstanding]
    refine ⟨hhome, hlock, hreads, ?_⟩
    have hprocs : (s.registerLooper p th).procs p = (s.procs p).map fun proc =>
        if 0 < proc.requestedThreads then
          { proc with
            requestedThreads := proc.requestedThreads - 1
            requestedThreadsStarted := proc.requestedThreadsStarted + 1 }
        else proc := Function.update_self ..
    cases hp : s.procs p with
    | none => simp [procAlive, hp] at halive
    | some proc =>
        have hlive : proc.isDead = false := by simpa [procAlive, hp] using halive
        simp only [writeCommand, procAlive, hprocs, hp, Option.map_some]
        split
        · simp [hlive]
        · simp [hlive]
  · have hstanding := s.writeCommand_standing env p th hc
    have hprocs : (s.writeCommand env p th c).1.procs = s.procs :=
      congrArg Standing.procs hstanding
    rw [hstanding]
    refine ⟨hhome, hlock, hreads, ?_⟩
    unfold procAlive at halive ⊢
    rw [hprocs]
    exact halive

/-- **The write loop is a sequence of commands.**  What `binder_thread_write` does
to the driver is what the commands it executes do, each as an action of its
own. -/
theorem threadWrite_commands {p : ProcId} {th : ThreadId} {size fuel consumed : Nat}
    {s : Driver} (h : s.MayEnter th p) :
    (threadWrite env p th buffer size fuel s consumed).1 =
        s.run ((executed env p th buffer size fuel s consumed).map fun x =>
          .command env th x.2) ∧
      (threadWrite env p th buffer size fuel s consumed).1.MayEnter th p := by
  induction fuel generalizing s consumed with
  | zero => exact ⟨rfl, h⟩
  | succ fuel ih =>
      have hact (c : Command) : s.act (.command env th c) = (s.writeCommand env p th c).1 := by
        obtain ⟨thread, hidle, rfl⟩ := h
        simp only [act, withIdle, hidle]
      apply threadWrite_turn (P := fun r => r.1 =
        s.run ((executed env p th buffer size (fuel + 1) s consumed).map fun x =>
          .command env th x.2) ∧ r.1.MayEnter th p)
      · intro hdone
        rw [executed, if_neg hdone]
        exact ⟨rfl, h⟩
      · intro next hroom hfetch
        rw [executed, if_pos hroom, hfetch]
        exact ⟨rfl, h⟩
      · intro next c s' error hroom hfetch hcmd
        have hkeeps := h.command env c
        have hs' := hact c
        rw [hcmd] at hkeeps hs'
        simp only [executed, if_pos hroom, hfetch, hcmd]
        exact ⟨hs'.symm, hkeeps⟩
      · intro next c s' hroom hfetch hcmd
        have hkeeps := h.command env c
        have hs' := hact c
        rw [hcmd] at hkeeps hs'
        obtain ⟨hrun, hend⟩ := ih hkeeps
        simp only [executed, if_pos hroom, hfetch, hcmd]
        have hcons (l : List Action) : s.run (.command env th c :: l) = s'.run l :=
          congrArg (fun s => s.run l) hs'
        exact ⟨hrun.trans (hcons _).symm, hend⟩

end Driver

end Binder
