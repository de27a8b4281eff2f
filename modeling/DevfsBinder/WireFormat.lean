import DevfsBinder.LittleEndian

/-!
# The binder wire format

The numbers of `binder.h`: object types and their sizes inside a parcel, the
driver return protocol (`BR_`), the driver command protocol (`BC_`) and the
records that follow a command word.  Every `binder_size_t` and
`binder_uintptr_t` is an unsigned 64-bit value; the model keeps them as
natural numbers and reduces modulo `2 ^ 64` wherever the source's arithmetic
can wrap.
-/

namespace Binder

open LittleEndian

/-- Unsigned 64-bit subtraction, as in `size - *consumed`. -/
def sub64 (a b : Nat) : Nat := (a + 2 ^ 64 - b) % 2 ^ 64

/-- `BINDER_ALIGN`: round up to a multiple of eight in 64-bit arithmetic. -/
def align (x : Nat) : Nat := (x + 7) % 2 ^ 64 / 8 * 8

theorem align_of_small {x : Nat} (h : x ≤ 2 ^ 20) : align x = (x + 7) / 8 * 8 := by
  unfold align
  rw [Nat.mod_eq_of_lt (by omega)]

theorem le_align {x : Nat} (h : x ≤ 2 ^ 20) : x ≤ align x := by
  rw [align_of_small h]
  omega

theorem align_lt {x : Nat} (h : x ≤ 2 ^ 20) : align x < x + 8 := by
  rw [align_of_small h]
  omega

/-- `BINDER_MAX_TRANSACTION_SIZE`. -/
def maxTransactionSize : Nat := 1024 * 1024

/-! ## Objects inside a parcel -/

/-- The object types a parcel may name (`BINDER_TYPE_*`). -/
inductive ObjectType
  | binder
  | weakBinder
  | handle
  | weakHandle
  | fd
  | fda
  | ptr
  deriving DecidableEq, Repr

/-- `B_PACK_CHARS` of the type's three letters and `B_TYPE_LARGE`. -/
def ObjectType.code : ObjectType → Nat
  | .binder => 0x73622a85
  | .weakBinder => 0x77622a85
  | .handle => 0x73682a85
  | .weakHandle => 0x77682a85
  | .fd => 0x66642a85
  | .fda => 0x66646185
  | .ptr => 0x70742a85

/-- The type a header word names, if it names one. -/
def ObjectType.ofCode (code : Nat) : Option ObjectType :=
  [binder, weakBinder, handle, weakHandle, fd, fda, ptr].find?
    (fun type => type.code = code)

@[simp] theorem ObjectType.ofCode_code (type : ObjectType) :
    ofCode type.code = some type := by
  cases type <;> decide

/-- `binder_object_size`: how many bytes an object of this type occupies. -/
def objectSize : ObjectType → Nat
  | .binder | .weakBinder | .handle | .weakHandle => 24
  | .fd => 24
  | .ptr => 40
  | .fda => 32

/-- Every object is at least as long as a `flat_binder_object`. -/
theorem objectSize_ge (type : ObjectType) : 24 ≤ objectSize type := by
  cases type <;> decide

/-- The bytes of a `binder_buffer_object`. -/
def bufferBytes (flags buffer length parent parentOffset : Nat) : Bytes :=
  leBytes 4 ObjectType.ptr.code ++ leBytes 4 flags ++ leBytes 8 buffer ++ leBytes 8 length ++
    leBytes 8 parent ++ leBytes 8 parentOffset

/-- `FLAT_BINDER_FLAG_ACCEPTS_FDS` is set. -/
def acceptsFds (flags : Nat) : Bool := flags / 0x100 % 2 = 1

/-- `FLAT_BINDER_FLAG_TXN_SECURITY_CTX` is set. -/
def wantsSecurityCtx (flags : Nat) : Bool := flags / 0x1000 % 2 = 1

/-- `BINDER_BUFFER_FLAG_HAS_PARENT` is set. -/
def hasParent (flags : Nat) : Bool := flags % 2 = 1

/-- `TF_ONE_WAY` is set. -/
def isOneWay (flags : Nat) : Bool := flags % 2 = 1

/-! ## The return protocol -/

/-- What the driver writes into the read buffer. -/
inductive BR
  | error
  | ok
  | transactionSecCtx
  | transaction
  | reply
  | acquireResult
  | deadReply
  | transactionComplete
  | increfs
  | acquire
  | release
  | decrefs
  | attemptAcquire
  | noop
  | spawnLooper
  | finished
  | deadBinder
  | clearDeathNotificationDone
  | failedReply
  | frozenReply
  | onewaySpamSuspect
  | transactionPendingFrozen
  deriving DecidableEq, Repr

/-- The 32-bit command word of a return. -/
def BR.code : BR → Nat
  | .error => 0x80047200
  | .ok => 0x00007201
  | .transactionSecCtx => 0x80487202
  | .transaction => 0x80407202
  | .reply => 0x80407203
  | .acquireResult => 0x80047204
  | .deadReply => 0x00007205
  | .transactionComplete => 0x00007206
  | .increfs => 0x80107207
  | .acquire => 0x80107208
  | .release => 0x80107209
  | .decrefs => 0x8010720A
  | .attemptAcquire => 0x8018720B
  | .noop => 0x0000720C
  | .spawnLooper => 0x0000720D
  | .finished => 0x0000720E
  | .deadBinder => 0x8008720F
  | .clearDeathNotificationDone => 0x80087210
  | .failedReply => 0x00007211
  | .frozenReply => 0x00007212
  | .onewaySpamSuspect => 0x00007213
  | .transactionPendingFrozen => 0x00007214

/-! ## The command protocol -/

/-- `binder_transaction_data_sg`, the fields the driver reads.  `handle` is
the low half of the `target` union. -/
structure TransactionData where
  handle : Nat
  code : Nat
  flags : Nat
  dataSize : Nat
  offsetsSize : Nat
  buffer : Nat
  offsets : Nat
  buffersSize : Nat
  deriving DecidableEq, Repr

/-- What the client writes into the write buffer, decoded. -/
inductive Command
  /-- `BC_INCREFS`, `BC_ACQUIRE`, `BC_RELEASE`, `BC_DECREFS` -/
  | reference (strong increment : Bool) (desc : Nat)
  /-- `BC_INCREFS_DONE`, `BC_ACQUIRE_DONE` -/
  | done (strong : Bool) (ptr : Nat)
  | freeBuffer (ptr : Nat)
  /-- `BC_TRANSACTION`, `BC_REPLY` and their scatter-gather forms -/
  | transaction (reply isSg : Bool) (tr : TransactionData)
  | registerLooper
  | enterLooper
  | exitLooper
  | requestDeathNotification (handle cookie : Nat)
  | clearDeathNotification (handle cookie : Nat)
  | deadBinderDone (cookie : Nat)
  /-- `BC_ACQUIRE_RESULT`, `BC_ATTEMPT_ACQUIRE` and every unknown word -/
  | refused
  deriving DecidableEq, Repr

/-- How many payload bytes the write loop fetches behind a command word. -/
def commandPayload (code : Nat) : Nat :=
  if code = 0x40046304 ∨ code = 0x40046305 ∨ code = 0x40046306 ∨ code = 0x40046307 then 4
  else if code = 0x40106308 ∨ code = 0x40106309 then 16
  else if code = 0x40086303 ∨ code = 0x40086310 then 8
  else if code = 0x40406300 ∨ code = 0x40406301 then 64
  else if code = 0x40486311 ∨ code = 0x40486312 then 72
  else if code = 0x400C630E ∨ code = 0x400C630F then 12
  else 0

/-- The transaction record at the start of a payload.  The sixty-four byte
form has no `buffers_size`, which then reads as zero. -/
def decodeTransactionData (bs : Bytes) : TransactionData where
  handle := field bs 0 4
  code := field bs 16 4
  flags := field bs 20 4
  dataSize := field bs 32 8
  offsetsSize := field bs 40 8
  buffer := field bs 48 8
  offsets := field bs 56 8
  buffersSize := field bs 64 8

/-- Decode a command word and the payload that follows it. -/
def decodeCommand (code : Nat) (payload : Bytes) : Command :=
  match code with
  | 0x40046304 => .reference false true (field payload 0 4)
  | 0x40046305 => .reference true true (field payload 0 4)
  | 0x40046306 => .reference true false (field payload 0 4)
  | 0x40046307 => .reference false false (field payload 0 4)
  | 0x40106308 => .done false (field payload 0 8)
  | 0x40106309 => .done true (field payload 0 8)
  | 0x40086303 => .freeBuffer (field payload 0 8)
  | 0x40406300 => .transaction false false (decodeTransactionData payload)
  | 0x40406301 => .transaction true false (decodeTransactionData payload)
  | 0x40486311 => .transaction false true (decodeTransactionData payload)
  | 0x40486312 => .transaction true true (decodeTransactionData payload)
  | 0x0000630B => .registerLooper
  | 0x0000630C => .enterLooper
  | 0x0000630D => .exitLooper
  | 0x400C630E => .requestDeathNotification (field payload 0 4) (field payload 4 8)
  | 0x400C630F => .clearDeathNotification (field payload 0 4) (field payload 4 8)
  | 0x40086310 => .deadBinderDone (field payload 0 8)
  | _ => .refused

/-- The error numbers the driver answers with. -/
inductive Errno
  | eperm
  | eintr
  | eagain
  | enomem
  | efault
  | ebusy
  | enodev
  | einval
  | enxio
  | eexist
  | enospc
  | enotty
  deriving DecidableEq, Repr

end Binder
