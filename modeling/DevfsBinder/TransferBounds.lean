import DevfsBinder.WriteReadIoctl

/-!
# Inside the client's two buffers

The write loop asks whether the next command word still lies in the buffer, and
then fetches whatever payload the word announces: a stream that ends in the
middle of a command is read beyond its end.  All counts are unsigned 64-bit
numbers, so a count past the end of the buffer is not noticed by a subtraction
either, and the read loop then takes the room behind the buffer for room in it.

For both halves the accesses are listed here as distances from the start of the
buffer.  The copy of a payload into the receiver's arena is not an access to the
read buffer.
-/

namespace Binder

open LittleEndian

/-! ## The write half -/

namespace Driver

/-- The offsets at which the write loop starts on a command. -/
def writeStarts (env : Env) (p : ProcId) (th : ThreadId) (buffer size : Nat) :
    Nat → Driver → Nat → List Nat
  | 0, _, _ => []
  | fuel+1, s, consumed =>
      if (consumed + 4) % 2 ^ 64 ≤ size then
        consumed ::
          match fetchCommand env buffer consumed with
          | (_, none) => []
          | (next, some c) =>
              match s.writeCommand env p th c with
              | (_, some _) => []
              | (s, none) => writeStarts env p th buffer size fuel s next
      else []

/-- How many bytes of the command at offset `c` the loop gets: nothing where
the word cannot be read, the word alone where the payload cannot. -/
def fetchedBytes (env : Env) (buffer c : Nat) : Nat :=
  match env.copyin ((buffer + c) % 2 ^ 64) 4 with
  | none => 0
  | some word =>
      match env.copyin ((buffer + (c + 4) % 2 ^ 64) % 2 ^ 64) (commandPayload (field word 0 4)) with
      | none => 4
      | some _ => 4 + commandPayload (field word 0 4)

/-- The bytes themselves. -/
def fetchSpans (env : Env) (buffer c : Nat) : List Span :=
  match env.copyin ((buffer + c) % 2 ^ 64) 4 with
  | none => []
  | some word =>
      match env.copyin ((buffer + (c + 4) % 2 ^ 64) % 2 ^ 64) (commandPayload (field word 0 4)) with
      | none => [(c, 4)]
      | some _ => [(c, 4), ((c + 4) % 2 ^ 64, commandPayload (field word 0 4))]

/-- Everything the write loop interprets. -/
def writeTouches (env : Env) (p : ProcId) (th : ThreadId) (buffer size fuel : Nat) (s : Driver)
    (consumed : Nat) : List Span :=
  (writeStarts env p th buffer size fuel s consumed).flatMap (fetchSpans env buffer)

/-- The write loop interprets nothing outside what is left of the buffer, and
its count does not leave it. -/
structure WriteInside (env : Env) (p : ProcId) (th : ThreadId) (buffer size fuel : Nat)
    (s : Driver) (consumed : Nat) : Prop where
  touches : ∀ sp ∈ writeTouches env p th buffer size fuel s consumed,
    consumed ≤ sp.1 ∧ sp.1 + sp.2 ≤ size
  count : (threadWrite env p th buffer size fuel s consumed).2.1 ≤ max consumed size

/-- Every command the loop starts on and can read ends inside the buffer. -/
def WholeCommands (env : Env) (p : ProcId) (th : ThreadId) (buffer size fuel : Nat)
    (s : Driver) (consumed : Nat) : Prop :=
  ∀ c ∈ writeStarts env p th buffer size fuel s consumed,
    fetchedBytes env buffer c ≠ 0 → c + fetchedBytes env buffer c ≤ size

instance (env : Env) (p : ProcId) (th : ThreadId) (buffer size fuel : Nat) (s : Driver)
    (consumed : Nat) : Decidable (WholeCommands env p th buffer size fuel s consumed) :=
  inferInstanceAs (Decidable (∀ c ∈ _, _))

/-- The three ways a fetch can go. -/
theorem fetch_cases (env : Env) (buffer c : Nat) :
    (fetchCommand env buffer c = (c, none) ∧ fetchedBytes env buffer c = 0 ∧
        fetchSpans env buffer c = []) ∨
      (fetchCommand env buffer c = ((c + 4) % 2 ^ 64, none) ∧ fetchedBytes env buffer c = 4 ∧
        fetchSpans env buffer c = [(c, 4)]) ∨
      ∃ n cmd, fetchCommand env buffer c = (((c + 4) % 2 ^ 64 + n) % 2 ^ 64, some cmd) ∧
        fetchedBytes env buffer c = 4 + n ∧
        fetchSpans env buffer c = [(c, 4), ((c + 4) % 2 ^ 64, n)] := by
  unfold fetchCommand fetchedBytes fetchSpans
  cases hword : env.copyin ((buffer + c) % 2 ^ 64) 4 with
  | none => exact .inl ⟨rfl, rfl, rfl⟩
  | some word =>
      simp only
      cases hpay : env.copyin ((buffer + (c + 4) % 2 ^ 64) % 2 ^ 64)
          (commandPayload (field word 0 4)) with
      | none => exact .inr (.inl ⟨rfl, rfl, rfl⟩)
      | some payload => exact .inr (.inr ⟨_, _, rfl, rfl, rfl⟩)

/-- One turn of the write loop: it stops where the fetch left the count, or goes
on from there. -/
theorem writeLoop_turn (env : Env) (p : ProcId) (th : ThreadId) (buffer : Nat) {size : Nat}
    (fuel : Nat) (s : Driver) {consumed : Nat} (hroom : (consumed + 4) % 2 ^ 64 ≤ size) :
    ∃ rest, writeStarts env p th buffer size (fuel + 1) s consumed = consumed :: rest ∧
      (rest = [] ∧ (threadWrite env p th buffer size (fuel + 1) s consumed).2.1 =
          (fetchCommand env buffer consumed).1 ∨
        (fetchCommand env buffer consumed).2.isSome ∧ ∃ s', rest =
            writeStarts env p th buffer size fuel s' (fetchCommand env buffer consumed).1 ∧
          (threadWrite env p th buffer size (fuel + 1) s consumed).2.1 =
            (threadWrite env p th buffer size fuel s'
              (fetchCommand env buffer consumed).1).2.1) := by
  rw [writeStarts, threadWrite, if_pos hroom, if_pos hroom]
  cases hfetch : fetchCommand env buffer consumed with
  | mk next c =>
      cases c with
      | none => exact ⟨_, rfl, .inl ⟨rfl, rfl⟩⟩
      | some c =>
          simp only
          cases hcmd : s.writeCommand env p th c with
          | mk s' error =>
              cases error with
              | none => exact ⟨_, rfl, .inr ⟨rfl, s', rfl, rfl⟩⟩
              | some error => exact ⟨_, rfl, .inl ⟨rfl, rfl⟩⟩

/-- **A stream of whole commands** is read within its bounds. -/
theorem WholeCommands.inside {env : Env} {p : ProcId} {th : ThreadId} {buffer size fuel : Nat}
    {s : Driver} {consumed : Nat} (hsize : size < 2 ^ 64)
    (h : WholeCommands env p th buffer size fuel s consumed) :
    WriteInside env p th buffer size fuel s consumed := by
  induction fuel generalizing s consumed with
  | zero => exact ⟨fun sp hsp => (List.not_mem_nil hsp).elim, Nat.le_max_left _ _⟩
  | succ fuel ih =>
      by_cases hroom : (consumed + 4) % 2 ^ 64 ≤ size
      · obtain ⟨rest, hstarts, hturn⟩ := writeLoop_turn env p th buffer fuel s hroom
        have hhead := h consumed (by rw [hstarts]; exact List.mem_cons_self ..)
        -- where the count is after this command, and what was fetched for it
        have hfetch : (fetchCommand env buffer consumed).1 ≤ max consumed size ∧
            ((fetchCommand env buffer consumed).2.isSome →
              consumed ≤ (fetchCommand env buffer consumed).1 ∧
              (fetchCommand env buffer consumed).1 ≤ size) ∧
            ∀ sp ∈ fetchSpans env buffer consumed, consumed ≤ sp.1 ∧ sp.1 + sp.2 ≤ size := by
          rcases fetch_cases env buffer consumed with
            ⟨hf, hb, hs⟩ | ⟨hf, hb, hs⟩ | ⟨n, cmd, hf, hb, hs⟩
          · rw [hf, hs]
            exact ⟨Nat.le_max_left _ _, by simp, by simp⟩
          · rw [hb] at hhead
            have hend := hhead (by decide)
            rw [hf, hs, Nat.mod_eq_of_lt (by omega)]
            refine ⟨Nat.le_trans hend (Nat.le_max_right _ _), by simp, ?_⟩
            intro sp hsp
            rw [List.mem_singleton] at hsp
            subst hsp
            exact ⟨Nat.le_refl _, hend⟩
          · rw [hb] at hhead
            have hend := hhead (by omega)
            have h₁ : (consumed + 4) % 2 ^ 64 = consumed + 4 := Nat.mod_eq_of_lt (by omega)
            have h₂ : (consumed + 4 + n) % 2 ^ 64 = consumed + 4 + n :=
              Nat.mod_eq_of_lt (by omega)
            rw [hf, hs, h₁, h₂]
            refine ⟨Nat.le_trans (by omega) (Nat.le_max_right _ _),
              fun _ => ⟨by simp only; omega, by simp only; omega⟩, ?_⟩
            intro sp hsp
            rcases List.mem_cons.mp hsp with rfl | hsp
            · exact ⟨Nat.le_refl _, by simp only; omega⟩
            · rw [List.mem_singleton] at hsp
              subst hsp
              exact ⟨by simp only; omega, by simp only; omega⟩
        obtain ⟨hcount, hnext, hspans⟩ := hfetch
        rcases hturn with ⟨rfl, hend⟩ | ⟨hsome, s', rfl, hend⟩
        · constructor
          · rw [writeTouches, hstarts]
            simpa using hspans
          · rw [hend]
            exact hcount
        · obtain ⟨hle, hle'⟩ := hnext hsome
          have hwhole : WholeCommands env p th buffer size fuel s'
              (fetchCommand env buffer consumed).1 := by
            intro c hc
            exact h c (by rw [hstarts]; exact List.mem_cons_of_mem _ hc)
          obtain ⟨htouches, hlast⟩ := ih hwhole
          constructor
          · intro sp hsp
            rw [writeTouches, hstarts, List.flatMap_cons, List.mem_append] at hsp
            rcases hsp with hsp | hsp
            · exact hspans sp hsp
            · obtain ⟨hlow, hhigh⟩ := htouches sp hsp
              exact ⟨Nat.le_trans hle hlow, hhigh⟩
          · rw [hend]
            exact Nat.le_trans hlast (Nat.max_le.mpr
              ⟨Nat.le_trans hle' (Nat.le_max_right _ _), Nat.le_max_right _ _⟩)
      · constructor
        · intro sp hsp
          rw [writeTouches, writeStarts, if_neg hroom] at hsp
          cases hsp
        · rw [threadWrite, if_neg hroom]
          exact Nat.le_max_left _ _

/-- **The write half stays inside its buffer** exactly if no command it starts on
is cut off by the buffer's end. -/
theorem writeInside_iff {env : Env} {p : ProcId} {th : ThreadId} {buffer size fuel : Nat}
    {s : Driver} {consumed : Nat} (hsize : size < 2 ^ 64) :
    WriteInside env p th buffer size fuel s consumed ↔
      WholeCommands env p th buffer size fuel s consumed := by
  refine ⟨fun h c hc hne => ?_, WholeCommands.inside hsize⟩
  have hspans : ∀ sp ∈ fetchSpans env buffer c, sp.1 + sp.2 ≤ size := fun sp hsp =>
    (h.touches sp (List.mem_flatMap.mpr ⟨c, hc, hsp⟩)).2
  rcases fetch_cases env buffer c with ⟨-, hb, -⟩ | ⟨-, hb, hs⟩ | ⟨n, cmd, -, hb, hs⟩
  · exact absurd hb hne
  · rw [hb]
    exact hspans (c, 4) (by rw [hs]; simp)
  · have hword := hspans (c, 4) (by rw [hs]; simp)
    have hpay := hspans ((c + 4) % 2 ^ 64, n) (by rw [hs]; simp)
    simp only at hword hpay
    rw [Nat.mod_eq_of_lt (by omega)] at hpay
    omega

end Driver

/-! ## The read half -/

/-- The bytes `binder_put_cmd` writes. -/
def putCmdTouches (env : Env) (rc : ReadCall) : List Span :=
  if rc.room < 4 then []
  else if ¬ env.copyoutOk rc.cursor 4 then []
  else [(rc.consumed, 4)]

/-- The bytes `binder_put_cmd_data` writes: the command may be written although
its payload then is not. -/
def putCmdDataTouches (env : Env) (rc : ReadCall) (len : Nat) : List Span :=
  if rc.room < 4 + len then []
  else if ¬ env.copyoutOk rc.cursor 4 then []
  else if ¬ env.copyoutOk ((rc.cursor + 4) % 2 ^ 64) len then [(rc.consumed, 4)]
  else [(rc.consumed, 4), ((rc.consumed + 4) % 2 ^ 64, len)]

/-- The read goes from `rc` to `rc'` and writes `spans` on the way.  The first
byte goes to where the count stands, the count moves only over what is written,
without room for a command word nothing is written, and from a count inside the
buffer everything stays inside. -/
structure ReadCall.Advances (rc : ReadCall) (spans : List Span) (rc' : ReadCall) : Prop where
  size : rc'.size = rc.size
  idle : spans = [] → rc'.consumed = rc.consumed
  first : ∀ sp ∈ spans.head?, sp.1 = rc.consumed
  full : rc.room < 4 → spans = []
  inside : rc.consumed ≤ rc.size → rc.size < 2 ^ 64 →
    rc.consumed ≤ rc'.consumed ∧ rc'.consumed ≤ rc.size ∧
      ∀ sp ∈ spans, rc.consumed ≤ sp.1 ∧ sp.1 + sp.2 ≤ rc.size

namespace ReadCall.Advances

variable {rc rc' rc'' : ReadCall} {a b : List Span}

theorem refl (rc : ReadCall) : rc.Advances [] rc :=
  ⟨rfl, fun _ => rfl, by simp, fun _ => rfl, fun h _ => ⟨Nat.le_refl _, h, by simp⟩⟩

/-- What nobody writes for leaves the count alone. -/
theorem same (hsize : rc'.size = rc.size) (hcount : rc'.consumed = rc.consumed) :
    rc.Advances [] rc' :=
  ⟨hsize, fun _ => hcount, by simp, fun _ => rfl,
    fun h _ => ⟨Nat.le_of_eq hcount.symm, hcount ▸ h, by simp⟩⟩

/-- Two advances are one. -/
theorem trans (h : rc.Advances a rc') (h' : rc'.Advances b rc'') :
    rc.Advances (a ++ b) rc'' where
  size := h'.size.trans h.size
  idle hnil := by
    obtain ⟨ha, hb⟩ := List.append_eq_nil_iff.mp hnil
    exact (h'.idle hb).trans (h.idle ha)
  first := by
    cases a with
    | nil =>
        intro sp hsp
        rw [← h.idle rfl]
        exact h'.first sp hsp
    | cons x a => exact h.first
  full hroom := by
    have ha := h.full hroom
    have hsame : rc'.room = rc.room := by rw [ReadCall.room, ReadCall.room, h.size, h.idle ha]
    rw [ha, h'.full (hsame ▸ hroom), List.append_nil]
  inside hle hlt := by
    obtain ⟨h₁, h₂, h₃⟩ := h.inside hle hlt
    obtain ⟨h₁', h₂', h₃'⟩ := h'.inside (by rw [h.size]; exact h₂) (by rw [h.size]; exact hlt)
    rw [h.size] at h₂' h₃'
    refine ⟨Nat.le_trans h₁ h₁', h₂', fun sp hsp => ?_⟩
    rcases List.mem_append.mp hsp with hsp | hsp
    · exact h₃ sp hsp
    · exact ⟨Nat.le_trans h₁ (h₃' sp hsp).1, (h₃' sp hsp).2⟩

/-- The room of a call whose count is inside its buffer. -/
theorem room_eq (hle : rc.consumed ≤ rc.size) (hlt : rc.size < 2 ^ 64) :
    rc.room = rc.size - rc.consumed := by
  unfold ReadCall.room sub64
  omega

end ReadCall.Advances

/-- A command goes where the read has got to. -/
theorem putCmd_advances (env : Env) (rc : ReadCall) (cmd : BR) :
    rc.Advances (putCmdTouches env rc) (putCmd env rc cmd).1 := by
  unfold putCmdTouches putCmd
  split
  · exact .refl rc
  · rename_i hroom
    split
    · exact .refl rc
    · have hlen : (leBytes 4 cmd.code ++ []).length = 4 := by simp
      refine ⟨rfl, by simp, by simp, fun hfull => absurd hfull hroom, fun hle hlt => ?_⟩
      rw [ReadCall.Advances.room_eq hle hlt] at hroom
      simp only [ReadCall.emit, ReadCall.append, hlen]
      rw [Nat.mod_eq_of_lt (by omega)]
      refine ⟨by omega, by omega, ?_⟩
      intro sp hsp
      rw [List.mem_singleton] at hsp
      subst hsp
      exact ⟨Nat.le_refl _, by simp only; omega⟩

/-- A command with its data goes where the read has got to. -/
theorem putCmdData_advances (env : Env) (rc : ReadCall) (cmd : BR) (data : Bytes) :
    rc.Advances (putCmdDataTouches env rc data.length) (putCmdData env rc cmd data).1 := by
  unfold putCmdDataTouches putCmdData
  split
  · exact .refl rc
  · rename_i hroom
    split
    · exact .refl rc
    · split
      · refine ⟨rfl, by simp, by simp, fun hfull => by omega,
          fun hle hlt => ⟨Nat.le_refl _, hle, ?_⟩⟩
        rw [ReadCall.Advances.room_eq hle hlt] at hroom
        intro sp hsp
        rw [List.mem_singleton] at hsp
        subst hsp
        exact ⟨Nat.le_refl _, by simp only; omega⟩
      · have hlen : (leBytes 4 cmd.code ++ data).length = 4 + data.length := by simp
        refine ⟨rfl, by simp, by simp, fun hfull => by omega, fun hle hlt => ?_⟩
        rw [ReadCall.Advances.room_eq hle hlt] at hroom
        simp only [ReadCall.emit, ReadCall.append, hlen]
        rw [Nat.mod_eq_of_lt (by omega), Nat.mod_eq_of_lt (by omega)]
        refine ⟨by omega, by omega, ?_⟩
        intro sp hsp
        rcases List.mem_cons.mp hsp with rfl | hsp
        · exact ⟨Nat.le_refl _, by simp only; omega⟩
        · rw [List.mem_singleton] at hsp
          subst hsp
          exact ⟨by simp only; omega, by simp only; omega⟩

namespace Driver

/-- The bytes one of the four commands about a node writes. -/
def tellOwnerTouches (env : Env) (due : Bool) (h : Handled) : List Span :=
  match due, h.error with
  | true, none => putCmdDataTouches env h.rc 16
  | _, _ => []

/-- The bytes `binder_read_node_work` writes. -/
def readNodeTouches (env : Env) (s : Driver) (th : ThreadId) (n : NodeId) (rc : ReadCall) :
    List Span :=
  match s.nodes n with
  | none => []
  | some nd =>
      let (increfs, acquire, release, decrefs) := s.nodeNews n nd
      let needed := increfs.toNat + acquire.toNat + release.toNat + decrefs.toNat
      if needed = 0 then []
      else if rc.room < needed * 20 then []
      else
        let h₀ : Handled := ⟨s, rc, none⟩
        let h₁ := tellOwner env th n increfs .increfs (ptrCookie nd)
          (fun nd => { nd with hasWeakRef := true, pendingWeakRef := true }) h₀
        let h₂ := tellOwner env th n acquire .acquire (ptrCookie nd)
          (fun nd => { nd with hasStrongRef := true, pendingStrongRef := true }) h₁
        let h₃ := tellOwner env th n release .release (ptrCookie nd)
          (fun nd => { nd with hasStrongRef := false }) h₂
        tellOwnerTouches env increfs h₀ ++ tellOwnerTouches env acquire h₁ ++
          tellOwnerTouches env release h₂ ++ tellOwnerTouches env decrefs h₃

/-- The bytes a description writes, with the security context behind it when
the node asked for one. -/
def putTransactionTouches (env : Env) (rc : ReadCall) (cmd : BR) (data : Bytes)
    (wantSecctx : Bool) : List Span :=
  if wantSecctx then
    let secctx := (rc.cursor + 4 + 72) % 2 ^ 64
    putCmdDataTouches env rc (data.length + 8) ++
      match putCmdData env rc cmd (data ++ leBytes 8 secctx) with
      | (_, some _) => []
      | (rc, none) =>
          if rc.room < secctxBytes.length then []
          else if ¬ env.copyoutOk rc.cursor secctxBytes.length then []
          else [(rc.consumed, secctxBytes.length)]
  else putCmdDataTouches env rc data.length

/-- The bytes `binder_read_transaction` writes to the read buffer. -/
def readTransactionTouches (env : Env) (s : Driver) (p : ProcId) (t : TxnId) (rc : ReadCall) :
    List Span :=
  match s.txns t with
  | none => []
  | some x =>
      match x.buffer.bind (s.findBuffer p) with
      | none => []
      | some buf =>
          let uaddr := s.bufferUaddr p buf
          let reachable := match buf.kdata with
            | some kdata => env.copyoutOk uaddr kdata.length
            | none => true
          if reachable then
            putTransactionTouches env rc (s.deliveryCmd buf)
              (describe x buf (buf.targetNode.bind s.nodes) uaddr) (s.wantsSecctx buf)
          else []

/-- The bytes the loop's body writes for a dequeued item. -/
def readWorkTouches (env : Env) (s : Driver) (p : ProcId) (th : ThreadId) (w : Work)
    (rc : ReadCall) : List Span :=
  match w with
  | .transaction t => readTransactionTouches env s p t rc
  | .complete _ | .returnError _ => putCmdTouches env rc
  | .node n => readNodeTouches env s th n rc
  | .death d =>
      match s.deaths d with
      | none => []
      | some _ => putCmdDataTouches env rc 8

/-- The bytes of a `BR_SPAWN_LOOPER`. -/
def spawnTouches (env : Env) (s : Driver) (th : ThreadId) (p : ProcId) (fromProc : Bool)
    (rc : ReadCall) : List Span :=
  match s.procs p, s.threads th with
  | some proc, some thread =>
      if fromProc ∧ proc.requestedThreads = 0 ∧ proc.readyThreads = 0 ∧
          proc.requestedThreadsStarted < proc.maxThreads ∧
          (thread.looper.registered || thread.looper.entered) then
        putCmdTouches env rc
      else []
  | _, _ => []

/-- The bytes one turn of the read loop writes to the read buffer. -/
def readTouches (env : Env) (s : Driver) (th : ThreadId) (thread : Thread) (rc : ReadCall) :
    List Span :=
  match s.nextWork th thread with
  | none => []
  | some (w, fromProc) =>
      let h := readWork env (s.dequeueWork w) thread.proc th w rc
      readWorkTouches env (s.dequeueWork w) thread.proc th w rc ++
        match h.error with
        | some _ => []
        | none =>
            spawnTouches env h.drv th thread.proc fromProc { h.rc with wroteSomething := true }

/-! ### What is written stays inside -/

theorem tellOwner_advances (env : Env) (th : ThreadId) (n : NodeId) (due : Bool) (cmd : BR)
    {data : Bytes} (hdata : data.length = 16) (record : Node → Node) (h : Handled) :
    h.rc.Advances (tellOwnerTouches env due h) (tellOwner env th n due cmd data record h).rc := by
  unfold tellOwnerTouches tellOwner
  cases due with
  | false => exact .refl h.rc
  | true =>
      cases h.error with
      | some error => exact .refl h.rc
      | none =>
          simp only [Handled.put_rc]
          rw [← hdata]
          exact putCmdData_advances env h.rc cmd data

/-- So do the news of a node, one after the other. -/
theorem readNodeWork_advances (env : Env) (s : Driver) (th : ThreadId) (n : NodeId)
    (rc : ReadCall) :
    rc.Advances (readNodeTouches env s th n rc) (readNodeWork env s th n rc).rc := by
  unfold readNodeTouches readNodeWork
  cases hn : s.nodes n with
  | none => exact .refl rc
  | some nd =>
      simp only
      generalize s.nodeNews n nd = news
      obtain ⟨increfs, acquire, release, decrefs⟩ := news
      simp only
      by_cases hneeded : increfs.toNat + acquire.toNat + release.toNat + decrefs.toNat = 0
      · rw [if_pos hneeded, if_pos hneeded]
        exact .refl rc
      · rw [if_neg hneeded, if_neg hneeded]
        by_cases hroom : rc.room <
            (increfs.toNat + acquire.toNat + release.toNat + decrefs.toNat) * 20
        · rw [if_pos hroom, if_pos hroom]
          exact .refl rc
        · rw [if_neg hroom, if_neg hroom]
          have hdata : (ptrCookie nd).length = 16 := by simp [ptrCookie]
          have h₁ := tellOwner_advances env th n increfs .increfs hdata
            (fun nd => { nd with hasWeakRef := true, pendingWeakRef := true }) ⟨s, rc, none⟩
          have h₂ := fun h => tellOwner_advances env th n acquire .acquire hdata
            (fun nd => { nd with hasStrongRef := true, pendingStrongRef := true }) h
          have h₃ := fun h => tellOwner_advances env th n release .release hdata
            (fun nd => { nd with hasStrongRef := false }) h
          have h₄ := fun h => tellOwner_advances env th n decrefs .decrefs hdata
            (fun nd => { nd with hasWeakRef := false }) h
          have hall := ((h₁.trans (h₂ _)).trans (h₃ _)).trans (h₄ _)
          split
          · exact hall
          · exact hall

/-- So does a transaction, with its security context. -/
theorem putTransaction_advances (env : Env) (s : Driver) (th : ThreadId) (t : TxnId)
    (rc : ReadCall) (cmd : BR) (data : Bytes) (wantSecctx : Bool) :
    rc.Advances (putTransactionTouches env rc cmd data wantSecctx)
      (putTransaction env s th t rc cmd data wantSecctx).rc := by
  unfold putTransactionTouches putTransaction
  simp only
  split
  · have hput := putCmdData_advances env rc cmd (data ++ leBytes 8 ((rc.cursor + 4 + 72) % 2 ^ 64))
    have hlen : (data ++ leBytes 8 ((rc.cursor + 4 + 72) % 2 ^ 64)).length = data.length + 8 := by
      simp
    rw [hlen] at hput
    generalize putCmdData env rc cmd (data ++ leBytes 8 ((rc.cursor + 4 + 72) % 2 ^ 64)) = r at hput
    obtain ⟨rc₁, _ | error⟩ := r
    · refine hput.trans ?_
      simp only [putSecctx]
      split
      · exact .refl rc₁
      · rename_i hroom
        split
        · exact .refl rc₁
        · have hlen : secctxBytes.length = 21 := rfl
          refine ⟨rfl, by simp, by simp, fun hfull => by omega, fun hle hlt => ?_⟩
          rw [ReadCall.Advances.room_eq hle hlt] at hroom
          simp only [ReadCall.append]
          rw [Nat.mod_eq_of_lt (by omega)]
          refine ⟨by omega, by omega, ?_⟩
          intro sp hsp
          rw [List.mem_singleton] at hsp
          subst hsp
          exact ⟨Nat.le_refl _, by simp only; omega⟩
    · simpa [putSecctx] using hput
  · rw [Handled.put_rc]
    exact putCmdData_advances env rc cmd data

/-- So does whatever comes of a transaction that is taken. -/
theorem readTransaction_advances (env : Env) (s : Driver) (p : ProcId) (th : ThreadId)
    (t : TxnId) (rc : ReadCall) :
    rc.Advances (readTransactionTouches env s p t rc) (readTransaction env s p th t rc).rc := by
  unfold readTransactionTouches readTransaction
  cases s.txns t with
  | none => exact .refl rc
  | some x =>
      simp only
      cases x.buffer.bind (s.findBuffer p) with
      | none => exact .refl rc
      | some buf =>
          have hput := putTransaction_advances env s th t rc (s.deliveryCmd buf)
            (describe x buf (buf.targetNode.bind s.nodes) (s.bufferUaddr p buf))
            (s.wantsSecctx buf)
          simp only
          cases buf.kdata with
          | none =>
              simp only [if_true]
              split
              · exact hput
              · exact hput
          | some kdata =>
              cases hok : env.copyoutOk (s.bufferUaddr p buf) kdata.length with
              | false =>
                  simp only [hok, Bool.false_eq_true, if_false]
                  exact .refl rc
              | true =>
                  simp only [hok, if_true]
                  split
                  · exact hput
                  · exact hput

/-- So does every kind of item. -/
theorem readWork_advances (env : Env) (s : Driver) (p : ProcId) (th : ThreadId) (w : Work)
    (rc : ReadCall) :
    rc.Advances (readWorkTouches env s p th w rc) (readWork env s p th w rc).rc := by
  cases w with
  | transaction t =>
      simp only [readWorkTouches, readWork]
      exact readTransaction_advances env s p th t rc
  | complete c =>
      simp only [readWorkTouches, readWork, Handled.put_rc]
      exact putCmd_advances env rc _
  | returnError e =>
      simp only [readWorkTouches, readWork, Handled.put_rc]
      exact putCmd_advances env rc _
  | node n =>
      simp only [readWorkTouches, readWork]
      exact readNodeWork_advances env s th n rc
  | death d =>
      simp only [readWorkTouches, readWork, readDeath]
      cases s.deaths d with
      | none => exact .refl rc
      | some death =>
          have hlen : (leBytes 8 death.cookie).length = 8 := by simp
          have hput := putCmdData_advances env rc (deathCmd death.type) (leBytes 8 death.cookie)
          rw [hlen] at hput
          simp only [Handled.put_rc]
          exact hput

/-- So does the request for another thread. -/
theorem spawnLooper_advances (env : Env) (s : Driver) (th : ThreadId) (p : ProcId)
    (fromProc : Bool) (rc : ReadCall) :
    rc.Advances (spawnTouches env s th p fromProc rc)
      (spawnLooper env s th p fromProc rc).2 := by
  unfold spawnTouches spawnLooper
  cases s.procs p with
  | none =>
      simp only
      exact .refl rc
  | some proc =>
      cases s.threads th with
      | none =>
          simp only
          exact .refl rc
      | some thread =>
          simp only
          by_cases hspawn : fromProc ∧ proc.requestedThreads = 0 ∧ proc.readyThreads = 0 ∧
              proc.requestedThreadsStarted < proc.maxThreads ∧
              (thread.looper.registered || thread.looper.entered)
          · rw [if_pos hspawn, if_pos hspawn]
            have hput := putCmd_advances env rc .spawnLooper
            generalize putCmd env rc .spawnLooper = r at hput ⊢
            obtain ⟨rc', error⟩ := r
            exact hput
          · rw [if_neg hspawn, if_neg hspawn]
            exact .refl rc

/-- **One turn of the read loop.** -/
theorem readTurn_advances (env : Env) (s : Driver) (th : ThreadId) (thread : Thread)
    (rc : ReadCall) :
    ∃ rc', (readTurn env s th thread rc).calls th = some rc' ∧
      rc.Advances (readTouches env s th thread rc) rc' := by
  unfold readTurn readTouches
  cases s.nextWork th thread with
  | none =>
      have hstatus : ∀ status, rc.Advances [] { rc with status := status } :=
        fun _ => .same rfl rfl
      simp only [readIdle]
      split
      · exact ⟨_, finishRead_calls_self .., hstatus _⟩
      · split
        · exact ⟨_, setCall_calls_self .., hstatus _⟩
        · exact ⟨_, setCall_calls_self .., hstatus _⟩
  | some next =>
      obtain ⟨w, fromProc⟩ := next
      have hwork := readWork_advances env (s.dequeueWork w) thread.proc th w rc
      simp only
      generalize readWork env (s.dequeueWork w) thread.proc th w rc = h at hwork
      have hstatus : ∀ status, rc.Advances
          (readWorkTouches env (s.dequeueWork w) thread.proc th w rc ++ [])
          { h.rc with status := status } := fun _ => hwork.trans (.same rfl rfl)
      unfold readNext
      cases h.error with
      | some error =>
          cases error with
          | enomem => exact ⟨_, finishRead_calls_self .., hstatus _⟩
          | _ => exact ⟨_, finishRead_calls_self .., hstatus _⟩
      | none =>
          have hmark : h.rc.Advances [] { h.rc with wroteSomething := true } := .same rfl rfl
          have hspawn := hwork.trans (hmark.trans (spawnLooper_advances env h.drv th thread.proc
            fromProc { h.rc with wroteSomething := true }))
          rw [List.nil_append] at hspawn
          simp only
          generalize spawnLooper env h.drv th thread.proc fromProc
            { h.rc with wroteSomething := true } = r at hspawn
          obtain ⟨s₁, rc₁⟩ := r
          have hend : rc₁.Advances [] { rc₁ with status := .returned none } := .same rfl rfl
          simp only at hspawn ⊢
          split
          · have hlast := hspawn.trans hend
            rw [List.append_nil] at hlast
            exact ⟨_, finishRead_calls_self .., hlast⟩
          · exact ⟨_, setCall_calls_self .., hspawn⟩

/-! ### A whole read -/

/-- The record of a read that has just been asked for. -/
def readCallOf (bwr : WriteRead) : ReadCall :=
  { buffer := bwr.readBuffer
    size := bwr.readSize
    start := bwr.readConsumed
    consumed := bwr.readConsumed }

/-- The bytes the prologue writes. -/
def startTouches (env : Env) (rc : ReadCall) : List Span :=
  if rc.consumed = 0 then putCmdTouches env rc else []

/-- A read of `th` as far as `rc`, with `spans` written: the prologue, and then
turns of its loop.  Each turn is taken in whatever state the driver is in by
then; all the others can do to the call is change its status. -/
inductive Reading (th : ThreadId) (bwr : WriteRead) : List Span → ReadCall → Prop
  | start {s : Driver} {rc : ReadCall} (env : Env) (hs : Reachable s)
      (hrc : (readStart env s th bwr.readBuffer bwr.readSize bwr.readConsumed).calls th =
        some rc) :
      Reading th bwr (startTouches env (readCallOf bwr)) rc
  | status {spans : List Span} {rc : ReadCall} (status : ReadStatus)
      (h : Reading th bwr spans rc) : Reading th bwr spans { rc with status := status }
  | turn {s : Driver} {spans : List Span} {rc rc' : ReadCall} {thread : Thread} (env : Env)
      (h : Reading th bwr spans rc) (hs : Reachable s) (hth : s.threads th = some thread)
      (hcall : s.calls th = some rc) (hrun : rc.status = .running)
      (hrc : (readTurn env s th thread rc).calls th = some rc') :
      Reading th bwr (spans ++ readTouches env s th thread rc) rc'

/-- The prologue writes at most a `BR_NOOP`. -/
theorem readStart_advances (env : Env) (s : Driver) (th : ThreadId) (bwr : WriteRead) :
    ∃ rc, (readStart env s th bwr.readBuffer bwr.readSize bwr.readConsumed).calls th = some rc ∧
      (readCallOf bwr).Advances (startTouches env (readCallOf bwr)) rc := by
  have hcall : ReadCall.mk bwr.readBuffer bwr.readSize bwr.readConsumed bwr.readConsumed
    false .running [] [] = readCallOf bwr := rfl
  unfold readStart startTouches
  by_cases hzero : bwr.readConsumed = 0
  · have hput := putCmd_advances env (readCallOf bwr) .noop
    simp only [if_pos hzero, hcall]
    rw [if_pos (show (readCallOf bwr).consumed = 0 from hzero)]
    generalize putCmd env (readCallOf bwr) .noop = r at hput ⊢
    obtain ⟨rc, _ | error⟩ := r
    · exact ⟨_, setCall_calls_self .., hput⟩
    · have hend : rc.Advances [] { rc with status := .returned (some error) } := .same rfl rfl
      have hboth := hput.trans hend
      rw [List.append_nil] at hboth
      exact ⟨_, finishRead_calls_self .., hboth⟩
  · simp only [if_neg hzero, hcall]
    rw [if_neg (show (readCallOf bwr).consumed ≠ 0 from hzero)]
    exact ⟨_, setCall_calls_self .., .refl (readCallOf bwr)⟩

/-- A whole read is a sequence of advances. -/
theorem Reading.advances {th : ThreadId} {bwr : WriteRead} {spans : List Span} {rc : ReadCall}
    (h : Reading th bwr spans rc) : (readCallOf bwr).Advances spans rc := by
  induction h with
  | @start s rc env _ hrc =>
      obtain ⟨rc', hrc', hadv⟩ := readStart_advances env s th bwr
      rw [hrc] at hrc'
      cases hrc'
      exact hadv
  | @status spans rc status _ ih =>
      have hsame : rc.Advances [] { rc with status := status } := .same rfl rfl
      have hboth := ih.trans hsame
      rw [List.append_nil] at hboth
      exact hboth
  | @turn s spans rc rc' thread env _ _ _ _ _ hrc ih =>
      obtain ⟨rc'', hrc'', hadv⟩ := readTurn_advances env s th thread rc
      rw [hrc] at hrc''
      cases hrc''
      exact ih.trans hadv

/-- No read that `bwr` asks for writes outside what is left of its buffer, and its
count does not leave it. -/
def ReadInside (bwr : WriteRead) : Prop :=
  ∀ th spans rc, Reading th bwr spans rc →
    (∀ sp ∈ spans, bwr.readConsumed ≤ sp.1 ∧ sp.1 + sp.2 ≤ bwr.readSize) ∧
      rc.consumed ≤ max bwr.readConsumed bwr.readSize

/-- The count starts inside the buffer, or so far behind it that the unsigned
difference leaves no room for a command word either. -/
def CountInside (bwr : WriteRead) : Prop :=
  bwr.readConsumed ≤ bwr.readSize ∨ 2 ^ 64 + bwr.readSize < bwr.readConsumed + 4

instance (bwr : WriteRead) : Decidable (CountInside bwr) :=
  inferInstanceAs (Decidable (_ ∨ _))

theorem CountInside.readInside {bwr : WriteRead} (hsize : bwr.readSize < 2 ^ 64)
    (hconsumed : bwr.readConsumed < 2 ^ 64) (h : CountInside bwr) : ReadInside bwr := by
  intro th spans rc hread
  have hadv := hread.advances
  rcases h with hle | hfar
  · obtain ⟨-, hend, hspans⟩ := hadv.inside hle hsize
    exact ⟨hspans, Nat.le_trans hend (Nat.le_max_right _ _)⟩
  · -- what is left of the address space behind the count is no room for a word
    have hroom : (readCallOf bwr).room < 4 := by
      simp only [ReadCall.room, sub64, readCallOf]
      omega
    have hnone := hadv.full hroom
    rw [hadv.idle hnone, hnone]
    exact ⟨by simp, Nat.le_max_left _ _⟩

/-- Process 5 has told the manager something, and its thread 6 is due a
completion. -/
def completionDue : Driver :=
  twoProcessesUp.act
    (({ flags := 1, data := leBytes 8 7 } : Message).send 6)

/-- A read asked for in that state, with a count that is not zero. -/
def completionRead (bwr : WriteRead) : Driver :=
  (completionDue.setLock (some 6)).setCall 6 (readCallOf bwr)

theorem completionDue_idle : completionDue.idleThread 6 = some { proc := 5, tid := 200 } := by
  decide +kernel

theorem completionDue_items : completionDue.items (.thread 6) = [.complete 11] := by
  decide +kernel

theorem readStart_completionDue {bwr : WriteRead} (hzero : bwr.readConsumed ≠ 0) :
    readStart {} completionDue 6 bwr.readBuffer bwr.readSize bwr.readConsumed =
      completionRead bwr := by
  unfold readStart
  rw [if_neg hzero]
  rfl

theorem completionDue_reachable : Reachable completionDue :=
  (Reachable.run Reaches.init twoProcesses).run
    [({ flags := 1, data := leBytes 8 7 } : Message).send 6]

theorem completionRead_reachable {bwr : WriteRead} (hsize : 0 < bwr.readSize)
    (hzero : bwr.readConsumed ≠ 0) : Reachable (completionRead bwr) := by
  have hstep : Reachable (completionDue.act
      (.readStart {} 6 bwr.readBuffer bwr.readSize bwr.readConsumed)) :=
    .step _ completionDue_reachable trivial
  simp only [act, withIdle, completionDue_idle, if_pos hsize] at hstep
  rwa [readStart_completionDue hzero] at hstep

/-- A count behind the buffer's end lets a completion be written there. -/
theorem reading_outside {bwr : WriteRead} (hsize : 0 < bwr.readSize)
    (hzero : bwr.readConsumed ≠ 0) (hroom : ¬ (readCallOf bwr).room < 4) :
    ∃ spans rc, Reading 6 bwr spans rc ∧ (bwr.readConsumed, 4) ∈ spans := by
  have hstart : Reading 6 bwr (startTouches {} (readCallOf bwr)) (readCallOf bwr) :=
    .start {} completionDue_reachable
      (by rw [readStart_completionDue hzero]; exact setCall_calls_self ..)
  have hthread : (completionRead bwr).threads 6 = some { proc := 5, tid := 200 } := by
    change completionDue.threads 6 = _
    decide +kernel
  have hcall : (completionRead bwr).calls 6 = some (readCallOf bwr) := setCall_calls_self ..
  have hitems : (completionRead bwr).items (.thread 6) = [.complete 11] := completionDue_items
  obtain ⟨rc, hrc, -⟩ := readTurn_advances {} (completionRead bwr) 6 { proc := 5, tid := 200 }
    (readCallOf bwr)
  refine ⟨_, rc, .turn {} hstart (completionRead_reachable hsize hzero) hthread hcall rfl hrc,
    List.mem_append_right _ ?_⟩
  -- the turn takes the completion and writes its word where the count stands
  have hnext : (completionRead bwr).nextWork 6 { proc := 5, tid := 200 } =
      some (.complete 11, false) := by
    rw [nextWork, hitems]
    rfl
  have hput : putCmdTouches {} (readCallOf bwr) = [(bwr.readConsumed, 4)] := by
    rw [putCmdTouches, if_neg hroom, if_neg (by simp)]
    rfl
  rw [readTouches, hnext]
  refine List.mem_append_left _ ?_
  rw [readWorkTouches, hput]
  exact List.mem_singleton_self _

/-- **The read half stays inside its buffer**, whatever there is to read, exactly
if its count starts inside. -/
theorem readInside_iff {bwr : WriteRead} (hpos : 0 < bwr.readSize)
    (hsize : bwr.readSize < 2 ^ 64) (hconsumed : bwr.readConsumed < 2 ^ 64) :
    ReadInside bwr ↔ CountInside bwr := by
  refine ⟨fun h => ?_, CountInside.readInside hsize hconsumed⟩
  by_contra hout
  obtain ⟨hlt, hroom⟩ := not_or.mp hout
  have hspace : ¬ (readCallOf bwr).room < 4 := by
    simp only [ReadCall.room, sub64, readCallOf]
    omega
  obtain ⟨spans, rc, hread, hmem⟩ := reading_outside hpos (by omega) hspace
  have hend := ((h 6 spans rc hread).1 _ hmem).2
  simp only at hend
  omega

/-! ## The ioctl -/

/-- `BINDER_WRITE_READ` with the argument `bwr` keeps to the client's two
buffers, up to `fuel` commands into its write half. -/
def KeepsInside (env : Env) (s : Driver) (p : ProcId) (th : ThreadId) (bwr : WriteRead)
    (fuel : Nat) : Prop :=
  (0 < bwr.writeSize →
      WriteInside env p th bwr.writeBuffer bwr.writeSize fuel s bwr.writeConsumed) ∧
    (0 < bwr.readSize → ReadInside bwr)

/-- **Inside the client's two buffers.**  Both halves of the ioctl keep to the
buffers the argument gives them if and only if no command the write loop starts
on is cut off by the end of the write buffer and the read count does not start
behind the end of the read buffer. -/
theorem keepsInside_iff {env : Env} {s : Driver} {p : ProcId} {th : ThreadId}
    {bwr : WriteRead} {fuel : Nat} (hwrite : bwr.writeSize < 2 ^ 64)
    (hread : bwr.readSize < 2 ^ 64) (hconsumed : bwr.readConsumed < 2 ^ 64) :
    KeepsInside env s p th bwr fuel ↔
      (0 < bwr.writeSize →
          WholeCommands env p th bwr.writeBuffer bwr.writeSize fuel s bwr.writeConsumed) ∧
        (0 < bwr.readSize → CountInside bwr) := by
  unfold KeepsInside
  constructor
  · rintro ⟨hw, hr⟩
    exact ⟨fun hpos => (writeInside_iff hwrite).mp (hw hpos),
      fun hpos => (readInside_iff hpos hread hconsumed).mp (hr hpos)⟩
  · rintro ⟨hw, hr⟩
    exact ⟨fun hpos => (writeInside_iff hwrite).mpr (hw hpos),
      fun hpos => (readInside_iff hpos hread hconsumed).mpr (hr hpos)⟩

/-- The whole `BC_ACQUIRE` is inside its buffer. -/
theorem keepsInside_iff_acquire : KeepsInside acquireBuffer twoProcessesUp 5 6 acquireAndRead 2 :=
  (keepsInside_iff (by decide) (by decide) (by decide)).mpr
    ⟨fun _ => by decide +kernel, fun _ => by decide⟩

/-- The write buffer ends behind the word of a `BC_ACQUIRE`, and the read count is
behind the end of the read buffer. -/
def cutShort : WriteRead :=
  { acquireAndRead with writeSize := 4, readSize := 8, readConsumed := 16 }

/-- **Outside both buffers.**  The handle of the `BC_ACQUIRE` is fetched from
behind the write buffer and the count returned is twice its size; a completion
is written behind the read buffer. -/
theorem cutShort_outside :
    (4, 4) ∈ writeTouches acquireBuffer 5 6 cutShort.writeBuffer cutShort.writeSize 1
        twoProcessesUp cutShort.writeConsumed ∧
      (twoProcessesUp.writeHalf acquireBuffer 5 6 cutShort 1).2.1 = 8 ∧
      (∃ spans rc, Reading 6 cutShort spans rc ∧ (16, 4) ∈ spans) ∧
      ¬ WriteInside acquireBuffer 5 6 cutShort.writeBuffer cutShort.writeSize 1 twoProcessesUp
        cutShort.writeConsumed ∧
      ¬ ReadInside cutShort := by
  refine ⟨by decide +kernel, by decide +kernel,
    reading_outside (by decide) (by decide) (by decide +kernel), ?_, ?_⟩
  · rw [writeInside_iff (by decide)]
    decide +kernel
  · rw [readInside_iff (by decide) (by decide) (by decide)]
    decide

end Driver

end Binder
