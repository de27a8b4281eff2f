import DevfsBinder.SendRefinement

/-!
# A turn of a read is a read of the call machine

The loop of `binder_thread_read` takes one item at a time.  Reference news,
death notices and completions are quiet; a transaction is delivered, dropped,
put back or lost; an error is reported, put back or lost.
-/

namespace Binder

open LittleEndian

/-! ## The read buffer -/

/-- The next bytes of the read buffer can be written.  One turn writes fewer
than a hundred. -/
def ReadCall.Writable (rc : ReadCall) (env : Env) : Prop :=
  ∀ k n, k + n ≤ 128 → env.copyoutOk ((rc.buffer + rc.consumed + k) % 2 ^ 64) n = true

/-- There is room for the description of a transaction with a security context,
but the context behind it does not fit or cannot be written. -/
def ReadCall.CutsShort (rc : ReadCall) (env : Env) : Prop :=
  76 ≤ rc.room ∧ (sub64 rc.size ((rc.consumed + 76) % 2 ^ 64) < 21 ∨
    env.copyoutOk ((rc.buffer + rc.consumed + 76) % 2 ^ 64) 21 = false)

instance (rc : ReadCall) (env : Env) : Decidable (rc.CutsShort env) :=
  inferInstanceAs (Decidable (_ ∧ (_ ∨ _)))

theorem ReadCall.Writable.cursor {rc : ReadCall} {env : Env} (h : rc.Writable env) (k n : Nat)
    (hk : k + n ≤ 128) : env.copyoutOk ((rc.cursor + k) % 2 ^ 64) n = true := by
  rw [ReadCall.cursor, Nat.mod_add_mod]
  exact h k n hk

theorem ReadCall.cursor_mod (rc : ReadCall) : rc.cursor = (rc.cursor + 0) % 2 ^ 64 := by
  simp [ReadCall.cursor]

/-- What an attempt to append a command comes to. -/
theorem putCmdData_cases (env : Env) (rc : ReadCall) (cmd : BR) (data : Bytes) :
    putCmdData env rc cmd data = (rc, some .enomem) ∨
      putCmdData env rc cmd data = (rc, some .efault) ∧
        (data.length ≤ 124 → ¬ rc.Writable env) ∨
      putCmdData env rc cmd data = (rc.emit cmd data, none) ∧ 4 + data.length ≤ rc.room := by
  unfold putCmdData
  split
  · exact .inl rfl
  · rename_i hroom
    split
    · rename_i hout
      refine .inr (.inl ⟨rfl, fun _ hw => hout ?_⟩)
      rw [rc.cursor_mod]
      exact hw.cursor 0 4 (by omega)
    · split
      · rename_i hout
        refine .inr (.inl ⟨rfl, fun hlen hw => hout ?_⟩)
        exact hw.cursor 4 data.length (by omega)
      · exact .inr (.inr ⟨rfl, by omega⟩)

theorem putCmd_cases (env : Env) (rc : ReadCall) (cmd : BR) :
    putCmd env rc cmd = (rc, some .enomem) ∨
      putCmd env rc cmd = (rc, some .efault) ∧ ¬ rc.Writable env ∨
      putCmd env rc cmd = (rc.emit cmd [], none) := by
  unfold putCmd
  split
  · exact .inl rfl
  · split
    · rename_i hout
      refine .inr (.inl ⟨rfl, fun hw => hout ?_⟩)
      rw [rc.cursor_mod]
      exact hw.cursor 0 4 (by omega)
    · exact .inr (.inr rfl)

namespace Driver

open Calls

variable {s : Driver}

/-! ## Describing a transaction -/

theorem describe_length (x : Txn) (buf : Buffer) (target : Option Node) (uaddr : Nat) :
    (describe x buf target uaddr).length = 64 := by
  simp [describe]

/-- How far the description of a transaction gets. -/
inductive Described (env : Env) (s : Driver) (th : ThreadId) (t : TxnId) (rc : ReadCall)
    (cmd : BR) (data : Bytes) (wantSecctx : Bool) : Handled → Prop
  | full : Described env s th t rc cmd data wantSecctx ⟨s, rc, some .enomem⟩
  | fault (h : ¬ rc.Writable env) :
      Described env s th t rc cmd data wantSecctx ⟨s, rc, some .efault⟩
  | torn (rc' : ReadCall) (hwant : wantSecctx = true) (h : rc.CutsShort env) :
      Described env s th t rc cmd data wantSecctx
        ⟨s.note (.emit th cmd (.transaction t)), rc', some .enomem⟩
  | tornFault (rc' : ReadCall) (hwant : wantSecctx = true) (h : rc.CutsShort env)
      (hw : ¬ rc.Writable env) :
      Described env s th t rc cmd data wantSecctx
        ⟨s.note (.emit th cmd (.transaction t)), rc', some .efault⟩
  | done (rc' : ReadCall) (rest : Bytes) (h : rc'.cmds = rc.cmds ++ [(cmd, data ++ rest)]) :
      Described env s th t rc cmd data wantSecctx
        ⟨s.note (.emit th cmd (.transaction t)), rc', none⟩

theorem secctxBytes_length : secctxBytes.length = 21 := rfl

/-- A transaction with a security context: the description, then the string. -/
theorem described_secctx {env : Env} (s : Driver) (th : ThreadId) (t : TxnId) {rc : ReadCall}
    {cmd : BR} {data rest : Bytes} (hdata : (data ++ rest).length = 72) :
    Described env s th t rc cmd data true
      (putSecctx env s (s.note (.emit th cmd (.transaction t)))
        (putCmdData env rc cmd (data ++ rest))) := by
  generalize hall : data ++ rest = all at hdata ⊢
  have hcmds : (rc.emit cmd all).cmds = rc.cmds ++ [(cmd, data ++ rest)] := by
    rw [hall]
    rfl
  rcases putCmdData_cases env rc cmd all with h | ⟨h, hw⟩ | ⟨h, hroom⟩
  · rw [h]
    exact .full
  · rw [h]
    exact .fault (hw (by omega))
  · rw [h]
    have h76 : 76 ≤ rc.room := by simpa [hdata] using hroom
    have hconsumed : (rc.emit cmd all).consumed = (rc.consumed + 76) % 2 ^ 64 := by
      simp only [ReadCall.emit, ReadCall.append, List.length_append, leBytes_length, hdata]
    have hsize : (rc.emit cmd all).size = rc.size := rfl
    have hbuffer : (rc.emit cmd all).buffer = rc.buffer := rfl
    have hroom' : (rc.emit cmd all).room = sub64 rc.size ((rc.consumed + 76) % 2 ^ 64) := by
      rw [ReadCall.room, hconsumed, hsize]
    have hcursor : (rc.emit cmd all).cursor = (rc.buffer + rc.consumed + 76) % 2 ^ 64 := by
      rw [ReadCall.cursor, hconsumed, hbuffer, Nat.add_mod_mod, ← Nat.add_assoc]
    generalize rc.emit cmd all = rc' at hroom' hcursor hcmds
    simp only [putSecctx]
    rw [hroom', hcursor]
    split
    · rename_i hfew
      rw [secctxBytes_length] at hfew
      exact .torn rc' rfl ⟨h76, .inl hfew⟩
    · split
      · rename_i hout
        have hshort : env.copyoutOk ((rc.buffer + rc.consumed + 76) % 2 ^ 64) 21 = false :=
          Bool.not_eq_true _ ▸ hout
        refine .tornFault rc' rfl ⟨h76, .inr hshort⟩ fun hw => hout ?_
        exact hw 76 secctxBytes.length (by rw [secctxBytes_length]; omega)
      · exact .done _ rest hcmds

/-- What is written of a transaction, and when nothing is. -/
theorem putTransaction_described (env : Env) (s : Driver) (th : ThreadId) (t : TxnId)
    (rc : ReadCall) (cmd : BR) {data : Bytes} (hdata : data.length = 64) (wantSecctx : Bool) :
    Described env s th t rc cmd data wantSecctx
      (putTransaction env s th t rc cmd data wantSecctx) := by
  unfold putTransaction
  cases wantSecctx with
  | true =>
      rw [if_pos rfl]
      exact described_secctx s th t (by simp [hdata])
  | false =>
      rw [if_neg Bool.false_ne_true]
      rcases putCmdData_cases env rc cmd data with h | ⟨h, hw⟩ | ⟨h, hroom⟩ <;> rw [h]
      · exact .full
      · exact .fault (hw (by omega))
      · exact .done _ [] (by rw [List.append_nil]; rfl)

/-! ## The item a turn takes -/

/-- Where the item a turn takes was waiting. -/
theorem nextWork_loc (hq : QueuesOk s) {th : ThreadId} {thread : Thread} {w : Work}
    {fromProc : Bool} (h : s.nextWork th thread = some (w, fromProc)) :
    s.queues.loc w = some (if fromProc then .proc thread.proc else .thread th) ∧
      (fromProc = true → thread.transactionStack = none) := by
  unfold nextWork at h
  split at h
  · obtain ⟨w', hfind, heq⟩ := Option.map_eq_some_iff.mp h
    cases heq
    refine ⟨(hq.consistent.mem_iff w _).mp (List.mem_of_find?_eq_some hfind), ?_⟩
    exact fun hfalse => absurd hfalse Bool.false_ne_true
  · split at h
    · rename_i htakes
      obtain ⟨w', hfind, heq⟩ := Option.map_eq_some_iff.mp h
      cases heq
      refine ⟨(hq.consistent.mem_iff w _).mp (List.mem_of_find?_eq_some hfind), fun _ => ?_⟩
      simp only [takesProcWork, Bool.and_eq_true, decide_eq_true_eq] at htakes
      exact htakes.1.1
    · cases h

theorem nextWork_takes (hq : QueuesOk s) {th : ThreadId} {thread : Thread} {w : Work}
    {fromProc : Bool} (hth : s.threads th = some thread)
    (h : s.nextWork th thread = some (w, fromProc)) (hw : w.isCall = true) :
    s.view.Takes th w := by
  obtain ⟨hloc, hstack⟩ := nextWork_loc hq h
  have hview : s.view.loc w = s.queues.loc w := if_pos hw
  refine ⟨thread.proc, view_procOf_some hth, ?_⟩
  rw [hview, hloc, view_stackOf, hth]
  cases fromProc with
  | false => exact .inl rfl
  | true => exact .inr ⟨rfl, hstack rfl⟩

/-- An item put back where it was taken from. -/
theorem dequeue_enqueue {v : Calls} {w : Work} {q : Queue} (h : v.loc w = some q) :
    (v.dequeue w).enqueue w q = v := by
  have hloc : ((v.dequeue w).enqueue w q).loc = v.loc := by
    funext w'
    rw [enqueue_loc, dequeue_loc, dequeue_loc]
    by_cases hw : w' = w
    · simp [hw, h]
    · simp [hw]
  rw [enqueue_eq, hloc]
  rfl

theorem enqueue_note (v : Calls) (e : Event) (w : Work) (q : Queue) :
    (v.note e).enqueue w q = (v.enqueue w q).note e := by
  have hloc : (v.note e).loc w = v.loc w := rfl
  simp only [Calls.enqueue, hloc]
  split <;> rfl

/-- After an item is handled it goes back to its queue, or nothing a call can
see happens any more. -/
theorem readNext_view (env : Env) (h : Handled) (th : ThreadId) (p : ProcId) (w : Work)
    (fromProc : Bool) :
    (readNext env h th p w fromProc).view =
      if h.error = some .enomem then
        (h.drv.putBack (if fromProc then .proc p else .thread th) w).view
      else h.drv.view := by
  obtain ⟨s₁, rc', hnext, heq⟩ := readNext_follows env h th p w fromProc
  rw [heq]
  cases hnext with
  | full herror =>
      rw [if_pos herror]
      rfl
  | failed error herror hne =>
      rw [if_neg (by simp [herror, hne])]
      rfl
  | handled _ herror _ _ =>
      rw [if_neg (by simp [herror])]
      rfl
  | spawned _ _ herror _ _ _ =>
      rw [if_neg (by simp [herror])]
      exact view_updProc_same h.drv p fun _ => rfl

theorem readIdle_view (s : Driver) (th : ThreadId) (thread : Thread) (rc : ReadCall) :
    (s.readIdle th thread rc).view = s.view := by
  have hwait : ((s.updThread th fun thread =>
      { thread with looper := { thread.looper with waiting := true } }).setLock none).view =
        s.view := view_updThread_same s th fun _ => rfl
  unfold readIdle
  split
  · rfl
  · split
    · refine Eq.trans ?_ hwait
      exact view_updProc_same _ thread.proc
        (f := fun proc => { proc with readyThreads := proc.readyThreads + 1 }) fun _ => rfl
    · exact hwait

/-! ## Taking a transaction -/

/-- The record of a transaction that a thread may take, with the allocation
that carries it. -/
theorem taken_record (hs : Sound s) (hb : Base s.view) {th : ThreadId} {t : TxnId}
    (htakes : s.view.Takes th (.transaction t)) :
    ∃ x, s.txns t = some x ∧ s.view.procOf th = some x.toProc ∧
      ∀ b, x.buffer = some b → ∃ buf, s.findBuffer x.toProc b = some buf ∧
        (s.arenas x.toProc).used b = some buf ∧ buf.id = b := by
  have hx : ∃ x, s.txns t = some x := by
    obtain ⟨p, -, hloc | ⟨hloc, -⟩⟩ := htakes
    · exact (hb.waiting t _ hloc).imp fun _ h => h.1
    · exact (hb.waiting t _ hloc).imp fun _ h => h.1
  obtain ⟨x, hx⟩ := hx
  have hproc := hb.takes htakes hx
  refine ⟨x, hx, hproc, ?_⟩
  intro b hbuf
  obtain ⟨bufv, hused, -⟩ := hb.link t x b hx hbuf (hb.threadProc th _ hproc)
  obtain ⟨buf, hbuf', -⟩ := Option.map_eq_some_iff.mp hused
  obtain ⟨⟨hmem, hid⟩, -⟩ := (hs.arenas x.toProc).used_eq_some.mp hbuf'
  exact ⟨buf, (hs.arenas x.toProc).find_eq_some.mpr ⟨hmem, hid⟩, hbuf', hid⟩

/-- The form of a delivery says whether it is a reply. -/
theorem deliveryCmd_reply (s : Driver) (buf : Buffer) :
    (s.deliveryCmd buf = .reply ↔ buf.targetNode = none) ∧
      (buf.targetNode.isSome = true →
        s.deliveryCmd buf = .transaction ∨ s.deliveryCmd buf = .transactionSecCtx) := by
  unfold deliveryCmd
  cases hn : buf.targetNode with
  | none => simp
  | some n => cases s.wantsSecctx buf <;> simp

theorem deliveryCmd_secctx {buf : Buffer} (h : s.wantsSecctx buf = true) :
    s.deliveryCmd buf = .transactionSecCtx := by
  unfold deliveryCmd
  cases hn : buf.targetNode with
  | none => simp [wantsSecctx, hn] at h
  | some n => simp [h]

/-- The client has the payload; a call goes on the stack of its thread. -/
theorem view_delivered (s : Driver) (p : ProcId) (th : ThreadId) (t : TxnId) (x : Txn)
    (buf : Buffer) :
    (s.delivered p th t x buf).view =
      if buf.targetNode.isSome && x.needReply then
        (s.view.updBuffer p buf.id fun buf => { buf with allowUserFree := true }).pushCall th t
      else
        (s.view.updBuffer p buf.id fun buf => { buf with allowUserFree := true }).freeTransaction
          t := by
  have hbuf : (s.updBuffer p buf.id fun buf => { buf with allowUserFree := true }).view =
      s.view.updBuffer p buf.id fun buf => { buf with allowUserFree := true } :=
    view_updBuffer s p buf.id (fun _ => rfl) (fun _ => rfl) fun _ _ => rfl
  unfold delivered
  simp only
  split
  · rw [view_setStack, view_updTxn, ← hbuf, pushCall, view_stackOf]
  · rw [view_freeTransaction, hbuf]

/-- The payload of a transaction that waits nowhere is released with it. -/
theorem dropTransaction_view (hs : Sound s) (p : ProcId) {t : TxnId}
    (hloc : s.queues.loc (.transaction t) = none) :
    ∃ v₁, Quiet s.view v₁ ∧ (s.dropTransaction p t).view = v₁.dropTransaction p t := by
  unfold dropTransaction
  cases hb : (s.txns t).bind (·.buffer) with
  | none =>
      refine ⟨s.view, .refl _, ?_⟩
      have hb' : (s.view.txns t).bind (·.buffer) = none := hb
      rw [Calls.dropTransaction, hb', view_freeTransaction]
      rfl
  | some b =>
      obtain ⟨-, v₁, hquiet, hview⟩ := releaseAndFree_view hs p b
      refine ⟨v₁, hquiet, ?_⟩
      have hb' : (v₁.txns t).bind (·.buffer) = some b := by
        rw [(hquiet.keeps_unqueued hloc).1]
        exact hb
      rw [Calls.dropTransaction, hb', view_freeTransaction]
      exact congrArg (fun v => v.freeTransaction t) hview

/-- Its sender is answered first. -/
theorem undelivered_view (hs : Sound s) (p : ProcId) {t : TxnId} (br : BR)
    (hloc : s.queues.loc (.transaction t) = none) :
    ∃ v₁, Quiet (s.view.failUndelivered t br) v₁ ∧
      ((s.failUndelivered t br).dropTransaction p t).view = v₁.dropTransaction p t := by
  have hfail := view_failUndelivered s t br
  rw [← hfail]
  refine dropTransaction_view (hs.failUndelivered t br) p ?_
  have hkept := congrArg (fun v => v.loc (.transaction t)) hfail
  exact (hkept.trans (loc_failUndelivered s.view t br t)).trans hloc

/-- How far the delivery of a transaction gets. -/
inductive Taken (env : Env) (s : Driver) (p : ProcId) (th : ThreadId) (t : TxnId)
    (rc : ReadCall) (x : Txn) (buf : Buffer) : Handled → Prop
  | stopped (s' : Driver) (rc' : ReadCall) (error : Errno)
      (h : Described env s th t rc (s.deliveryCmd buf)
        (describe x buf (buf.targetNode.bind s.nodes) (s.bufferUaddr p buf)) (s.wantsSecctx buf)
        ⟨s', rc', some error⟩) :
      Taken env s p th t rc x buf ⟨s', rc', some error⟩
  | delivered (rc' : ReadCall) (rest : Bytes)
      (h : rc'.cmds = rc.cmds ++ [(s.deliveryCmd buf,
        describe x buf (buf.targetNode.bind s.nodes) (s.bufferUaddr p buf) ++ rest)]) :
      Taken env s p th t rc x buf
        ⟨(s.note (.emit th (s.deliveryCmd buf) (.transaction t))).delivered p th t x buf, rc',
          none⟩
  | dropped (kdata : Bytes) (hkdata : buf.kdata = some kdata)
      (hout : env.copyoutOk (s.bufferUaddr p buf) kdata.length = false) :
      Taken env s p th t rc x buf
        ⟨(s.failUndelivered t .failedReply).dropTransaction p t, rc, none⟩

/-- Go on with `k` unless there was an error. -/
def goOn (h : Handled) (k : Driver → Driver) : Handled :=
  match h.error with
  | some _ => h
  | none => { h with drv := k h.drv }

/-- The arena of the receiver can be written, or the transaction is dropped. -/
theorem readTransaction_eq (env : Env) {p : ProcId} (th : ThreadId) {t : TxnId}
    (rc : ReadCall) {x : Txn} {buf : Buffer} (hx : s.txns t = some x)
    (hbuf : x.buffer.bind (s.findBuffer p) = some buf) :
    (∃ kdata, buf.kdata = some kdata ∧
        env.copyoutOk (s.bufferUaddr p buf) kdata.length = false ∧
        readTransaction env s p th t rc =
          ⟨(s.failUndelivered t .failedReply).dropTransaction p t, rc, none⟩) ∨
      readTransaction env s p th t rc =
        goOn (putTransaction env s th t rc (s.deliveryCmd buf)
          (describe x buf (buf.targetNode.bind s.nodes) (s.bufferUaddr p buf))
          (s.wantsSecctx buf)) fun s => s.delivered p th t x buf := by
  unfold readTransaction
  simp only [hx, hbuf]
  split
  · rename_i kdata hkdata
    by_cases hout : env.copyoutOk (s.bufferUaddr p buf) kdata.length = true
    · exact .inr (if_pos hout)
    · exact .inl ⟨kdata, hkdata, Bool.not_eq_true _ ▸ hout, if_neg hout⟩
  · exact .inr (if_pos rfl)

/-- What a reader gets of a transaction whose buffer is there. -/
theorem readTransaction_taken (env : Env) {p : ProcId} (th : ThreadId) {t : TxnId}
    (rc : ReadCall) {x : Txn} {buf : Buffer} (hx : s.txns t = some x)
    (hbuf : x.buffer.bind (s.findBuffer p) = some buf) :
    Taken env s p th t rc x buf (readTransaction env s p th t rc) := by
  rcases readTransaction_eq env th rc hx hbuf with ⟨kdata, hkdata, hout, heq⟩ | heq
  · rw [heq]
    exact .dropped kdata hkdata hout
  · rw [heq]
    have hdesc := putTransaction_described env s th t rc (s.deliveryCmd buf)
      (describe_length x buf (buf.targetNode.bind s.nodes) (s.bufferUaddr p buf))
      (s.wantsSecctx buf)
    generalize putTransaction env s th t rc (s.deliveryCmd buf)
      (describe x buf (buf.targetNode.bind s.nodes) (s.bufferUaddr p buf)) (s.wantsSecctx buf) = h
      at hdesc
    cases hdesc with
    | full => exact .stopped s rc .enomem .full
    | fault hw => exact .stopped s rc .efault (.fault hw)
    | torn rc' hwant htear => exact .stopped _ rc' .enomem (.torn rc' hwant htear)
    | tornFault rc' hwant htear hw =>
        exact .stopped _ rc' .efault (.tornFault rc' hwant htear hw)
    | done rc' rest hcmds => exact .delivered rc' rest hcmds

/-- A transaction is taken. -/
theorem readTransaction_refines (hs : Sound s) (hb : Base s.view) (env : Env) {p : ProcId}
    {th : ThreadId} {t : TxnId} {rc : ReadCall} {q : Queue}
    (htakes : s.view.Takes th (.transaction t)) (hproc : s.view.procOf th = some p)
    (hq : s.queues.loc (.transaction t) = some q) {tear : Prop}
    (htear : ((s.txns t).bind (·.buffer)).bind (s.findBuffer p) |>.any s.wantsSecctx →
      rc.CutsShort env → tear) {h : Handled}
    (hread : readTransaction env (s.dequeueWork (.transaction t)) p th t rc = h) :
    Read (¬ rc.Writable env) tear th s.view
      (if h.error = some .enomem then (h.drv.putBack q (.transaction t)).view else h.drv.view) := by
  have hs₀ := hs.dequeue (.transaction t)
  have hview : (s.dequeueWork (.transaction t)).view = s.view.dequeue (.transaction t) :=
    view_dequeue s _
  have hloc₀ := s.dequeueWork_loc_self (.transaction t)
  obtain ⟨x, hx, hxp, hbuffer⟩ := taken_record hs hb htakes
  obtain rfl : p = x.toProc := Option.some.inj (hproc.symm.trans hxp)
  have hx₀ : (s.dequeueWork (.transaction t)).txns t = some x := hx
  cases hxb : x.buffer with
  | none =>
      unfold readTransaction at hread
      simp only [hx₀, hxb, Option.bind_none] at hread
      subst hread
      rw [if_neg (by simp), hview]
      refine .lost t htakes (.inr fun y hy => ?_)
      rw [show s.view.txns t = some x from hx] at hy
      cases hy
      exact hxb
  | some b =>
      obtain ⟨buf, hfind, hused, rfl⟩ := hbuffer b hxb
      have hbufv : s.view.buffers x.toProc buf.id = some (buf.view (s.arenas x.toProc).addr) := by
        rw [view_buffers, hused]
        rfl
      have hfind₀ : x.buffer.bind ((s.dequeueWork (.transaction t)).findBuffer x.toProc) =
          some buf := by
        rw [hxb]
        exact hfind
      have htaken := readTransaction_taken env th rc hx₀ hfind₀
      rw [hread] at htaken
      have hput : ∀ (s' : Driver) v, s'.view = v →
          (s'.putBack q (.transaction t)).view = v.enqueue (.transaction t) q := by
        rintro s' v rfl
        exact view_insert_call s' q true rfl
      have hwants : (s.dequeueWork (.transaction t)).wantsSecctx buf = true → rc.CutsShort env →
          tear := by
        intro hwant hshort
        refine htear ?_ hshort
        rw [hx, Option.bind_some, hxb, Option.bind_some, hfind]
        exact hwant
      obtain ⟨hreply, hcall⟩ := deliveryCmd_reply (s.dequeueWork (.transaction t)) buf
      generalize (s.dequeueWork (.transaction t)) = s₀ at *
      cases htaken with
      | stopped s' rc' error hdesc =>
          cases hdesc with
          | full =>
              rw [if_pos rfl, hput _ _ hview, dequeue_enqueue hq]
              exact .quiet (.refl _)
          | fault hw =>
              rw [if_neg (by simp), hview]
              exact .lost t htakes (.inl hw)
          | torn rc' hwant hshort =>
              have hback : ((s.view.dequeue (.transaction t)).note
                  (.emit th (s₀.deliveryCmd buf) (.transaction t))).enqueue (.transaction t) q =
                  ((s.view.dequeue (.transaction t)).enqueue (.transaction t) q).note
                    (.emit th (s₀.deliveryCmd buf) (.transaction t)) :=
                enqueue_note _ _ _ _
              rw [if_pos rfl, hput _ _ (view_note s₀ _), hview, hback, dequeue_enqueue hq,
                deliveryCmd_secctx hwant]
              exact .torn (hwants hwant hshort) t htakes
          | tornFault rc' hwant hshort hw =>
              rw [if_neg (by simp), view_note, hview, deliveryCmd_secctx hwant]
              exact .tornLost hw (hwants hwant hshort) t htakes
      | delivered rc' rest hcmds =>
          rw [if_neg (by simp), view_delivered, view_note, hview]
          split
          · rename_i hkind
            obtain ⟨hnode, hneed⟩ := Bool.and_eq_true_iff.mp hkind
            exact .call t x buf.id (buf.view (s.arenas x.toProc).addr) _ htakes hx hxb hbufv hnode
              hneed (hcall hnode)
          · rename_i hkind
            exact .other t x buf.id (buf.view (s.arenas x.toProc).addr) _ htakes hx hxb hbufv
              (Bool.not_eq_true _ ▸ hkind) hreply
      | dropped kdata hkdata hout =>
          obtain ⟨v₁, hquiet, hdrop⟩ := undelivered_view hs₀ x.toProc .failedReply hloc₀
          rw [if_neg (by simp)]
          rw [hview] at hquiet
          rw [show (Driver.dropTransaction _ _ _).view = _ from hdrop]
          exact .undeliverable t x htakes hx hquiet

/-! ## The whole turn -/

/-- An item no call is about: whatever becomes of it is quiet. -/
theorem other_refines {w : Work} (hw : w.isCall = false) {q : Queue} {h : Handled}
    {fault tear : Prop} {th : ThreadId} (hquiet : Quiet s.view h.drv.view) :
    Read fault tear th s.view
      (if h.error = some .enomem then (h.drv.putBack q w).view else h.drv.view) := by
  split
  · rw [putBack, view_insert_other _ q true hw]
    exact .quiet hquiet
  · exact .quiet hquiet

/-- An error is reported, put back or lost. -/
theorem readError_refines {env : Env} {th e : ThreadId} {rc : ReadCall} {q : Queue} {cmd : BR}
    (htakes : s.view.Takes th (.returnError e)) (hq : s.queues.loc (.returnError e) = some q)
    {tear : Prop} {k : Driver}
    (hk : k.view = (((s.dequeueWork (.returnError e)).view.setError e .ok).note
      (.emit th cmd (.returnError e)))) {h : Handled}
    (hread : Handled.put (putCmd env rc cmd) (s.dequeueWork (.returnError e)) k = h) :
    Read (¬ rc.Writable env) tear th s.view
      (if h.error = some .enomem then (h.drv.putBack q (.returnError e)).view else h.drv.view) := by
  rcases putCmd_cases env rc cmd with hput | ⟨hput, hw⟩ | hput <;>
    rw [hput, Handled.put] at hread <;> subst hread
  · rw [if_pos rfl]
    have hback : ((s.dequeueWork (.returnError e)).putBack q (.returnError e)).view = s.view := by
      rw [putBack, view_insert_call _ q true rfl, view_dequeue]
      exact dequeue_enqueue hq
    exact .quiet (hback ▸ .refl _)
  · rw [if_neg (by simp)]
    exact view_dequeue s _ ▸ .errorLost hw e htakes
  · rw [if_neg (by simp)]
    exact hk ▸ view_dequeue s _ ▸ .error e cmd htakes

/-- The next item of the thread is a transaction to a node that asked for the
sender's security context. -/
def secctxNext (s : Driver) (th : ThreadId) : Bool :=
  match s.threads th with
  | some thread =>
      match s.nextWork th thread with
      | some (.transaction t, _) =>
          (((s.txns t).bind (·.buffer)).bind (s.findBuffer thread.proc)).any s.wantsSecctx
      | _ => false
  | none => false

/-- **A turn of a read.**  One turn of the loop of `binder_thread_read` is a
read of the call machine. -/
theorem readTurn_refines (hs : Sound s) (hb : Base s.view) (env : Env) {th : ThreadId}
    {thread : Thread} (hth : s.threads th = some thread) (rc : ReadCall) :
    Read (¬ rc.Writable env) (s.secctxNext th = true ∧ rc.CutsShort env) th s.view
      (readTurn env s th thread rc).view := by
  unfold readTurn
  split
  · rw [readIdle_view]
    exact .quiet (.refl _)
  · rename_i w fromProc hnext
    simp only
    rw [readNext_view]
    obtain ⟨hloc, -⟩ := nextWork_loc hs.queues hnext
    have hproc := view_procOf_some hth
    have hs₀ := hs.dequeue w
    have hother : w.isCall = false → (s.dequeueWork w).view = s.view := view_dequeue_other s
    cases w with
    | transaction t =>
        refine readTransaction_refines hs hb env (nextWork_takes hs.queues hth hnext rfl) hproc
          hloc (fun hwant hshort => ⟨?_, hshort⟩) rfl
        rw [secctxNext, hth]
        simp only [hnext]
        exact hwant
    | returnError e =>
        refine readError_refines (nextWork_takes hs.queues hth hnext rfl) hloc ?_ rfl
        rw [view_note, view_updThread (g := fun thread => { thread with error := .ok }) _ e
          fun _ => rfl]
        rfl
    | complete c =>
        refine other_refines rfl ?_
        rcases Handled.put_cases (putCmd env rc .transactionComplete)
          (s.dequeueWork (.complete c))
          ((s.dequeueWork (.complete c)).note (.emit th .transactionComplete (.complete c)))
          with ⟨-, heq⟩ | ⟨-, heq⟩ <;> rw [readWork, heq]
        · exact hother rfl ▸ .refl _
        · exact view_note _ _ ▸ hother rfl ▸ (QuietMove.complete th _ c).quiet
    | node n =>
        refine other_refines rfl ?_
        exact hother rfl ▸ ObjectSteps.quiet hs₀
          (readNodeWork_steps (O := fun _ => True) hs₀ env th n rc)
    | death d =>
        refine other_refines rfl ?_
        exact hother rfl ▸ ObjectSteps.quiet hs₀
          (readDeath_steps (O := fun _ => True) env th d rc)

end Driver

end Binder
