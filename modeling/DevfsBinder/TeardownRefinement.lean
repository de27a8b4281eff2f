import DevfsBinder.ActionEffects
import DevfsBinder.ReadRefinement

/-!
# Frees and departures, as the call machine sees them

`BC_FREE_BUFFER`, the release of a thread and the release of a process are the
steps `FreeBuffer`, `Depart` and `Close` of the call machine.

The stack walk of `binder_thread_release` has a bound on its turns in the
model.  Every turn but the last clears a pointer to the thread in some
transaction, so the bound is never what ends the walk (`pointers`).
-/

namespace Binder

namespace Driver

open Calls

variable {s s' : Driver}

/-! ## Freeing a buffer -/

/-- What a lookup finds is in use and begins at the offset. -/
theorem lookupIn_some {offset : Nat} {bufs : List Buffer} {buf : Buffer}
    (h : lookupIn offset bufs = some buf) :
    buf ∈ bufs ∧ buf.free = false ∧ buf.offset = offset := by
  induction bufs with
  | nil => cases h
  | cons b rest ih =>
      unfold lookupIn at h
      split at h
      · rename_i hoffset
        split at h
        · cases h
        · rename_i hfree
          cases h
          exact ⟨by simp, Bool.not_eq_true _ ▸ hfree, hoffset⟩
      · split at h
        · cases h
        · exact ⟨List.mem_cons_of_mem b (ih h).1, (ih h).2⟩

/-- The buffer a user pointer names is in use. -/
theorem bufferLookup_used (hs : Sound s) {p : ProcId} {ptr : Nat} {buf : Buffer}
    (h : s.bufferLookup p ptr = some buf) :
    (s.arenas p).used buf.id = some buf ∧ (s.arenas p).addr + buf.offset = ptr := by
  unfold bufferLookup at h
  simp only at h
  split at h
  · cases h
  · split at h
    · cases h
    · obtain ⟨hmem, hfree, hoffset⟩ := lookupIn_some h
      exact ⟨(hs.arenas p).used_eq_some.mpr ⟨⟨hmem, rfl⟩, hfree⟩, by omega⟩

/-- The next oneway transaction behind a node is let through, if there is
one. -/
theorem nextAsync_view (hs : Sound s) (p : ProcId) (n : NodeId) :
    (s.nextAsync p n).view = s.view ∨
      ∃ t, s.view.loc (.transaction t) = some (.node n) ∧
        (s.nextAsync p n).view =
          (s.view.dequeue (.transaction t)).enqueue (.transaction t) (.proc p) := by
  unfold nextAsync
  split
  · exact .inl rfl
  · split
    · split
      · rename_i w rest hitems
        have hloc : s.queues.loc w = some (.node n) :=
          (hs.queues.consistent.mem_iff w _).mp
            (by rw [show s.queues.items _ = _ from hitems]; simp)
        obtain ⟨t, x, rfl, -, -⟩ := hs.queues.behindNode w n hloc
        refine .inr ⟨t, hloc, ?_⟩
        rw [view_wakeupProc, enqueueWork, view_insert_call _ _ false rfl, view_dequeue]
      · exact .inl (view_updNode s n fun _ => rfl)
    · exact .inl rfl

/-- A record that is gone loses nothing. -/
theorem updTxn_none {v : Calls} {t : TxnId} (h : v.txns t = none) (f : Txn → Txn) :
    v.updTxn t f = v := by
  have hsame : (v.txns t).map f = v.txns t := by
    rw [h]
    rfl
  have htxns : Function.update v.txns t ((v.txns t).map f) = v.txns := by
    rw [hsame]
    exact Function.update_eq_self t v.txns
  exact congrArg (fun txns => { v with txns := txns }) htxns

theorem setBuffer_updBuffer (v : Calls) (p : ProcId) (b : BufferId) (f : BufferView → BufferView)
    (buf : Option BufferView) : (v.updBuffer p b f).setBuffer p b buf = v.setBuffer p b buf := by
  have hbuffers : ((v.updBuffer p b f).setBuffer p b buf).buffers =
      (v.setBuffer p b buf).buffers := by
    funext p' b'
    rw [buffers_setBuffer, buffers_setBuffer, Calls.updBuffer, buffers_setBuffer]
    split <;> rfl
  exact congrArg (fun buffers => { v with buffers := buffers }) hbuffers

/-- A record a quiet stretch leaves behind was there before. -/
theorem Quiet.txns_le {v v' : Calls} (h : Quiet v v') {t : TxnId} {x : Txn}
    (hx : v'.txns t = some x) : v.txns t = some x := by
  refine h.invariant (P := fun u => ∀ x, u.txns t = some x → v.txns t = some x) ?_
    (fun _ h => h) x hx
  intro u u' hu hmove y hy
  refine hu y ?_
  cases hmove with
  | drop n t' x' hx' ho hloc =>
      rw [freeTransaction_oneway hx' ho, detachBuffer_eq] at hy
      by_cases ht : t = t'
      · subst ht
        simp [Calls.note, Calls.setTxn] at hy
      · simpa [Calls.note, Calls.setTxn, Calls.dequeue, ht] using hy
  | _ => exact hy

/-- The buffer is gone; what waits behind its node may be let through. -/
theorem passOn_refines {v v₁ : Calls} {p : ProcId} {b : BufferId} {buf : BufferView} {s₂ : Driver}
    (h₁ : Quiet v v₁) (hbuf : v₁.buffers p b = some buf) (huser : buf.allowUserFree = true)
    {ptr : Nat} (haddr : buf.load.address = ptr) (hs₂ : Sound s₂)
    (hnone : buf.transaction = none → s₂.view = v₁.setBuffer p b none)
    (hsome : ∀ t, buf.transaction = some t →
      s₂.view = (v₁.updTxn t fun x => { x with buffer := none }).setBuffer p b none) :
    FreeBuffer p ptr v s₂.view ∧
      ∀ n, buf.targetNode = some n → FreeBuffer p ptr v (s₂.nextAsync p n).view := by
  have hfree : ∀ v₃, (v₃ = s₂.view ∨ ∃ n t, buf.targetNode = some n ∧
      s₂.view.loc (.transaction t) = some (.node n) ∧
      v₃ = (s₂.view.dequeue (.transaction t)).enqueue (.transaction t) (.proc p)) →
      FreeBuffer p ptr v v₃ := by
    intro v₃ h₃
    refine .free b buf h₁ hbuf huser haddr ?_ h₃
    split
    · exact hsome _ (by assumption)
    · exact hnone (by assumption)
  refine ⟨hfree _ (.inl rfl), ?_⟩
  intro n hn
  refine hfree _ ?_
  rcases nextAsync_view hs₂ p n with hsame | ⟨t, hloc, hpass⟩
  · exact .inl hsame
  · exact .inr ⟨n, t, hn, hloc, hpass⟩

/-- **A buffer is freed.** -/
theorem writeFreeBuffer_refines (hs : Sound s) (hb : Base s.view) {p : ProcId}
    (hp : (s.view.procs p).isSome) (ptr : Nat) :
    FreeBuffer p ptr s.view (s.writeFreeBuffer p ptr).1.view := by
  unfold writeFreeBuffer
  split
  · exact .quiet (.refl _)
  · rename_i buf hlook
    split
    · exact .quiet (.refl _)
    · rename_i huser
      have huser' : buf.allowUserFree = true := by simpa using huser
      have hsteps := bufferRelease_steps hs p buf.id
      have hs₁ := ObjectSteps.sound hs hsteps
      have hquiet := ObjectSteps.quiet hs hsteps
      have hused : s.view.buffers p buf.id = some (buf.view (s.arenas p).addr) := by
        rw [view_buffers, (bufferLookup_used hs hlook).1]
        rfl
      -- releasing the objects in the payload may have dropped the record
      have hbuf : ∃ bufv, (s.bufferRelease p buf.id).view.buffers p buf.id = some bufv ∧
          bufv.allowUserFree = true ∧ bufv.load.address = ptr ∧
          bufv.targetNode = buf.targetNode ∧
          (bufv.transaction = buf.transaction ∨ bufv.transaction = none) := by
        have haddr := (bufferLookup_used hs hlook).2
        rcases hsteps.buffers hs hused with h | h
        · exact ⟨_, h, huser', haddr, rfl, .inl rfl⟩
        · exact ⟨_, h, huser', haddr, rfl, .inr rfl⟩
      obtain ⟨bufv, hbufv, huserv, haddr, htarget, htxn⟩ := hbuf
      simp only
      cases ht : buf.transaction with
      | none =>
          have hnone : bufv.transaction = none := htxn.elim (·.trans ht) id
          obtain ⟨hfree, hpass⟩ := passOn_refines hquiet hbufv huserv haddr
            (hs₁.bufferFree p buf.id) (fun _ => view_bufferFree _ p buf.id (hs₁.arenas p))
            (fun t' ht' => by rw [hnone] at ht'; cases ht')
          split
          · rename_i n hn
            exact hpass n (htarget.trans hn)
          · exact hfree
      | some t =>
          simp only
          have hs₂ := hs₁.updTxn t (f := fun x => { x with buffer := none })
            fun _ ho => ⟨ho.fromThread, ho.toThread, ho.needReply⟩
          have hs₃ := hs₂.detachBuffer p (some buf.id)
          have hview := (view_bufferFree _ p buf.id (hs₃.arenas p)).trans
            (congrArg (fun v => v.setBuffer p buf.id none)
              ((view_detachBuffer _ p (some buf.id)).trans
                (congrArg (fun v => v.detachBuffer p (some buf.id)) (view_updTxn _ t _))))
          simp only [Calls.detachBuffer, setBuffer_updBuffer] at hview
          have hgone : bufv.transaction = none →
              (s.bufferRelease p buf.id).view.txns t = none := by
            intro hnone
            cases hy : (s.bufferRelease p buf.id).view.txns t with
            | none => rfl
            | some y =>
                obtain ⟨x, hx, hxp, hxb⟩ := hb.back p buf.id (buf.view (s.arenas p).addr) t hused ht
                rw [Quiet.txns_le hquiet hy] at hx
                cases hx
                obtain ⟨bufv', hbufv', hlink, -⟩ := (hb.quiet hquiet).link t y buf.id hy hxb
                  (by rw [hquiet.procs, hxp]; exact hp)
                rw [hxp, hbufv] at hbufv'
                cases hbufv'
                rw [hnone] at hlink
                cases hlink
          have hsome : ∀ t', bufv.transaction = some t' → t' = t := by
            intro t' ht'
            rcases htxn with h | h
            · rw [ht', ht] at h
              exact Option.some.inj h
            · rw [ht'] at h
              cases h
          obtain ⟨hfree, hpass⟩ := passOn_refines hquiet hbufv huserv haddr
            (hs₃.bufferFree p buf.id)
            (fun hnone => by rw [hview, updTxn_none (hgone hnone)])
            (fun t' ht' => by rw [hview, hsome t' ht'])
          split
          · rename_i n hn
            exact hpass n (htarget.trans hn)
          · exact hfree

/-! ## The stack walk -/

/-- One if the pointer names `th`. -/
def names (th : ThreadId) (pointer : Option ThreadId) : Nat :=
  if pointer = some th then 1 else 0

theorem names_le_one (th : ThreadId) (pointer : Option ThreadId) : names th pointer ≤ 1 := by
  unfold names
  split <;> omega

theorem names_mono {th : ThreadId} {pointer pointer' : Option ThreadId}
    (h : pointer' = some th → pointer = some th) : names th pointer' ≤ names th pointer := by
  unfold names
  split
  · rename_i heq
    rw [if_pos (h heq)]
  · exact Nat.zero_le _

theorem names_lt {th : ThreadId} {pointer pointer' : Option ThreadId} (h : pointer = some th)
    (h' : pointer' ≠ some th) : names th pointer' < names th pointer := by
  rw [names, names, if_pos h, if_neg h']
  exact Nat.zero_lt_one

/-- How many thread pointers of the transactions below `k` name `th`. -/
def pointers (v : Calls) (th : ThreadId) : Nat → Nat
  | 0 => 0
  | k+1 =>
      pointers v th k + names th ((v.txns k).bind (·.fromThread)) +
        names th ((v.txns k).bind (·.toThread))

theorem pointers_le (v : Calls) (th : ThreadId) (k : Nat) : pointers v th k ≤ 2 * k := by
  induction k with
  | zero => exact Nat.le_refl 0
  | succ k ih =>
      have hsent := names_le_one th ((v.txns k).bind (·.fromThread))
      have hreceived := names_le_one th ((v.txns k).bind (·.toThread))
      unfold pointers
      omega

/-- Records only go, and no pointer to `th` is new. -/
structure Fewer (th : ThreadId) (v v' : Calls) : Prop where
  record : ∀ t y, v'.txns t = some y → ∃ x, v.txns t = some x ∧
    (y.fromThread = some th → x.fromThread = some th) ∧
    (y.toThread = some th → x.toThread = some th)

theorem Fewer.trans {th : ThreadId} {v v' v'' : Calls} (h : Fewer th v v')
    (h' : Fewer th v' v'') : Fewer th v v'' := by
  refine ⟨fun t z hz => ?_⟩
  obtain ⟨y, hy, hfrom', hto'⟩ := h'.record t z hz
  obtain ⟨x, hx, hfrom, hto⟩ := h.record t y hy
  exact ⟨x, hx, fun hz => hfrom (hfrom' hz), fun hz => hto (hto' hz)⟩

theorem Fewer.same {th : ThreadId} {v v' : Calls} (h : v'.txns = v.txns) : Fewer th v v' :=
  ⟨fun _ y hy => ⟨y, h ▸ hy, id, id⟩⟩

theorem Fewer.quiet {v v' : Calls} (th : ThreadId) (h : Quiet v v') : Fewer th v v' :=
  ⟨fun _ y hy => ⟨y, Quiet.txns_le h hy, id, id⟩⟩

theorem Fewer.updTxn (th : ThreadId) (v : Calls) (t : TxnId) {f : Txn → Txn}
    (hfrom : ∀ x, (f x).fromThread = some th → x.fromThread = some th)
    (hto : ∀ x, (f x).toThread = some th → x.toThread = some th) : Fewer th v (v.updTxn t f) := by
  refine ⟨fun u y hy => ?_⟩
  by_cases hut : u = t
  · subst hut
    simp only [Calls.updTxn, Calls.setTxn, Function.update_self, Option.map_eq_some_iff] at hy
    obtain ⟨x, hx, rfl⟩ := hy
    exact ⟨x, hx, hfrom x, hto x⟩
  · exact ⟨y, by simpa [Calls.updTxn, Calls.setTxn, hut] using hy, id, id⟩

theorem Fewer.sent {th : ThreadId} {v v' : Calls} (h : Fewer th v v') (t : TxnId)
    (ht : (v'.txns t).bind (·.fromThread) = some th) :
    (v.txns t).bind (·.fromThread) = some th := by
  obtain ⟨y, hy, hfrom⟩ := Option.bind_eq_some_iff.mp ht
  obtain ⟨x, hx, hxfrom, -⟩ := h.record t y hy
  exact Option.bind_eq_some_iff.mpr ⟨x, hx, hxfrom hfrom⟩

theorem Fewer.received {th : ThreadId} {v v' : Calls} (h : Fewer th v v') (t : TxnId)
    (ht : (v'.txns t).bind (·.toThread) = some th) :
    (v.txns t).bind (·.toThread) = some th := by
  obtain ⟨y, hy, hto⟩ := Option.bind_eq_some_iff.mp ht
  obtain ⟨x, hx, -, hxto⟩ := h.record t y hy
  exact Option.bind_eq_some_iff.mpr ⟨x, hx, hxto hto⟩

theorem Fewer.pointers_le {th : ThreadId} {v v' : Calls} (h : Fewer th v v') (k : Nat) :
    pointers v' th k ≤ pointers v th k := by
  induction k with
  | zero => exact Nat.le_refl 0
  | succ k ih =>
      have hsent := names_mono (h.sent k)
      have hreceived := names_mono (h.received k)
      unfold pointers
      omega

/-- A pointer to `th` in `t` is gone. -/
def Cleared (th : ThreadId) (t : TxnId) (v v' : Calls) : Prop :=
  (v.txns t).bind (·.fromThread) = some th ∧ (v'.txns t).bind (·.fromThread) ≠ some th ∨
    (v.txns t).bind (·.toThread) = some th ∧ (v'.txns t).bind (·.toThread) ≠ some th

theorem Cleared.fewer {th : ThreadId} {t : TxnId} {v v' v'' : Calls} (h : Cleared th t v v')
    (h' : Fewer th v' v'') : Cleared th t v v'' :=
  h.imp (fun hc => ⟨hc.1, fun hto => hc.2 (h'.sent t hto)⟩)
    fun hc => ⟨hc.1, fun hto => hc.2 (h'.received t hto)⟩

/-- A pointer that goes is counted. -/
theorem Fewer.pointers_lt {th : ThreadId} {v v' : Calls} (h : Fewer th v v') {t k : Nat}
    (ht : t < k) (hgone : Cleared th t v v') : pointers v' th k < pointers v th k := by
  induction k with
  | zero => exact absurd ht (Nat.not_lt_zero t)
  | succ k ih =>
      have hle := h.pointers_le k
      have hsent := names_mono (h.sent k)
      have hreceived := names_mono (h.received k)
      unfold pointers
      by_cases htk : t = k
      · subst htk
        rcases hgone with ⟨hold, hnew⟩ | ⟨hold, hnew⟩
        · have hlt := names_lt hold hnew
          omega
        · have hlt := names_lt hold hnew
          omega
      · have hlt := ih (by omega)
        omega

/-- One turn of the stack walk for a call the thread received. -/
theorem releaseReceived_view (hs : Sound s) (p : ProcId) {t : TxnId} {x : Txn}
    (hx : s.txns t = some x) {s₁ : Driver}
    (hnone : x.buffer = none → s₁ = s.updTxn t fun x => { x with toThread := none })
    (hsome : ∀ b, x.buffer = some b →
      s₁ = ((s.updTxn t fun x => { x with toThread := none }).releaseAndFree p b).updTxn t
        fun x => { x with buffer := none }) :
    Sound s₁ ∧ ∃ v₁, Quiet (s.view.updTxn t fun x => { x with toThread := none }) v₁ ∧
      s₁.view = (v₁.freePayload p x.buffer).updTxn t fun x => { x with buffer := none } := by
  have hs₀ : Sound (s.updTxn t fun x => { x with toThread := none }) :=
    hs.updTxn t fun _ ho => ⟨ho.fromThread, rfl, ho.needReply⟩
  cases hb : x.buffer with
  | none =>
      rw [hnone hb]
      refine ⟨hs₀, _, .refl _, ?_⟩
      rw [view_updTxn]
      -- there is no buffer to forget
      have htxns : ∀ f : Txn → Txn, (f x).buffer = none →
          (s.view.updTxn t f).updTxn t (fun x => { x with buffer := none }) =
            s.view.updTxn t f := by
        intro f hf
        have hx' : s.view.txns t = some x := hx
        have hsame : ({ f x with buffer := none } : Txn) = f x := by
          rw [← hf]
        simp [Calls.updTxn, Calls.setTxn, hx', hsame]
      exact (htxns _ hb).symm
  | some b =>
      rw [hsome b hb]
      obtain ⟨hs₁, v₁, hquiet, hview⟩ := releaseAndFree_view hs₀ p b
      refine ⟨hs₁.updTxn t fun _ ho => ⟨ho.fromThread, ho.toThread, ho.needReply⟩, v₁, hquiet, ?_⟩
      rw [view_updTxn, hview]
      rfl

theorem answer_txns (v : Calls) (sender : Option ThreadId) (t : TxnId) (br : BR) :
    (v.answer sender t br).txns = v.txns := by
  unfold Calls.answer
  split
  · split
    · change (Calls.enqueue _ _ _).txns = v.txns
      rw [enqueue_eq]
      rfl
    · rfl
  · rfl

/-- One turn of the walk: it ends here, or a pointer to the thread goes. -/
theorem releaseCall_turn (hs : Sound s) (p : ProcId) (th : ThreadId) (t : TxnId) :
    (s.releaseCall p th t = (s, none) ∧ Walk p th s.view (some t) s.view) ∨
      Sound (s.releaseCall p th t).1 ∧ Fewer th s.view (s.releaseCall p th t).1.view ∧
        Cleared th t s.view (s.releaseCall p th t).1.view ∧
        ∀ v', Walk p th (s.releaseCall p th t).1.view (s.releaseCall p th t).2 v' →
          Walk p th s.view (some t) v' := by
  unfold releaseCall
  cases hx : s.txns t with
  | none => exact .inl ⟨rfl, .stale hx⟩
  | some x =>
      have hxv : s.view.txns t = some x := hx
      by_cases hfrom : x.fromThread = some th
      · -- a call it sent: the pointer back to it goes
        simp only [hfrom, if_true]
        refine .inr ⟨?_, ?_, ?_, fun v' hwalk => .sent hxv hfrom hwalk⟩
        · exact hs.updTxn t fun _ ho => ⟨rfl, ho.toThread, ho.needReply⟩
        · exact .updTxn th _ t (by simp) (fun _ h => h)
        · exact .inl ⟨by simp [hxv, hfrom], by
            simp [view_updTxn, Calls.updTxn, Calls.setTxn, hxv]⟩
      · by_cases hto : x.toThread = some th
        · -- a call it received: the payload goes and the sender hears of it
          have hturn : ∀ s₁ : Driver,
              (x.buffer = none → s₁ = s.updTxn t fun x => { x with toThread := none }) →
              (∀ b, x.buffer = some b → s₁ = ((s.updTxn t fun x =>
                { x with toThread := none }).releaseAndFree p b).updTxn t
                  fun x => { x with buffer := none }) →
              Sound (s₁.failCaller x.fromThread t .deadReply) ∧
              Fewer th s.view (s₁.failCaller x.fromThread t .deadReply).view ∧
              Cleared th t s.view (s₁.failCaller x.fromThread t .deadReply).view ∧
              ∀ v', Walk p th (s₁.failCaller x.fromThread t .deadReply).view x.toParent v' →
                Walk p th s.view (some t) v' := by
            intro s₁ hnone hsome
            obtain ⟨hs₁, v₁, hquiet, hview⟩ := releaseReceived_view hs p hx hnone hsome
            have hcleared : Fewer th s.view (s.view.updTxn t fun x =>
                { x with toThread := none }) := .updTxn th _ t (fun _ h => h) (by simp)
            have hrest : Fewer th v₁ (s₁.failCaller x.fromThread t .deadReply).view := by
              rw [view_failCaller, hview]
              refine Fewer.trans ?_ (.same (answer_txns _ _ _ _))
              refine Fewer.trans ?_ (.updTxn th _ t (fun _ h => h) fun _ h => h)
              exact .same (by rw [freePayload_eq])
            have hfewer := (Fewer.quiet th hquiet).trans hrest
            refine ⟨hs₁.failCaller _ t _, hcleared.trans hfewer, Cleared.fewer ?_ hfewer, ?_⟩
            · exact .inr ⟨by simp [hxv, hto], by simp [Calls.updTxn, Calls.setTxn, hxv]⟩
            · intro v' hwalk
              rw [view_failCaller, hview] at hwalk
              exact .received hxv hfrom hto hquiet hwalk
          simp only [hfrom, if_false, hto, if_true]
          refine .inr ?_
          cases hb : x.buffer with
          | none => exact hturn _ (fun _ => rfl) fun b hb' => by rw [hb] at hb'; cases hb'
          | some b =>
              refine hturn _ (fun hb' => by rw [hb] at hb'; cases hb') fun b' hb' => ?_
              rw [hb] at hb'
              cases hb'
              rfl
        · refine .inl ⟨?_, .foreign hxv hfrom hto⟩
          simp only [hfrom, if_false, hto]

/-- **The stack walk ends by itself.**  With more turns than there are pointers
to the thread, the walk is the machine's. -/
theorem releaseCalls_walk {k : Nat} (p : ProcId) (th : ThreadId) (fuel : Nat) (hs : Sound s)
    (hlt : ∀ t x, s.view.txns t = some x → t < k) (top : Option TxnId)
    (hfuel : pointers s.view th k < fuel) :
    Sound (releaseCalls p th fuel s top) ∧
      Walk p th s.view top (releaseCalls p th fuel s top).view := by
  induction fuel generalizing s top with
  | zero => exact absurd hfuel (Nat.not_lt_zero _)
  | succ fuel ih =>
      cases top with
      | none => exact ⟨hs, .done _⟩
      | some t =>
          simp only [releaseCalls]
          rcases releaseCall_turn hs p th t with ⟨hend, hwalk⟩ | ⟨hs₁, hfewer, hcleared, hwalk⟩
          · rw [hend]
            cases fuel <;> exact ⟨hs, hwalk⟩
          · have ht : t < k := by
              obtain ⟨y, hy⟩ : ∃ y, s.view.txns t = some y := by
                rcases hcleared with ⟨h, -⟩ | ⟨h, -⟩ <;>
                  exact (Option.bind_eq_some_iff.mp h).imp fun _ h => h.1
              exact hlt t y hy
            obtain ⟨hend, hrest⟩ := ih hs₁ (fun u y hy => by
                obtain ⟨x, hx, -⟩ := hfewer.record u y hy
                exact hlt u x hx) (s.releaseCall p th t).2
              (Nat.lt_of_lt_of_le (hfewer.pointers_lt ht hcleared) (Nat.le_of_lt_succ hfuel))
            exact ⟨hend, hwalk _ hrest⟩

/-! ## A thread goes away -/

theorem procAlive_iff (s : Driver) (p : ProcId) :
    s.procAlive p = true ↔ s.view.procs p = some false := by
  unfold procAlive
  simp only [view]
  cases s.procs p with
  | none => simp
  | some proc => simp

/-- A turn of a loop over a queue: for an item some call is about, a step of
the call machine, else nothing a call can see. -/
structure QueueTurn (R : Calls → Work → Calls → Prop) (s : Driver) (w : Work) (s' : Driver) :
    Prop where
  sound : Sound s'
  abides : Abides s s'
  call : w.isCall = true → R s.view w s'.view
  other : w.isCall = false → s'.view = s.view

/-- The whole loop, as far as calls are concerned. -/
theorem queueLoop_each {R : Calls → Work → Calls → Prop} {f : Driver → Work → Driver}
    (hf : ∀ s w, Sound s → (∀ t, w = .transaction t → t < s.nextId) → QueueTurn R s w (f s w))
    (hs : Sound s) (l : List Work) (hlt : ∀ t, .transaction t ∈ l → t < s.nextId) :
    Sound (l.foldl f s) ∧ Abides s (l.foldl f s) ∧
      Each R s.view (l.filter Work.isCall) (l.foldl f s).view := by
  induction l generalizing s with
  | nil => exact ⟨hs, .refl s, .nil _⟩
  | cons w rest ih =>
      have hturn := hf s w hs fun t ht => hlt t (ht ▸ List.mem_cons_self)
      obtain ⟨hend, habides, heach⟩ := ih hturn.sound fun t ht =>
        Nat.lt_of_lt_of_le (hlt t (List.mem_cons_of_mem _ ht)) hturn.abides.nextId
      refine ⟨hend, hturn.abides.trans habides, ?_⟩
      cases hw : w.isCall with
      | true =>
          rw [List.filter_cons_of_pos hw]
          exact .cons (hturn.call hw) heach
      | false =>
          rw [List.filter_cons_of_neg (by simp [hw]), ← hturn.other hw]
          exact heach

/-- An item left waiting for a thread on its way out. -/
theorem releaseThreadWork_turn (hs : Sound s) (p : ProcId) (w : Work)
    (ht : ∀ t, w = .transaction t → t < s.nextId) :
    QueueTurn (HandBack p) s w (releaseThreadWork p s w) := by
  have hturn : Sound (releaseThreadWork p s w) ∧ Abides s (releaseThreadWork p s w) := by
    by_cases hw : ∃ d, w = .death d
    · obtain ⟨d, rfl⟩ := hw
      exact ⟨hs.dequeue _, .dequeue s _⟩
    · obtain ⟨hquits, -⟩ := releaseThreadWork_quits (A := fun _ => True) hs p w
        (fun _ => trivial) ht (fun _ _ => .inl trivial) fun d he => absurd ⟨d, he⟩ hw
      exact ⟨hquits.moves.sound hs, hquits.abides⟩
  refine ⟨hturn.1, hturn.2, ?_, ?_⟩
  · intro hw
    have hview := view_dequeue s w
    cases w with
    | returnError e => exact hview ▸ .error e
    | transaction t =>
        have hs₀ := hs.dequeue (.transaction t)
        have hloc₀ := s.dequeueWork_loc_self (.transaction t)
        unfold releaseThreadWork
        simp only
        split
        · rename_i halive
          rw [enqueueWork, view_insert_call _ _ false rfl, hview]
          exact .back t ((procAlive_iff s p).mp halive)
        · rename_i hdead
          obtain ⟨v₁, hquiet, hdrop⟩ := dropTransaction_view hs₀ p hloc₀
          rw [view_note, hdrop]
          exact .drop t (fun halive => hdead ((procAlive_iff s p).mpr halive)) (hview ▸ hquiet)
    | _ => cases hw
  · intro hw
    cases w with
    | transaction t => cases hw
    | returnError e => cases hw
    | _ => exact view_dequeue_other s hw

theorem view_forgetThread (s : Driver) (p : ProcId) (th : ThreadId) :
    (s.forgetThread p th).view = s.view.setThread th none := by
  have hthreads : (s.forgetThread p th).view.threads = (s.view.setThread th none).threads := by
    funext th'
    by_cases hth : th' = th <;> simp [view, forgetThread, Calls.setThread, hth]
  exact congrArg (fun threads => { s.view with threads := threads }) hthreads

/-- The items on a queue that some call is about. -/
theorem mem_calls_iff (hs : Sound s) (q : Queue) (w : Work) :
    w ∈ (s.items q).filter Work.isCall ↔ s.view.loc w = some q := by
  rw [List.mem_filter, show w ∈ s.items q ↔ _ from hs.queues.consistent.mem_iff w q]
  simp only [view]
  cases w.isCall <;> simp

/-- **A thread is released.** -/
theorem threadRelease_refines (hs : Sound s) (hb : Base s.view) {p : ProcId} {th : ThreadId}
    (hhome : s.view.procOf th = some p) :
    Sound (s.threadRelease p th) ∧ Depart p th s.view (s.threadRelease p th).view := by
  have hdead : (s.updThread th fun thread => { thread with isDead := true }).view =
      s.view.setDead th := view_updThread s th fun _ => rfl
  have hs₁ : Sound (s.updThread th fun thread => { thread with isDead := true }) :=
    hs.updThread th fun _ => rfl
  have htop : ((s.updThread th fun thread => { thread with isDead := true }).threads th).bind
      (·.transactionStack) = s.view.stackOf th := by
    rw [view_stackOf]
    cases hth : s.threads th <;> simp [Driver.updThread, hth]
  have hhome₁ : ((s.updThread th fun thread => { thread with isDead := true }).threads th).map
      (·.proc) = some p := by
    rw [← view_procOf, hdead, procOf_setDead]
    exact hhome
  have hid : (s.updThread th fun thread => { thread with isDead := true }).nextId = s.nextId := rfl
  unfold threadRelease
  simp only
  rw [htop, hid]
  generalize s.updThread th (fun thread => { thread with isDead := true }) = s₁ at *
  -- the walk
  obtain ⟨hs₂, hwalk⟩ := releaseCalls_walk (k := s.nextId) p th (2 * s.nextId + 2) hs₁
    (by rw [hdead]; exact fun t x hx => hb.txns_lt t x hx) (s.view.stackOf th)
    (by have := pointers_le s₁.view th s.nextId; omega)
  rw [hdead] at hwalk
  have hhome₂ := ((releaseCalls_quits (A := fun _ => True) hs₁ p th (2 * s.nextId + 2)
    (s.view.stackOf th) fun _ => trivial).abides.home th).trans hhome₁
  generalize releaseCalls p th (2 * s.nextId + 2) s₁ (s.view.stackOf th) = s₂ at *
  -- the queue
  have hs₃ := hs₂.setStack th none
  have hhome₃ : ((s₂.setStack th none).threads th).map (·.proc) = some p := by
    rw [← view_procOf, view_setStack, procOf_setStack, view_procOf]
    exact hhome₂
  obtain ⟨hs₄, habides, heach⟩ := queueLoop_each (f := releaseThreadWork p)
    (fun s w hs ht => releaseThreadWork_turn hs p w ht) hs₃
    ((s₂.setStack th none).items (.thread th)) fun t ht =>
      hs₃.queues.queued_lt t _ ((hs₃.queues.consistent.mem_iff _ _).mp ht)
  refine ⟨hs₄.forgetThread ((habides.home th).trans hhome₃), ?_⟩
  rw [view_setStack] at heach
  rw [view_forgetThread]
  refine .mk _ hwalk ?_ ?_ heach
  · exact (hs₃.queues.consistent.nodup _).filter _
  · intro w
    rw [mem_calls_iff hs₃, view_setStack]
    rfl

/-! ## A process goes away -/

/-- An item left waiting for a process on its way out. -/
theorem releaseProcWork_turn (hs : Sound s) (p : ProcId) (w : Work) :
    QueueTurn (Undeliver p) s w (releaseProcWork p s w) := by
  have hview := view_dequeue s w
  have hother : w.isCall = false → releaseProcWork p s w = s.dequeueWork w →
      QueueTurn (Undeliver p) s w (releaseProcWork p s w) := by
    intro hw heq
    rw [heq]
    refine ⟨hs.dequeue w, .dequeue s w, ?_, fun _ => view_dequeue_other s hw⟩
    intro hcall
    rw [hw] at hcall
    cases hcall
  cases w with
  | complete c => exact hother rfl rfl
  | node n => exact hother rfl rfl
  | death d => exact hother rfl rfl
  | returnError e =>
      exact ⟨hs.dequeue _, .dequeue s _, fun _ => hview ▸ .error e, fun hw => by cases hw⟩
  | transaction t =>
      obtain ⟨hmoves, habides⟩ := undeliver_quits (A := fun _ => True) hs p t fun _ => trivial
      refine ⟨hmoves.sound hs, habides, fun _ => ?_, fun hw => by cases hw⟩
      obtain ⟨v₁, hquiet, hdrop⟩ := undelivered_view (hs.dequeue (.transaction t)) p .deadReply
        (s.dequeueWork_loc_self _)
      rw [hview] at hquiet
      exact hdrop ▸ .txn t hquiet

/-- The nodes of a process are orphaned one by one. -/
theorem releaseNodes_steps {O : ProcId → Prop} (hs : Sound s) {p : ProcId} (l : List NodeId)
    (hl : ∀ n ∈ l, n ∈ s.procNodes p) (hnodup : l.Nodup) :
    ObjectSteps O s (l.foldl (releaseNode p) s) := by
  induction l generalizing s with
  | nil => exact .refl s
  | cons n rest ih =>
      obtain ⟨hout, hnodup⟩ := List.nodup_cons.mp hnodup
      have hmem := hl n (by simp)
      have hstep : ObjectSteps O s (releaseNode p s n) := releaseNode_steps hs hmem
      have hs₁ := ObjectSteps.sound hs hstep
      refine hstep.trans (ih hs₁ ?_ hnodup)
      intro m hm
      have hmn : m ≠ n := fun he => hout (he ▸ hm)
      have hold := hl m (List.mem_cons_of_mem n hm)
      rw [hs.graph.procNodes.mem_iff] at hold
      rw [hs₁.graph.procNodes.mem_iff, (releaseNode_nodes hs hmem).1 m hmn]
      exact hold

/-- The threads of a process go one by one. -/
theorem releaseThreads_each {p : ProcId} (hs : Sound s) (l : List ThreadId)
    (hdeparting : Departing p l s.view) :
    Each (fun v th => Depart p th v) s.view l
      (l.foldl (fun s th => (s.wakeupThread th).threadRelease p th) s).view := by
  induction l generalizing s with
  | nil => exact .nil _
  | cons th rest ih =>
      have hwake := view_wakeupThread s th
      obtain ⟨hs₁, hdepart⟩ := threadRelease_refines (hs.wakeupThread th)
        (hwake ▸ hdeparting.base) (hwake ▸ (hdeparting.threads th).mp (by simp))
      rw [hwake] at hdepart
      exact .cons hdepart (ih hs₁ (hdeparting.step hdepart))

theorem view_dying (s : Driver) {p : ProcId} (hp : (s.view.procs p).isSome) :
    (s.updProc p fun proc => { proc with isDead := true }).view =
      s.view.setProc p (some true) := by
  have hprocs : (s.updProc p fun proc => { proc with isDead := true }).view.procs =
      (s.view.setProc p (some true)).procs := by
    funext p'
    by_cases hpp : p' = p
    · subst hpp
      simp only [view, Option.isSome_map] at hp
      obtain ⟨proc, hproc⟩ := Option.isSome_iff_exists.mp hp
      simp [view, Driver.updProc, Calls.setProc, hproc]
    · simp [view, Driver.updProc, Calls.setProc, hpp]
  exact congrArg (fun procs => { s.view with procs := procs }) hprocs

theorem view_tearDown (s : Driver) (p : ProcId) :
    ((s.arenaTeardown p).forgetProc p).view = s.view.tearDown p := by
  have hprocs : ((s.arenaTeardown p).forgetProc p).view.procs = (s.view.tearDown p).procs := by
    funext p'
    by_cases hp : p' = p <;>
      simp [view, forgetProc, arenaTeardown, updArena, updStats, Calls.tearDown, Calls.setProc, hp]
  have hbuffers : ((s.arenaTeardown p).forgetProc p).view.buffers =
      (s.view.tearDown p).buffers := by
    funext p' b
    by_cases hp : p' = p <;>
      simp [view, forgetProc, arenaTeardown, updArena, updStats, Calls.tearDown, Arena.used, hp]
  exact congrArg₂ (fun procs buffers => { s.view with procs := procs, buffers := buffers }) hprocs
    hbuffers

/-- **A process is released.** -/
theorem procRelease_refines (hs : Sound s) (hb : Base s.view) {p : ProcId}
    (hp : (s.view.procs p).isSome) : Close p s.view (s.procRelease p).view := by
  have hdying := view_dying s hp
  have hs₁ : Sound (s.updProc p fun proc => { proc with isDead := true }) := hs.same rfl
  unfold procRelease
  simp only
  have hthreads₁ : ∀ th, ((s.updProc p fun proc => { proc with isDead := true }).threads th).map
      (·.proc) = s.view.procOf th := fun th => (view_procOf s th).symm
  generalize s.updProc p (fun proc => { proc with isDead := true }) = s₁ at *
  -- objects go first, and no call can see that
  have hmgr := releaseManager_steps (O := fun _ => True) (s := s₁) p
  have hs₂ := ObjectSteps.sound hs₁ hmgr
  generalize s₁.releaseManager p = s₂ at *
  have hnodes := releaseNodes_steps (O := fun _ => True) hs₂ _ (fun _ hn => hn)
    (hs₂.graph.procNodes.nodup p)
  have hs₃ := ObjectSteps.sound hs₂ hnodes
  generalize (s₂.procNodes p).foldl (releaseNode p) s₂ = s₃ at *
  have hrefs := foldl_steps (O := fun _ => True) (f := refDelete)
    (fun s r hs => refDelete_steps hs r fun _ _ => trivial) hs₃ (s₃.procRefs p)
  have hs₄ := ObjectSteps.sound hs₃ hrefs
  generalize (s₃.procRefs p).foldl refDelete s₃ = s₄ at *
  have hobjects := (hmgr.trans hnodes).trans hrefs
  have hquiet := ObjectSteps.quiet hs₁ hobjects
  rw [hdying] at hquiet
  have hthreads₄ : ∀ th, (s₄.threads th).map (·.proc) = s.view.procOf th := by
    intro th
    rw [(ObjectSteps.threads hs₁ hobjects).1]
    exact hthreads₁ th
  -- then what waits for the process
  obtain ⟨hs₅, habides, hundeliver⟩ := queueLoop_each (f := releaseProcWork p)
    (fun s w hs _ => releaseProcWork_turn hs p w) hs₄ (s₄.items (.proc p)) fun t ht =>
      hs₄.queues.queued_lt t _ ((hs₄.queues.consistent.mem_iff _ _).mp ht)
  generalize (s₄.items (.proc p)).foldl (releaseProcWork p) s₄ = s₅ at *
  have hths : ∀ th, th ∈ s₅.procThreads p ↔ s.view.procOf th = some p := by
    intro th
    rw [← hthreads₄, ← habides.home, hs₅.threads.mem_iff, Option.map_eq_some_iff]
    simp
  have hws := mem_calls_iff hs₄ (.proc p)
  have hnodup := (hs₄.queues.consistent.nodup (.proc p)).filter Work.isCall
  -- and then the threads
  have hdeparts := releaseThreads_each hs₅ (s₅.procThreads p)
    (hb.undelivered hp hquiet hnodup hws hundeliver hths (hs₅.threads.nodup p))
  rw [view_tearDown]
  exact .mk _ _ hquiet hnodup hws hundeliver hths (hs₅.threads.nodup p) hdeparts

end Driver

end Binder
