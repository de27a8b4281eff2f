import DevfsBinder.AddressSupply
import DevfsBinder.QuietStretches

/-!
# The commands of a write as sequences of effects

Translating a parcel, releasing a payload, sending, and the commands that name
a handle or a node: each is a sequence of calls of the accounting with lulls in
between.  The hypotheses say which kinds of effect a command may have: a weak
one when it handles a weak object, an aim when it sends to a node.
-/

namespace Binder

open LittleEndian

/-- The object at `off` is a weak one. -/
def WeakObject (kdata : Bytes) (dataSize off : Nat) : Prop :=
  objectAt kdata dataSize off = some .weakBinder ∨ objectAt kdata dataSize off = some .weakHandle

namespace Driver

variable {A : Kind → Prop} {s s' s'' : Driver}

/-! ## References -/

theorem localRef_moves (hs : Sound s) (n : NodeId) (strong increment : Bool)
    (thread : Option ThreadId) (hA : strong = false → A .weak) :
    Moves A s (s.nodeUpdateRefs n strong increment false thread).1 :=
  (Effect.localRef n strong increment thread hA).moves hs
    (nodeUpdateRefs_steps (O := fun _ => True) hs n strong increment false thread)
    (Calm.nodeUpdateRefs hs n strong increment false thread).notices

theorem giveRef_moves (hs : Sound s) (r : RefId) (strong : Bool) (thread : Option ThreadId)
    (hA : strong = false → A .weak ∨ A (.weakGive s r)) :
    Moves A s (s.refUpdate r strong false thread).1 :=
  (Effect.giveRef r strong thread hA).moves hs
    (refUpdate_give_steps (O := fun _ => True) hs r strong thread fun _ _ => trivial)
    (refUpdate_notices hs r strong false thread)

theorem holdRef_moves (hs : Sound s) (r : RefId) (strong : Bool) (thread : Option ThreadId) :
    Moves A s (s.refUpdate r strong true thread).1 :=
  (Effect.holdRef r strong thread).moves hs
    (refUpdate_take_steps (O := fun _ => True) hs r strong thread)
    (refUpdate_notices hs r strong true thread)

/-- A failed search for a handle has used up an address. -/
theorem refGetForNode_none {env : Env} {p : ProcId} {n : NodeId} {s₁ : Driver}
    (h : s.refGetForNode env p n = (none, s₁)) : s₁ = s.bumpId := by
  rcases s.refGetForNode_ends env p n with ⟨r, -, heq⟩ | ⟨-, heq⟩ | heq <;>
    cases heq.symm.trans h
  rfl

theorem takeRef_moves (hs : Sound s) {env : Env} {p : ProcId} {n : NodeId} {r : RefId}
    {s₁ : Driver} (hH : A (.handle s p n)) (hn : (s.nodes n).isSome) (hp : (s.procs p).isSome)
    (hget : s.refGetForNode env p n = (some r, s₁)) (strong : Bool) (thread : Option ThreadId)
    (hA : strong = false → A .weak ∨ A (.weakTake s n)) :
    Moves A s (s₁.refUpdate r strong true thread).1 := by
  have hsteps := refGetForNode_steps (O := fun _ => True) (s := s) env p n
  have hcalm := Calm.refGetForNode s env p n
  rw [hget] at hsteps hcalm
  have hs₁ := ObjectSteps.sound hs hsteps
  exact (Effect.takeRef env p n strong thread r s₁ hH hn hp hget hA).moves hs
    (hsteps.trans (refUpdate_take_steps hs₁ r strong thread))
    (hcalm.notices.trans (refUpdate_notices hs₁ r strong true thread))

/-- The node for a pointer: found, made, or not made for want of memory. -/
theorem nodeNew_moves (hs : Sound s) (env : Env) {p : ProcId} (ptr cookie flags : Nat)
    (hp : p < s.nextId) (hM : A (.make p)) :
    Moves A s (s.nodeNew env p ptr cookie flags).2 ∧
      ∀ n, (s.nodeNew env p ptr cookie flags).1 = some n →
        ∃ nd, (s.nodeNew env p ptr cookie flags).2.nodes n = some nd ∧ nd.proc = some p := by
  have hsteps := nodeNew_steps (O := fun _ => True) (s := s) env p ptr cookie flags
  rcases s.nodeNew_ends env p ptr cookie flags with ⟨n, hfind, heq⟩ | ⟨hfind, heq⟩ | heq <;>
    rw [heq] at hsteps ⊢
  · refine ⟨.refl s, ?_⟩
    rintro _ ⟨⟩
    obtain ⟨nd, hn, hproc, -⟩ := hs.graph.nodeFind_eq_some.mp hfind
    exact ⟨nd, hn, hproc⟩
  · refine ⟨(Effect.makeNode s.nextId p ptr cookie flags hfind rfl hp hM).moves hs hsteps
      (Calm.insertNode hs p ptr cookie flags).notices, ?_⟩
    rintro _ ⟨⟩
    exact ⟨_, Function.update_self s.nextId _ _, rfl⟩
  · exact ⟨(Lull.bumpId hs).moves, by simp⟩

/-! ## Translating a parcel -/

/-- **An object is sent**: the receiver gets a handle, which is counted. -/
theorem translateBinder_moves (hs : Sound s) (env : Env) {p : ProcId} (th : ThreadId)
    {tp : ProcId} (hM : A (.make p)) (hH : ∀ s₁ n, s₁.Knows p n → A (.handle s₁ tp n))
    (htp : (s.procs tp).isSome) (kdata : Bytes) (off : Nat) (strong : Bool) (hp : p < s.nextId)
    (hA : strong = false → A .weak) :
    Moves A s (translateBinder env s p th tp kdata off strong).1 := by
  obtain ⟨hnew, hnode⟩ := nodeNew_moves (A := A) hs env (field kdata (off + 8) 8)
    (field kdata (off + 16) 8) (field kdata (off + 4) 4) hp hM
  have hprocs := (ObjectSteps.threads hs (nodeNew_steps (O := fun _ => True) env p
    (field kdata (off + 8) 8) (field kdata (off + 16) 8) (field kdata (off + 4) 4))).2.2
  unfold translateBinder
  simp only
  generalize s.nodeNew env p (field kdata (off + 8) 8) (field kdata (off + 16) 8)
    (field kdata (off + 4) 4) = r at hnew hnode hprocs
  obtain ⟨_ | n, s₁⟩ := r
  · exact hnew
  · simp only
    split
    · exact hnew
    · obtain ⟨nd, hn, hown⟩ := hnode n rfl
      have hsome : (s₁.nodes n).isSome := Option.isSome_iff_exists.mpr ⟨nd, hn⟩
      have hs₁ := hnew.sound hs
      cases hget : s₁.refGetForNode env tp n with
      | mk r s₂ =>
          cases r with
          | none =>
              rw [refGetForNode_none hget]
              exact hnew.trans (Lull.bumpId hs₁).moves
          | some r =>
              have htp₁ : (s₁.procs tp).isSome := by
                rw [show s₁.procs = s.procs from hprocs]
                exact htp
              have hknows : s₁.Knows p n := .inl (by rw [hn]; exact hown)
              exact hnew.trans (takeRef_moves hs₁ (hH s₁ n hknows) hsome htp₁ hget strong (some th)
                fun hweak => .inl (hA hweak))

/-- A process knows what its handles name. -/
theorem knows_of_refFindByDesc (hs : Sound s) {p : ProcId} {desc : Nat} {ref : Ref}
    (h : (s.refFindByDesc p desc).bind s.refs = some ref) : s.Knows p ref.node := by
  obtain ⟨r, hfind, hr⟩ := Option.bind_eq_some_iff.mp h
  exact .inr ⟨r, ref, hr, hs.heldBy p desc r ref hfind hr, rfl⟩

/-- **A handle is sent**: the owner gets its object back, others a handle. -/
theorem translateHandle_moves (hs : Sound s) (env : Env) {p : ProcId} (th : ThreadId)
    {tp : ProcId} (hH : ∀ s₁ n, s₁.Knows p n → A (.handle s₁ tp n))
    (htp : (s.procs tp).isSome) (kdata : Bytes) (off : Nat) (strong : Bool)
    (hA : strong = false → A .weak) :
    Moves A s (translateHandle env s p th tp kdata off strong).1 := by
  unfold translateHandle
  split
  · exact .refl s
  · rename_i ref href
    split
    · exact .refl s
    · rename_i nd hn
      split
      · exact localRef_moves hs ref.node strong true (some th) hA
      · cases hget : s.refGetForNode env tp ref.node with
        | mk r s₁ =>
            cases r with
            | none =>
                rw [refGetForNode_none hget]
                exact (Lull.bumpId hs).moves
            | some r =>
                exact takeRef_moves hs (hH s ref.node (knows_of_refFindByDesc hs href))
                  (by simp [hn]) htp hget strong (some th) fun hweak => .inl (hA hweak)

/-- One turn of the translation; weak objects need leave. -/
theorem translateObject_moves {c : Parcel} {ls : LoopState} (hs : Sound ls.drv)
    (hM : A (.make c.proc)) (hH : ∀ s₁ n, s₁.Knows c.proc n → A (.handle s₁ c.targetProc n))
    (i : Nat) (hp : c.proc < ls.drv.nextId)
    (htp : (ls.drv.procs c.targetProc).isSome)
    (hA : WeakObject ls.kdata c.dataSize (offsetEntry ls.kdata c.offArea i) → A .weak) :
    Moves A ls.drv (translateObject c ls i).1.drv := by
  unfold translateObject
  simp only [LoopState.touch]
  generalize offsetEntry ls.kdata c.offArea i = off at hA ⊢
  unfold WeakObject at hA
  split
  · exact .refl _
  · rename_i hobj
    refine translateBinder_moves hs c.env c.thread hM hH htp ls.kdata off _ hp ?_
    exact fun hweak => absurd hobj (of_decide_eq_false hweak)
  · rename_i hobj
    exact translateBinder_moves hs c.env c.thread hM hH htp ls.kdata off _ hp
      fun _ => hA (.inl hobj)
  · rename_i hobj
    refine translateHandle_moves hs c.env c.thread hH htp ls.kdata off _ ?_
    exact fun hweak => absurd hobj (of_decide_eq_false hweak)
  · rename_i hobj
    exact translateHandle_moves hs c.env c.thread hH htp ls.kdata off _
      fun _ => hA (.inr hobj)
  · exact .refl _
  · rw [translatePtr_drv]
    exact .refl _
  · exact .refl _

/-- The translation loop comes to a weak object. -/
def MeetsWeak (c : Parcel) (ls : LoopState) (entries : List Nat) : Prop :=
  ∃ done i rest, entries = done ++ i :: rest ∧ (translateLoop c ls done).2 = none ∧
    WeakObject (translateLoop c ls done).1.kdata c.dataSize
      (offsetEntry (translateLoop c ls done).1.kdata c.offArea i)

theorem MeetsWeak.head {c : Parcel} {ls : LoopState} {i : Nat} {rest : List Nat}
    (h : WeakObject ls.kdata c.dataSize (offsetEntry ls.kdata c.offArea i)) :
    MeetsWeak c ls (i :: rest) :=
  ⟨[], i, rest, rfl, rfl, h⟩

theorem MeetsWeak.tail {c : Parcel} {ls ls' : LoopState} {i : Nat} {rest : List Nat}
    (hturn : translateObject c ls i = (ls', none)) (h : MeetsWeak c ls' rest) :
    MeetsWeak c ls (i :: rest) := by
  obtain ⟨done, j, rest', rfl, hdone, hweak⟩ := h
  have hloop : translateLoop c ls (i :: done) = translateLoop c ls' done := by
    simp only [translateLoop, hturn]
  exact ⟨i :: done, j, rest', rfl, by rw [hloop]; exact hdone, by rw [hloop]; exact hweak⟩

/-- The whole translation. -/
theorem translateLoop_moves {c : Parcel} {ls : LoopState} (hs : Sound ls.drv)
    (hM : A (.make c.proc)) (hH : ∀ s₁ n, s₁.Knows c.proc n → A (.handle s₁ c.targetProc n))
    (hp : c.proc < ls.drv.nextId) (htp : (ls.drv.procs c.targetProc).isSome)
    (entries : List Nat) (hA : MeetsWeak c ls entries → A .weak) :
    Moves A ls.drv (translateLoop c ls entries).1.drv := by
  induction entries generalizing ls with
  | nil => exact .refl _
  | cons i rest ih =>
      have hmoves := translateObject_moves hs hM hH i hp htp fun hweak => hA (.head hweak)
      have hsteps := translateObject_steps (O := fun _ => True) (c := c) hs i
      have hle := (hsteps.ref_kept hp).1
      have hprocs := (ObjectSteps.threads hs hsteps).2.2
      rw [translateLoop]
      cases hturn : translateObject c ls i with
      | mk ls' error =>
          rw [hturn] at hmoves hle hprocs
          cases error with
          | some error => exact hmoves
          | none =>
              exact hmoves.trans (ih (hmoves.sound hs) (Nat.lt_of_lt_of_le hp hle)
                (hprocs ▸ htp) fun hweak => hA (.tail hturn hweak))

/-! ## Releasing a payload -/

/-- A loop whose every turn is a sequence of effects. -/
theorem foldl_moves {α : Type} {f : Driver → α → Driver} (l : List α)
    (hf : ∀ s, ∀ a ∈ l, Sound s → Moves A s (f s a)) (hs : Sound s) :
    Moves A s (l.foldl f s) := by
  induction l generalizing s with
  | nil => exact .refl s
  | cons a l ih =>
      have hmoves := hf s a (by simp) hs
      exact hmoves.trans (ih (fun s b hb => hf s b (List.mem_cons_of_mem _ hb)) (hmoves.sound hs))

theorem releaseObject_moves (hs : Sound s) (p : ProcId) (kdata : Bytes) (dataSize off : Nat)
    (hA : WeakObject kdata dataSize off → A .weak) :
    Moves A s (s.releaseObject p kdata dataSize off) := by
  apply releaseObject_rule s p kdata dataSize off (.refl s)
  · intro n strong hobj
    exact localRef_moves hs n strong false none fun hweak => hA (.inl (hobj hweak))
  · intro desc r strong hobj _
    exact giveRef_moves hs r strong none fun hweak => .inl (hA (.inr (hobj hweak)))

theorem releaseObjects_moves (hs : Sound s) (p : ProcId) (kdata : Bytes)
    (dataSize offsetsSize : Nat) (hA : ListsWeak kdata dataSize offsetsSize → A .weak) :
    Moves A s (s.releaseObjects p kdata dataSize offsetsSize) := by
  refine foldl_moves _ ?_ hs
  intro s i hi hs
  exact releaseObject_moves hs p kdata dataSize _ fun hweak =>
    hA ⟨i, List.mem_range.mp hi, hweak⟩

/-- A buffer with a payload is in use. -/
theorem uses_of_kdata (hs : Sound s) {p : ProcId} {b : BufferId} {buf : Buffer} {kdata : Bytes}
    (hfind : s.findBuffer p b = some buf) (hkdata : buf.kdata = some kdata) : s.Uses p buf := by
  obtain ⟨hmem, -⟩ := (hs.arenas p).find_eq_some.mp hfind
  refine ⟨hmem, ?_⟩
  cases hfree : buf.free with
  | false => rfl
  | true =>
      rw [(hs.arenas p).blank buf hmem hfree] at hkdata
      cases hkdata

theorem bufferRelease_moves (hs : Sound s) (p : ProcId) (b : BufferId)
    (hA : s.StoresWeak → A .weak) : Moves A s (s.bufferRelease p b) := by
  unfold bufferRelease
  split
  · exact .refl s
  · rename_i buf hfind
    split
    · exact .refl s
    · rename_i kdata hkdata
      exact releaseObjects_moves hs p kdata buf.dataSize buf.offsetsSize fun hweak =>
        hA ⟨p, buf, kdata, uses_of_kdata hs hfind hkdata, hkdata, hweak⟩

theorem releaseAndFree_moves (hs : Sound s) (p : ProcId) (b : BufferId)
    (hA : s.StoresWeak → A .weak) : Moves A s (s.releaseAndFree p b) := by
  have hmoves := bufferRelease_moves hs p b hA
  exact hmoves.trans (Lull.bufferFree (hmoves.sound hs) p b).moves

theorem releasePayload_moves (hs : Sound s) (p : ProcId) (buf : Option BufferId)
    (hA : s.StoresWeak → A .weak) : Moves A s (s.releasePayload p buf) := by
  cases buf with
  | none => exact .refl s
  | some b => exact releaseAndFree_moves hs p b hA

theorem dropTransaction_moves (hs : Sound s) (p : ProcId) (t : TxnId)
    (hA : s.StoresWeak → A .weak) : Moves A s (s.dropTransaction p t) := by
  have hmoves := releasePayload_moves hs p ((s.txns t).bind (·.buffer)) hA
  exact hmoves.trans (Lull.freeTransaction (hmoves.sound hs) t).moves

/-! ## Sending -/

/-- What is new in the arenas when a buffer changes in place. -/
theorem Loads.updBuffer (p : ProcId) (b : BufferId) {f : Buffer → Buffer}
    (hfree : ∀ buf, (f buf).free = buf.free)
    (hweak : ∀ buf kdata, s.Uses p buf → buf.id = b → (f buf).kdata = some kdata →
      ListsWeak kdata (f buf).dataSize (f buf).offsetsSize → A .weak ∨ s.StoresWeak)
    (hname : ∀ buf n, s.Uses p buf → buf.id = b → (f buf).targetNode = some n →
      A (.aim p n) ∨ s.Names p n) : Loads A s (s.updBuffer p b f) := by
  have hback : ∀ p' buf', (s.updBuffer p b f).Uses p' buf' → s.Uses p' buf' ∨
      ∃ buf, p' = p ∧ s.Uses p buf ∧ buf.id = b ∧ buf' = f buf := by
    intro p' buf' huses
    have hmem := huses.mem
    have hused := huses.used
    by_cases hp : p' = p
    · subst hp
      simp only [Driver.updBuffer, updArena, Function.update_self, List.mem_map] at hmem
      obtain ⟨buf, hbuf, rfl⟩ := hmem
      split at hused
      · rename_i hb
        rw [if_pos hb]
        exact .inr ⟨buf, rfl, ⟨hbuf, hfree buf ▸ hused⟩, hb, rfl⟩
      · rename_i hb
        rw [if_neg hb]
        exact .inl ⟨hbuf, hused⟩
    · exact .inl ⟨by simpa [Driver.updBuffer, updArena, hp] using hmem, hused⟩
  refine ⟨?_, ?_⟩
  · rintro ⟨p', buf', kdata, huses, hkdata, hlists⟩
    rcases hback p' buf' huses with hold | ⟨buf, -, hold, hb, rfl⟩
    · exact .inr ⟨p', buf', kdata, hold, hkdata, hlists⟩
    · exact hweak buf kdata hold hb hkdata hlists
  · rintro p' n ⟨buf', huses, hn⟩
    rcases hback p' buf' huses with hold | ⟨buf, rfl, hold, hb, rfl⟩
    · exact .inr ⟨buf', hold, hn⟩
    · exact hname buf n hold hb hn

theorem Aside.updBuffer (s : Driver) (p : ProcId) (b : BufferId) (f : Buffer → Buffer) :
    Aside s (s.updBuffer p b f) :=
  .same rfl (fun _ => rfl) rfl rfl (fun _ => rfl) (fun _ => rfl) (Nat.le_refl _)

/-- How a payload is fetched: nothing happens to objects, and the buffer
reserved for it has the sizes asked for. -/
def Fetched.Lulled (s : Driver) (tp : ProcId) (tr : TransactionData) : Fetched → Prop
  | .refused s' _ => Lull s s'
  | .ready s' buf _ => Lull s s' ∧ ∀ buf', s'.Uses tp buf' → buf'.id = buf.id →
      buf'.dataSize = tr.dataSize ∧ buf'.offsetsSize = tr.offsetsSize

/-- **Fetching a payload** is a lull, and the buffer it is for has its sizes. -/
theorem fetchPayload_lulled (hs : Sound s) (env : Env) (tp : ProcId) (tr : TransactionData)
    (extraSize : Nat) (oneway : Bool) :
    (fetchPayload env s tp tr extraSize oneway).Lulled s tp tr := by
  have hlull := Lull.bufferAlloc hs env tp tr.dataSize tr.offsetsSize extraSize oneway
  have hcases := (bufferAlloc_cases hs env tp tr.dataSize tr.offsetsSize extraSize oneway).2
  apply fetchPayload_rule (P := Fetched.Lulled s tp tr)
  · exact Lull.refl hs
  · intro s₁ heq
    rwa [heq] at hlull
  · intro b s₁ heq
    rw [heq] at hlull hcases
    have hbump := hlull.trans (Lull.bumpId hlull.sound)
    refine ⟨hbump, hbump, ?_⟩
    intro data offsets buf _ _ _ _ hfind
    refine ⟨hbump.trans (Lull.updStats hbump.sound _), ?_⟩
    intro buf' huses' hid
    obtain ⟨-, hb⟩ := (hbump.sound.arenas tp).find_eq_some.mp hfind
    have hnow : (s.bufferAlloc env tp tr.dataSize tr.offsetsSize extraSize oneway).2.Uses tp
        buf' := by
      rw [heq]
      exact ⟨huses'.mem, huses'.used⟩
    rcases bufferAlloc_uses env tp _ _ _ _ hnow with hold | ⟨-, -, -, -, hd, ho⟩
    · -- a buffer in use is not the one that was free
      have hsome := (hs.arenas tp).used_eq_some.mpr ⟨⟨hold.mem, hid.trans hb⟩, hold.used⟩
      have hnone := hcases.1
      rw [view_buffers, hsome] at hnone
      cases hnone
    · exact ⟨hd, ho⟩

theorem dropTarget_moves (hs : Sound s) (tgt : Target) : Moves A s (s.dropTarget tgt) := by
  unfold dropTarget
  split
  · rename_i n _
    exact (Effect.unhold n).moves hs (nodeDecTmpref_steps (O := fun _ => True) hs n)
      (Calm.nodeDecTmpref hs n).notices
  · exact .refl s

theorem refuseSend_moves (hs : Sound s) (th : ThreadId) (tgt : Target) (buf : Option BufferId)
    (hA : s.StoresWeak → A .weak) : Moves A s (s.refuseSend th tgt buf) := by
  have herror : Moves A s (s.txnError th .failedReply) := (Lull.txnError hs th .failedReply).moves
  have hpayload := herror.trans
    (releasePayload_moves (herror.sound hs) tgt.proc buf (herror.weak hA))
  have hundo : Moves A s ((s.txnError th .failedReply).undoSend th tgt buf) := by
    unfold undoSend
    simp only
    split
    · exact hpayload.trans (Lull.setStack (hpayload.sound hs) th _).moves
    · exact hpayload
  exact hundo.trans (dropTarget_moves (hundo.sound hs) tgt)

/-- **A transaction is queued**, and a oneway one may mark its node busy. -/
theorem queueTransaction_moves (hs : Sound s) (th : ThreadId) (tgt : Target) (oneway : Bool)
    {t : TxnId} (ht : t < s.nextId)
    (hone : tgt.inReplyTo = none → oneway = true →
      ∃ x, s.txns t = some x ∧ x.Oneway ∧ s.queues.loc (.transaction t) = none) :
    Moves A s (s.queueTransaction th tgt oneway t) := by
  have hqueue : ∀ {s : Driver} (q : Queue), Sound s → t < s.nextId → (∀ n, q ≠ .node n) →
      Lull s { s with queues := s.queues.insert q (.transaction t) false } := by
    intro s q hs ht hq
    refine Lull.enqueue hs false (by simp) (by simp) (by simp) ?_ hq
    rintro _ ⟨⟩
    exact ht
  unfold queueTransaction
  split
  · rename_i call hreply
    have hfree := Lull.freeTransaction hs call
    have hnote := hfree.trans (Lull.note hfree.sound (.reply th call t))
    simp only
    split
    · rename_i target _
      have hin := hnote.trans (hqueue (.thread target) hnote.sound
        (Nat.lt_of_lt_of_le ht hnote.aside.nextId) (by simp))
      exact (hin.trans (Lull.wakeupThread hin.sound target)).moves
    · exact hnote.moves
  · rename_i hreply
    split
    · rename_i honeway
      split
      · exact .refl s
      · rename_i n _
        split
        · obtain ⟨x, hx, ho, hloc⟩ := hone hreply honeway
          exact (Lull.linkBehindNode hs hx ho ht hloc).moves
        · have hset : Moves A s (s.updNode n fun nd => { nd with hasAsyncTransaction := true }) :=
            (Effect.async n true).moves (O := fun _ => True) hs
              (ObjectStep.count n _ ⟨by simp, by simp, by simp, by simp⟩).steps
              (Calm.notices (.updNode s n (fun _ => rfl) fun _ => rfl))
          have hin := hqueue (.proc tgt.proc) (hset.sound hs) ht (by simp)
          exact hset.trans (hin.trans (Lull.wakeupProc hin.sound tgt.proc)).moves
    · have hupd : Lull s (s.updTxn t fun x =>
          { x with fromParent := (s.threads th).bind (·.transactionStack) }) :=
        Lull.updTxn hs t fun _ ho => ⟨ho.fromThread, ho.toThread, ho.needReply⟩
      have hstack := hupd.trans (Lull.setStack hupd.sound th (some t))
      simp only
      split
      · rename_i target _
        have hin := hstack.trans (hqueue (.thread target) hstack.sound ht (by simp))
        exact (hin.trans (Lull.wakeupThread hin.sound target)).moves
      · have hin := hstack.trans (hqueue (.proc tgt.proc) hstack.sound ht (by simp))
        exact (hin.trans (Lull.wakeupProc hin.sound tgt.proc)).moves

/-- The record of a send, tied to its buffer and the node it is aimed at. -/
theorem newTransaction_moves (hs : Sound s) (env : Env) (p : ProcId) (th : ThreadId)
    (tgt : Target) (tr : TransactionData) (reply oneway : Bool) {b : BufferId} {t : TxnId}
    (hblank : s.view.Blank tgt.proc b)
    (hloc : s.queues.loc (.transaction t) = none)
    (hA : ∀ n, tgt.node = some n → A (.aim tgt.proc n)) :
    Moves A s (newTransaction env s p th tgt tr reply oneway b t) := by
  have hsound := (newTransaction_refines hs env p th tgt tr reply oneway hblank hloc).1
  refine Aside.moves (.same rfl (fun _ => rfl) rfl rfl (fun _ => rfl) (fun _ => rfl)
    (Nat.le_refl _)) hsound ?_ (.same rfl rfl rfl) (.same rfl)
  have hloads : Loads A s (s.updBuffer tgt.proc b fun buf =>
      { buf with transaction := some t, targetNode := tgt.node }) := by
    refine .updBuffer tgt.proc b (fun _ => rfl) ?_ ?_
    · intro buf kdata huses _ hkdata hlists
      exact .inr ⟨tgt.proc, buf, kdata, huses, hkdata, hlists⟩
    · intro buf n _ _ hn
      exact .inl (hA n hn)
  exact hloads.trans (.same rfl)

/-- **A send is accepted**: record, transaction and completion. -/
theorem acceptSend_moves (hs : Sound s) (env : Env) (p : ProcId) (th : ThreadId)
    (tgt : Target) (tr : TransactionData) (reply oneway : Bool) {b : BufferId} (c : Nat)
    (hblank : s.view.Blank tgt.proc b)
    (hone : tgt.inReplyTo = none → oneway = true → reply = false ∧ tgt.thread = none)
    (hC : A (.complete c)) (hc : c < s.bumpId.bumpId.nextId)
    (hA : ∀ n, tgt.node = some n → A (.aim tgt.proc n)) :
    Moves A s (acceptSend env s.bumpId.bumpId p th tgt tr reply oneway b s.nextId c) := by
  have hbump := (Lull.bumpId hs).trans (Lull.bumpId (Lull.bumpId hs).sound)
  have hlt : s.nextId < s.bumpId.bumpId.nextId :=
    Nat.lt_trans (Nat.lt_succ_self _) (Nat.lt_succ_self _)
  have hloc : s.bumpId.bumpId.queues.loc (.transaction s.nextId) = none := by
    cases hq : s.queues.loc (.transaction s.nextId) with
    | none => exact hq
    | some q => exact absurd (hs.queues.queued_lt s.nextId q hq) (Nat.lt_irrefl _)
  have hnew := newTransaction_moves (A := A) hbump.sound env p th tgt tr reply oneway (b := b)
    (t := s.nextId) hblank hloc hA
  have hqueue := queueTransaction_moves (A := A) (hnew.sound hbump.sound) th tgt oneway
    (t := s.nextId) hlt (fun hreply honeway => by
      obtain ⟨hr, hthread⟩ := hone hreply honeway
      refine ⟨newRecord env s.bumpId.bumpId p th tgt tr reply oneway b, ?_, ?_, hloc⟩
      · exact Function.update_self s.nextId _ _
      · exact ⟨by simp [newRecord, honeway], hthread, by simp [newRecord, honeway]⟩)
  have hsend := hbump.moves.trans (hnew.trans hqueue)
  have hs₁ := hsend.sound hs
  have hs₂ := hs₁.enqueue (q := .thread th) (.complete c) false (by simp) (by simp)
  have hlater : c < ((newTransaction env s.bumpId.bumpId p th tgt tr reply oneway b
      s.nextId).queueTransaction th tgt oneway s.nextId).nextId := by
    rw [queueTransaction_nextId]
    exact hc
  have hcomplete : Moves A _ _ := (Aside.enqueue _ (.thread th) false (by simp)).moves hs₂
    (.same rfl) (.enqueue _ (.thread th) false (by simp))
    (.complete _ (.thread th) c false ⟨hC, hlater⟩)
  have hnote := Lull.note hs₂ (.accept th s.nextId tgt.proc (!reply && !oneway))
  exact hsend.trans (hcomplete.trans (hnote.moves.trans (dropTarget_moves hnote.sound tgt)))

/-- **A send to a receiver that is chosen**: the payload is fetched, translated
and stored, then queued or given back. -/
theorem sendTo_moves (hs : Sound s) (env : Env) {p : ProcId} (hp : p < s.nextId)
    (th : ThreadId) (tgt : Target) (hC : ∀ c, s.nextId ≤ c → A (.complete c))
    (hM : A (.make p)) (hH : ∀ s₁ n, s₁.Knows p n → A (.handle s₁ tgt.proc n))
    (htp : (s.procs tgt.proc).isSome) (tr : TransactionData) (extraSize : Nat) (reply oneway : Bool)
    (hone : tgt.inReplyTo = none → oneway = true → reply = false ∧ tgt.thread = none)
    (hstores : s.StoresWeak → A .weak)
    (hparcel : ∀ c ls, translationOf env s p th tgt tr extraSize oneway = some (c, ls) →
      MeetsWeak c ls (List.range c.count) ∨
        ListsWeak (translateLoop c ls (List.range c.count)).1.kdata tr.dataSize tr.offsetsSize →
      A .weak)
    (haim : ∀ n, tgt.node = some n → A (.aim tgt.proc n)) :
    Moves A s (sendTo env s p th tgt tr extraSize reply oneway) := by
  have hfetch := fetchPayload_lulled hs env tgt.proc tr extraSize oneway
  have hhush := fetchPayload_hushed hs env tgt.proc tr extraSize oneway
  rcases sendTo_ends env s p th tgt tr extraSize reply oneway with ⟨s₁, buf, hf, heq⟩ |
    ⟨s₁, buf, kdata, c, ls, error, s₂, hf, hc, hloop, hstored, heq⟩
  · rw [hf] at hfetch
    have hmoves : Moves A s s₁ := Lull.moves hfetch
    rw [heq]
    exact hmoves.trans (refuseSend_moves (hmoves.sound hs) th tgt buf (hmoves.weak hstores))
  rw [hf] at hfetch hhush
  obtain ⟨hlull, hsizes⟩ := hfetch
  obtain ⟨⟨hs₁, -⟩, load, hneed, hload⟩ := hhush
  have hparcel := hparcel c { drv := s₁, kdata := kdata } (by rw [translationOf, hf, ← hc])
  have hs₀ : Sound ({ drv := s₁, kdata := kdata } : LoopState).drv := hs₁
  have htranslate : Moves A s₁ ls.drv := by
    have hmoves := translateLoop_moves (A := A) (c := c) hs₀ (hc ▸ hM) (hc ▸ hH)
      (hc ▸ Nat.lt_of_lt_of_le hp hlull.aside.nextId)
      (hc ▸ (hlull.aside.procs tgt.proc).trans htp) (List.range c.count)
      fun hweak => hparcel (.inl hweak)
    rwa [hloop] at hmoves
  have hsteps := translateLoop_steps (O := fun _ => True) (c := c) hs₀ (List.range c.count)
  rw [hloop] at hparcel hsteps
  rw [← hc] at hloop
  obtain ⟨⟨hs₂, -⟩, hblank⟩ := translated hs₁ hload
    ((translateLoop_length hf hloop).trans hneed.symm) hloop
  have hstore : Moves A s (ls.drv.updBuffer tgt.proc buf.id fun buf =>
      { buf with kdata := some ls.kdata }) := by
    refine (hlull.moves.trans htranslate).trans (Aside.moves (.updBuffer _ _ _ _) hs₂ ?_
      (.same rfl rfl rfl) (.same rfl))
    refine .updBuffer tgt.proc buf.id (fun _ => rfl) ?_ ?_
    · intro buf' kdata' huses hid hkdata hlists
      obtain ⟨buf₁, huses₁, hsame⟩ := hsteps.kept tgt.proc buf' huses
      obtain ⟨hd, ho⟩ := hsizes buf₁ huses₁ (hsame.id.trans hid)
      cases hkdata
      simp only [← hsame.dataSize, ← hsame.offsetsSize, hd, ho] at hlists
      exact .inl (hparcel (.inr hlists))
    · intro buf' n huses _ hn
      exact .inr ⟨buf', huses, hn⟩
  have hid : s.nextId ≤ s₂.nextId := by
    rw [← hstored]
    exact Nat.le_trans hlull.aside.nextId (ObjectSteps.quiet hs₀ hsteps).shrinks.nextId
  rw [hstored] at hs₂ hblank hstore
  have hbump : Lull s₂ s₂.bumpId.bumpId :=
    (Lull.bumpId hs₂).trans (Lull.bumpId (Lull.bumpId hs₂).sound)
  have hbumped := hstore.trans hbump.moves
  rcases heq with heq | heq | heq
  · rw [heq]
    exact hstore.trans (refuseSend_moves hs₂ th tgt (some buf.id) (hstore.weak hstores))
  · rw [heq]
    exact hbumped.trans
      (refuseSend_moves hbump.sound th tgt (some buf.id) (hbumped.weak hstores))
  · rw [heq]
    exact hstore.trans (acceptSend_moves hs₂ env p th tgt tr reply oneway _ hblank hone
      (hC _ (Nat.le_succ_of_le hid)) (Nat.lt_succ_self _) haim)

/-- Choosing the caller of an answered call touches no object. -/
theorem selectReply_lull (hs : Sound s) (th : ThreadId) :
    (∃ s₁, s.selectReply th = .refused s₁ ∧ Lull s s₁) ∨
      ∃ s₁ tgt t, s.selectReply th = .target s₁ tgt ∧ Lull s s₁ ∧ tgt.node = none ∧
        tgt.inReplyTo = some t ∧ (s.threads th).bind (·.transactionStack) = some t ∧
        ∃ target thread, (s.txns t).bind (·.fromThread) = some target ∧
          s.threads target = some thread ∧ tgt.proc = thread.proc := by
  rcases s.selectReply_ends th with heq |
    ⟨t, s₁, htop, rfl, ⟨heq, -⟩ | ⟨target, thread, hfrom, hthread, -, heq⟩⟩
  · exact .inl ⟨_, heq, Lull.txnError hs th .failedReply⟩
  · have hpop := Lull.setStack hs th ((s.txns t).bind (·.toParent))
    have herror := hpop.trans (Lull.txnError hpop.sound th .deadReply)
    exact .inl ⟨_, heq, herror.trans (Lull.freeTransaction herror.sound t)⟩
  · have hpop := Lull.setStack hs th ((s.txns t).bind (·.toParent))
    have hhome := hpop.aside.home target
    rw [hthread, Option.map_some, eq_comm, Option.map_eq_some_iff] at hhome
    obtain ⟨thread', hthread', hproc⟩ := hhome
    exact .inr ⟨_, _, t, heq, hpop, rfl, rfl, htop, target, thread', hfrom, hthread', hproc.symm⟩

/-- Choosing the owner of a node holds the node. -/
theorem selectCall_shape (hs : Sound s) (p : ProcId) (th : ThreadId) (handle : Nat)
    (oneway : Bool) :
    (∃ s₁, s.selectCall p th handle oneway = .refused s₁ ∧ Lull s s₁) ∨
      ∃ tgt n, s.selectCall p th handle oneway = .target (s.nodeIncTmpref n) tgt ∧
        s.targetNodeOf p handle = .ok n ∧ s.nodeOwner n = some tgt.proc ∧ tgt.node = some n ∧
        (oneway = true → tgt.thread = none) := by
  unfold selectCall
  split
  · exact .inl ⟨_, rfl, Lull.txnError hs th _⟩
  · rename_i n hn
    split
    · exact .inl ⟨_, rfl, Lull.txnError hs th .deadReply⟩
    · rename_i tp hown
      refine .inr ⟨_, n, rfl, hn, hown, rfl, ?_⟩
      rintro rfl
      rfl

/-- The parcel a send hands to the translation loop, if it gets that far. -/
def sentParcel (env : Env) (s : Driver) (p : ProcId) (th : ThreadId) (tr : TransactionData)
    (reply isSg : Bool) : Option (Parcel × LoopState) :=
  let extraSize := if isSg then tr.buffersSize else 0
  let oneway := !reply && isOneWay tr.flags
  match if reply then s.selectReply th else s.selectCall p th tr.handle oneway with
  | .refused _ => none
  | .target s tgt => translationOf env s p th tgt tr extraSize oneway

/-- A parcel with weak objects in it, as sent or as left by the translation. -/
def CarriesWeak (tr : TransactionData) (parcel : Option (Parcel × LoopState)) : Prop :=
  ∃ c ls, parcel = some (c, ls) ∧ (MeetsWeak c ls (List.range c.count) ∨
    ListsWeak (translateLoop c ls (List.range c.count)).1.kdata tr.dataSize tr.offsetsSize)

theorem procs_isSome_of_nodeOwner {n : NodeId} {p : ProcId} (h : s.nodeOwner n = some p) :
    (s.procs p).isSome := by
  unfold nodeOwner at h
  split at h
  · cases h
  · split at h
    · cases h
    · split at h
      · cases h
      · split at h
        · cases h
        · rename_i proc hproc
          split at h
          · cases h
          · cases h
            simp [hproc]

/-- A send by `th` on behalf of `p` goes to process `tp`. -/
inductive SendsTo (s : Driver) (p : ProcId) (th : ThreadId) (handle : Nat) :
    Bool → ProcId → Prop
  | reply (t : TxnId) (target : ThreadId) (thread : Thread)
      (htop : (s.threads th).bind (·.transactionStack) = some t)
      (hfrom : (s.txns t).bind (·.fromThread) = some target)
      (hthread : s.threads target = some thread) : SendsTo s p th handle true thread.proc
  | call (n : NodeId) (tp : ProcId) (htarget : s.targetNodeOf p handle = .ok n)
      (howner : s.nodeOwner n = some tp) : SendsTo s p th handle false tp

/-- **A send**, from the choice of its receiver on. -/
theorem transaction_moves (hs : Sound s) (env : Env) {p : ProcId} (hp : p < s.nextId)
    (hhome : ∀ th thread, s.threads th = some thread → (s.procs thread.proc).isSome)
    (th : ThreadId) (tr : TransactionData) (reply isSg : Bool)
    (hC : ∀ c, s.nextId ≤ c → A (.complete c)) (hM : A (.make p))
    (hH : ∀ s₁ tp n, s.SendsTo p th tr.handle reply tp → s₁.Knows p n → A (.handle s₁ tp n))
    (hstores : s.StoresWeak → A .weak)
    (hparcel : CarriesWeak tr (sentParcel env s p th tr reply isSg) → A .weak)
    (haim : reply = false → ∀ n tp, s.targetNodeOf p tr.handle = .ok n → s.nodeOwner n = some tp →
      A (.aim tp n)) :
    Moves A s (transaction env s p th tr reply isSg) := by
  unfold transaction
  unfold sentParcel at hparcel
  simp only at hparcel ⊢
  cases reply with
  | true =>
      simp only [if_true] at hparcel ⊢
      rcases selectReply_lull hs th with ⟨s₁, hsel, hlull⟩ |
        ⟨s₁, tgt, t, hsel, hlull, hnode, hrep, htop, target, thread, hfrom, hthread, hproc⟩
      · rw [hsel]
        exact hlull.moves
      · rw [hsel] at hparcel ⊢
        simp only at hparcel ⊢
        have hmoves : Moves A s s₁ := hlull.moves
        refine hmoves.trans (sendTo_moves hlull.sound env
          (Nat.lt_of_lt_of_le hp hlull.aside.nextId) th tgt
          (fun c hc => hC c (Nat.le_trans hlull.aside.nextId hc)) hM ?_ ?_ tr _ true _ ?_
          (hmoves.weak hstores) (fun c ls hc hw => hparcel ⟨c, ls, hc, hw⟩) ?_)
        · intro s₁ n hknows
          exact hproc ▸ hH s₁ thread.proc n (.reply t target thread htop hfrom hthread) hknows
        · rw [hlull.aside.procs, hproc]
          exact hhome target thread hthread
        · rw [hrep]
          simp
        · rw [hnode]
          simp
  | false =>
      simp only [Bool.false_eq_true, if_false] at hparcel ⊢
      rcases selectCall_shape hs p th tr.handle (!false && isOneWay tr.flags) with
        ⟨s₁, hsel, hlull⟩ | ⟨tgt, n, hsel, htarget, howner, hnode, hthread⟩
      · rw [hsel]
        exact hlull.moves
      · rw [hsel] at hparcel ⊢
        simp only at hparcel ⊢
        have hhold : Moves A s (s.nodeIncTmpref n) :=
          (Effect.hold n).moves (O := fun _ => True) hs
            (ObjectStep.count n _ ⟨by simp, by simp, by simp, by simp⟩).steps
            (Calm.notices (.updNode s n (fun _ => rfl) fun _ => rfl))
        have htp : (s.procs tgt.proc).isSome := procs_isSome_of_nodeOwner howner
        refine hhold.trans (sendTo_moves (hhold.sound hs) env hp th tgt hC hM
          (fun s₁ m hknows => hH s₁ tgt.proc m (.call n tgt.proc htarget howner) hknows) htp tr _
          false _ (fun _ ho => ⟨rfl, hthread ho⟩) (hhold.weak hstores)
          (fun c ls hc hw => hparcel ⟨c, ls, hc, hw⟩) ?_)
        intro m hm
        rw [hnode] at hm
        cases hm
        exact haim rfl n tgt.proc htarget howner

/-! ## The other commands -/

/-- **A count command**; descriptor zero may make the manager's handle. -/
theorem writeRefCmd_moves (hs : Sound s) (hset : Settled s) (env : Env) {p : ProcId}
    (hH : ∀ n, s.mgrNodeOf p = some n → A (.handle s p n)) (hp : (s.procs p).isSome)
    (th : ThreadId) (strong increment : Bool) (desc : Nat)
    (htake : strong = false → increment = true → ∀ n, s.mgrNodeOf p = some n →
      A (.weakTake s n))
    (hgive : strong = false → increment = false → ∀ r, s.refFindByDesc p desc = some r →
      A (.weakGive s r)) :
    Moves A s (s.writeRefCmd env p th strong increment desc).1 := by
  unfold writeRefCmd
  split
  · rename_i r hfind
    cases increment with
    | true => exact holdRef_moves hs r strong (some th)
    | false => exact giveRef_moves hs r strong (some th) fun hweak => .inr (hgive hweak rfl r hfind)
  · split
    · exact .refl s
    · rename_i hinc
      have hinc : increment = true := by simpa using (not_or.mp hinc).1
      subst hinc
      split
      · exact .refl s
      · rename_i n hfound
        -- the manager is a node that exists
        have hn : (s.nodes n).isSome := by
          obtain ⟨proc, -, hmgr⟩ := Option.bind_eq_some_iff.mp hfound
          obtain ⟨nd, -, -, hn, -⟩ := hset.managed _ n hmgr
          simp [hn]
        cases hget : s.refGetForNode env p n with
        | mk r s₁ =>
            cases r with
            | none =>
                rw [refGetForNode_none hget]
                exact (Lull.bumpId hs).moves
            | some r =>
                exact takeRef_moves hs (hH n hfound) hn hp hget strong (some th) fun hweak =>
                  .inr (htake hweak rfl n hfound)

theorem writeDone_moves (hs : Sound s) (p : ProcId) (strong : Bool) (ptr : Nat)
    (hA : ∀ n, s.nodeFind p ptr = some n → A (.done n strong)) :
    Moves A s (s.writeDone p strong ptr).1 := by
  have hsteps := writeDone_steps (O := fun _ => True) (s := s) p strong ptr
  unfold writeDone at hsteps ⊢
  split
  · exact .refl s
  · rename_i n hfind
    rw [hfind] at hsteps
    refine (Effect.done n strong (hA n hfind)).moves hs hsteps (Calm.notices ?_)
    refine .updNode s n ?_ ?_ <;> intro nd <;> split <;> rfl

/-- The next oneway call of a node is let through, or the node is idle. -/
theorem nextAsync_moves (hs : Sound s) (p : ProcId) (n : NodeId) :
    Moves A s (s.nextAsync p n) := by
  unfold nextAsync
  split
  · exact .refl s
  · split
    · split
      · rename_i w rest hitems
        have hloc : s.queues.loc w = some (.node n) :=
          (hs.queues.consistent.mem_iff w _).mp (by
            change w ∈ s.items (.node n)
            simp [hitems])
        obtain ⟨t, -, rfl, -, -⟩ := hs.queues.behindNode w n hloc
        have hout : Lull s (s.dequeueWork (.transaction t)) := Lull.dequeue hs (by simp) (by simp)
        have hin := hout.trans (Lull.enqueue (q := .proc p) (w := .transaction t) hout.sound false
          (by simp) (by simp) (by simp) (by rintro _ ⟨⟩; exact hs.queues.queued_lt t _ hloc)
          (by simp))
        exact (hin.trans (Lull.wakeupProc hin.sound p)).moves
      · exact (Effect.async n false).moves (O := fun _ => True) hs
          (ObjectStep.count n _ ⟨by simp, by simp, by simp, by simp⟩).steps
          (Calm.notices (.updNode s n (fun _ => rfl) fun _ => rfl))
    · exact .refl s

/-- A client that frees a buffer gives back what the payload holds. -/
theorem writeFreeBuffer_moves (hs : Sound s) (p : ProcId) (ptr : Nat)
    (hA : s.StoresWeak → A .weak) : Moves A s (s.writeFreeBuffer p ptr).1 := by
  unfold writeFreeBuffer
  split
  · exact .refl s
  · rename_i buf _
    split
    · exact .refl s
    · have hrelease := bufferRelease_moves hs p buf.id hA
      have hs₁ := hrelease.sound hs
      simp only
      -- the record loses its buffer and the buffer its record, if there is one
      cases buf.transaction with
      | none =>
          have hfree := hrelease.trans (Lull.bufferFree hs₁ p buf.id).moves
          split
          · exact hfree.trans (nextAsync_moves (hfree.sound hs) p _)
          · exact hfree
      | some t =>
          have htxn : Lull (s.bufferRelease p buf.id)
              ((s.bufferRelease p buf.id).updTxn t fun x => { x with buffer := none }) :=
            Lull.updTxn hs₁ t fun _ ho => ⟨ho.fromThread, ho.toThread, ho.needReply⟩
          have hdetach := htxn.trans (Lull.detachBuffer htxn.sound p (some buf.id))
          have hfree := hrelease.trans
            (hdetach.trans (Lull.bufferFree hdetach.sound p buf.id)).moves
          split
          · exact hfree.trans (nextAsync_moves (hfree.sound hs) p _)
          · exact hfree

/-- **A death request.** -/
theorem deathRequest_moves (hs : Sound s) (env : Env) {p : ProcId} {th : ThreadId}
    (hth : (s.threads th).map (·.proc) = some p) (hp : p < s.nextId) (handle cookie : Nat)
    (hA : A (.notice .asked)) : Moves A s (s.deathRequest env p th handle cookie).1 := by
  have hsteps := deathRequest_steps (O := fun _ => True) (s := s) env p th handle cookie
  have hnotices : Notices (fun k => A (.notice k)) s (s.deathRequest env p th handle cookie).1 :=
    (NoticeStep.request env p th handle cookie hA hth hp (hs.heldBy p handle)).notices
  rcases deathRequest_cases s env p th handle cookie with
    ⟨heq, -⟩ | ⟨heq, -⟩ | ⟨r, ref, -, -, -, -, heq⟩
  · rw [heq]
    exact .refl s
  · rw [heq]
    exact (Lull.bumpId hs).moves
  · refine (Effect.markRef r (some s.nextId) ?_).moves hs hsteps hnotices
    rw [heq]
    split
    · refine .same rfl (fun n => ?_) rfl rfl (fun _ => rfl) (fun _ => rfl) (Nat.le_succ _)
      exact Queues.insert_loc_of_ne _ _ _ (by simp)
    · exact .same rfl (fun _ => rfl) rfl rfl (fun _ => rfl) (fun _ => rfl) (Nat.le_succ _)

/-- **A death request is taken back.** -/
theorem deathClear_moves (hs : Sound s) {p : ProcId} {th : ThreadId}
    (hth : (s.threads th).map (·.proc) = some p) (handle cookie : Nat)
    (hA : A (.notice .cleared)) : Moves A s (s.deathClear p th handle cookie).1 := by
  have hsteps := deathClear_steps (O := fun _ => True) (s := s) p th handle cookie
  have hnotices : Notices (fun k => A (.notice k)) s (s.deathClear p th handle cookie).1 :=
    (NoticeStep.clear p th handle cookie hA hth (hs.heldBy p handle)).notices
  rcases deathClear_cases s p th handle cookie with
    ⟨heq, -⟩ | ⟨r, ref, d, death, -, -, -, -, -, -, ⟨-, heq⟩ | ⟨-, heq⟩⟩
  · rw [heq]
    exact .refl s
  · refine (Effect.markRef r none ?_).moves hs hsteps hnotices
    rw [heq]
    exact .same rfl (fun _ => rfl) rfl rfl (fun _ => rfl) (fun _ => rfl) (Nat.le_refl _)
  · refine (Effect.markRef r none ?_).moves hs hsteps hnotices
    rw [heq]
    refine .same rfl (fun n => ?_) rfl rfl (fun _ => rfl) (fun _ => rfl) (Nat.le_refl _)
    exact Queues.insert_loc_of_ne _ _ _ (by simp)

end Driver

end Binder
