import DevfsBinder.CallTargets

/-!
# Which calls belong together

Suppose every process, and every thread with its process, carries a tag.  If a
call only ever goes to a process with the tag of its sender, then everything that
hangs together does so within one tag: the sender and the receiver of a
transaction, the calls on a thread's stack and their parents (`Kin`).  A reply
needs no premise, for it goes to the sender of a call on the stack of the thread
that answers.

Most steps of the call machine only take such links away (`Fewer`); an
acceptance and the delivery of a call add some, and are looked at one by one.
-/

namespace Binder

/-- Tags for processes, threads and nodes, as far as they have been given. -/
structure Tags where
  proc : ProcId → Option Nat := fun _ => none
  thread : ThreadId → Option Nat := fun _ => none
  node : NodeId → Option Nat := fun _ => none

/-- Tags are only added. -/
structure Tags.Le (g g' : Tags) : Prop where
  proc : ∀ p c, g.proc p = some c → g'.proc p = some c
  thread : ∀ th c, g.thread th = some c → g'.thread th = some c
  node : ∀ n c, g.node n = some c → g'.node n = some c

/-- A transaction that lost links. -/
structure Txn.Thins (x y : Txn) : Prop where
  toProc : y.toProc = x.toProc
  fromThread : ∀ th, y.fromThread = some th → x.fromThread = some th
  fromParent : ∀ u, y.fromParent = some u → x.fromParent = some u
  toParent : ∀ u, y.toParent = some u → x.toParent = some u

theorem Txn.Thins.refl (x : Txn) : x.Thins x := ⟨rfl, fun _ h => h, fun _ h => h, fun _ h => h⟩

theorem Txn.Thins.trans {x y z : Txn} (h : x.Thins y) (h' : y.Thins z) : x.Thins z :=
  ⟨h'.toProc.trans h.toProc, fun th ht => h.fromThread th (h'.fromThread th ht),
    fun u hu => h.fromParent u (h'.fromParent u hu), fun u hu => h.toParent u (h'.toParent u hu)⟩

namespace Calls

variable {v v' v'' : Calls} {g g' : Tags}

/-- Call `t` is on the stack of `th`, or reached from there by parent links. -/
inductive Above (v : Calls) (th : ThreadId) : TxnId → Prop
  | top {t : TxnId} (h : v.stackOf th = some t) : Above v th t
  | fromParent {t u : TxnId} {x : Txn} (h : Above v th t) (hx : v.txns t = some x)
      (hu : x.fromParent = some u) : Above v th u
  | toParent {t u : TxnId} {x : Txn} (h : Above v th t) (hx : v.txns t = some x)
      (hu : x.toParent = some u) : Above v th u

/-! ## Links that go -/

/-- Nothing is linked that was not. -/
structure Fewer (v v' : Calls) : Prop where
  procOf : ∀ th p, v'.procOf th = some p → v.procOf th = some p
  stack : ∀ th t, v'.stackOf th = some t → v.Above th t
  txns : ∀ t y, v'.txns t = some y → ∃ x, v.txns t = some x ∧ x.Thins y
  accepts : ∀ th t p call, .accept th t p call ∈ v'.trace ↔ .accept th t p call ∈ v.trace

theorem Above.back {th : ThreadId} {t : TxnId} (hf : Fewer v v') (h : v'.Above th t) :
    v.Above th t := by
  induction h with
  | top h => exact hf.stack th _ h
  | fromParent _ hx hu ih =>
      obtain ⟨x, hx₀, hthins⟩ := hf.txns _ _ hx
      exact ih.fromParent hx₀ (hthins.fromParent _ hu)
  | toParent _ hx hu ih =>
      obtain ⟨x, hx₀, hthins⟩ := hf.txns _ _ hx
      exact ih.toParent hx₀ (hthins.toParent _ hu)

namespace Fewer

theorem trans (h : Fewer v v') (h' : Fewer v' v'') : Fewer v v'' where
  procOf th p hp := h.procOf th p (h'.procOf th p hp)
  stack th t ht := (h'.stack th t ht).back h
  txns t z hz := by
    obtain ⟨y, hy, hthins'⟩ := h'.txns t z hz
    obtain ⟨x, hx, hthins⟩ := h.txns t y hy
    exact ⟨x, hx, hthins.trans hthins'⟩
  accepts th t p call := (h'.accepts th t p call).trans (h.accepts th t p call)

/-- Processes of threads, stacks, records and acceptances are left alone. -/
theorem same (hprocOf : v'.procOf = v.procOf) (hstack : v'.stackOf = v.stackOf)
    (htxns : v'.txns = v.txns) (htrace : v'.trace = v.trace) : Fewer v v' where
  procOf th p hp := hprocOf ▸ hp
  stack th t ht := .top (hstack ▸ ht)
  txns t y hy := ⟨y, htxns ▸ hy, .refl y⟩
  accepts th t p call := by rw [htrace]

theorem refl (v : Calls) : Fewer v v := same rfl rfl rfl rfl

theorem note (v : Calls) {e : Event} (he : ∀ th t p call, e ≠ .accept th t p call) :
    Fewer v (v.note e) :=
  { refl v with
    accepts := fun th t p call => by
      refine ⟨fun h => ?_, List.mem_cons_of_mem _⟩
      rcases List.mem_cons.mp h with h | h
      · exact absurd h.symm (he th t p call)
      · exact h }

theorem enqueue (v : Calls) (w : Work) (q : Queue) : Fewer v (v.enqueue w q) := by
  rw [enqueue_eq]
  exact same rfl rfl rfl rfl

theorem queueError (v : Calls) (th : ThreadId) (br : BR) : Fewer v (v.queueError th br) := by
  have herror : Fewer v (v.setError th br) :=
    same (procOf_setError v th br) (stackOf_setError v th br) rfl rfl
  exact herror.trans (enqueue _ _ _)

theorem refuse (v : Calls) (th : ThreadId) (br : BR) : Fewer v (v.refuse th br) :=
  (queueError v th br).trans (note _ (by simp))

theorem answer (v : Calls) (sender : Option ThreadId) (t : TxnId) (br : BR) :
    Fewer v (v.answer sender t br) := by
  unfold Calls.answer
  split
  · split
    · exact (queueError v _ br).trans (note _ (by simp))
    · exact refl v
  · exact refl v

theorem failUndelivered (v : Calls) (t : TxnId) (br : BR) : Fewer v (v.failUndelivered t br) := by
  unfold Calls.failUndelivered
  split
  · split
    · exact answer v _ t br
    · exact note v (by simp)
  · exact note v (by simp)

/-- A thread drops its stack, or goes back to a parent of the call on top. -/
theorem setStack (v : Calls) (th : ThreadId) {top : Option TxnId}
    (htop : ∀ t, top = some t → v.Above th t) : Fewer v (v.setStack th top) where
  procOf _ _ hp := by rwa [procOf_setStack] at hp
  stack th' t ht := by
    rcases stackOf_setStack_le v th th' top t ht with hold | ⟨rfl, hnew⟩
    · exact .top hold
    · exact htop t hnew
  txns t y hy := ⟨y, hy, .refl y⟩
  accepts _ _ _ _ := Iff.rfl

/-- The thread that answers a call pops it. -/
theorem pop {th : ThreadId} {t : TxnId} (ht : v.stackOf th = some t) :
    Fewer v (v.setStack th ((v.txns t).bind (·.toParent))) := by
  refine setStack v th fun u hu => ?_
  obtain ⟨x, hx, hxu⟩ := Option.bind_eq_some_iff.mp hu
  exact (Above.top ht).toParent hx hxu

/-- A stack that is popped goes on to a parent. -/
theorem popFrom {t : TxnId} {x : Txn} (hx : v.txns t = some x) (th : Option ThreadId)
    {parent : Option TxnId} (hparent : parent = x.fromParent ∨ parent = x.toParent) :
    Fewer v (v.popFrom th t parent) := by
  cases th with
  | none => exact refl v
  | some th =>
      unfold Calls.popFrom
      simp only
      split
      · rename_i htop
        refine setStack v th fun u hu => ?_
        rcases hparent with rfl | rfl
        · exact (Above.top htop).fromParent hx hu
        · exact (Above.top htop).toParent hx hu
      · exact refl v

theorem updTxn (v : Calls) (t : TxnId) {f : Txn → Txn} (hf : ∀ x : Txn, x.Thins (f x)) :
    Fewer v (v.updTxn t f) :=
  { refl v with
    txns := fun u y hy => by
      rw [Calls.updTxn, txns_setTxn] at hy
      split at hy
      · rename_i he
        subst he
        obtain ⟨x, hx, rfl⟩ := Option.map_eq_some_iff.mp hy
        exact ⟨x, hx, hf x⟩
      · exact ⟨y, hy, .refl y⟩ }

theorem forgetTxn (v : Calls) (t : TxnId) : Fewer v (v.setTxn t none) :=
  { refl v with
    txns := fun u y hy => by
      rw [txns_setTxn] at hy
      split at hy
      · cases hy
      · exact ⟨y, hy, .refl y⟩ }

theorem detachBuffer (v : Calls) (p : ProcId) (b : Option BufferId) :
    Fewer v (v.detachBuffer p b) := by
  cases b <;> exact same rfl rfl rfl rfl

theorem freeTransaction (v : Calls) (t : TxnId) : Fewer v (v.freeTransaction t) := by
  cases hx : v.txns t with
  | none =>
      rw [show v.freeTransaction t = v by simp [Calls.freeTransaction, hx]]
      exact refl v
  | some x =>
      rw [freeTransaction_of_some hx]
      have hout : Fewer v (v.dequeue (.transaction t)) := same rfl rfl rfl rfl
      have hfrom := popFrom (v := v.dequeue (.transaction t)) hx x.fromThread (.inl rfl)
      have hto := popFrom (v := (v.dequeue (.transaction t)).popFrom x.fromThread t x.fromParent)
        (by rw [popFrom_txns]; exact hx) x.toThread (.inr rfl)
      exact (((hout.trans hfrom).trans hto).trans (detachBuffer _ _ _)).trans (forgetTxn _ t)

theorem freePayload (v : Calls) (p : ProcId) (b : Option BufferId) :
    Fewer v (v.freePayload p b) := by
  cases b <;> exact same rfl rfl rfl rfl

theorem dropTransaction (v : Calls) (p : ProcId) (t : TxnId) : Fewer v (v.dropTransaction p t) :=
  (freePayload v p _).trans (freeTransaction _ t)

end Fewer

theorem QuietMove.fewer (h : QuietMove v v') : Fewer v v' := by
  cases h with
  | complete th cmd c => exact .note v (by simp)
  | drop n t x hx ho hloc => exact (Fewer.freeTransaction v t).trans (.note _ (by simp))
  | _ => exact .same rfl rfl rfl rfl

theorem Quiet.fewer (h : Quiet v v') : Fewer v v' :=
  h.invariant (P := Fewer v) (fun _ _ hv hmove => hv.trans hmove.fewer) (.refl v)

/-- The walk of a stack links nothing. -/
theorem Walk.fewer {p : ProcId} {th : ThreadId} {top : Option TxnId} (h : Walk p th v top v') :
    Fewer v v' := by
  induction h with
  | done v => exact .refl v
  | stale hx => exact .refl _
  | foreign hx hfrom hto => exact .refl _
  | @sent v v' t x hx hfrom _ ih =>
      have hclear : Fewer v (v.updTxn t fun x => { x with fromThread := none }) :=
        .updTxn v t fun x => ⟨rfl, by simp, fun _ h => h, fun _ h => h⟩
      exact hclear.trans ih
  | @received v v₁ v' t x hx hfrom hto h₁ _ ih =>
      have hclear : Fewer v (v.updTxn t fun x => { x with toThread := none }) :=
        .updTxn v t fun x => ⟨rfl, fun _ h => h, fun _ h => h, fun _ h => h⟩
      have hempty : ∀ v : Calls, Fewer v (v.updTxn t fun x => { x with buffer := none }) :=
        fun v => .updTxn v t fun x => ⟨rfl, fun _ h => h, fun _ h => h, fun _ h => h⟩
      exact ((((hclear.trans h₁.fewer).trans (.freePayload _ p x.buffer)).trans (hempty _)).trans
        (.answer _ x.fromThread t .deadReply)).trans ih

theorem HandBack.fewer {p : ProcId} {w : Work} (h : HandBack p v w v') : Fewer v v' := by
  have hout : ∀ w, Fewer v (v.dequeue w) := fun _ => .same rfl rfl rfl rfl
  cases h with
  | back t hp => exact (hout _).trans (.enqueue _ _ _)
  | drop t hp hquiet =>
      exact ((hout _).trans hquiet.fewer).trans
        ((Fewer.dropTransaction _ p t).trans (.note _ (by simp)))
  | error th => exact hout _

/-- One step after the other. -/
theorem Each.fewer {α : Type} {R : Calls → α → Calls → Prop} {as : List α}
    (hstep : ∀ v a v', R v a v' → Fewer v v') (h : Each R v as v') : Fewer v v' :=
  h.invariant (I := fun _ u => Fewer v u) (fun a _ u u' hu hR => hu.trans (hstep u a u' hR))
    (.refl v)

theorem setThread_none_fewer (v : Calls) (th : ThreadId) : Fewer v (v.setThread th none) where
  procOf th' p hp := by
    by_cases he : th' = th
    · simp [procOf, setThread, he] at hp
    · simpa [procOf, setThread, he] using hp
  stack th' t ht := by
    by_cases he : th' = th
    · simp [stackOf, setThread, he] at ht
    · exact .top (by simpa [stackOf, setThread, he] using ht)
  txns t y hy := ⟨y, hy, .refl y⟩
  accepts _ _ _ _ := Iff.rfl

theorem Depart.fewer {p : ProcId} {th : ThreadId} (h : Depart p th v v') : Fewer v v' := by
  cases h with
  | @mk v₁ v₂ ws hwalk hnodup hws hback =>
      have hdead : Fewer v (v.setDead th) :=
        .same (procOf_setDead v th) (stackOf_setDead v th) rfl rfl
      have hempty : Fewer v₁ (v₁.setStack th none) := .setStack v₁ th (by simp)
      have hgone := setThread_none_fewer v₂ th
      exact (((hdead.trans hwalk.fewer).trans hempty).trans
        (Each.fewer (fun _ _ _ h => h.fewer) hback)).trans hgone

theorem Undeliver.fewer {p : ProcId} {w : Work} (h : Undeliver p v w v') : Fewer v v' := by
  have hout : ∀ w, Fewer v (v.dequeue w) := fun _ => .same rfl rfl rfl rfl
  cases h with
  | txn t hquiet =>
      exact (((hout _).trans (.failUndelivered _ t .deadReply)).trans hquiet.fewer).trans
        (.dropTransaction _ p t)
  | error th => exact hout _

theorem Close.fewer {p : ProcId} (h : Close p v v') : Fewer v v' := by
  cases h with
  | @mk v₁ v₂ v₃ ws ths hquiet hnodup hws hundeliver hths hdistinct hdeparts =>
      have hmarked : Fewer v (v.setProc p (some true)) := .same rfl rfl rfl rfl
      have hgone : Fewer v₃ (v₃.tearDown p) := .same rfl rfl rfl rfl
      exact (((hmarked.trans hquiet.fewer).trans
        (Each.fewer (fun _ _ _ h => h.fewer) hundeliver)).trans
          (Each.fewer (fun _ _ _ h => h.fewer) hdeparts)).trans hgone

/-- Freeing a buffer links nothing. -/
theorem FreeBuffer.fewer {p : ProcId} {ptr : Nat} (h : FreeBuffer p ptr v v') : Fewer v v' := by
  cases h with
  | quiet h => exact h.fewer
  | @free v₁ v₂ _ b buf h₁ hbuf huser haddr h₂ h₃ =>
      have hfree : Fewer v₁ v₂ := by
        subst h₂
        split
        · rename_i t _
          have hempty : Fewer v₁ (v₁.updTxn t fun x => { x with buffer := none }) :=
            .updTxn v₁ t fun x => ⟨rfl, fun _ h => h, fun _ h => h, fun _ h => h⟩
          exact hempty.trans (.same rfl rfl rfl rfl)
        · exact .same rfl rfl rfl rfl
      have hall := h₁.fewer.trans hfree
      rcases h₃ with rfl | ⟨n, t, -, -, rfl⟩
      · exact hall
      · have hout : Fewer v₂ (v₂.dequeue (.transaction t)) := .same rfl rfl rfl rfl
        exact (hall.trans hout).trans (.enqueue _ _ _)

theorem emitTxn_fewer (v : Calls) (th : ThreadId) (t : TxnId) (x : Txn) (b : BufferId) (cmd : BR) :
    Fewer v (v.emitTxn th t x b cmd) := by
  have hout : Fewer v (v.dequeue (.transaction t)) := .same rfl rfl rfl rfl
  have hgive : ∀ v : Calls, Fewer v (v.updBuffer x.toProc b fun buf =>
      { buf with allowUserFree := true }) := fun _ => .same rfl rfl rfl rfl
  exact (hout.trans (.note _ (by simp))).trans (hgive _)

/-! ## One tag -/

/-- Everything that is linked carries one tag. -/
structure Kin (g : Tags) (v : Calls) : Prop where
  home : ∀ th p, v.procOf th = some p → ∃ c, g.thread th = some c ∧ g.proc p = some c
  sender : ∀ t x, v.txns t = some x → ∃ c, g.proc x.toProc = some c ∧
    ∀ th, x.fromThread = some th → g.thread th = some c
  stack : ∀ th t x, v.stackOf th = some t → v.txns t = some x →
    ∃ c, g.thread th = some c ∧ g.proc x.toProc = some c
  fromParent : ∀ t x u y, v.txns t = some x → x.fromParent = some u → v.txns u = some y →
    ∃ c, g.proc x.toProc = some c ∧ g.proc y.toProc = some c
  toParent : ∀ t x u y, v.txns t = some x → x.toParent = some u → v.txns u = some y →
    ∃ c, g.proc x.toProc = some c ∧ g.proc y.toProc = some c
  accepts : ∀ th t p call, .accept th t p call ∈ v.trace →
    ∃ c, g.thread th = some c ∧ g.proc p = some c
  accepted : ∀ t x, v.txns t = some x → ∃ th call, .accept th t x.toProc call ∈ v.trace

namespace Kin

/-- More tags leave the calls akin. -/
theorem mono (h : Kin g v) (hle : g.Le g') : Kin g' v where
  home th p hp := by
    obtain ⟨c, hth, hc⟩ := h.home th p hp
    exact ⟨c, hle.thread th c hth, hle.proc p c hc⟩
  sender t x hx := by
    obtain ⟨c, hc, hfrom⟩ := h.sender t x hx
    exact ⟨c, hle.proc _ c hc, fun th hth => hle.thread th c (hfrom th hth)⟩
  stack th t x ht hx := by
    obtain ⟨c, hth, hc⟩ := h.stack th t x ht hx
    exact ⟨c, hle.thread th c hth, hle.proc _ c hc⟩
  fromParent t x u y hx hu hy := by
    obtain ⟨c, hcx, hcy⟩ := h.fromParent t x u y hx hu hy
    exact ⟨c, hle.proc _ c hcx, hle.proc _ c hcy⟩
  toParent t x u y hx hu hy := by
    obtain ⟨c, hcx, hcy⟩ := h.toParent t x u y hx hu hy
    exact ⟨c, hle.proc _ c hcx, hle.proc _ c hcy⟩
  accepts th t p call he := by
    obtain ⟨c, hth, hc⟩ := h.accepts th t p call he
    exact ⟨c, hle.thread th c hth, hle.proc p c hc⟩
  accepted := h.accepted

/-- Whatever is reached from a thread's stack carries the tag of the thread, if
it still exists. -/
theorem above (h : Kin g v) {th : ThreadId} {t : TxnId} {x : Txn} (ha : v.Above th t)
    (hx : v.txns t = some x) : ∃ c, g.thread th = some c ∧ g.proc x.toProc = some c := by
  induction ha generalizing x with
  | top ht => exact h.stack th _ x ht hx
  | fromParent _ hy hu ih =>
      obtain ⟨c, hth, hc⟩ := ih hy
      obtain ⟨d, hd, hdx⟩ := h.fromParent _ _ _ x hy hu hx
      cases hc.symm.trans hd
      exact ⟨c, hth, hdx⟩
  | toParent _ hy hu ih =>
      obtain ⟨c, hth, hc⟩ := ih hy
      obtain ⟨d, hd, hdx⟩ := h.toParent _ _ _ x hy hu hx
      cases hc.symm.trans hd
      exact ⟨c, hth, hdx⟩

/-- Lost links leave the calls akin. -/
theorem fewer (h : Kin g v) (hf : Fewer v v') : Kin g v' where
  home th p hp := h.home th p (hf.procOf th p hp)
  sender t y hy := by
    obtain ⟨x, hx, hthins⟩ := hf.txns t y hy
    obtain ⟨c, hc, hfrom⟩ := h.sender t x hx
    rw [hthins.toProc]
    exact ⟨c, hc, fun th hth => hfrom th (hthins.fromThread th hth)⟩
  stack th t y ht hy := by
    obtain ⟨x, hx, hthins⟩ := hf.txns t y hy
    rw [hthins.toProc]
    exact h.above (hf.stack th t ht) hx
  fromParent t y u z hy hu hz := by
    obtain ⟨x, hx, hthins⟩ := hf.txns t y hy
    obtain ⟨w, hw, hthins'⟩ := hf.txns u z hz
    rw [hthins.toProc, hthins'.toProc]
    exact h.fromParent t x u w hx (hthins.fromParent u hu) hw
  toParent t y u z hy hu hz := by
    obtain ⟨x, hx, hthins⟩ := hf.txns t y hy
    obtain ⟨w, hw, hthins'⟩ := hf.txns u z hz
    rw [hthins.toProc, hthins'.toProc]
    exact h.toParent t x u w hx (hthins.toParent u hu) hw
  accepts th t p call he := h.accepts th t p call ((hf.accepts th t p call).mp he)
  accepted t y hy := by
    obtain ⟨x, hx, hthins⟩ := hf.txns t y hy
    obtain ⟨th, call, he⟩ := h.accepted t x hx
    rw [hthins.toProc]
    exact ⟨th, call, (hf.accepts _ _ _ _).mpr he⟩

end Kin

/-! ## Links that are added -/

theorem Above.lt (hb : Base v) {th : ThreadId} {t : TxnId} (h : v.Above th t) :
    t < v.nextId := by
  cases h with
  | top h => exact (hb.stack th t h).1
  | fromParent _ hx hu => exact (hb.fromParent _ _ _ hx hu).1
  | toParent _ hx hu => exact (hb.toParent _ _ _ hx hu).1

/-- What a record needs that thread `sender` may add it. -/
structure Sends (v : Calls) (sender : ThreadId) (x : Txn) : Prop where
  fromThread : ∀ th, x.fromThread = some th → th = sender
  fromParent : ∀ u, x.fromParent = some u → v.stackOf sender = some u
  toParent : x.toParent = none

/-- One record is added under the next identifier, perhaps on the stack of its
sender; of the rest, nothing is linked that was not. -/
structure Adds (v v' : Calls) (sender : ThreadId) (x : Txn) : Prop where
  procOf : ∀ th p, v'.procOf th = some p → v.procOf th = some p
  above : ∀ th u, v'.Above th u → th = sender ∧ u = v.nextId ∨ v.Above th u
  txns : ∀ u y, v'.txns u = some y →
    u = v.nextId ∧ x.Thins y ∨ ∃ z, v.txns u = some z ∧ z.Thins y
  accepts : ∀ th t p call, .accept th t p call ∈ v'.trace ↔ .accept th t p call ∈ v.trace

/-- The new record, and nothing else, as a send puts it in place. -/
theorem Adds.placed {sender : ThreadId} {x : Txn} (hb : Base v) (hx : v.Sends sender x)
    (hprocOf : v'.procOf = v.procOf)
    (hstack : ∀ th u, v'.stackOf th = some u →
      v.stackOf th = some u ∨ th = sender ∧ some v.nextId = some u)
    (htxns : v'.txns = (v.setTxn v.nextId (some x)).txns) (htrace : v'.trace = v.trace) :
    Adds v v' sender x where
  procOf th p hp := hprocOf ▸ hp
  above th u hu := by
    have hcases : ∀ t y, v'.txns t = some y →
        (t = v.nextId ∧ y = x) ∨ t ≠ v.nextId ∧ v.txns t = some y := by
      intro t y hy
      rw [htxns, txns_setTxn] at hy
      split at hy
      · rename_i he
        exact .inl ⟨he, (Option.some.inj hy).symm⟩
      · rename_i hne
        exact .inr ⟨hne, hy⟩
    induction hu with
    | top ht =>
        rcases hstack th _ ht with hold | ⟨he, hnew⟩
        · exact .inr (.top hold)
        · exact .inl ⟨he, (Option.some.inj hnew).symm⟩
    | fromParent _ hy hu ih =>
        rcases hcases _ _ hy with ⟨rfl, rfl⟩ | ⟨hne, hy⟩
        · rcases ih with ⟨rfl, -⟩ | ha
          · exact .inr (.top (hx.fromParent _ hu))
          · exact absurd (ha.lt hb) (Nat.lt_irrefl _)
        · rcases ih with ⟨-, he⟩ | ha
          · exact absurd he hne
          · exact .inr (ha.fromParent hy hu)
    | toParent _ hy hu ih =>
        rcases hcases _ _ hy with ⟨rfl, rfl⟩ | ⟨hne, hy⟩
        · rw [hx.toParent] at hu
          cases hu
        · rcases ih with ⟨-, he⟩ | ha
          · exact absurd he hne
          · exact .inr (ha.toParent hy hu)
  txns u y hy := by
    rw [htxns, txns_setTxn] at hy
    split at hy
    · rename_i he
      cases hy
      exact .inl ⟨he, .refl x⟩
    · exact .inr ⟨y, hy, .refl y⟩
  accepts th t p call := by rw [htrace]

theorem Adds.fewer {sender : ThreadId} {x : Txn} (h : Adds v v' sender x) (hf : Fewer v' v'') :
    Adds v v'' sender x where
  procOf th p hp := h.procOf th p (hf.procOf th p hp)
  above th u hu := h.above th u (hu.back hf)
  txns u z hz := by
    obtain ⟨y, hy, hthins⟩ := hf.txns u z hz
    rcases h.txns u y hy with ⟨he, hthins'⟩ | ⟨x₀, hx₀, hthins'⟩
    · exact .inl ⟨he, hthins'.trans hthins⟩
    · exact .inr ⟨x₀, hx₀, hthins'.trans hthins⟩
  accepts th t p call := (hf.accepts th t p call).trans (h.accepts th t p call)

/-- **An accepted transaction keeps to its tag**, if its receiver has the tag of
its sender. -/
theorem Kin.accept {sender : ThreadId} {x : Txn} {call : Bool} (h : Kin g v) (hb : Base v)
    (hx : v.Sends sender x) (ha : Adds v v' sender x)
    (htag : ∃ c, g.thread sender = some c ∧ g.proc x.toProc = some c) :
    Kin g (v'.note (.accept sender v.nextId x.toProc call)) := by
  obtain ⟨c, hsender, hto⟩ := htag
  have hparent : ∀ u y, x.fromParent = some u → v.txns u = some y → g.proc y.toProc = some c := by
    intro u y hu hy
    obtain ⟨d, hd, hdy⟩ := h.stack sender u y (hx.fromParent u hu) hy
    cases hsender.symm.trans hd
    exact hdy
  -- an old parent link does not lead to the new record
  have hold : ∀ u y, v'.txns u = some y → u < v.nextId → ∃ z, v.txns u = some z ∧ z.Thins y := by
    intro u y hy hlt
    rcases ha.txns u y hy with ⟨rfl, -⟩ | hz
    · exact absurd hlt (Nat.lt_irrefl _)
    · exact hz
  refine ⟨fun th p hp => h.home th p (ha.procOf th p hp), ?_, ?_, ?_, ?_, ?_, ?_⟩
  · intro t y hy
    rcases ha.txns t y hy with ⟨rfl, hthins⟩ | ⟨z, hz, hthins⟩
    · rw [hthins.toProc]
      refine ⟨c, hto, fun th hth => ?_⟩
      rw [hx.fromThread th (hthins.fromThread th hth)]
      exact hsender
    · obtain ⟨d, hd, hfrom⟩ := h.sender t z hz
      rw [hthins.toProc]
      exact ⟨d, hd, fun th hth => hfrom th (hthins.fromThread th hth)⟩
  · intro th t y ht hy
    rcases ha.txns t y hy with ⟨rfl, hthins⟩ | ⟨z, hz, hthins⟩
    · rcases ha.above th _ (.top ht) with ⟨rfl, -⟩ | habove
      · rw [hthins.toProc]
        exact ⟨c, hsender, hto⟩
      · exact absurd (habove.lt hb) (Nat.lt_irrefl _)
    · rw [hthins.toProc]
      rcases ha.above th t (.top ht) with ⟨-, rfl⟩ | habove
      · exact absurd (hb.txns_lt _ z hz) (Nat.lt_irrefl _)
      · exact h.above habove hz
  · intro t y u w hy hu hw
    rcases ha.txns t y hy with ⟨rfl, hthins⟩ | ⟨z, hz, hthins⟩
    · have hxu := hthins.fromParent u hu
      obtain ⟨w₀, hw₀, hthins'⟩ := hold u w hw (hb.stack sender u (hx.fromParent u hxu)).1
      rw [hthins.toProc, hthins'.toProc]
      exact ⟨c, hto, hparent u w₀ hxu hw₀⟩
    · have hzu := hthins.fromParent u hu
      obtain ⟨w₀, hw₀, hthins'⟩ := hold u w hw (hb.fromParent t z u hz hzu).1
      rw [hthins.toProc, hthins'.toProc]
      exact h.fromParent t z u w₀ hz hzu hw₀
  · intro t y u w hy hu hw
    rcases ha.txns t y hy with ⟨rfl, hthins⟩ | ⟨z, hz, hthins⟩
    · have hxu := hthins.toParent u hu
      rw [hx.toParent] at hxu
      cases hxu
    · have hzu := hthins.toParent u hu
      obtain ⟨w₀, hw₀, hthins'⟩ := hold u w hw (hb.toParent t z u hz hzu).1
      rw [hthins.toProc, hthins'.toProc]
      exact h.toParent t z u w₀ hz hzu hw₀
  · intro th t p call' he
    rcases List.mem_cons.mp he with he | he
    · cases he
      exact ⟨c, hsender, hto⟩
    · exact h.accepts th t p call' ((ha.accepts th t p call').mp he)
  · intro t y hy
    rcases ha.txns t y hy with ⟨rfl, hthins⟩ | ⟨z, hz, hthins⟩
    · rw [hthins.toProc]
      exact ⟨sender, call, List.mem_cons_self⟩
    · obtain ⟨th, call', he⟩ := h.accepted t z hz
      rw [hthins.toProc]
      exact ⟨th, call', List.mem_cons_of_mem _ ((ha.accepts _ _ _ _).mpr he)⟩

/-- A delivered call goes on the stack of a thread of its receiver. -/
theorem Kin.pushCall {th : ThreadId} {t : TxnId} {x : Txn} (h : Kin g v) (hx : v.txns t = some x)
    (hp : v.procOf th = some x.toProc) : Kin g (v.pushCall th t) := by
  obtain ⟨c, hth, hto⟩ := h.home th _ hp
  have hcases : ∀ u y, (v.pushCall th t).txns u = some y →
      u = t ∧ y = { x with toThread := some th, toParent := v.stackOf th } ∨
        v.txns u = some y := by
    intro u y hy
    change (v.updTxn t _).txns u = some y at hy
    rw [updTxn_of_some hx, txns_setTxn] at hy
    split at hy
    · rename_i he
      exact .inl ⟨he, (Option.some.inj hy).symm⟩
    · exact .inr hy
  -- every record has the receiver it had
  have hold : ∀ u y, (v.pushCall th t).txns u = some y →
      ∃ z, v.txns u = some z ∧ z.toProc = y.toProc := by
    intro u y hy
    rcases hcases u y hy with ⟨rfl, rfl⟩ | hy
    · exact ⟨x, hx, rfl⟩
    · exact ⟨y, hy, rfl⟩
  refine ⟨?_, ?_, ?_, ?_, ?_, h.accepts, ?_⟩
  · intro th' p hp'
    rw [Calls.pushCall, procOf_setStack] at hp'
    exact h.home th' p hp'
  · intro u y hy
    rcases hcases u y hy with ⟨rfl, rfl⟩ | hy
    · exact h.sender u x hx
    · exact h.sender u y hy
  · intro th' u y hu hy
    obtain ⟨z, hz, hzy⟩ := hold u y hy
    rw [← hzy]
    rcases stackOf_setStack_le _ th th' (some t) u hu with hold' | ⟨rfl, hnew⟩
    · exact h.stack th' u z hold' hz
    · cases hnew
      rw [hx] at hz
      cases hz
      exact ⟨c, hth, hto⟩
  · intro u y w z hy hw hz
    obtain ⟨z₀, hz₀, hzz⟩ := hold w z hz
    rw [← hzz]
    rcases hcases u y hy with ⟨rfl, rfl⟩ | hy
    · exact h.fromParent u x w z₀ hx hw hz₀
    · exact h.fromParent u y w z₀ hy hw hz₀
  · intro u y w z hy hw hz
    obtain ⟨z₀, hz₀, hzz⟩ := hold w z hz
    rw [← hzz]
    rcases hcases u y hy with ⟨rfl, rfl⟩ | hy
    · obtain ⟨d, hd, hdz⟩ := h.stack th w z₀ hw hz₀
      cases hth.symm.trans hd
      exact ⟨c, hto, hdz⟩
    · exact h.toParent u y w z₀ hy hw hz₀
  · intro u y hy
    obtain ⟨z, hz, hzy⟩ := hold u y hy
    rw [← hzy]
    exact h.accepted u z hz

/-! ## The steps -/

theorem Kin.quiet (h : Kin g v) (hq : Quiet v v') : Kin g v' := h.fewer hq.fewer

/-- **A send keeps to its tag** if the receiver a transaction is aimed at has the
tag of its sender; a reply goes to a thread that already has it. -/
theorem Kin.send {aim : NodeId → Txn → Prop} {th : ThreadId} {p : ProcId} {reply : Bool}
    (h : Kin g v) (hb : Base v) (hth : v.procOf th = some p)
    (haim : ∀ n x, aim n x → ∃ c, g.proc p = some c ∧ g.proc x.toProc = some c)
    (hsend : Send aim th reply v v') : Kin g v' := by
  obtain ⟨c, hthc, hpc⟩ := h.home th p hth
  have hto : ∀ n x, aim n x → ∃ c, g.thread th = some c ∧ g.proc x.toProc = some c := by
    intro n x hx
    obtain ⟨d, hd, hdx⟩ := haim n x hx
    cases hpc.symm.trans hd
    exact ⟨c, hthc, hdx⟩
  cases hsend with
  | refused br hbr h₁ h₂ => exact ((h.quiet h₁).fewer (.refuse _ th br)).quiet h₂
  | deadReply hreply t ht hdead =>
      exact h.fewer (((Fewer.pop ht).trans (.refuse _ th .deadReply)).trans
        (.freeTransaction _ t))
  | @call v₁ v₂ hreply x b n q h₁ hx hxaim h₂ =>
      have hsends : v₁.Sends th x :=
        ⟨fun A hA => Option.some.inj (hA.symm.trans hx.fromThread),
          fun u hu => hx.fromParent ▸ hu, hx.toParent⟩
      have hadds : Adds v₁ ((v₁.bump.bump.place v₁.nextId x b (some n)).setStack th
          (some v₁.nextId)) th x :=
        .placed (hb.quiet h₁) hsends (procOf_setStack _ _ _)
          (fun th' u hu => stackOf_setStack_le _ th th' _ u hu) rfl rfl
      have hwait := hadds.fewer (Fewer.enqueue _ (.transaction v₁.nextId) q)
      exact ((h.quiet h₁).accept (hb.quiet h₁) hsends hwait (hto n x hxaim)).quiet h₂
  | @oneway v₁ v₂ hreply x b n q h₁ hx hxaim h₂ =>
      have hsends : v₁.Sends th x :=
        ⟨by simp [hx.oneway.fromThread], by simp [hx.fromParent], hx.toParent⟩
      have hadds : Adds v₁ (v₁.bump.bump.place v₁.nextId x b (some n)) th x :=
        .placed (hb.quiet h₁) hsends rfl (fun _ _ hu => .inl hu) rfl rfl
      have hwait := hadds.fewer (Fewer.enqueue _ (.transaction v₁.nextId) q)
      exact ((h.quiet h₁).accept (hb.quiet h₁) hsends hwait (hto n x hxaim)).quiet h₂
  | @reply v₁ v₂ hreply target t x b h₁ hx h₂ =>
      obtain ⟨y, hy, hyfrom⟩ := Option.bind_eq_some_iff.mp hx.sender
      have hk := h.quiet h₁
      -- the one who is answered sent the call on the stack of the one who answers
      obtain ⟨d, hthd, hyd⟩ := hk.stack th t y hx.stack hy
      obtain ⟨e, hye, htarget⟩ := hk.sender t y hy
      obtain ⟨f, htargetf, hxf⟩ := hk.home target _ hx.toProc
      cases hyd.symm.trans hye
      cases (htarget target hyfrom).symm.trans htargetf
      have hpopped := Fewer.pop hx.stack
      have hbase : Base (v₁.setStack th ((v₁.txns t).bind (·.toParent))) := by
        refine (hb.quiet h₁).setStack fun u hu => ?_
        obtain ⟨z, hz, hzu⟩ := Option.bind_eq_some_iff.mp hu
        exact (hb.quiet h₁).toParent t z u hz hzu
      have hsends : (v₁.setStack th ((v₁.txns t).bind (·.toParent))).Sends th x :=
        ⟨by simp [hx.fromThread], by simp [hx.fromParent], hx.toParent⟩
      have hadds : Adds (v₁.setStack th ((v₁.txns t).bind (·.toParent)))
          ((v₁.setStack th ((v₁.txns t).bind (·.toParent))).bump.bump.place v₁.nextId x b none)
          th x := .placed hbase hsends rfl (fun _ _ hu => .inl hu) rfl rfl
      have hwait := ((hadds.fewer (.freeTransaction _ t)).fewer
        (.note _ (e := .reply th t v₁.nextId) (by simp))).fewer
          (.enqueue _ (.transaction v₁.nextId) (.thread target))
      exact ((hk.fewer hpopped).accept hbase hsends hwait ⟨d, hthd, hxf⟩).quiet h₂

/-- A read links nothing of another tag. -/
theorem Kin.read {fault tear : Prop} {th : ThreadId} (h : Kin g v) (hb : Base v)
    (hread : Read fault tear th v v') : Kin g v' := by
  have hout : ∀ w, Fewer v (v.dequeue w) := fun _ => .same rfl rfl rfl rfl
  cases hread with
  | quiet hq => exact h.quiet hq
  | call t x b buf cmd htakes hx hxb hbuf hnode hreply hcmd =>
      exact (h.fewer (emitTxn_fewer v th t x b cmd)).pushCall hx (hb.takes htakes hx)
  | other t x b buf cmd htakes hx hxb hbuf hkind hcmd =>
      exact h.fewer ((emitTxn_fewer v th t x b cmd).trans (.freeTransaction _ t))
  | @undeliverable v₁ t x htakes hx hq =>
      exact h.fewer ((((hout _).trans (.failUndelivered _ t .failedReply)).trans hq.fewer).trans
        (.dropTransaction _ _ t))
  | torn htear t htakes => exact h.fewer (.note v (by simp))
  | lost t htakes hwhy => exact h.fewer (hout _)
  | tornLost hfault htear t htakes => exact h.fewer ((hout _).trans (.note _ (by simp)))
  | error e cmd htakes =>
      have herror : ∀ v : Calls, Fewer v (v.setError e .ok) := fun v =>
        .same (procOf_setError v e .ok) (stackOf_setError v e .ok) rfl rfl
      exact h.fewer (((hout _).trans (herror _)).trans (.note _ (by simp)))
  | errorLost hfault e htakes => exact h.fewer (hout _)

/-- A process that opens has no threads yet. -/
theorem Kin.openProc (h : Kin g v) (p : ProcId) :
    Kin g (v.bump.setProc p (some false)) :=
  h.fewer (.same rfl rfl rfl rfl)

/-- A thread carries the tag of the process it enters. -/
theorem Kin.enter {th : ThreadId} {p : ProcId} (h : Kin g v)
    (htag : ∃ c, g.thread th = some c ∧ g.proc p = some c) :
    Kin g (v.bump.setThread th (some ⟨p, false, none, .ok⟩)) := by
  refine ⟨?_, h.sender, ?_, h.fromParent, h.toParent, h.accepts, h.accepted⟩
  · intro th' p' hp'
    by_cases he : th' = th
    · subst he
      simp only [procOf, setThread, Function.update_self, Option.map_some, Option.some.injEq] at hp'
      exact hp' ▸ htag
    · refine h.home th' p' ?_
      simpa [procOf, setThread, bump, he] using hp'
  · intro th' t x ht hx
    by_cases he : th' = th
    · subst he
      simp [stackOf, setThread] at ht
    · refine h.stack th' t x ?_ hx
      simpa [stackOf, setThread, bump, he] using ht

end Calls

end Binder
