import DevfsBinder.BufferLookup

/-!
# Buffers in the hands of clients

Once its address has been given to a client, a buffer is the client's: it stays
where it is, with nobody else's bytes in it, until the client frees it or closes
the device.

The call machine is followed first.  `Fades` says that a stretch of it gives
nothing out and takes back only what it may; every stretch but an acceptance and
a delivery fades.  What is queued has not been given out (`Unread`), so what the
driver drops on the way is never a client's.
-/

namespace Binder

namespace Calls

variable {v v' v'' : Calls} {gone : ProcId → BufferId → Prop}

/-- Buffer `b` of process `p`, with this load, is the client's to free. -/
def Given (v : Calls) (p : ProcId) (b : BufferId) (load : Load) : Prop :=
  ∃ buf, v.buffers p b = some buf ∧ buf.load = load ∧ buf.allowUserFree = true

/-- Nothing is given out, and only what `gone` allows is taken back.  Records
lose pointers, and nothing is queued that was not. -/
structure Fades (gone : ProcId → BufferId → Prop) (v v' : Calls) : Prop where
  retains : ∀ p b load, v.Given p b load → gone p b ∨ v'.Given p b load
  given : ∀ p b load, v'.Given p b load → v.Given p b load
  queued : ∀ t, (v'.loc (.transaction t)).isSome → (v.loc (.transaction t)).isSome
  txns : ∀ t y, v'.txns t = some y → ∃ x, v.txns t = some x ∧ y.toProc = x.toProc ∧
    (y.buffer = x.buffer ∨ y.buffer = none) ∧ (y.toThread = x.toThread ∨ y.toThread = none)

theorem Fades.refl (v : Calls) : Fades gone v v where
  retains := fun _ _ _ h => .inr h
  given := fun _ _ _ h => h
  queued := fun _ h => h
  txns := fun _ y hy => ⟨y, hy, rfl, .inl rfl, .inl rfl⟩

/-- Two fadings are one. -/
theorem Fades.trans (h : Fades gone v v') (h' : Fades gone v' v'') : Fades gone v v'' where
  retains := by
    intro p b load hgiven
    rcases h.retains p b load hgiven with hgone | hgiven
    · exact .inl hgone
    · exact h'.retains p b load hgiven
  given := fun p b load hgiven => h.given p b load (h'.given p b load hgiven)
  queued := fun t ht => h.queued t (h'.queued t ht)
  txns := by
    intro t z hz
    obtain ⟨y, hy, hproc, hbuffer, hto⟩ := h'.txns t z hz
    obtain ⟨x, hx, hproc', hbuffer', hto'⟩ := h.txns t y hy
    refine ⟨x, hx, hproc.trans hproc', ?_, ?_⟩
    · rcases hbuffer with hb | hb
      · rcases hbuffer' with hb' | hb'
        · exact .inl (hb.trans hb')
        · exact .inr (hb.trans hb')
      · exact .inr hb
    · rcases hto with ht | ht
      · rcases hto' with ht' | ht'
        · exact .inl (ht.trans ht')
        · exact .inr (ht.trans ht')
      · exact .inr ht

/-! ## Elementary changes -/

/-- Buffers, records and the places of transactions are left alone. -/
theorem Fades.same (hbuffers : v'.buffers = v.buffers) (htxns : v'.txns = v.txns)
    (hloc : ∀ t, v'.loc (.transaction t) = v.loc (.transaction t)) : Fades gone v v' where
  retains := by
    rintro p b load ⟨buf, hbuf, hrest⟩
    exact .inr ⟨buf, by rw [hbuffers]; exact hbuf, hrest⟩
  given := by
    rintro p b load ⟨buf, hbuf, hrest⟩
    exact ⟨buf, by rw [← hbuffers]; exact hbuf, hrest⟩
  queued := fun t ht => hloc t ▸ ht
  txns := fun t y hy => ⟨y, by rw [← htxns]; exact hy, rfl, .inl rfl, .inl rfl⟩

theorem note_fades (v : Calls) (e : Event) : Fades gone v (v.note e) :=
  .same rfl rfl fun _ => rfl

theorem dequeue_fades (v : Calls) (w : Work) : Fades gone v (v.dequeue w) :=
  { Fades.refl v with
    queued := by
      intro t ht
      rw [dequeue_loc] at ht
      split at ht
      · cases ht
      · exact ht }

/-- A buffer that is the client's may only go; what takes its place is not the
client's. -/
theorem setBuffer_fades (v : Calls) {p : ProcId} {b : BufferId} {buf : Option BufferView}
    (hold : gone p b ∨ ∀ load, ¬ v.Given p b load)
    (hnew : ∀ buf', buf = some buf' → buf'.allowUserFree = false) :
    Fades gone v (v.setBuffer p b buf) where
  retains := by
    rintro p' b' load hgiven
    by_cases heq : p' = p ∧ b' = b
    · obtain ⟨rfl, rfl⟩ := heq
      exact .inl (hold.resolve_right fun hnot => hnot load hgiven)
    · obtain ⟨buf', hbuf', hrest⟩ := hgiven
      exact .inr ⟨buf', by rw [buffers_setBuffer, if_neg heq]; exact hbuf', hrest⟩
  given := by
    rintro p' b' load ⟨buf', hbuf', hload, huser⟩
    rw [buffers_setBuffer] at hbuf'
    split at hbuf'
    · rw [hnew buf' hbuf'] at huser
      cases huser
    · exact ⟨buf', hbuf', hload, huser⟩
  queued := fun _ h => h
  txns := fun _ y hy => ⟨y, hy, rfl, .inl rfl, .inl rfl⟩

theorem Blank.not_given {p : ProcId} {b : BufferId} (h : v.Blank p b) (load : Load) :
    ¬ v.Given p b load := by
  obtain ⟨load', hbuf⟩ := h
  rintro ⟨buf, hbuf', -, huser⟩
  rw [hbuf] at hbuf'
  cases hbuf'
  cases huser

/-- Whose a buffer is does not depend on what it is tied to. -/
theorem given_updBuffer (v : Calls) (p : ProcId) (b : BufferId) {f : BufferView → BufferView}
    (hload : ∀ buf, (f buf).load = buf.load)
    (huser : ∀ buf, (f buf).allowUserFree = buf.allowUserFree) (p' : ProcId) (b' : BufferId)
    (load : Load) : (v.updBuffer p b f).Given p' b' load ↔ v.Given p' b' load := by
  unfold Given Calls.updBuffer
  simp only [buffers_setBuffer]
  split
  · rename_i heq
    obtain ⟨rfl, rfl⟩ := heq
    constructor
    · rintro ⟨buf, hbuf, hrest⟩
      obtain ⟨buf₀, hbuf₀, rfl⟩ := Option.map_eq_some_iff.mp hbuf
      rw [hload, huser] at hrest
      exact ⟨buf₀, hbuf₀, hrest⟩
    · rintro ⟨buf, hbuf, hrest⟩
      exact ⟨f buf, by rw [hbuf]; rfl, by rw [hload, huser]; exact hrest⟩
  · exact Iff.rfl

theorem detachBuffer_fades (v : Calls) (p : ProcId) (b : Option BufferId) :
    Fades gone v (v.detachBuffer p b) := by
  cases b with
  | none => exact .refl v
  | some b =>
      have hiff := given_updBuffer v p b (f := fun buf => { buf with transaction := none })
        (fun _ => rfl) (fun _ => rfl)
      exact
        { retains := fun p' b' load h => .inr ((hiff p' b' load).mpr h)
          given := fun p' b' load h => (hiff p' b' load).mp h
          queued := fun _ h => h
          txns := fun _ y hy => ⟨y, hy, rfl, .inl rfl, .inl rfl⟩ }

theorem forgetTxn_fades (v : Calls) (t : TxnId) : Fades gone v (v.setTxn t none) :=
  { Fades.refl v with
    txns := by
      intro u y hy
      rw [txns_setTxn] at hy
      split at hy
      · cases hy
      · exact ⟨y, hy, rfl, .inl rfl, .inl rfl⟩ }

theorem updTxn_fades (v : Calls) (t : TxnId) {f : Txn → Txn}
    (hf : ∀ x, (f x).toProc = x.toProc ∧ ((f x).buffer = x.buffer ∨ (f x).buffer = none) ∧
      ((f x).toThread = x.toThread ∨ (f x).toThread = none)) : Fades gone v (v.updTxn t f) :=
  { Fades.refl v with
    txns := by
      intro u y hy
      rw [Calls.updTxn, txns_setTxn] at hy
      split at hy
      · rename_i heq
        subst heq
        obtain ⟨x, hx, rfl⟩ := Option.map_eq_some_iff.mp hy
        exact ⟨x, hx, hf x⟩
      · exact ⟨y, hy, rfl, .inl rfl, .inl rfl⟩ }

/-! ## Stretches -/

theorem freeTransaction_fades (v : Calls) (t : TxnId) : Fades gone v (v.freeTransaction t) := by
  cases hx : v.txns t with
  | none =>
      rw [show v.freeTransaction t = v by simp [freeTransaction, hx]]
      exact .refl v
  | some x =>
      rw [freeTransaction_of_some hx]
      have hpop : ∀ (v : Calls) (th : Option ThreadId) (parent : Option TxnId),
          Fades gone v (v.popFrom th t parent) := by
        intro v th parent
        rw [popFrom_eq]
        exact .same rfl rfl fun _ => rfl
      exact ((((dequeue_fades v _).trans (hpop _ _ _)).trans (hpop _ _ _)).trans
        (detachBuffer_fades _ _ _)).trans (forgetTxn_fades _ t)

theorem QuietMove.fades (h : QuietMove v v') : Fades gone v v' := by
  cases h with
  | bump => exact .same rfl rfl fun _ => rfl
  | own p => exact .same rfl rfl fun _ => rfl
  | disown n => exact .same rfl rfl fun _ => rfl
  | alloc p b load h =>
      refine setBuffer_fades v (.inr ?_) (by simp)
      rintro load' ⟨buf, hbuf, -⟩
      rw [h] at hbuf
      cases hbuf
  | fill p b load h => exact setBuffer_fades v (.inr h.not_given) (by simp)
  | free p b h => exact setBuffer_fades v (.inr h.not_given) (by simp)
  | complete th cmd c => exact note_fades v _
  | drop n t x hx ho hloc => exact (freeTransaction_fades v t).trans (note_fades _ _)

theorem Quiet.fades (h : Quiet v v') : Fades gone v v' :=
  h.invariant (P := Fades gone v) (fun _ _ hv hmove => hv.trans hmove.fades) (.refl v)

theorem refuse_fades (v : Calls) (th : ThreadId) (br : BR) : Fades gone v (v.refuse th br) := by
  refine .same ?_ ?_ (loc_queueError v th br)
  · rw [refuse, queueError, enqueue_eq]
    rfl
  · rw [refuse, queueError, enqueue_eq]
    rfl

theorem answer_fades (v : Calls) (sender : Option ThreadId) (t : TxnId) (br : BR) :
    Fades gone v (v.answer sender t br) := by
  refine .same ?_ ?_ (loc_answer v sender t br) <;> rw [answer_eq]

theorem failUndelivered_fades (v : Calls) (t : TxnId) (br : BR) :
    Fades gone v (v.failUndelivered t br) := by
  refine .same ?_ ?_ (loc_failUndelivered v t br) <;> rw [failUndelivered_eq]

theorem setStack_fades (v : Calls) (th : ThreadId) (top : Option TxnId) :
    Fades gone v (v.setStack th top) :=
  .same rfl rfl fun _ => rfl

theorem freePayload_fades (v : Calls) {p : ProcId} {b : Option BufferId}
    (hold : ∀ b', b = some b' → gone p b' ∨ ∀ load, ¬ v.Given p b' load) :
    Fades gone v (v.freePayload p b) := by
  cases b with
  | none => exact .refl v
  | some b => exact setBuffer_fades v (hold b rfl) (by simp)

theorem dropTransaction_fades (v : Calls) {p : ProcId} {t : TxnId}
    (hold : ∀ x b, v.txns t = some x → x.buffer = some b → gone p b ∨ ∀ load, ¬ v.Given p b load) :
    Fades gone v (v.dropTransaction p t) := by
  refine Fades.trans (freePayload_fades v fun b hb => ?_) (freeTransaction_fades _ t)
  obtain ⟨x, hx, hxb⟩ := Option.bind_eq_some_iff.mp hb
  exact hold x b hx hxb

/-! ## What is queued -/

/-- The buffer of a queued transaction has not been given out. -/
def Unread (v : Calls) : Prop :=
  ∀ t x b load, (v.loc (.transaction t)).isSome → v.txns t = some x → x.buffer = some b →
    ¬ v.Given x.toProc b load

theorem Unread.fades (h : Unread v) (hfades : Fades gone v v') : Unread v' := by
  intro t y b load hloc hy hb hgiven
  obtain ⟨x, hx, hproc, hbuffer, -⟩ := hfades.txns t y hy
  rcases hbuffer with hsame | hnone
  · refine h t x b load (hfades.queued t hloc) hx (hsame ▸ hb) ?_
    exact hproc ▸ hfades.given _ b load hgiven
  · rw [hnone] at hb
    cases hb

/-- A transaction that was queued is released with its payload. -/
theorem Fades.drop {p : ProcId} {t : TxnId} {q : Queue} (hunread : Unread v)
    (hloc : v.loc (.transaction t) = some q)
    (hp : ∀ x, v.txns t = some x → x.toProc = p) (h : Fades gone v v') :
    Fades gone v (v'.dropTransaction p t) := by
  refine h.trans (dropTransaction_fades v' fun y b hy hb => .inr fun load hgiven => ?_)
  obtain ⟨x, hx, -, hbuffer, -⟩ := h.txns t y hy
  rcases hbuffer with hsame | hnone
  · refine hunread t x b load (by rw [hloc]; rfl) hx (hsame ▸ hb) ?_
    exact hp x hx ▸ h.given p b load hgiven
  · rw [hnone] at hb
    cases hb

/-! ## Departures -/

/-- No call that thread `th` is to answer has a buffer the client holds, unless
that may go. -/
def Settles (gone : ProcId → BufferId → Prop) (p : ProcId) (th : ThreadId) (v : Calls) : Prop :=
  ∀ t x b, v.txns t = some x → x.toThread = some th → x.buffer = some b →
    gone p b ∨ ∀ load, ¬ v.Given p b load

theorem Settles.fades {p : ProcId} {th : ThreadId} (h : Settles gone p th v)
    (hfades : Fades gone v v') : Settles gone p th v' := by
  intro t y b hy hto hb
  obtain ⟨x, hx, -, hbuffer, hthread⟩ := hfades.txns t y hy
  rcases hbuffer with hsame | hnone
  · rcases hthread with hsame' | hnone'
    · refine (h t x b hx (hsame' ▸ hto) (hsame ▸ hb)).imp_right fun hnot load hgiven => ?_
      exact hnot load (hfades.given p b load hgiven)
    · rw [hnone'] at hto
      cases hto
  · rw [hnone] at hb
    cases hb

/-- The walk of a stack takes back no more than that. -/
theorem Walk.fades {p : ProcId} {th : ThreadId} {top : Option TxnId} (h : Walk p th v top v')
    (hsettles : Settles gone p th v) : Fades gone v v' := by
  induction h with
  | done v => exact .refl v
  | stale hx => exact .refl _
  | foreign hx hfrom hto => exact .refl _
  | @sent v v' t x hx hfrom _ ih =>
      have hclear : Fades gone v (v.updTxn t fun x => { x with fromThread := none }) :=
        updTxn_fades v t fun _ => ⟨rfl, .inl rfl, .inl rfl⟩
      exact hclear.trans (ih (hsettles.fades hclear))
  | @received v v₁ v' t x hx hfrom hto h₁ _ ih =>
      have hcleared : Fades gone v (v.updTxn t fun x => { x with toThread := none }) :=
        updTxn_fades v t fun _ => ⟨rfl, .inl rfl, .inr rfl⟩
      have hclear : Fades gone v v₁ := hcleared.trans h₁.fades
      -- the payload of the call being answered is what `Settles` is about
      have hpay : Fades gone v (v₁.freePayload p x.buffer) := by
        refine hclear.trans (freePayload_fades v₁ fun b hb => ?_)
        refine (hsettles t x b hx hto hb).imp_right fun hnot load hgiven => ?_
        exact hnot load (hclear.given p b load hgiven)
      have hturn := (hpay.trans (updTxn_fades _ t (f := fun x => { x with buffer := none })
        fun _ => ⟨rfl, .inr rfl, .inl rfl⟩)).trans (answer_fades _ x.fromThread t .deadReply)
      exact hturn.trans (ih (hsettles.fades hturn))

/-- A transaction moves from one queue to another. -/
theorem move_fades {t : TxnId} {q q' : Queue} (hloc : v.loc (.transaction t) = some q) :
    Fades gone v ((v.dequeue (.transaction t)).enqueue (.transaction t) q') := by
  have hbuffers : ((v.dequeue (.transaction t)).enqueue (.transaction t) q').buffers =
      v.buffers := by rw [enqueue_eq]; rfl
  have htxns : ((v.dequeue (.transaction t)).enqueue (.transaction t) q').txns = v.txns := by
    rw [enqueue_eq]
    rfl
  have hrest : Fades gone v { v with
      buffers := ((v.dequeue (.transaction t)).enqueue (.transaction t) q').buffers
      txns := ((v.dequeue (.transaction t)).enqueue (.transaction t) q').txns } :=
    .same hbuffers htxns fun _ => rfl
  exact
    { retains := hrest.retains
      given := hrest.given
      txns := hrest.txns
      queued := by
        intro u hu
        rw [enqueue_loc, dequeue_loc, dequeue_loc] at hu
        by_cases heq : u = t
        · rw [heq, hloc]
          rfl
        · have hne : (Work.transaction u) ≠ .transaction t := fun h => heq (by cases h; rfl)
          rw [if_neg (fun h => hne h.1), if_neg hne] at hu
          exact hu }

/-- The items of a thread on its way out.  They go with the process, or back to
it. -/
theorem HandBack.fades {p : ProcId} {th : ThreadId} {u u' : Calls} {w : Work} {ws : List Work}
    (hgone : (∀ b, gone p b) ∨ v.procs p = some false) (h : HandingBack p th v (w :: ws) u)
    (hstep : HandBack p u w u') : Fades gone u u' := by
  have hloc : u.loc w = some (.thread th) := (h.items w).mp (by simp)
  cases hstep with
  | back t hp => exact move_fades hloc
  | @drop v₁ t hp hquiet =>
      have hall : ∀ b, gone p b := hgone.resolve_right fun hlive => hp (h.procs ▸ hlive)
      refine Fades.trans ?_ (note_fades _ _)
      exact ((dequeue_fades u _).trans hquiet.fades).trans
        (dropTransaction_fades v₁ fun _ b _ _ => .inl (hall b))
  | error th' => exact dequeue_fades u _

/-- Nor does the departure of a thread. -/
theorem Depart.fades {p : ProcId} {th : ThreadId} (h : Depart p th v v') (hb : Base v)
    (hp : v.procOf th = some p) (hgone : (∀ b, gone p b) ∨ v.procs p = some false)
    (hsettles : Settles gone p th v) : Fades gone v v' := by
  cases h with
  | @mk v₁ v₂ ws hwalk hnodup hws hback =>
      have hdead : Fades gone v (v.setDead th) := .same rfl rfl fun _ => rfl
      obtain ⟨hb₁, hprocs₁, hprocOf₁⟩ :=
        Base.walk hwalk (hb.setDead th) (fun t ht => hb.stack th t ht)
        (by simpa using hp)
      have hp₁ : (v₁.setStack th none).procOf th = some p := by
        rw [procOf_setStack, hprocOf₁, procOf_setDead]
        exact hp
      have hstart : HandingBack p th (v₁.setStack th none) ws (v₁.setStack th none) :=
        ⟨hb₁.setStack (by simp), hnodup, rfl, rfl, hws, fun _ _ hq => .inl hq⟩
      have hgone₁ : (∀ b, gone p b) ∨ (v₁.setStack th none).procs p = some false :=
        hgone.imp_right fun hlive => (congrFun hprocs₁ p).trans hlive
      obtain ⟨-, hfades⟩ := hback.invariant (I := fun ws u =>
          HandingBack p th (v₁.setStack th none) ws u ∧ Fades gone (v₁.setStack th none) u)
        (fun w ws u u' hu hstep => ⟨hu.1.step hp₁ hstep,
          hu.2.trans (HandBack.fades hgone₁ hu.1 hstep)⟩) ⟨hstart, .refl _⟩
      have hwalked : Fades gone v v₁ := hdead.trans (hwalk.fades (hsettles.fades hdead))
      exact ((hwalked.trans (setStack_fades v₁ th none)).trans hfades).trans
        (.same rfl rfl fun _ => rfl)

/-- A close takes back the buffers of its own process only. -/
theorem Close.fades {p : ProcId} (h : Close p v v') (hb : Base v) (hp : (v.procs p).isSome) :
    Fades (fun p' _ => p' = p) v v' := by
  cases h with
  | @mk v₁ v₂ v₃ ws ths hquiet hnodup hws hundeliver hths hdistinct hdeparts =>
      have hmarked : Fades (fun p' _ => p' = p) v (v.setProc p (some true)) :=
        .same rfl rfl fun _ => rfl
      have hclosing := hmarked.trans hquiet.fades
      have hitems : Fades (fun p' _ => p' = p) v₁ v₂ := by
        refine hundeliver.invariant (I := fun _ u => Fades (fun p' _ => p' = p) v₁ u) ?_ (.refl _)
        intro w ws u u' hu hstep
        refine hu.trans ?_
        cases hstep with
        | @txn u₁ t hquiet =>
            exact (((dequeue_fades u _).trans (failUndelivered_fades _ t .deadReply)).trans
              hquiet.fades).trans (dropTransaction_fades u₁ fun _ _ _ _ => .inl rfl)
        | error th => exact dequeue_fades u _
      have hdeparting := hb.undelivered hp hquiet hnodup hws hundeliver hths hdistinct
      obtain ⟨-, hthreads⟩ := hdeparts.invariant (I := fun ths u =>
          Departing p ths u ∧ Fades (fun p' _ => p' = p) v₂ u)
        (fun th ths u u' hu hstep => ⟨hu.1.step hstep, hu.2.trans (hstep.fades hu.1.base
          ((hu.1.threads th).mp (by simp)) (.inl fun _ => rfl) fun _ _ _ _ _ _ => .inl rfl)⟩)
        ⟨hdeparting, .refl _⟩
      refine ((hclosing.trans hitems).trans hthreads).trans ?_
      refine ⟨?_, ?_, fun _ h => h, fun _ y hy => ⟨y, hy, rfl, .inl rfl, .inl rfl⟩⟩
      · rintro p' b load ⟨buf, hbuf, hrest⟩
        by_cases hp' : p' = p
        · exact .inl hp'
        · exact .inr ⟨buf, by simpa [tearDown, hp'] using hbuf, hrest⟩
      · rintro p' b load ⟨buf, hbuf, hrest⟩
        by_cases hp' : p' = p
        · simp [tearDown, hp'] at hbuf
        · exact ⟨buf, by simpa [tearDown, hp'] using hbuf, hrest⟩

/-! ## Acceptances -/

theorem given_place (v : Calls) (t : TxnId) (x : Txn) (b : BufferId) (node : Option NodeId)
    (p' : ProcId) (b' : BufferId) (load : Load) :
    (v.place t x b node).Given p' b' load ↔ v.Given p' b' load :=
  given_updBuffer (v.setTxn t (some x)) x.toProc b
    (f := fun buf => { buf with transaction := some t, targetNode := node }) (fun _ => rfl)
    (fun _ => rfl) p' b' load

/-- A new record comes with a buffer that has been given to nobody. -/
theorem Unread.place (h : Unread v) (t : TxnId) {x : Txn} {b : BufferId} (node : Option NodeId)
    (hb : x.buffer = some b) (hblank : v.Blank x.toProc b) : Unread (v.place t x b node) := by
  intro u y b' load hloc hy hb' hgiven
  rw [given_place] at hgiven
  have hy' : (if u = t then some x else v.txns u) = some y :=
    (txns_setTxn v t u (some x)).symm.trans hy
  split at hy'
  · cases hy'
    rw [hb] at hb'
    cases hb'
    exact hblank.not_given load hgiven
  · exact h u y b' load hloc hy' hb' hgiven

theorem given_enqueue (v : Calls) (w : Work) (q : Queue) (p : ProcId) (b : BufferId)
    (load : Load) : (v.enqueue w q).Given p b load ↔ v.Given p b load := by
  rw [enqueue_eq]
  exact Iff.rfl

/-- What is queued must not have been given out. -/
theorem Unread.enqueue (h : Unread v) {t : TxnId} {x : Txn} (q : Queue)
    (hx : ∀ y, v.txns t = some y → y.toProc = x.toProc ∧ (y.buffer = x.buffer ∨ y.buffer = none))
    (hnot : ∀ b load, x.buffer = some b → ¬ v.Given x.toProc b load) :
    Unread (v.enqueue (.transaction t) q) := by
  intro u y b load hloc hy hb hgiven
  rw [given_enqueue] at hgiven
  have hy' : v.txns u = some y := by
    rw [enqueue_eq] at hy
    exact hy
  by_cases heq : u = t
  · subst heq
    obtain ⟨hproc, hbuffer⟩ := hx y hy'
    rcases hbuffer with hsame | hnone
    · exact hnot b load (hsame ▸ hb) (hproc ▸ hgiven)
    · rw [hnone] at hb
      cases hb
  · have hne : (Work.transaction u) ≠ .transaction t := fun h => heq (by cases h; rfl)
    rw [enqueue_loc, if_neg (fun h => hne h.1)] at hloc
    exact h u y b load hloc hy' hb hgiven

/-- Nothing is taken back, and what is queued has not been given out. -/
structure Respects (v v' : Calls) : Prop where
  retains : ∀ p b load, v.Given p b load → v'.Given p b load
  unread : Unread v → Unread v'

theorem Respects.trans (h : Respects v v') (h' : Respects v' v'') : Respects v v'' :=
  ⟨fun p b load hgiven => h'.retains p b load (h.retains p b load hgiven),
    fun hunread => h'.unread (h.unread hunread)⟩

theorem Fades.respects (h : Fades (fun _ _ => False) v v') : Respects v v' :=
  ⟨fun p b load hgiven => (h.retains p b load hgiven).resolve_left id,
    fun hunread => hunread.fades h⟩

theorem note_respects (v : Calls) (e : Event) : Respects v (v.note e) := (note_fades v e).respects

theorem Quiet.respects (h : Quiet v v') : Respects v v' := h.fades.respects

/-- A record is made for a fresh buffer and, after some fading, queued. -/
theorem place_respects {t : TxnId} {x : Txn} {b : BufferId} {node : Option NodeId} {q : Queue}
    (hb : x.buffer = some b) (hblank : v.Blank x.toProc b) {v₁ : Calls}
    (hfades : Fades (fun _ _ => False) (v.bump.bump.place t x b node) v₁) :
    Respects v (v₁.enqueue (.transaction t) q) := by
  have hgiven : ∀ p b' load, (v.bump.bump.place t x b node).Given p b' load ↔ v.Given p b' load :=
    fun p b' load => given_place v.bump.bump t x b node p b' load
  constructor
  · intro p b' load hold
    rw [given_enqueue]
    exact hfades.respects.retains p b' load ((hgiven p b' load).mpr hold)
  · intro hunread
    have hbumped : Unread v.bump.bump := hunread
    refine ((hbumped.place t node hb hblank).fades hfades).enqueue (x := x) q ?_ ?_
    · intro y hy
      obtain ⟨z, hz, hproc, hbuffer, -⟩ := hfades.txns t y hy
      have hzx : (v.bump.bump.place t x b node).txns t = some x :=
        (txns_setTxn v.bump.bump t t (some x)).trans (if_pos rfl)
      rw [hzx] at hz
      cases hz
      exact ⟨hproc, hbuffer⟩
    · intro b' load hb' hnew
      rw [hb] at hb'
      cases hb'
      exact hblank.not_given load ((hgiven _ b load).mp (hfades.given _ b load hnew))

theorem acceptCall_respects {th : ThreadId} {x : Txn} {b : BufferId} {n : NodeId} {q : Queue}
    (hx : v.IsCall th x b n q) : Respects v (v.acceptCall th x b n q) :=
  (place_respects hx.buffer hx.blank (setStack_fades _ th _)).trans (note_respects _ _)

theorem acceptOneway_respects {x : Txn} {b : BufferId} {n : NodeId} {q : Queue}
    (hx : v.IsOneway x b n q) (th : ThreadId) : Respects v (v.acceptOneway th x b n q) :=
  (place_respects hx.buffer hx.blank (.refl _)).trans (note_respects _ _)

/-- The answered call goes before the reply is queued. -/
theorem acceptReply_respects {th target : ThreadId} {call : TxnId} {x : Txn} {b : BufferId}
    (hx : v.IsReply th target call x b) : Respects v (v.acceptReply th target call x b) := by
  have hpop : Respects v (v.setStack th ((v.txns call).bind (·.toParent))) :=
    (setStack_fades v th _).respects
  have hblank : (v.setStack th ((v.txns call).bind (·.toParent))).Blank x.toProc b := hx.blank
  exact (hpop.trans (place_respects hx.buffer hblank
    ((freeTransaction_fades _ call).trans (note_fades _ _)))).trans (note_respects _ _)

theorem Send.respects {aim : NodeId → Txn → Prop} {th : ThreadId} {reply : Bool}
    (h : Send aim th reply v v') : Respects v v' := by
  cases h with
  | refused br hbr h₁ h₂ =>
      exact ((h₁.fades.trans (refuse_fades _ th br)).trans h₂.fades).respects
  | deadReply hreply t ht hdead =>
      exact (((setStack_fades v th _).trans (refuse_fades _ th .deadReply)).trans
        (freeTransaction_fades _ t)).respects
  | call hreply x b n q h₁ hx _ h₂ =>
      exact (h₁.respects.trans (acceptCall_respects hx)).trans h₂.respects
  | oneway hreply x b n q h₁ hx _ h₂ =>
      exact (h₁.respects.trans (acceptOneway_respects hx th)).trans h₂.respects
  | reply hreply target call x b h₁ hx h₂ =>
      exact (h₁.respects.trans (acceptReply_respects hx)).trans h₂.respects

/-! ## Deliveries -/

/-- A taken transaction is the only one its buffer carries. -/
theorem Base.carries {t u : TxnId} {x y : Txn} {b : BufferId} (h : Base v)
    (halive : (v.procs x.toProc).isSome) (hx : v.txns t = some x) (hb : x.buffer = some b)
    (hy : v.txns u = some y) (hb' : y.buffer = some b) (hproc : y.toProc = x.toProc) : u = t := by
  obtain ⟨buf, hbuf, ht, -⟩ := h.link t x b hx hb halive
  obtain ⟨buf', hbuf', hu, -⟩ := h.link u y b hy hb' (by rw [hproc]; exact halive)
  rw [hproc, hbuf] at hbuf'
  cases hbuf'
  exact Option.some.inj (hu.symm.trans ht)

theorem buffers_emitTxn (v : Calls) (th : ThreadId) (t : TxnId) (x : Txn) (b : BufferId) (cmd : BR)
    (p' : ProcId) (b' : BufferId) : (v.emitTxn th t x b cmd).buffers p' b' =
      if p' = x.toProc ∧ b' = b then
        (v.buffers x.toProc b).map fun buf => { buf with allowUserFree := true }
      else v.buffers p' b' :=
  buffers_setBuffer ((v.dequeue (.transaction t)).note (.emit th cmd (.transaction t))) x.toProc p'
    b b' _

theorem given_emitTxn (v : Calls) (th : ThreadId) (t : TxnId) (x : Txn) (b : BufferId) (cmd : BR)
    (p' : ProcId) (b' : BufferId) (load : Load) (h : (v.emitTxn th t x b cmd).Given p' b' load) :
    v.Given p' b' load ∨ p' = x.toProc ∧ b' = b := by
  obtain ⟨buf, hbuf, hrest⟩ := h
  rw [buffers_emitTxn] at hbuf
  split at hbuf
  · rename_i heq
    exact .inr heq
  · exact .inl ⟨buf, hbuf, hrest⟩

/-- A transaction that is read gives its buffer out, and is queued no more. -/
theorem emitTxn_respects {th : ThreadId} {t : TxnId} {x : Txn} {b : BufferId} (hb : Base v)
    (halive : (v.procs x.toProc).isSome) (hx : v.txns t = some x) (hxb : x.buffer = some b)
    (cmd : BR) : Respects v (v.emitTxn th t x b cmd) := by
  constructor
  · rintro p' b' load ⟨buf, hbuf, hload, huser⟩
    by_cases heq : p' = x.toProc ∧ b' = b
    · refine ⟨{ buf with allowUserFree := true }, ?_, hload, rfl⟩
      rw [buffers_emitTxn, if_pos heq, ← heq.1, ← heq.2, hbuf]
      rfl
    · exact ⟨buf, by rw [buffers_emitTxn, if_neg heq]; exact hbuf, hload, huser⟩
  · intro hunread u y b' load hloc hy hyb hgiven
    have hloc' : (if (Work.transaction u) = .transaction t then none
        else v.loc (.transaction u)).isSome := by
      rw [← dequeue_loc]
      exact hloc
    split at hloc'
    · cases hloc'
    · rename_i hne
      rcases given_emitTxn v th t x b cmd _ _ load hgiven with hold | ⟨hproc, hbuf⟩
      · exact hunread u y b' load hloc' hy hyb hold
      · subst hbuf
        exact hne (by rw [hb.carries halive hx hxb hy hyb hproc])

/-- Who is to answer a call is no matter of its buffer. -/
theorem pushCall_respects (v : Calls) (th : ThreadId) (t : TxnId) :
    Respects v (v.pushCall th t) := by
  refine ⟨fun p b load hgiven => hgiven, fun hunread u y b load hloc hy hb hgiven => ?_⟩
  have hy' : (if u = t then (v.txns t).map fun x =>
      { x with toThread := some th, toParent := v.stackOf th } else v.txns u) = some y :=
    (txns_setTxn v t u _).symm.trans hy
  split at hy'
  · rename_i heq
    subst heq
    obtain ⟨x, hx, rfl⟩ := Option.map_eq_some_iff.mp hy'
    exact hunread u x b load hloc hx hb hgiven
  · exact hunread u y b load hloc hy' hb hgiven

theorem Takes.queued {th : ThreadId} {w : Work} (h : v.Takes th w) : ∃ q, v.loc w = some q := by
  obtain ⟨p, -, hloc | ⟨hloc, -⟩⟩ := h
  · exact ⟨_, hloc⟩
  · exact ⟨_, hloc⟩

/-- A read takes nothing back. -/
theorem Read.respects {fault tear : Prop} {th : ThreadId} (h : Read fault tear th v v')
    (hb : Base v) (hunread : Unread v) : Respects v v' := by
  have halive : ∀ t x, v.Takes th (.transaction t) → v.txns t = some x →
      (v.procs x.toProc).isSome := fun t x htakes hx => hb.threadProc _ _ (hb.takes htakes hx)
  cases h with
  | quiet h => exact h.fades.respects
  | call t x b buf cmd htakes hx hxb hbuf hnode hreply hcmd =>
      exact (emitTxn_respects hb (halive t x htakes hx) hx hxb cmd).trans (pushCall_respects _ th t)
  | other t x b buf cmd htakes hx hxb hbuf hkind hcmd =>
      exact (emitTxn_respects hb (halive t x htakes hx) hx hxb cmd).trans
        (freeTransaction_fades _ t).respects
  | @undeliverable v₁ t x htakes hx h =>
      obtain ⟨q, hloc⟩ := htakes.queued
      have hfades : Fades (fun _ _ => False) v v₁ :=
        ((dequeue_fades v _).trans (failUndelivered_fades _ t .failedReply)).trans h.fades
      refine (Fades.drop hunread hloc ?_ hfades).respects
      intro y hy
      rw [hx] at hy
      cases hy
      rfl
  | torn htear t htakes => exact (note_fades v _).respects
  | lost t htakes hwhy => exact (dequeue_fades v _).respects
  | tornLost hfault htear t htakes => exact ((dequeue_fades v _).trans (note_fades _ _)).respects
  | error e cmd htakes =>
      have herror : Fades (fun _ _ => False) (v.dequeue (.returnError e))
          ((v.dequeue (.returnError e)).setError e .ok) := .same rfl rfl fun _ => rfl
      exact (((dequeue_fades v _).trans herror).trans (note_fades _ _)).respects
  | errorLost hfault e htakes => exact (dequeue_fades v _).respects

/-- A client gives back the buffer at one address and no other. -/
theorem FreeBuffer.retains {p : ProcId} {ptr : Nat} (h : FreeBuffer p ptr v v') :
    (∀ p' b load, v.Given p' b load → (p' = p ∧ load.address = ptr) ∨ v'.Given p' b load) ∧
      (Unread v → Unread v') := by
  cases h with
  | quiet h =>
      exact ⟨fun p' b load hgiven => .inr (h.fades.respects.retains p' b load hgiven),
        h.fades.respects.unread⟩
  | @free v₁ v₂ v₃ b buf h₁ hbuf huser haddr h₂ h₃ =>
      have hfree : Fades (fun p' b' => p' = p ∧ b' = b) v₁ v₂ := by
        rw [h₂]
        split
        · refine (updTxn_fades v₁ _ ?_).trans (setBuffer_fades _ (.inl ⟨rfl, rfl⟩) (by simp))
          exact fun _ => ⟨rfl, .inr rfl, .inl rfl⟩
        · exact setBuffer_fades _ (.inl ⟨rfl, rfl⟩) (by simp)
      have hpass : Fades (fun _ _ => False) v₂ v' := by
        rcases h₃ with rfl | ⟨n, t, -, hloc, rfl⟩
        · exact .refl _
        · exact move_fades hloc
      refine ⟨fun p' b' load hgiven => ?_,
        fun hunread => ((h₁.respects.unread hunread).fades hfree).fades hpass⟩
      have hgiven₁ := h₁.fades.respects.retains p' b' load hgiven
      rcases hfree.retains p' b' load hgiven₁ with ⟨rfl, rfl⟩ | hgiven₂
      · obtain ⟨buf', hbuf', rfl, -⟩ := hgiven₁
        rw [hbuf] at hbuf'
        cases hbuf'
        exact .inl ⟨rfl, haddr⟩
      · exact .inr (hpass.respects.retains p' b' load hgiven₂)

end Calls

open LittleEndian

namespace Driver

open Calls

variable {s : Driver} {a : Action} {p : ProcId} {b : BufferId} {t : TxnId} {x : Txn} {buf : Buffer}

/-! ## What a client is told -/

/-- Behind an item there is at most a `BR_SPAWN_LOOPER`. -/
theorem readNext_cmds (env : Env) (h : Handled) (th : ThreadId) (p : ProcId) (w : Work)
    (fromProc : Bool) :
    ∃ rc', (readNext env h th p w fromProc).calls th = some rc' ∧
      (rc'.cmds = h.rc.cmds ∨ rc'.cmds = h.rc.cmds ++ [(.spawnLooper, [])]) := by
  obtain ⟨s₁, rc', hnext, heq⟩ := readNext_follows env h th p w fromProc
  rw [heq]
  refine ⟨rc', setCall_calls_self .., ?_⟩
  cases hnext with
  | spawned rc' _ _ hput _ _ =>
      rcases putCmd_keeps env { h.rc with wroteSomething := true } .spawnLooper with hrc | hrc
      · have hcmds := congrArg ReadCall.cmds (hput.symm.trans hrc)
        exact .inl hcmds
      · have hcmds := congrArg ReadCall.cmds (hput.symm.trans hrc)
        exact .inr hcmds
  | _ => exact .inl rfl

/-- A turn of a read of process `p` takes transaction `t`, carried by `buf`,
and writes its description: the client has the address of the buffer. -/
inductive Announces (s : Driver) (p : ProcId) (t : TxnId) (x : Txn) (buf : Buffer) : Action → Prop
  | mk (env : Env) (th : ThreadId) (thread : Thread) (fromProc : Bool) (rc rc' : ReadCall)
      (rest : Bytes) (more : List (BR × Bytes)) (hth : s.threads th = some thread)
      (hp : thread.proc = p) (hnext : s.nextWork th thread = some (.transaction t, fromProc))
      (hx : s.txns t = some x) (hbuf : x.buffer.bind (s.findBuffer p) = some buf)
      (hrc : s.calls th = some rc) (hrc' : (s.act (.readTurn env th)).calls th = some rc')
      (hcmds : rc'.cmds = rc.cmds ++ (s.deliveryCmd buf,
        describe x buf (buf.targetNode.bind s.nodes) (s.bufferUaddr p buf) ++ rest) :: more) :
      Announces s p t x buf (.readTurn env th)

theorem deliveryCmd_ne_spawnLooper (s : Driver) (buf : Buffer) :
    s.deliveryCmd buf ≠ .spawnLooper := by
  unfold deliveryCmd
  split
  · simp
  · split <;> simp

/-- No description is written without a new command. -/
theorem not_announced {rc rc' : ReadCall} {data : Bytes} {more : List (BR × Bytes)}
    (h : rc'.cmds = rc.cmds ∨ rc'.cmds = rc.cmds ++ [(.spawnLooper, [])])
    (hcmds : rc'.cmds = rc.cmds ++ (s.deliveryCmd buf, data) :: more) : False := by
  rcases h with h | h
  · have hlen := congrArg List.length (h.symm.trans hcmds)
    simp at hlen
  · have htail := List.append_cancel_left (h.symm.trans hcmds)
    injection htail with hhead
    injection hhead with hcmd
    exact deliveryCmd_ne_spawnLooper s buf hcmd.symm

/-- A turn of a read that is running. -/
theorem act_readTurn {env : Env} {th : ThreadId} {thread : Thread} {rc : ReadCall}
    (hth : s.threads th = some thread) (hrc : s.calls th = some rc) :
    s.act (.readTurn env th) = s ∨ s.act (.readTurn env th) = readTurn env s th thread rc := by
  rw [act, withCall, hth, hrc]
  simp only
  split
  · exact .inr rfl
  · exact .inl rfl

/-- The description is written whole, and the buffer is the client's; or it is
cut short. -/
theorem Announces.given (hs : Sound s) (hb : Base s.view) (h : Announces s p t x buf a)
    (hcut : ∀ env th rc, a = .readTurn env th → s.calls th = some rc →
      ¬ (s.secctxNext th = true ∧ rc.CutsShort env)) :
    (s.arenas p).used buf.id = some buf ∧
      (s.act a).view.Given p buf.id (buf.load (s.arenas p).addr) := by
  cases h with
  | mk env th thread fromProc rc rc' rest more hth hp hnext hx hbuf hrc hrc' hcmds =>
      subst hp
      have htakes := nextWork_takes hs.queues hth hnext rfl
      obtain ⟨x', hx', hproc, hbuffer⟩ := taken_record hs hb htakes
      rw [hx] at hx'
      cases hx'
      rw [view_procOf, hth] at hproc
      obtain hproc : thread.proc = x.toProc := Option.some.inj hproc
      obtain ⟨b, hxb, hfind⟩ := Option.bind_eq_some_iff.mp hbuf
      obtain ⟨buf', hfind', hused, rfl⟩ := hbuffer b hxb
      rw [hproc, hfind'] at hfind
      cases hfind
      refine ⟨hproc ▸ hused, ?_⟩
      rcases act_readTurn hth hrc with hact | hact
      · rw [hact, hrc] at hrc'
        cases hrc'
        exact (not_announced (s := s) (.inl rfl) hcmds).elim
      · rw [hact] at hrc' ⊢
        unfold readTurn at hrc' ⊢
        simp only [hnext, readWork] at hrc' ⊢
        have htaken := readTransaction_taken (s := s.dequeueWork (.transaction t)) env th rc
          (p := thread.proc) (t := t) (x := x) hx hbuf
        generalize readTransaction env (s.dequeueWork (.transaction t)) thread.proc th t rc = h
          at hrc' htaken ⊢
        obtain ⟨rc'', hcalls, hmore⟩ := readNext_cmds env h th thread.proc (.transaction t) fromProc
        rw [hcalls] at hrc'
        cases hrc'
        have hsecctx : (s.dequeueWork (.transaction t)).wantsSecctx buf = true →
            s.secctxNext th = true := by
          intro hwant
          rw [secctxNext, hth]
          simp only [hnext]
          rw [hx, Option.bind_some, hbuf]
          exact hwant
        cases htaken with
        | stopped s' rc₁ error hdesc =>
            cases hdesc with
            | full => exact (not_announced (s := s) hmore hcmds).elim
            | fault hw => exact (not_announced (s := s) hmore hcmds).elim
            | torn rc₁ hwant hshort => exact (hcut env th rc rfl hrc ⟨hsecctx hwant, hshort⟩).elim
            | tornFault rc₁ hwant hshort hw =>
                exact (hcut env th rc rfl hrc ⟨hsecctx hwant, hshort⟩).elim
        | dropped kdata hkdata hout => exact (not_announced (s := s) hmore hcmds).elim
        | delivered rc₁ rest₁ hcmds₁ =>
            rw [readNext_view, if_neg (by simp), view_delivered, view_note, view_dequeue]
            generalize hv : ((s.view.dequeue (.transaction t)).note (.emit th
              ((s.dequeueWork (.transaction t)).deliveryCmd buf) (.transaction t))).updBuffer
                thread.proc buf.id (fun buf => { buf with allowUserFree := true }) = v₁
            have hgiven : v₁.Given thread.proc buf.id (buf.load (s.arenas thread.proc).addr) := by
              refine ⟨{ buf.view (s.arenas thread.proc).addr with allowUserFree := true }, ?_,
                rfl, rfl⟩
              rw [← hv, Calls.updBuffer, buffers_setBuffer, if_pos ⟨rfl, rfl⟩]
              have hold : s.view.buffers thread.proc buf.id =
                  some (buf.view (s.arenas thread.proc).addr) := by
                rw [view_buffers, hproc, hused]
                rfl
              exact congrArg (Option.map _) hold
            split
            · exact hgiven
            · exact (freeTransaction_fades v₁ t).respects.retains _ _ _ hgiven

/-! ## What an action takes back -/

/-- A thread of `p` frees the buffer at `ptr`. -/
def Frees (s : Driver) (a : Action) (p : ProcId) (ptr : Nat) : Prop :=
  ∃ env th, a = .command env th (.freeBuffer ptr) ∧ (s.threads th).map (·.proc) = some p

/-- Thread `th` is to answer a call whose buffer its client still holds. -/
def owesHeld (s : Driver) (th : ThreadId) : Bool :=
  (List.range s.nextId).any fun t => (s.txns t).any fun x =>
    decide (x.toThread = some th) &&
      (x.buffer.bind (s.arenas x.toProc).used).any (·.allowUserFree)

/-- The check on a thread that is to depart. -/
theorem settles_of_not_owesHeld (hb : Base s.view) {th : ThreadId}
    (hp : s.view.procOf th = some p) (h : s.owesHeld th = false) :
    Settles (fun _ _ => False) p th s.view := by
  rintro t x b hx hto hxb
  refine .inr ?_
  rintro load ⟨bufv, hbufv, -, huser⟩
  obtain rfl : p = x.toProc := hb.toHome t x th p hx hto hp
  obtain ⟨buf, hused, rfl⟩ := Option.map_eq_some_iff.mp hbufv
  have hx' : s.txns t = some x := hx
  have howes : s.owesHeld th = true := by
    refine List.any_eq_true.mpr ⟨t, List.mem_range.mpr (hb.txns_lt t x hx), ?_⟩
    rw [hx', Option.any_some, hxb, Option.bind_some, hused, Option.any_some]
    have huser' : buf.allowUserFree = true := huser
    rw [huser', hto, decide_eq_true rfl]
    rfl
  rw [h] at howes
  cases howes

/-- Along every action what is queued has not been given out. -/
theorem Acts.unread (hb : Base s.view) {v' : Calls} (h : Acts s a v') (hunread : Unread s.view) :
    Unread v' := by
  cases h with
  | quiet a h => exact h.respects.unread hunread
  | openProc env pid ctx =>
      have hsame : Fades (fun _ _ => False) s.view
          (s.view.bump.setProc s.nextId (some false)) := .same rfl rfl fun _ => rfl
      exact hunread.fades hsame
  | enter env p tid hp =>
      have hsame : Fades (fun _ _ => False) s.view
          (s.view.bump.setThread s.nextId (some ⟨p, false, none, .ok⟩)) :=
        .same rfl rfl fun _ => rfl
      exact hunread.fades hsame
  | send env th p reply isSg tr hth h => exact h.respects.unread hunread
  | free env th ptr p hth hp h => exact h.retains.2 hunread
  | read env th rc hrc h => exact (h.respects hb hunread).unread hunread
  | depart th p hth hp h =>
      have hfades : Fades (fun p' _ => p' = p) s.view v' :=
        h.fades hb hth (.inl fun _ => rfl) fun _ _ _ _ _ _ => .inl rfl
      exact hunread.fades hfades
  | close p hp h => exact hunread.fades (h.fades hb hp)

/-- The steps that leave clients' buffers alone: a transaction with a security
context is described whole or not at all, and no thread exits while it owes a
reply to a call whose buffer its client still holds. -/
structure KeepsGiven (s : Driver) (a : Action) : Prop where
  cut : ∀ env th rc, a = .readTurn env th → s.calls th = some rc →
    ¬ (s.secctxNext th = true ∧ rc.CutsShort env)
  exit : ∀ th, a = .threadExit th → s.owesHeld th = false

/-- **Step.**  What is the client's stays so unless the client itself gives it
back. -/
theorem Acts.retains (hb : Base s.view) (hunread : Unread s.view) {v' : Calls} (h : Acts s a v')
    (hok : KeepsGiven s a) {load : Load} (hfree : ¬ Frees s a p load.address)
    (hclose : a ≠ .devClose p) (hgiven : s.view.Given p b load) : v'.Given p b load := by
  cases h with
  | quiet a h => exact h.respects.retains p b load hgiven
  | openProc env pid ctx => exact hgiven
  | enter env p' tid hp => exact hgiven
  | send env th p₀ reply isSg tr hth h => exact h.respects.retains p b load hgiven
  | free env th ptr p' hth hp h =>
      refine (h.retains.1 p b load hgiven).resolve_left ?_
      rintro ⟨rfl, rfl⟩
      exact hfree ⟨env, th, rfl, by rw [← view_procOf]; exact hth⟩
  | read env th rc hrc h => exact (h.respects hb hunread).retains p b load hgiven
  | depart th p' hth hp h =>
      have hfades := h.fades hb hth (.inr hp)
        (settles_of_not_owesHeld hb hth (hok.exit th rfl))
      exact hfades.respects.retains p b load hgiven
  | close p' hp h =>
      refine ((h.fades hb hp).retains p b load hgiven).resolve_left ?_
      rintro rfl
      exact hclose rfl

/-! ## From the announcement on -/

theorem Reachable.unread (h : Reachable s) : Unread s.view := by
  refine Reaches.invariant (P := fun s => Unread s.view) ?_ ?_ h
  · rintro t x b load - hx
    cases hx
  · intro s a hreach hunread _
    have hst := Reachable.steady hreach
    exact (act_refines hst.sound hst.base hst.aimed a).unread hst.base hunread

/-- In a run whose steps satisfy `ok`, process `p` has been given the address of
buffer `b`, of `size` bytes, and has neither freed it nor closed since. -/
inductive Outstanding (ok : Driver → Action → Prop) :
    Driver → ProcId → BufferId → Nat → Nat → Prop
  | announced {s : Driver} {a : Action} {p : ProcId} {t : TxnId} {x : Txn} {buf : Buffer}
      (h : Reaches ok s) (hok : ok s a) (hann : Announces s p t x buf a) :
      Outstanding ok (s.act a) p buf.id (s.bufferUaddr p buf) buf.size
  | kept {s : Driver} {p : ProcId} {b : BufferId} {addr size : Nat}
      (h : Outstanding ok s p b addr size) (a : Action) (hok : ok s a)
      (hfree : ¬ Frees s a p addr) (hclose : a ≠ .devClose p) :
      Outstanding ok (s.act a) p b addr size

theorem Outstanding.reaches {ok : Driver → Action → Prop} {addr size : Nat}
    (h : Outstanding ok s p b addr size) : Reaches ok s := by
  induction h with
  | announced h hok hann => exact .step _ h hok
  | kept _ a hok _ _ ih => exact .step a ih hok

/-- Buffer `b` of process `p` is in use at `addr`, shares no byte with any other
buffer in use, and would be taken back from the client. -/
structure HeldAt (s : Driver) (p : ProcId) (b : BufferId) (addr size : Nat) : Prop where
  inUse : ∃ buf, (s.arenas p).used b = some buf ∧ s.bufferUaddr p buf = addr ∧ buf.size = size
  apart : ∀ b' buf', (s.arenas p).used b' = some buf' → b' ≠ b →
    addr + size ≤ s.bufferUaddr p buf' ∨ s.bufferUaddr p buf' + buf'.size ≤ addr
  freed : (s.writeFreeBuffer p addr).2 = none

theorem bufferLookup_uaddr (hs : Sound s) (hused : (s.arenas p).used b = some buf) :
    s.bufferLookup p (s.bufferUaddr p buf) = some buf := by
  obtain ⟨⟨hmem, -⟩, hfree⟩ := (hs.arenas p).used_eq_some.mp hused
  exact (hs.tiled p).bufferLookup_eq_some.mpr ⟨hmem, hfree, rfl⟩

/-- What was given out is held at its address. -/
theorem heldAt_of_given (hs : Sound s) {load : Load} (h : s.view.Given p b load) :
    HeldAt s p b load.address load.size := by
  obtain ⟨bufv, hbufv, rfl, huser⟩ := h
  obtain ⟨buf, hused, rfl⟩ := Option.map_eq_some_iff.mp hbufv
  obtain ⟨⟨hmem, hid⟩, hfree⟩ := (hs.arenas p).used_eq_some.mp hused
  have haddr : s.bufferUaddr p buf = (buf.load (s.arenas p).addr).address :=
    (hs.tiled p).uaddr hmem
  refine ⟨⟨buf, hused, haddr, rfl⟩, ?_, ?_⟩
  · intro b' buf' hused' hne
    obtain ⟨⟨hmem', hid'⟩, -⟩ := (hs.arenas p).used_eq_some.mp hused'
    have hdistinct : buf ≠ buf' := by
      rintro rfl
      exact hne (hid'.symm.trans hid)
    have hdisj := (hs.tiled p).tiles.disjoint hmem hmem' hdistinct
    rw [(hs.tiled p).uaddr hmem']
    change (s.arenas p).addr + buf.offset + buf.size ≤ _ ∨ _ ≤ (s.arenas p).addr + buf.offset
    omega
  · have huser' : buf.allowUserFree = true := huser
    change (s.writeFreeBuffer p (buf.load (s.arenas p).addr).address).2 = none
    rw [writeFreeBuffer, ← haddr, bufferLookup_uaddr hs hused]
    simp only [huser', not_true_eq_false, if_false]
    split <;> rfl

/-- **Delivered buffers are stable** in a run that leaves clients' buffers
alone: from the step that gives its address away until the client frees it or
closes, a buffer is where it was, apart from all others, and can be freed. -/
theorem delivered_stays {addr size : Nat} (h : Outstanding KeepsGiven s p b addr size) :
    HeldAt s p b addr size := by
  have hgiven : ∃ load, s.view.Given p b load ∧ load.address = addr ∧ load.size = size := by
    induction h with
    | @announced s a p t x buf h hok hann =>
        have hst := Reachable.steady h.reachable
        obtain ⟨hused, hgiven⟩ := hann.given hst.sound hst.base hok.cut
        obtain ⟨⟨hmem, -⟩, -⟩ := (hst.sound.arenas p).used_eq_some.mp hused
        exact ⟨_, hgiven, ((hst.sound.tiled p).uaddr hmem).symm, rfl⟩
    | @kept s p b addr size h a hok hfree hclose ih =>
        obtain ⟨load, hgiven, rfl, rfl⟩ := ih
        have hreach := h.reaches.reachable
        have hst := Reachable.steady hreach
        have hacts := act_refines hst.sound hst.base hst.aimed a
        exact ⟨load, hacts.retains hst.base hreach.unread hok hfree hclose hgiven, rfl, rfl⟩
  obtain ⟨load, hgiven, rfl, rfl⟩ := hgiven
  exact heldAt_of_given (Reachable.steady h.reaches.reachable).sound hgiven

/-! ## Runs to look at -/

/-- The process, buffer, address and size a turn of a read announces, if it
announces one. -/
def announcement (s : Driver) (env : Env) (th : ThreadId) :
    Option (ProcId × BufferId × Nat × Nat) := do
  let thread ← s.threads th
  let rc ← s.calls th
  let rc' ← (s.act (.readTurn env th)).calls th
  match s.nextWork th thread with
  | some (.transaction t, _) =>
      let x ← s.txns t
      let buf ← x.buffer.bind (s.findBuffer thread.proc)
      if rc.cmds ++ [(s.deliveryCmd buf, describe x buf (buf.targetNode.bind s.nodes)
          (s.bufferUaddr thread.proc buf) ++ [])] <+: rc'.cmds then
        some (thread.proc, buf.id, s.bufferUaddr thread.proc buf, buf.size)
      else none
  | _ => none

/-- What is announced is outstanding from then on. -/
theorem outstanding_of_announcement {ok : Driver → Action → Prop} {env : Env} {th : ThreadId}
    {addr size : Nat} (h : Reaches ok s) (hok : ok s (.readTurn env th))
    (hann : s.announcement env th = some (p, b, addr, size)) :
    Outstanding ok (s.act (.readTurn env th)) p b addr size := by
  obtain ⟨thread, hth, hann⟩ := Option.bind_eq_some_iff.mp hann
  obtain ⟨rc, hrc, hann⟩ := Option.bind_eq_some_iff.mp hann
  obtain ⟨rc', hrc', hann⟩ := Option.bind_eq_some_iff.mp hann
  split at hann
  · rename_i t fromProc hnext
    obtain ⟨x, hx, hann⟩ := Option.bind_eq_some_iff.mp hann
    obtain ⟨buf, hbuf, hann⟩ := Option.bind_eq_some_iff.mp hann
    split at hann
    · rename_i hcmds
      obtain ⟨more, hmore⟩ := hcmds
      cases hann
      exact .announced h hok (.mk env th thread fromProc rc rc' [] more hth rfl hnext hx hbuf hrc
        hrc' (by rw [← hmore, List.append_assoc]; rfl))
    · cases hann
  · cases hann

/-- Neither a free of `addr` nor the end of process `p`. -/
def leavesAlone (p : ProcId) (addr : Nat) : Action → Bool
  | .command _ _ (.freeBuffer ptr) => ptr ≠ addr
  | .devClose q => q ≠ p
  | _ => true

/-- It is outstanding as long as it is left alone. -/
theorem Outstanding.run {ok : Driver → Action → Prop} {check : Driver → Action → Bool}
    (himp : ∀ s a, Reachable s → check s a = true → ok s a) {addr size : Nat}
    (h : Outstanding ok s p b addr size) (as : List Action)
    (has : checks (fun s a => check s a && leavesAlone p addr a) s as = true) :
    Outstanding ok (s.run as) p b addr size := by
  induction as generalizing s with
  | nil => exact h
  | cons a as ih =>
      simp only [checks, Bool.and_eq_true] at has
      obtain ⟨⟨hcheck, halone⟩, hrest⟩ := has
      refine ih (.kept h a (himp s a h.reaches.reachable hcheck) ?_ ?_) hrest
      · rintro ⟨env, th, rfl, -⟩
        simp [leavesAlone] at halone
      · rintro rfl
        simp [leavesAlone] at halone

/-- A check of a step that leaves clients' buffers alone. -/
def keepsGivenCheck (s : Driver) : Action → Bool
  | .readTurn env th => (s.calls th).all fun rc => !(s.secctxNext th && decide (rc.CutsShort env))
  | .threadExit th => !s.owesHeld th
  | _ => true

theorem keepsGiven_of_check (h : s.keepsGivenCheck a = true) : KeepsGiven s a := by
  constructor
  · rintro env th rc rfl hrc ⟨hnext, hcut⟩
    rw [keepsGivenCheck, hrc, Option.all_some, hnext, decide_eq_true hcut] at h
    exact absurd h (by decide)
  · rintro th rfl
    rw [keepsGivenCheck, Bool.not_eq_true'] at h
    exact h

theorem run_cons (s : Driver) (a : Action) (as : List Action) :
    s.run (a :: as) = (s.act a).run as := rfl

/-- The oneway transaction of `tellAndDeliver`, up to the turn that delivers
it. -/
def tellUndelivered : List Action := tellAndDeliver.take 8

/-- The receiving thread exits and the buffer is still its process's to free. -/
theorem delivered_stays_exit :
    (twoProcessesUp.run tellUndelivered).announcement {} 6 = some (5, 7, 0x200000, 8) ∧
      HeldAt ((twoProcessesUp.run tellUndelivered).run
        [.readTurn {} 6, .readTurn {} 6, .leave 6, .threadExit 6]) 5 7 0x200000 8 := by
  have himp : ∀ (s : Driver) (a : Action), Reachable s → s.keepsGivenCheck a = true →
      KeepsGiven s a := fun _ _ _ h => keepsGiven_of_check h
  have hup := Reaches.run himp .init twoProcesses (by decide +kernel)
  have htell := Reaches.run himp hup tellUndelivered (by decide +kernel)
  have hann : (twoProcessesUp.run tellUndelivered).announcement {} 6 =
      some (5, 7, 0x200000, 8) := by
    decide +kernel
  have hout := outstanding_of_announcement htell (keepsGiven_of_check (by decide +kernel)) hann
  refine ⟨hann, ?_⟩
  rw [run_cons]
  exact delivered_stays (hout.run himp _ (by decide +kernel))

/-- Process 5 calls the manager, and thread 2 is about to receive the call. -/
def callUndelivered : List Action :=
  [({ data := LittleEndian.leBytes 8 7 } : Message).send 6, .command {} 2 .enterLooper,
    .readStart {} 2 0x9000 256 0]

/-- **A buffer taken back.**  The thread that received the call exits without an
answer: its process has neither freed the buffer nor closed, yet the buffer is
gone and freeing it is refused. -/
theorem delivered_taken_back :
    Outstanding (fun _ _ => True) ((twoProcessesUp.run callUndelivered).run
        [.readTurn {} 2, .readTurn {} 2, .leave 2, .threadExit 2]) 1 3 0x100000 8 ∧
      (((twoProcessesUp.run callUndelivered).run
        [.readTurn {} 2, .readTurn {} 2, .leave 2, .threadExit 2]).arenas 1).used 3 = none ∧
      (((twoProcessesUp.run callUndelivered).run
        [.readTurn {} 2, .readTurn {} 2, .leave 2, .threadExit 2]).writeFreeBuffer 1 0x100000).2 =
          some .einval := by
  have hcall : Reachable (twoProcessesUp.run callUndelivered) :=
    (Reachable.run .init twoProcesses).run _
  have hout : Outstanding (fun _ _ => True)
      ((twoProcessesUp.run callUndelivered).act (.readTurn {} 2)) 1 3 0x100000 8 :=
    outstanding_of_announcement hcall trivial (by decide +kernel)
  have htrue : ∀ (s : Driver) (a : Action), Reachable s → true = true → True :=
    fun _ _ _ _ => trivial
  refine ⟨?_, by decide +kernel, by decide +kernel⟩
  rw [run_cons]
  exact hout.run htrue _ (by decide +kernel)

end Driver

end Binder
