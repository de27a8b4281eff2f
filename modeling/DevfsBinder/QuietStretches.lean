import DevfsBinder.ObjectEffects

/-!
# Stretches that leave objects alone

Between two calls of the accounting an action moves transactions, errors and
completions about, reserves and gives back buffers, and wakes sleepers.  A
`Lull` is such a stretch: it keeps the tables sound, brings no new payload into
an arena and leaves death notices where they are.  One lemma for each elementary
change.
-/

namespace Binder

namespace Driver

variable {A B : Kind → Prop} {s s' s'' : Driver}

theorem Loads.mono (h : Loads A s s') (himp : ∀ k, A k → B k) : Loads B s s' where
  weak hw := (h.weak hw).imp_left (himp _)
  names p n hn := (h.names p n hn).imp_left (himp _)

/-! ## Lulls -/

/-- A stretch that leaves the tables of processes and contexts alone. -/
theorem Aside.same (hobj : s'.objects = s.objects)
    (hnews : ∀ n, s'.queues.loc (.node n) = s.queues.loc (.node n))
    (hprocs : s'.procs = s.procs) (hcontexts : s'.contexts = s.contexts)
    (hhome : ∀ th, (s'.threads th).map (·.proc) = (s.threads th).map (·.proc))
    (htold : ∀ n, s'.toldAbout n = s.toldAbout n) (hid : s.nextId ≤ s'.nextId) :
    Aside s s' :=
  ⟨hobj, hnews, fun p => by rw [procAlive, procAlive, hprocs], fun p => by rw [hprocs],
    fun _ _ hc => hcontexts ▸ hc, .same hcontexts, hhome, htold, hid⟩

/-- Queueing anything but news about an object. -/
theorem Aside.enqueue (s : Driver) (q : Queue) {w : Work} (head : Bool)
    (hnews : ∀ n, w ≠ .node n) : Aside s { s with queues := s.queues.insert q w head } :=
  .same rfl (fun n => Queues.insert_loc_of_ne _ _ _ fun h => hnews n h.symm) rfl rfl
    (fun _ => rfl) (fun _ => rfl) (Nat.le_refl _)

structure Lull (s s' : Driver) : Prop where
  aside : Aside s s'
  sound : Sound s'
  loads : Loads (fun _ => False) s s'
  undisturbed : Undisturbed s s'
  concludes : Concludes (fun _ => False) s s'

namespace Lull

theorem refl (hs : Sound s) : Lull s s := ⟨.refl s, hs, .refl s, .refl s, .same rfl⟩

theorem trans (h : Lull s s') (h' : Lull s' s'') : Lull s s'' :=
  ⟨h.aside.trans h'.aside, h'.sound, h.loads.trans h'.loads,
    h.undisturbed.trans h'.undisturbed, h.concludes.trans h'.concludes⟩

theorem moves (h : Lull s s') : Moves A s s' :=
  h.aside.moves h.sound (h.loads.mono fun _ => False.elim) h.undisturbed
    (h.concludes.mono fun _ => False.elim)

theorem settled (h : Lull s s') (hset : Settled s) : Settled s' := hset.aside h.aside

/-- A change of nothing `Sound` or an owner could notice. -/
theorem same (hs : Sound s) (hcore : s'.core = s.core) (hprocs : s'.procs = s.procs)
    (hcontexts : s'.contexts = s.contexts) (htold : s'.told = s.told)
    (hrecords : s'.records = s.records) : Lull s s' := by
  have hsound := hs.same hcore
  simp only [core, Prod.mk.injEq] at hcore
  obtain ⟨hobj, hqueues, -, harenas, hthreads, -, hid⟩ := hcore
  exact ⟨.same hobj (fun n => by rw [hqueues]) hprocs hcontexts (fun th => by rw [hthreads])
    (fun n => by rw [toldAbout, toldAbout, htold]) (Nat.le_of_eq hid.symm), hsound, .same harenas,
    .same hrecords hqueues htold, .same hqueues⟩

theorem note (hs : Sound s) (e : Event) : Lull s (s.note e) := same hs rfl rfl rfl rfl rfl

theorem updStats (hs : Sound s) (f : Stats → Stats) : Lull s (s.updStats f) :=
  same hs rfl rfl rfl rfl rfl

theorem wakeupProc (hs : Sound s) (p : ProcId) : Lull s (s.wakeupProc p) :=
  same hs rfl rfl rfl rfl rfl

theorem wakeupThread (hs : Sound s) (th : ThreadId) : Lull s (s.wakeupThread th) := by
  unfold Driver.wakeupThread
  split <;> exact same hs rfl rfl rfl rfl rfl

/-- A context changes, in nothing but who may manage it. -/
theorem updContext (hs : Sound s) (c : Nat) {f : Context → Context}
    (hf : ∀ ctx, (f ctx).mgrNode = ctx.mgrNode)
    (huid : (s.contexts c).Honours (f (s.contexts c))) : Lull s (s.updContext c f) := by
  refine ⟨⟨rfl, fun _ => rfl, fun _ => rfl, fun _ => rfl, ?_, .updContext huid, fun _ => rfl,
    fun _ => rfl, Nat.le_refl _⟩, hs.same rfl, .same rfl, .same rfl rfl rfl, .same rfl⟩
  intro c' n hc
  by_cases h : c' = c
  · subst h
    simpa [Driver.updContext, hf] using hc
  · simpa [Driver.updContext, h] using hc

theorem bumpId (hs : Sound s) : Lull s s.bumpId :=
  ⟨.same rfl (fun _ => rfl) rfl rfl (fun _ => rfl) (fun _ => rfl) (Nat.le_succ _), hs.bumpId,
    .same rfl, .same rfl rfl rfl, .same rfl⟩

theorem updThread (hs : Sound s) (th : ThreadId) {f : Thread → Thread}
    (hf : ∀ thread, (f thread).proc = thread.proc) : Lull s (s.updThread th f) := by
  refine ⟨.same rfl (fun _ => rfl) rfl rfl ?_ (fun _ => rfl) (Nat.le_refl _),
    hs.updThread th hf, .same rfl, .same rfl rfl rfl, .same rfl⟩
  intro th'
  by_cases h : th' = th
  · subst h
    cases hth : s.threads th' <;> simp [Driver.updThread, hth, hf]
  · simp [Driver.updThread, h]

theorem setStack (hs : Sound s) (th : ThreadId) (top : Option TxnId) :
    Lull s (s.setStack th top) :=
  updThread hs th fun _ => rfl

/-- A change of a process that keeps its context and its life. -/
theorem updProc (hs : Sound s) (p : ProcId) {f : Proc → Proc}
    (hdead : ∀ proc, (f proc).isDead = proc.isDead)
    (hctx : ∀ proc, (f proc).context = proc.context) : Lull s (s.updProc p f) := by
  refine ⟨⟨rfl, fun _ => rfl, ?_, ?_, fun _ _ h => h, .same rfl, fun _ => rfl, fun _ => rfl,
    Nat.le_refl _⟩, hs.same rfl, .same rfl, .same rfl rfl rfl, .same rfl⟩
  · intro p'
    by_cases h : p' = p
    · subst h
      cases hp : s.procs p' <;> simp [procAlive, Driver.updProc, hp, hdead]
    · simp [procAlive, Driver.updProc, h]
  · intro p'
    by_cases h : p' = p
    · subst h
      cases hp : s.procs p' <;> simp [Driver.updProc, hp, hctx]
    · simp [Driver.updProc, h]

/-- Queueing a transaction or an error. -/
theorem enqueue (hs : Sound s) {q : Queue} {w : Work} (head : Bool)
    (hnews : ∀ n, w ≠ .node n) (hdeath : ∀ d, w ≠ .death d) (hcomplete : ∀ c, w ≠ .complete c)
    (hw : ∀ t, w = .transaction t → t < s.nextId)
    (hq : ∀ n, q ≠ .node n) : Lull s { s with queues := s.queues.insert q w head } :=
  ⟨.enqueue s q head hnews, hs.enqueue w head hw hq, .same rfl, .enqueue s q head hdeath,
    .enqueue s q head hcomplete⟩

theorem dequeue (hs : Sound s) {w : Work} (hnews : ∀ n, w ≠ .node n)
    (hdeath : ∀ d, w ≠ .death d) : Lull s (s.dequeueWork w) := by
  refine ⟨.same rfl (fun n => ?_) rfl rfl (fun _ => rfl) (fun _ => rfl) (Nat.le_refl _),
    hs.dequeue w, .same rfl, .dequeue s hdeath, .dequeue s w⟩
  rw [dequeueWork, Queues.remove_loc, if_neg fun h => hnews n h.symm]

theorem linkBehindNode (hs : Sound s) {n : NodeId} {t : TxnId} {x : Txn}
    (hx : s.txns t = some x) (ho : x.Oneway) (ht : t < s.nextId)
    (hloc : s.queues.loc (.transaction t) = none) : Lull s (s.linkBehindNode n t) := by
  have hsame : ∀ w, w ≠ .transaction t →
      (s.linkBehindNode n t).queues.loc w = s.queues.loc w := by
    intro w hw
    rw [Driver.linkBehindNode, Queues.link_eq_insert hloc]
    exact Queues.insert_loc_of_ne _ _ _ hw
  exact ⟨.same rfl (fun m => hsame _ (by simp)) rfl rfl (fun _ => rfl) (fun _ => rfl)
    (Nat.le_refl _), hs.linkBehindNode hx ho ht hloc, .same rfl,
    ⟨rfl, fun d => hsame _ (by simp), fun _ => rfl⟩,
    fun c q hq => .inl (hsame (.complete c) (by simp) ▸ hq)⟩

/-- A change of the transaction table alone. -/
theorem setTxns {txns : Table Txn} (h : Sound { s with txns := txns }) :
    Lull s { s with txns := txns } :=
  ⟨.same rfl (fun _ => rfl) rfl rfl (fun _ => rfl) (fun _ => rfl) (Nat.le_refl _), h,
    .same rfl, .same rfl rfl rfl, .same rfl⟩

theorem updTxn (hs : Sound s) (t : TxnId) {f : Txn → Txn} (hf : ∀ x, x.Oneway → (f x).Oneway) :
    Lull s (s.updTxn t f) :=
  setTxns (hs.updTxn t hf)

/-- A change of the arenas alone. -/
theorem setArenas {arenas : ProcId → Arena} (h : Sound { s with arenas := arenas })
    (hl : Loads (fun _ => False) s { s with arenas := arenas }) :
    Lull s { s with arenas := arenas } :=
  ⟨.same rfl (fun _ => rfl) rfl rfl (fun _ => rfl) (fun _ => rfl) (Nat.le_refl _), h,
    hl, .same rfl rfl rfl, .same rfl⟩

theorem popFrom (hs : Sound s) (th : Option ThreadId) (t : TxnId) (parent : Option TxnId) :
    Lull s (s.popFrom th t parent) := by
  cases th with
  | none => exact refl hs
  | some th =>
      refine updThread hs th fun thread => ?_
      split <;> rfl

theorem detachBuffer (hs : Sound s) (p : ProcId) (b : Option BufferId) :
    Lull s (s.detachBuffer p b) := by
  cases b with
  | none => exact refl hs
  | some b =>
      exact setArenas (hs.detachBuffer p (some b)) (Kept.detachBuffer s p (some b)).loads

theorem freeTransaction (hs : Sound s) (t : TxnId) : Lull s (s.freeTransaction t) := by
  have hsound := hs.freeTransaction t
  unfold Driver.freeTransaction at hsound ⊢
  split
  · exact refl hs
  · rename_i x hx
    rw [hx] at hsound
    have h₁ : Lull s (s.dequeueWork (.transaction t)) := dequeue hs (by simp) (by simp)
    have h₂ := h₁.trans (popFrom h₁.sound x.fromThread t x.fromParent)
    have h₃ := h₂.trans (popFrom h₂.sound x.toThread t x.toParent)
    have h₄ := h₃.trans (detachBuffer h₃.sound x.toProc x.buffer)
    refine h₄.trans ⟨.same rfl (fun _ => rfl) rfl rfl (fun _ => rfl) (fun _ => rfl)
      (Nat.le_refl _), hsound, .same rfl, .same rfl rfl rfl, .same rfl⟩

theorem bufferFree (hs : Sound s) (p : ProcId) (b : BufferId) : Lull s (s.bufferFree p b) := by
  have hsound := hs.bufferFree p b
  have hkept := Kept.bufferFree hs p b
  unfold Driver.bufferFree at hsound hkept ⊢
  split
  · exact refl hs
  · rename_i buf hfind
    split
    · exact refl hs
    · rename_i hfree
      rw [hfind] at hsound hkept
      simp only [hfree] at hsound hkept
      exact ⟨.same rfl (fun _ => rfl) rfl rfl (fun _ => rfl) (fun _ => rfl)
        (Nat.le_refl _), hsound, hkept.loads, .same rfl rfl rfl, .same rfl⟩

theorem queueError (hs : Sound s) (th : ThreadId) (br : BR) : Lull s (s.queueError th br) := by
  have h₁ : Lull s (s.updThread th fun thread => { thread with returnError := br }) :=
    updThread hs th fun _ => rfl
  exact h₁.trans (enqueue (q := .thread th) (w := .returnError th) h₁.sound false (by simp)
    (by simp) (by simp) (by simp) (by simp))

theorem txnError (hs : Sound s) (th : ThreadId) (br : BR) : Lull s (s.txnError th br) := by
  have h₁ := updStats hs fun st => { st with failedTransactions := st.failedTransactions + 1 }
  have h₂ := h₁.trans (queueError h₁.sound th br)
  exact h₂.trans (note h₂.sound _)

theorem failCaller (hs : Sound s) (sender : Option ThreadId) (t : TxnId) (br : BR) :
    Lull s (s.failCaller sender t br) := by
  unfold Driver.failCaller
  split
  · exact refl hs
  · split
    · exact refl hs
    · split
      · exact refl hs
      · rename_i th _ _ _ _
        have h₁ := queueError hs th br
        have h₂ := h₁.trans (wakeupThread h₁.sound th)
        exact h₂.trans (note h₂.sound _)

theorem failUndelivered (hs : Sound s) (t : TxnId) (br : BR) :
    Lull s (s.failUndelivered t br) := by
  unfold Driver.failUndelivered
  split
  · exact failCaller hs _ t br
  · exact note hs _

/-! ### Arenas -/

/-- An arena without a used buffer takes the place of another. -/
theorem resetArena (hs : Sound s) {p : ProcId} {a : Arena} (ha : ArenaOk a s.nextId)
    (htiled : Tiled a) (hfree : ∀ buf ∈ a.buffers, buf.free = true) :
    Lull s { s with arenas := Function.update s.arenas p a } := by
  refine setArenas (hs.setArena ha htiled) (Kept.loads ?_)
  intro p' buf huses
  by_cases hp : p' = p
  · subst hp
    have hused := huses.used
    rw [hfree buf (by simpa using huses.mem)] at hused
    cases hused
  · exact ⟨buf, ⟨by simpa [hp] using huses.mem, huses.used⟩, .refl buf⟩

theorem arenaTeardown (hs : Sound s) (p : ProcId) : Lull s (s.arenaTeardown p) := by
  have h₁ : Lull s (s.updArena p fun _ => {}) := resetArena hs (ArenaOk.empty _) .empty (by simp)
  exact h₁.trans (updStats h₁.sound _)

/-- A fresh arena holds no payload. -/
theorem arenaRegister (hs : Sound s) (env : Env) (p : ProcId) (addr size : Nat) :
    Lull s (s.arenaRegister env p addr size).1 := by
  have htiled := (arenaRegister_keeps (hs.arenas p) (hs.tiled p) env addr size).2
  revert htiled
  unfold Driver.arenaRegister
  split
  · exact fun _ => refl hs
  split
  · exact fun _ => refl hs
  rename_i hsize
  split
  · exact fun _ => refl hs
  split
  · exact fun _ => refl hs
  have hbump := bumpId hs
  unfold allocMem
  cases env.allocOk s.nextId with
  | false => exact fun _ => hbump
  | true =>
      simp only [if_true]
      intro htiled
      simp only [Driver.updStats, Driver.updArena, Function.update_self] at htiled
      have hne : size ≠ 0 := by
        have hmin : 0 < arenaMin := by decide
        omega
      have h₂ : Lull s.bumpId (s.bumpId.updArena p fun _ =>
          { addr := addr
            size := size
            freeAsyncSpace := size / asyncFraction
            buffers := [{ id := s.nextId, offset := 0, size := size }] }) := by
        refine resetArena hbump.sound ⟨by simp, ?_, fun h => absurd h hne, ?_, by simp⟩ htiled
          (by simp)
        · intro buf hbuf
          rw [List.mem_singleton.mp hbuf]
          exact Nat.lt_succ_self _
        · intro buf hbuf _
          rw [List.mem_singleton.mp hbuf]
          rfl
      exact hbump.trans (h₂.trans (updStats h₂.sound _))

end Lull

/-- An allocation changes one arena, and may use up an address. -/
theorem bufferAlloc_shape (env : Env) (s : Driver) (p : ProcId) (d o e : Nat) (isAsync : Bool) :
    ∃ a id, s.nextId ≤ id ∧ (s.bufferAlloc env p d o e isAsync).2 =
      { s with arenas := Function.update s.arenas p a, nextId := id } := by
  rcases s.bufferAlloc_ends env p d o e isAsync with heq | heq |
    ⟨hole, split, s₁, -, -, -, ⟨-, rfl, -⟩ | ⟨-, rfl, -⟩, heq⟩ <;> rw [heq]
  · exact ⟨s.arenas p, s.nextId, Nat.le_refl _, by simp⟩
  · exact ⟨s.arenas p, s.nextId + 1, Nat.le_succ _, by simp [bumpId]⟩
  · exact ⟨_, s₁.nextId, Nat.le_refl _, rfl⟩
  · exact ⟨_, s.nextId + 1, Nat.le_succ _, rfl⟩

/-- The allocations of an arena after a reservation: the old ones and, if it
succeeded, a blank one of the sizes asked for. -/
theorem bufferAlloc_uses (env : Env) (p : ProcId) (d o e : Nat) (isAsync : Bool)
    {p' : ProcId} {buf : Buffer}
    (huses : (s.bufferAlloc env p d o e isAsync).2.Uses p' buf) :
    s.Uses p' buf ∨ buf.kdata = none ∧ buf.targetNode = none ∧ p' = p ∧
      (s.bufferAlloc env p d o e isAsync).1 = some buf.id ∧ buf.dataSize = d ∧
        buf.offsetsSize = o := by
  rcases s.bufferAlloc_ends env p d o e isAsync with heq | heq |
    ⟨hole, split, s₁, hfit, -, -, hsplit, heq⟩ <;> rw [heq] at huses ⊢
  · exact .inl huses
  · exact .inl ⟨huses.mem, huses.used⟩
  have harenas : s₁.arenas = s.arenas := by
    rcases hsplit with ⟨-, rfl, -⟩ | ⟨-, rfl, -⟩ <;> rfl
  have hmem := huses.mem
  have hused := huses.used
  by_cases hp : p' = p
  · subst hp
    obtain ⟨l₁, l₂, hbufs, -, -, hplace⟩ := firstFit_spec hfit
    simp only [updArena, harenas, Function.update_self, hplace, List.mem_append] at hmem
    have hold : buf ∈ l₁ ∨ buf ∈ l₂ → s.Uses p' buf := fun h =>
      ⟨by rw [hbufs]; simp only [List.mem_append, List.mem_cons]; tauto, hused⟩
    rcases hmem with (hmem | hmem) | hmem
    · exact .inl (hold (.inl hmem))
    · cases split with
      | none =>
          rw [List.mem_singleton.mp hmem]
          exact .inr ⟨rfl, rfl, rfl, rfl, rfl, rfl⟩
      | some id =>
          rcases List.mem_cons.mp hmem with rfl | hmem
          · exact .inr ⟨rfl, rfl, rfl, rfl, rfl, rfl⟩
          · -- the remainder is free
            rw [List.mem_singleton.mp hmem] at hused
            cases hused
    · exact .inl (hold (.inr hmem))
  · simp only [updArena, harenas, Function.update_of_ne hp] at hmem
    exact .inl ⟨hmem, hused⟩

/-- **An allocation is a lull.** -/
theorem Lull.bufferAlloc (hs : Sound s) (env : Env) (p : ProcId) (d o e : Nat) (isAsync : Bool) :
    Lull s (s.bufferAlloc env p d o e isAsync).2 := by
  have hsound := (bufferAlloc_cases hs env p d o e isAsync).1
  have hloads : Loads (fun _ => False) s (s.bufferAlloc env p d o e isAsync).2 := by
    refine ⟨?_, ?_⟩
    · rintro ⟨p', buf, kdata, huses, hkdata, hweak⟩
      rcases bufferAlloc_uses env p d o e isAsync huses with huses | ⟨hnone, -⟩
      · exact .inr ⟨p', buf, kdata, huses, hkdata, hweak⟩
      · rw [hnone] at hkdata
        cases hkdata
    · rintro p' n ⟨buf, huses, hn⟩
      rcases bufferAlloc_uses env p d o e isAsync huses with huses | ⟨-, hnone, -⟩
      · exact .inr ⟨buf, huses, hn⟩
      · rw [hnone] at hn
        cases hn
  obtain ⟨a, id, hid, heq⟩ := bufferAlloc_shape env s p d o e isAsync
  rw [heq] at hsound hloads ⊢
  exact ⟨.same rfl (fun _ => rfl) rfl rfl (fun _ => rfl) (fun _ => rfl) hid, hsound, hloads,
    .same rfl rfl rfl, .same rfl⟩

end Driver

end Binder
