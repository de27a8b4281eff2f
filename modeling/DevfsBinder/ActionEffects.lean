import DevfsBinder.CommandEffects
import DevfsBinder.ReadRefinement

/-!
# Every action is a sequence of effects

`Occurs s a k` says that action `a`, taken in state `s`, may have an effect of
kind `k`; everything else an action does to objects is of no particular kind.
The result, `act_moves`, is that every action of a sound state is a sequence of
effects of kinds that occur in it.
-/

namespace Binder

namespace Driver

variable {A : Kind → Prop} {s s' s'' : Driver}

/-! ## Becoming the manager -/

/-- **A registration**: the uid is noted, a node is made, and it becomes manager. -/
theorem contextMgrSet_moves (hs : Sound s) (env : Env) {p : ProcId} (hp : p < s.nextId)
    (hM : A (.make p)) (ptr cookie flags : Nat)
    (hA : ∀ c n, ((s.contextMgrSet env p ptr cookie flags).1.contexts c).mgrNode = some n →
      A (.manager n)) : Moves A s (s.contextMgrSet env p ptr cookie flags).1 := by
  unfold contextMgrSet at hA ⊢
  split
  · exact .refl s
  · rename_i proc hproc
    rw [hproc] at hA
    simp only at hA ⊢
    split
    · exact .refl s
    · rename_i hfree
      rw [if_neg hfree] at hA
      split
      · exact .refl s
      · rename_i huid
        rw [if_neg huid] at hA
        have hctx : Lull s (s.updContext proc.context fun ctx =>
            { ctx with mgrUid := env.uid, mgrUidValid := true }) := by
          refine Lull.updContext hs proc.context (fun _ => rfl) fun hvalid => ⟨rfl, ?_⟩
          exact (Decidable.not_not.mp fun hne => huid ⟨hvalid, hne⟩).symm
        obtain ⟨hnew, hnode⟩ := nodeNew_moves (A := A) hctx.sound env ptr cookie flags hp hM
        have hprocs := ((s.updContext proc.context fun ctx => { ctx with
          mgrUid := env.uid, mgrUidValid := true }).nodeNew_kept env p ptr cookie flags).2.1
        generalize (s.updContext proc.context fun ctx =>
          { ctx with mgrUid := env.uid, mgrUidValid := true }).nodeNew env p ptr cookie flags = r
          at hnew hnode hA hprocs
        obtain ⟨_ | n, s₁⟩ := r
        · exact hctx.moves.trans hnew
        · obtain ⟨nd, hn, hown⟩ := hnode n rfl
          have hs₁ := hnew.sound hctx.sound
          refine hctx.moves.trans (hnew.trans ?_)
          have hctx₁ : Calm s₁ (s₁.updContext proc.context fun ctx =>
              { ctx with mgrNode := some n }) :=
            .idle (.same rfl rfl rfl) rfl rfl rfl rfl (Nat.le_refl _)
          refine (Effect.manager proc.context n ?_ ⟨nd, p, proc, hn, hown, ?_, rfl⟩).moves
            (O := fun _ => True) hs₁
            ((ObjectStep.context _ _ fun hvalid => ⟨hvalid, rfl⟩).steps.trans
              (ObjectStep.count n _ ?_).steps)
            (hctx₁.trans (.updNode (f := Node.managed) _ n (fun _ => rfl) fun _ => rfl)).notices
          · exact hA proc.context n (by simp [updNode, updContext])
          · rw [hprocs]
            exact hproc
          · exact ⟨by simp, by simp, by simp, by simp⟩

/-! ## Teardown -/

/-- Nothing dies, no node changes hands, news that wait for a particular thread
were waiting for it before, and so were death notices anywhere. -/
structure Abides (s s' : Driver) : Prop where
  alive : ∀ p, s'.procAlive p = s.procAlive p
  owner : ∀ n nd', s'.nodes n = some nd' → ∃ nd, s.nodes n = some nd ∧ nd'.proc = nd.proc
  direct : ∀ n th, s'.queues.loc (.node n) = some (.thread th) →
    s.queues.loc (.node n) = some (.thread th)
  recedes : Recedes s s'
  home : ∀ th, (s'.threads th).map (·.proc) = (s.threads th).map (·.proc)
  nextId : s.nextId ≤ s'.nextId

theorem Abides.refl (s : Driver) : Abides s s :=
  ⟨fun _ => rfl, fun _ nd hn => ⟨nd, hn, rfl⟩, fun _ _ h => h, fun _ _ h => h, fun _ => rfl,
    Nat.le_refl _⟩

theorem Abides.trans (h : Abides s s') (h' : Abides s' s'') : Abides s s'' where
  alive p := (h'.alive p).trans (h.alive p)
  owner n nd'' hn'' := by
    obtain ⟨nd', hn', hproc'⟩ := h'.owner n nd'' hn''
    obtain ⟨nd, hn, hproc⟩ := h.owner n nd' hn'
    exact ⟨nd, hn, hproc'.trans hproc⟩
  direct n th hq := h.direct n th (h'.direct n th hq)
  recedes := h.recedes.trans h'.recedes
  home th := (h'.home th).trans (h.home th)
  nextId := Nat.le_trans h.nextId h'.nextId

theorem Lull.abides (h : Lull s s') : Abides s s' := by
  obtain ⟨hnodes, -⟩ := Objects.mk.inj h.aside.objects
  exact ⟨h.aside.alive, fun n nd hn => ⟨nd, hnodes ▸ hn, rfl⟩,
    fun n th hq => h.aside.news n ▸ hq, h.undisturbed.recedes, h.aside.home, h.aside.nextId⟩

theorem Accounted.abides (h : Accounted none s s') (hr : Recedes s s') : Abides s s' where
  alive p := by rw [procAlive, procAlive, h.procs]
  owner n nd' hn' := by
    obtain ⟨nd, hn, hsame⟩ := h.back n nd' hn'
    exact ⟨nd, hn, hsame.proc⟩
  direct n th hq := by
    rcases h.news n _ hq with hq | ⟨nd, p, -, -, hplace | ⟨_, hth, -⟩⟩
    · exact hq
    · cases hplace
    · cases hth
  recedes := hr
  home th := by rw [h.threads]
  nextId := h.nextId

theorem Abides.dequeue (s : Driver) (w : Work) : Abides s (s.dequeueWork w) := by
  refine ⟨fun _ => rfl, fun _ nd hn => ⟨nd, hn, rfl⟩, ?_, .dequeue s w, fun _ => rfl,
    Nat.le_refl _⟩
  intro n th hq
  simp only [dequeueWork, Queues.remove_loc] at hq
  split at hq
  · cases hq
  · exact hq

/-- Effects of a teardown. -/
structure Quits (A : Kind → Prop) (s s' : Driver) : Prop where
  moves : Moves A s s'
  abides : Abides s s'

theorem Quits.refl (s : Driver) : Quits A s s := ⟨.refl s, .refl s⟩

theorem Quits.trans (h : Quits A s s') (h' : Quits A s' s'') : Quits A s s'' :=
  ⟨h.moves.trans h'.moves, h.abides.trans h'.abides⟩

theorem Lull.quits (h : Lull s s') : Quits A s s' := ⟨h.moves, h.abides⟩

theorem dequeueNode_calm (s : Driver) (n : NodeId) : Calm s (s.dequeueWork (.node n)) :=
  .idle (.dequeue s (by simp)) rfl rfl rfl rfl (Nat.le_refl _)

/-- A death notice is thrown away, if it still waits. -/
theorem dropNotice_quits (hs : Sound s) {p : ProcId} {d : DeathId}
    (hplace : ∀ q, s.queues.loc (.death d) = some q → s.ReadBy p q)
    (h : A (.notice (.lost d)) ∨ s.procAlive p = false) :
    Quits A s (s.dequeueWork (.death d)) := by
  refine ⟨?_, .dequeue s _⟩
  cases hq : s.queues.loc (.death d) with
  | none =>
      have hsame : s.dequeueWork (.death d) = s := by
        rw [dequeueWork, Queues.remove_of_unlinked hq]
      rw [hsame]
      exact .refl s
  | some q =>
      refine Move.moves ⟨.aside ?_, hs.dequeue _, .same rfl, .same rfl,
        (NoticeStep.lost p d q hq (hplace q hq) h).notices, .dequeue s _⟩
      refine .same rfl (fun n => ?_) rfl rfl (fun _ => rfl) (fun _ => rfl) (Nat.le_refl _)
      rw [dequeueWork, Queues.remove_loc, if_neg (by simp)]

theorem releaseObject_accounted (hs : Sound s) (p : ProcId) (kdata : LittleEndian.Bytes)
    (dataSize off : Nat) : Accounted none s (s.releaseObject p kdata dataSize off) :=
  releaseObject_rule s p kdata dataSize off (.refl s)
    (fun n strong _ => nodeUpdateRefs_accounted hs n strong false false none)
    fun _ r strong _ _ => refUpdate_accounted hs r strong false none

theorem releaseObjects_accounted (hs : Sound s) (p : ProcId) (kdata : LittleEndian.Bytes)
    (dataSize offsetsSize : Nat) :
    Accounted none s (s.releaseObjects p kdata dataSize offsetsSize) := by
  unfold releaseObjects
  generalize List.range (offsetsSize / 8) = l
  induction l generalizing s with
  | nil => exact .refl s
  | cons i l ih =>
      exact (releaseObject_accounted hs p kdata _ _).trans
        (ih (ObjectSteps.sound hs (releaseObject_steps hs p kdata _ _)))

theorem bufferRelease_accounted (hs : Sound s) (p : ProcId) (b : BufferId) :
    Accounted none s (s.bufferRelease p b) := by
  unfold bufferRelease
  split
  · exact .refl s
  · split
    · exact .refl s
    · exact releaseObjects_accounted hs p _ _ _

theorem releaseAndFree_quits (hs : Sound s) (p : ProcId) (b : BufferId)
    (hA : s.StoresWeak → A .weak) : Quits A s (s.releaseAndFree p b) := by
  have hrelease : Quits A s (s.bufferRelease p b) :=
    ⟨bufferRelease_moves hs p b hA,
      (bufferRelease_accounted hs p b).abides (bufferRelease_recedes hs p b)⟩
  exact hrelease.trans (Lull.bufferFree (hrelease.moves.sound hs) p b).quits

theorem dropTransaction_quits (hs : Sound s) (p : ProcId) (t : TxnId)
    (hA : s.StoresWeak → A .weak) : Quits A s (s.dropTransaction p t) := by
  unfold dropTransaction
  cases (s.txns t).bind (·.buffer) with
  | none => exact (Lull.freeTransaction hs t).quits
  | some b =>
      have hpayload := releaseAndFree_quits hs p b hA
      exact hpayload.trans (Lull.freeTransaction (hpayload.moves.sound hs) t).quits

/-- A call on a stack that is left: answered as dead, or its sender forgotten. -/
theorem releaseCall_quits (hs : Sound s) (p : ProcId) (th : ThreadId) (t : TxnId)
    (hA : s.StoresWeak → A .weak) : Quits A s (s.releaseCall p th t).1 := by
  unfold releaseCall
  split
  · exact .refl s
  · rename_i x _
    split
    · exact (Lull.updTxn hs t (f := fun x => { x with fromThread := none })
        fun _ ho => ⟨rfl, ho.toThread, ho.needReply⟩).quits
    · split
      · have hto : Lull s (s.updTxn t fun x => { x with toThread := none }) :=
          Lull.updTxn hs t fun _ ho => ⟨ho.fromThread, rfl, ho.needReply⟩
        have hquits : Quits A s (s.updTxn t fun x => { x with toThread := none }) := hto.quits
        cases x.buffer with
        | none => exact hquits.trans (Lull.failCaller hto.sound x.fromThread t .deadReply).quits
        | some b =>
            have hfree := hquits.trans
              (releaseAndFree_quits hto.sound p b (hquits.moves.weak hA))
            have hclear := Lull.updTxn (hfree.moves.sound hs) t (f := fun x =>
              { x with buffer := none }) fun _ ho => ⟨ho.fromThread, ho.toThread, ho.needReply⟩
            exact hfree.trans (hclear.trans
              (Lull.failCaller hclear.sound x.fromThread t .deadReply)).quits
      · exact .refl s

theorem releaseCalls_quits (hs : Sound s) (p : ProcId) (th : ThreadId) (fuel : Nat)
    (top : Option TxnId) (hA : s.StoresWeak → A .weak) :
    Quits A s (releaseCalls p th fuel s top) := by
  induction fuel generalizing s top with
  | zero => exact .refl s
  | succ fuel ih =>
      cases top with
      | none => exact .refl s
      | some t =>
          have hturn := releaseCall_quits hs p th t hA
          exact hturn.trans (ih (hturn.moves.sound hs) _ (hturn.moves.weak hA))

/-- One turn of the walk over a dying thread's work. -/
theorem releaseThreadWork_quits (hs : Sound s) (p : ProcId) (w : Work)
    (hA : s.StoresWeak → A .weak) (ht : ∀ t, w = .transaction t → t < s.nextId)
    (hdiscard : ∀ n, w = .node n → A (.discard n) ∨
      ∀ nd p', s.nodes n = some nd → nd.proc = some p' → s.procAlive p' = false)
    (hlost : ∀ d, w = .death d → (A (.notice (.lost d)) ∨ s.procAlive p = false) ∧
      ∀ q, s.queues.loc (.death d) = some q → s.ReadBy p q) :
    Quits A s (releaseThreadWork p s w) ∧
      (∀ n th, (releaseThreadWork p s w).queues.loc (.node n) = some (.thread th) →
        .node n ≠ w) ∧
      ∀ d th, (releaseThreadWork p s w).queues.loc (.death d) = some (.thread th) →
        .death d ≠ w := by
  unfold releaseThreadWork
  cases w with
  | transaction t =>
      have hout : Lull s (s.dequeueWork (.transaction t)) :=
        Lull.dequeue hs (by simp) (by simp)
      have hquits : Quits A s (s.dequeueWork (.transaction t)) := hout.quits
      refine ⟨?_, by simp, by simp⟩
      simp only
      split
      · refine hquits.trans (Lull.enqueue (q := .proc p) (w := .transaction t) hout.sound false
          (by simp) (by simp) (by simp) ?_ (by simp)).quits
        rintro _ ⟨⟩
        exact ht t rfl
      · have hdrop := hquits.trans
          (dropTransaction_quits hout.sound p t (hquits.moves.weak hA))
        exact hdrop.trans (Lull.note (hdrop.moves.sound hs) (.discard t)).quits
  | node n =>
      refine ⟨⟨Move.moves ⟨.discard n (hdiscard n rfl), hs.dequeue _, .same rfl, .same rfl,
        (dequeueNode_calm s n).notices, .dequeue s _⟩, .dequeue s _⟩, ?_, by simp⟩
      intro m th hm he
      rw [he] at hm
      simp [dequeueWork, Queues.remove_loc] at hm
  | complete c => exact ⟨(Lull.dequeue hs (by simp) (by simp)).quits, by simp, by simp⟩
  | returnError e => exact ⟨(Lull.dequeue hs (by simp) (by simp)).quits, by simp, by simp⟩
  | death d =>
      obtain ⟨hwhy, hplace⟩ := hlost d rfl
      refine ⟨dropNotice_quits hs hplace hwhy, by simp, ?_⟩
      intro d' th hd' he
      rw [he] at hd'
      simp [dequeueWork, Queues.remove_loc] at hd'

/-- The whole walk: no news and no notices are left for the thread. -/
theorem releaseThreadWorks_quits (hs : Sound s) {p : ProcId} {th : ThreadId} (l : List Work)
    (hhome : (s.threads th).map (·.proc) = some p)
    (hA : s.StoresWeak → A .weak) (ht : ∀ t, .transaction t ∈ l → t < s.nextId)
    (hall : ∀ n, s.queues.loc (.node n) = some (.thread th) → .node n ∈ l)
    (hdiscard : ∀ n, .node n ∈ l → A (.discard n) ∨
      ∀ nd p', s.nodes n = some nd → nd.proc = some p' → s.procAlive p' = false)
    (halld : ∀ d, s.queues.loc (.death d) = some (.thread th) → .death d ∈ l)
    (hlost : ∀ d, .death d ∈ l → (A (.notice (.lost d)) ∨ s.procAlive p = false) ∧
      ∀ q, s.queues.loc (.death d) = some q → q = .thread th) :
    Quits A s (l.foldl (releaseThreadWork p) s) ∧
      (∀ n, (l.foldl (releaseThreadWork p) s).queues.loc (.node n) ≠ some (.thread th)) ∧
      ∀ d, (l.foldl (releaseThreadWork p) s).queues.loc (.death d) ≠ some (.thread th) := by
  induction l generalizing s with
  | nil =>
      refine ⟨.refl s, ?_, ?_⟩
      · intro n hn
        exact absurd (hall n hn) (by simp)
      · intro d hd
        exact absurd (halld d hd) (by simp)
  | cons w l ih =>
      obtain ⟨hturn, hgone, hgoned⟩ := releaseThreadWork_quits hs p w hA
        (fun t he => ht t (by simp [he])) (fun n he => hdiscard n (by simp [he]))
        (fun d he => by
          obtain ⟨hwhy, hplace⟩ := hlost d (by simp [he])
          exact ⟨hwhy, fun q hq => .inr ⟨th, hplace q hq, hhome⟩⟩)
      obtain ⟨hrest, hnone⟩ := ih (hturn.moves.sound hs) ((hturn.abides.home th).trans hhome)
        (hturn.moves.weak hA)
        (fun t hmem => Nat.lt_of_lt_of_le (ht t (List.mem_cons_of_mem _ hmem))
          hturn.abides.nextId)
        (fun n hn => by
          rcases List.mem_cons.mp (hall n (hturn.abides.direct n th hn)) with he | hmem
          · exact absurd he (hgone n th hn)
          · exact hmem)
        (fun n hmem => (hdiscard n (List.mem_cons_of_mem _ hmem)).imp_right
          fun hdead nd' p' hn' hp' => by
            obtain ⟨nd, hn, hproc⟩ := hturn.abides.owner n nd' hn'
            rw [hturn.abides.alive]
            exact hdead nd p' hn (hproc ▸ hp'))
        (fun d hd => by
          rcases List.mem_cons.mp (halld d (hturn.abides.recedes d _ hd)) with he | hmem
          · exact absurd he (hgoned d th hd)
          · exact hmem)
        (fun d hmem => by
          obtain ⟨hwhy, hplace⟩ := hlost d (List.mem_cons_of_mem _ hmem)
          rw [hturn.abides.alive]
          exact ⟨hwhy, fun q hq => hplace q (hturn.abides.recedes d q hq)⟩)
      exact ⟨hturn.trans hrest, hnone⟩

theorem Sound.forgetThread (hs : Sound s) {p : ProcId} {th : ThreadId}
    (hhome : (s.threads th).map (·.proc) = some p) : Sound (s.forgetThread p th) := by
  obtain ⟨thread, hth, hp⟩ := Option.map_eq_some_iff.mp hhome
  exact hs.congr rfl (hs.queues.congr rfl rfl (Nat.le_refl _)) rfl
    (Indexes.unlist hs.threads hth (by rw [hp]) (by simp)) (Nat.le_refl _)

/-- **A thread that goes** gives back its calls and drops what is on its queue. -/
theorem threadRelease_moves (hs : Sound s) (hset : Settled s) {p : ProcId} {th : ThreadId}
    (hhome : (s.threads th).map (·.proc) = some p) (hA : s.StoresWeak → A .weak)
    (hdiscard : s.procAlive p = false ∨
      (∀ n, s.queues.loc (.node n) = some (.thread th) → A (.discard n)) ∧
      ∀ d, s.queues.loc (.death d) = some (.thread th) → A (.notice (.lost d))) :
    Moves A s (s.threadRelease p th) ∧
      ∃ s₁, Abides s s₁ ∧ s.threadRelease p th = s₁.forgetThread p th := by
  have hdead : Lull s (s.updThread th fun thread => { thread with isDead := true }) :=
    Lull.updThread hs th fun _ => rfl
  unfold threadRelease
  simp only
  generalize s.updThread th (fun thread => { thread with isDead := true }) = s₁ at hdead
  have hq₁ : Quits A s s₁ := hdead.quits
  have hq₂ := hq₁.trans (releaseCalls_quits hdead.sound p th (2 * s₁.nextId + 2)
    ((s₁.threads th).bind (·.transactionStack)) (hq₁.moves.weak hA))
  generalize releaseCalls p th (2 * s₁.nextId + 2) s₁
    ((s₁.threads th).bind (·.transactionStack)) = s₂ at hq₂
  have hq₃ := hq₂.trans (Lull.setStack (hq₂.moves.sound hs) th none).quits
  generalize s₂.setStack th none = s₃ at hq₃
  have hs₃ := hq₃.moves.sound hs
  have hcons := hs₃.queues.consistent
  obtain ⟨hq₄, hnone, hnoned⟩ := releaseThreadWorks_quits (A := A) hs₃ (s₃.items (.thread th))
    ((hq₃.abides.home th).trans hhome) (hq₃.moves.weak hA)
    (fun t hmem => hs₃.queues.queued_lt t _ ((hcons.mem_iff _ _).mp hmem))
    (fun n hn => (hcons.mem_iff _ _).mpr hn) (by
      intro n hmem
      have hloc := hq₃.abides.direct n th ((hcons.mem_iff _ _).mp hmem)
      rcases hdiscard with halive | hdiscard
      · -- news for a thread of a dying process are about that process's nodes
        refine .inr fun nd' p' hn' hp' => ?_
        obtain ⟨nd, hn, hproc⟩ := hq₃.abides.owner n nd' hn'
        rcases hset.news n _ nd p' hloc hn (hproc ▸ hp') with he | ⟨th', he, hhome'⟩
        · cases he
        · cases he
          rw [hhome] at hhome'
          cases hhome'
          rw [hq₃.abides.alive]
          exact halive
      · exact .inl (hdiscard.1 n hloc))
    (fun d hd => (hcons.mem_iff _ _).mpr hd) (by
      intro d hmem
      have hloc := (hcons.mem_iff _ _).mp hmem
      refine ⟨?_, fun q hq => ?_⟩
      · rcases hdiscard with halive | hdiscard
        · exact .inr ((hq₃.abides.alive p).trans halive)
        · exact .inl (hdiscard.2 d (hq₃.abides.recedes d _ hloc))
      · rw [hloc] at hq
        exact (Option.some.inj hq).symm)
  have hq₅ := hq₃.trans hq₄
  generalize (s₃.items (.thread th)).foldl (releaseThreadWork p) s₃ = s₄ at hq₅ hnone hnoned
  have hhome₄ : (s₄.threads th).map (·.proc) = some p := (hq₅.abides.home th).trans hhome
  exact ⟨hq₅.moves.trans (Move.moves ⟨.exit p th hnone,
    (hq₅.moves.sound hs).forgetThread hhome₄, .same rfl, .same rfl,
    (NoticeStep.exit p th hnoned).notices, .same rfl⟩), s₄, hq₅.abides, rfl⟩

/-! ## The end of a process -/

/-- The manager role is given up: no manager belongs to `p` any more. -/
theorem releaseManager_resigned (hset : Settled s) (p : ProcId) :
    (s.releaseManager p).Resigned p := by
  intro c n hc hown
  unfold releaseManager at hc hown
  split at hc
  · rename_i hnone
    rw [hnone] at hown
    obtain ⟨nd, p', proc, hn, hp, hproc, -⟩ := hset.managed c n hc
    rw [hn, Option.bind_some, hp, Option.some.injEq] at hown
    rw [hown, hnone] at hproc
    cases hproc
  · rename_i proc hproc
    rw [hproc] at hown
    simp only at hown
    -- a manager that is a node of `p` manages the context of `p`
    have hctx : ∀ c n, (s.contexts c).mgrNode = some n → (s.nodes n).bind (·.proc) = some p →
        c = proc.context := by
      intro c n hc hown
      obtain ⟨nd, p', proc', hn, hp, hproc', hctx⟩ := hset.managed c n hc
      rw [hn, Option.bind_some, hp, Option.some.injEq] at hown
      rw [hown, hproc] at hproc'
      cases hproc'
      exact hctx.symm
    split at hc
    · rename_i hnone
      rw [hnone] at hown
      rw [hctx c n hc hown, hnone] at hc
      cases hc
    · rename_i m hm
      rw [hm] at hown
      simp only at hown
      split at hc
      · rename_i hmine
        rw [if_pos hmine] at hown
        have hsame : (s.nodes n).bind (·.proc) = some p := by
          by_cases hnm : n = m
          · rw [hnm]
            exact hmine
          · simpa [updNode, updContext, hnm] using hown
        by_cases he : c = proc.context
        · simp [updNode, updContext, he] at hc
        · exact he (hctx c n (by simpa [updNode, updContext, he] using hc) hsame)
      · rename_i hmine
        rw [if_neg hmine] at hown
        rw [hctx c n hc hown, hm] at hc
        cases hc
        exact hmine hown

/-- One turn of the walk over a dying process's nodes leaves the others with
it. -/
theorem releaseNode_nodes (hs : Sound s) {p : ProcId} {n : NodeId} (hmem : n ∈ s.procNodes p) :
    (∀ m, m ≠ n → (s.releaseNode p n).nodes m = s.nodes m) ∧
      (∀ nd', (s.releaseNode p n).nodes n = some nd' → nd'.proc = none) ∧
      (∀ c m, ((s.releaseNode p n).contexts c).mgrNode = some m →
        (s.contexts c).mgrNode = some m) ∧
      ∀ p', (s.releaseNode p n).procAlive p' = s.procAlive p' := by
  obtain ⟨s₁, hs₁, hframe, hobj, heq⟩ := releaseNode_cases hs hmem
  obtain ⟨hnodes, -⟩ := Objects.mk.inj hobj
  have hother : ∀ m, m ≠ n → s₁.nodes m = s.nodes m := by
    intro m hm
    rw [hnodes]
    simp [updNode, unlistNode, hm]
  have hself : ∀ nd', s₁.nodes n = some nd' → nd'.proc = none := by
    intro nd' hn'
    rw [hnodes] at hn'
    simp only [updNode, Function.update_self, Option.map_eq_some_iff] at hn'
    obtain ⟨nd, -, rfl⟩ := hn'
    rfl
  have halive : ∀ p', s₁.procAlive p' = s.procAlive p' := fun p' => by
    rw [procAlive, procAlive, hframe.procs]
  rw [heq]
  rcases nodeMaybeFree_cases hs₁ n with hsame | ⟨nd, hgone⟩
  · rw [hsame]
    exact ⟨hother, hself, hframe.managers, halive⟩
  · refine ⟨?_, ?_, ?_, ?_⟩
    · intro m hm
      rw [hgone.nodes, Function.update_of_ne hm]
      exact hother m hm
    · intro nd' hn'
      simp [hgone.nodes] at hn'
    · exact fun c m hc => hframe.managers c m (hgone.frame.managers c m hc)
    · intro p'
      rw [procAlive, hgone.frame.procs]
      exact halive p'

/-- The walk over a dying process's nodes: none of them is left with it. -/
theorem releaseNodes_moves (hs : Sound s) {p : ProcId} (l : List NodeId)
    (hl : ∀ n, n ∈ l ↔ n ∈ s.procNodes p) (hnodup : l.Nodup) (hdead : s.procAlive p = false)
    (hmgr : s.Resigned p) :
    Moves A s (l.foldl (releaseNode p) s) ∧
      (∀ n nd, (l.foldl (releaseNode p) s).nodes n = some nd → nd.proc ≠ some p) ∧
      ∀ p', (l.foldl (releaseNode p) s).procAlive p' = s.procAlive p' := by
  induction l generalizing s with
  | nil =>
      refine ⟨.refl s, ?_, fun _ => rfl⟩
      intro n nd hn hp
      exact absurd ((hl n).mpr ((hs.graph.procNodes.mem_iff p n).mpr ⟨nd, hn, hp⟩)) (by simp)
  | cons n l ih =>
      have hmem : n ∈ s.procNodes p := (hl n).mp (by simp)
      obtain ⟨hother, hself, hmanagers, halive⟩ := releaseNode_nodes hs hmem
      obtain ⟨hnot, hnodup'⟩ := List.nodup_cons.mp hnodup
      have hturn : Moves A s (s.releaseNode p n) :=
        (Effect.orphan p n hmem hdead hmgr).moves hs
          (releaseNode_steps (O := fun _ => True) hs hmem) (releaseNode_notices hs hmem)
      have hs₁ := hturn.sound hs
      have hl₁ : ∀ m, m ∈ l ↔ m ∈ (s.releaseNode p n).procNodes p := by
        intro m
        rw [hs₁.graph.procNodes.mem_iff]
        by_cases hmn : m = n
        · subst hmn
          refine ⟨fun h => absurd h hnot, ?_⟩
          rintro ⟨nd, hm, hp⟩
          rw [hself nd hm] at hp
          cases hp
        · rw [hother m hmn, ← hs.graph.procNodes.mem_iff, ← hl m]
          simp [hmn]
      have hmgr₁ : (s.releaseNode p n).Resigned p := by
        intro c m hc hown
        by_cases hmn : m = n
        · subst hmn
          obtain ⟨nd, hm, hp⟩ := Option.bind_eq_some_iff.mp hown
          rw [hself nd hm] at hp
          cases hp
        · rw [hother m hmn] at hown
          exact hmgr c m (hmanagers c m hc) hown
      obtain ⟨hrest, hnone, halive'⟩ := ih hs₁ hl₁ hnodup' ((halive p).trans hdead) hmgr₁
      exact ⟨hturn.trans hrest, hnone, fun p' => (halive' p').trans (halive p')⟩

/-- The handles of processes that close are deleted. -/
theorem refDeletes_quits (hs : Sound s) (l : List RefId)
    (hA : ∀ r ∈ l, ∀ ref, s.refs r = some ref → A (.close ref.proc)) :
    Quits A s (l.foldl refDelete s) := by
  induction l generalizing s with
  | nil => exact .refl s
  | cons r l ih =>
      have hsteps := refDelete_steps (O := fun _ => True) hs r fun _ _ => trivial
      have hdelete : Quits A s (s.refDelete r) :=
        ⟨(Effect.deleteRef r (hA r List.mem_cons_self)).moves hs hsteps (refDelete_notices hs r),
          (refDelete_accounted hs r).abides (refDelete_recedes hs r)⟩
      have hs₁ := hdelete.moves.sound hs
      refine hdelete.trans (ih hs₁ fun r' hr' ref' href' => ?_)
      have hlt := hs₁.graph.refs_lt r' ref' href'
      rw [refDelete_nextId] at hlt
      obtain ⟨ref, href, hproc, -⟩ := (hsteps.ref_kept hlt).2 ref' href'
      rw [hproc]
      exact hA r' (List.mem_cons_of_mem _ hr') ref href

/-- The handles of one process. -/
theorem procRefs_quits (hs : Sound s) {p : ProcId} (hclose : A (.close p)) :
    Quits A s ((s.procRefs p).foldl refDelete s) := by
  refine refDeletes_quits hs _ fun r hmem ref hr => ?_
  obtain ⟨ref', hr', hproc⟩ := (hs.graph.procRefs.mem_iff p r).mp hmem
  cases hr.symm.trans hr'
  exact (Option.some.inj hproc).symm ▸ hclose

/-- A transaction that waited for a dying process. -/
theorem undeliver_quits (hs : Sound s) (p : ProcId) (t : TxnId) (hA : s.StoresWeak → A .weak) :
    Quits A s (releaseProcWork p s (.transaction t)) := by
  have hout : Lull s (s.dequeueWork (.transaction t)) := Lull.dequeue hs (by simp) (by simp)
  have hfail := hout.trans (Lull.failUndelivered hout.sound t .deadReply)
  have hquits : Quits A s ((s.dequeueWork (.transaction t)).failUndelivered t .deadReply) :=
    hfail.quits
  exact hquits.trans (dropTransaction_quits hfail.sound p t (hquits.moves.weak hA))

/-- The walk over the work of a dying process.  Its own nodes are gone, so news
in it are about nodes without an owner. -/
theorem releaseProcWorks_quits (hs : Sound s) {p : ProcId} (l : List Work)
    (hA : s.StoresWeak → A .weak) (hdead : s.procAlive p = false)
    (hnews : ∀ n, .node n ∈ l →
      ∀ nd p', s.nodes n = some nd → nd.proc = some p' → s.procAlive p' = false)
    (hlost : ∀ d, .death d ∈ l → ∀ q, s.queues.loc (.death d) = some q → q = .proc p) :
    Quits A s (l.foldl (releaseProcWork p) s) := by
  induction l generalizing s with
  | nil => exact .refl s
  | cons w l ih =>
      have hturn : Quits A s (releaseProcWork p s w) := by
        unfold releaseProcWork
        cases w with
        | transaction t => exact undeliver_quits hs p t hA
        | node n =>
            exact ⟨Move.moves ⟨.discard n (.inr (hnews n (by simp))), hs.dequeue _, .same rfl,
              .same rfl, (dequeueNode_calm s n).notices, .dequeue s _⟩, .dequeue s _⟩
        | complete c => exact (Lull.dequeue hs (by simp) (by simp)).quits
        | returnError e => exact (Lull.dequeue hs (by simp) (by simp)).quits
        | death d =>
            exact dropNotice_quits hs (fun q hq => .inl (hlost d (by simp) q hq)) (.inr hdead)
      refine hturn.trans (ih (hturn.moves.sound hs) (hturn.moves.weak hA)
        ((hturn.abides.alive p).trans hdead) ?_ ?_)
      · intro n hmem nd' p' hn' hp'
        obtain ⟨nd, hn, hproc⟩ := hturn.abides.owner n nd' hn'
        rw [hturn.abides.alive]
        exact hnews n (List.mem_cons_of_mem _ hmem) nd p' hn (hproc ▸ hp')
      · intro d hmem q hq
        exact hlost d (List.mem_cons_of_mem _ hmem) q (hturn.abides.recedes d q hq)

/-- Process `p` is going: it is marked dead and owns no node. -/
structure Leaving (s : Driver) (p : ProcId) : Prop where
  dead : s.procAlive p = false
  homeless : ∀ n nd, s.nodes n = some nd → nd.proc ≠ some p

theorem Leaving.abides {p : ProcId} (h : Leaving s p) (ha : Abides s s') : Leaving s' p := by
  refine ⟨(ha.alive p).trans h.dead, ?_⟩
  intro n nd' hn' hp
  obtain ⟨nd, hn, hproc⟩ := ha.owner n nd' hn'
  exact h.homeless n nd hn (hproc ▸ hp)

/-- The walk over the threads of a dying process. -/
theorem releaseThreads_moves (hs : Sound s) (hset : Settled s) {p : ProcId} (l : List ThreadId)
    (hl : ∀ th ∈ l, (s.threads th).map (·.proc) = some p) (hnodup : l.Nodup)
    (hA : s.StoresWeak → A .weak) (hleave : Leaving s p) :
    Moves A s (l.foldl (fun s th => (s.wakeupThread th).threadRelease p th) s) ∧
      Leaving (l.foldl (fun s th => (s.wakeupThread th).threadRelease p th) s) p := by
  induction l generalizing s with
  | nil => exact ⟨.refl s, hleave⟩
  | cons th l ih =>
      obtain ⟨hnot, hnodup'⟩ := List.nodup_cons.mp hnodup
      have hwake := Lull.wakeupThread hs th
      have hmoves : Moves A s (s.wakeupThread th) := hwake.moves
      obtain ⟨hrelease, s₁, habides, heq⟩ := threadRelease_moves (A := A) hwake.sound
        (hwake.settled hset) ((hwake.aside.home th).trans (hl th (by simp)))
        (hmoves.weak hA) (.inl ((hwake.aside.alive p).trans hleave.dead))
      have hturn := hmoves.trans hrelease
      have hleave₁ : Leaving ((s.wakeupThread th).threadRelease p th) p := by
        rw [heq]
        have h := (hleave.abides hwake.abides).abides habides
        exact ⟨h.dead, h.homeless⟩
      obtain ⟨hrest, hend⟩ := ih (hturn.sound hs) (hturn.settled hs hset)
        (by
          intro th' hmem
          have hne : th' ≠ th := fun he => hnot (he ▸ hmem)
          rw [heq]
          have hhome := (hwake.abides.trans habides).home th'
          rw [hl th' (List.mem_cons_of_mem _ hmem)] at hhome
          simpa [forgetThread, hne] using hhome)
        hnodup' (hturn.weak hA) hleave₁
      exact ⟨hturn.trans hrest, hend⟩

theorem dying_calm (s : Driver) (p : ProcId) :
    Calm s (s.updProc p fun proc => { proc with isDead := true }) := by
  exact .same (.same rfl rfl rfl) rfl rfl (fun _ _ => procAlive_of_dying) (fun _ _ hth => hth)
    (Nat.le_refl _)

theorem bury_calm (s : Driver) (p : ProcId) : Calm s (s.forgetProc p) := by
  exact .same (.same rfl rfl rfl) rfl rfl (fun _ _ => procAlive_of_forgetProc)
    (fun _ _ hth => hth) (Nat.le_refl _)

/-- A close, up to the handles of the process and from there on: at the end it owns
nothing and is forgotten. -/
theorem procRelease_stages (hs : Sound s) (hset : Settled s) (p : ProcId)
    (hclose : A (.close p)) (hA : s.StoresWeak → A .weak) :
    ∃ s₁ s₂, Moves A s s₁ ∧ Moves A ((s₁.procRefs p).foldl refDelete s₁) s₂ ∧ Leaving s₂ p ∧
      s.procRelease p = s₂.forgetProc p := by
  unfold procRelease
  simp only
  have hdying : Moves A s (s.updProc p fun proc => { proc with isDead := true }) :=
    Move.moves ⟨.dying p hclose, hs.same rfl, .same rfl, .same rfl, (dying_calm s p).notices,
      .same rfl⟩
  have hdead : (s.updProc p fun proc => { proc with isDead := true }).procAlive p = false := by
    cases hp : s.procs p <;> simp [procAlive, updProc, hp]
  generalize s.updProc p (fun proc => { proc with isDead := true }) = s₁ at hdying hdead
  have hs₁ := hdying.sound hs
  have hset₁ := hdying.settled hs hset
  have hmanager : Moves A s₁ (s₁.releaseManager p) :=
    (Effect.unmanage p hdead hclose).moves hs₁ (releaseManager_steps (O := fun _ => True) p)
      (Calm.releaseManager s₁ p).notices
  have hresigned := releaseManager_resigned hset₁ p
  have hdead₂ : (s₁.releaseManager p).procAlive p = false := by
    exact releaseManager_rule (P := fun s => s.procAlive p = false) p hdead fun _ _ _ _ _ => hdead
  generalize s₁.releaseManager p = s₂ at hmanager hresigned hdead₂
  have hm₂ := hdying.trans hmanager
  have hs₂ := hm₂.sound hs
  obtain ⟨hnodes, hhomeless, halive⟩ := releaseNodes_moves (A := A) hs₂ (s₂.procNodes p)
    (fun _ => Iff.rfl) (hs₂.graph.procNodes.nodup p) hdead₂ hresigned
  have hleave : Leaving ((s₂.procNodes p).foldl (releaseNode p) s₂) p :=
    ⟨(halive p).trans hdead₂, hhomeless⟩
  generalize (s₂.procNodes p).foldl (releaseNode p) s₂ = s₃ at hnodes hleave
  have hm₃ := hm₂.trans hnodes
  have hrefs := procRefs_quits (hm₃.sound hs) hclose
  generalize hfold : (s₃.procRefs p).foldl refDelete s₃ = s₄ at hrefs
  have hm₄ := hm₃.trans hrefs.moves
  have hs₄ := hm₄.sound hs
  have hset₄ := hm₄.settled hs hset
  have hleave₄ := hleave.abides hrefs.abides
  have hwork := releaseProcWorks_quits (A := A) hs₄ (s₄.items (.proc p)) (hm₄.weak hA)
    hleave₄.dead (by
    intro n hmem nd p' hn hp'
    rcases hset₄.news n _ nd p' ((hs₄.queues.consistent.mem_iff _ _).mp hmem) hn hp' with
      he | ⟨_, he, -⟩
    · cases he
      exact absurd hp' (hleave₄.homeless n nd hn)
    · cases he) (by
    intro d hmem q hq
    rw [(hs₄.queues.consistent.mem_iff _ _).mp hmem] at hq
    exact (Option.some.inj hq).symm)
  generalize (s₄.items (.proc p)).foldl (releaseProcWork p) s₄ = s₅ at hwork
  have hm₅ := hm₄.trans hwork.moves
  have hs₅ := hm₅.sound hs
  obtain ⟨hthreads, hend⟩ := releaseThreads_moves (A := A) hs₅ (hm₅.settled hs hset)
    (s₅.procThreads p) (by
      intro th hmem
      obtain ⟨thread, hth, hp⟩ := (hs₅.threads.mem_iff p th).mp hmem
      rw [hth]
      exact hp)
    (hs₅.threads.nodup p) (hm₅.weak hA) (hleave₄.abides hwork.abides)
  generalize (s₅.procThreads p).foldl
    (fun s th => (s.wakeupThread th).threadRelease p th) s₅ = s₆ at hthreads hend
  have hm₆ := hm₅.trans hthreads
  have harena := Lull.arenaTeardown (hm₆.sound hs) p
  have hrest := (hwork.moves.trans hthreads).trans harena.moves
  exact ⟨s₃, _, hm₃, hfold ▸ hrest, hend.abides harena.abides, rfl⟩

theorem procRelease_moves (hs : Sound s) (hset : Settled s) (p : ProcId)
    (hclose : A (.close p)) (hA : s.StoresWeak → A .weak) : Moves A s (s.procRelease p) := by
  obtain ⟨s₁, s₂, hfirst, hrest, hlast, heq⟩ := procRelease_stages hs hset p hclose hA
  have hrefs := procRefs_quits (hfirst.sound hs) hclose
  have hmoves := (hfirst.trans hrefs.moves).trans hrest
  rw [heq]
  exact hmoves.trans
    (Move.moves ⟨.bury p hlast.dead hlast.homeless, (hmoves.sound hs).same rfl, .same rfl,
      .same rfl, (bury_calm _ p).notices, .same rfl⟩)

/-! ## Reads -/

/-- Where a turn stands once its item is handled: what did not fit is back at
the head of its queue. -/
def putBackFull (h : Handled) (q : Queue) (w : Work) : Driver :=
  if h.error = some .enomem then h.drv.putBack q w else h.drv

theorem Lull.finishRead (hs : Sound s) (th : ThreadId) (rc : ReadCall) (error : Option Errno) :
    Lull s (s.finishRead th rc error) :=
  .same hs rfl rfl rfl rfl rfl

theorem Lull.setCall (hs : Sound s) (th : ThreadId) (rc : ReadCall) : Lull s (s.setCall th rc) :=
  .same hs rfl rfl rfl rfl rfl

theorem Lull.setLock (hs : Sound s) (owner : Option ThreadId) : Lull s (s.setLock owner) :=
  .same hs rfl rfl rfl rfl rfl

theorem Lull.spawnLooper (hs : Sound s) (env : Env) (th : ThreadId) (p : ProcId) (fromProc : Bool)
    (rc : ReadCall) : Lull s (spawnLooper env s th p fromProc rc).1 := by
  unfold Driver.spawnLooper
  split
  · split
    · exact Lull.updProc hs p (fun _ => rfl) fun _ => rfl
    · exact .refl hs
  · exact .refl hs

/-- Going on or ending after an item is a lull. -/
theorem Lull.readNext (env : Env) (h : Handled) (th : ThreadId) (p : ProcId) (w : Work)
    (fromProc : Bool)
    (hs : Sound (putBackFull h (if fromProc then .proc p else .thread th) w)) :
    Lull (putBackFull h (if fromProc then .proc p else .thread th) w)
      (readNext env h th p w fromProc) := by
  obtain ⟨drv, rc, error⟩ := h
  cases error with
  | none =>
      have hspawn := Lull.spawnLooper (s := drv) hs env th p fromProc
        { rc with wroteSomething := true }
      refine Lull.trans hspawn ?_
      unfold Driver.readNext
      simp only
      split
      · exact .finishRead hspawn.sound th _ none
      · exact .setCall hspawn.sound th _
  | some error => cases error <;> exact .finishRead hs th rc _

theorem Lull.readIdle (hs : Sound s) (th : ThreadId) (thread : Thread) (rc : ReadCall) :
    Lull s (s.readIdle th thread rc) := by
  unfold Driver.readIdle
  split
  · exact .finishRead hs th rc none
  · have hwait : Lull s (s.updThread th fun thread =>
        { thread with looper := { thread.looper with waiting := true } }) :=
      .updThread hs th fun _ => rfl
    have hlock := hwait.trans (.setLock hwait.sound none)
    simp only
    split
    · have hready := hlock.trans (Lull.updProc hlock.sound thread.proc
        (f := fun proc => { proc with readyThreads := proc.readyThreads + 1 }) (fun _ => rfl)
        fun _ => rfl)
      exact hready.trans (.setCall hready.sound th _)
    · exact hlock.trans (.setCall hlock.sound th _)

/-- A transaction or an error, put back or not. -/
theorem putBackFull_moves {h : Handled} {q : Queue} {w : Work} (hs : Sound s)
    (hmoves : Moves A s h.drv) (hnews : ∀ n, w ≠ .node n) (hdeath : ∀ d, w ≠ .death d)
    (hcomplete : ∀ c, w ≠ .complete c)
    (hw : ∀ t, w = .transaction t → h.error = some .enomem → t < h.drv.nextId)
    (hq : ∀ n, q ≠ .node n) : Moves A s (putBackFull h q w) := by
  unfold putBackFull
  split
  · rename_i herror
    exact hmoves.trans (Lull.enqueue (hmoves.sound hs) true hnews hdeath hcomplete
      (fun t ht => hw t ht herror) hq).moves
  · exact hmoves

/-- News about a node are read. -/
theorem readNews_moves (hs : Sound s) (env : Env) (th : ThreadId) {n : NodeId} (rc : ReadCall)
    {q : Queue} (hq : s.queues.loc (.node n) = some q) (hplace : ∀ m, q ≠ .node m)
    (hA : A (.news env s n rc)) : Moves A s (readNews env s th n rc q) := by
  refine Move.moves ⟨.news env th n rc q hq hA, ?_, ?_, ?_, ?_, ?_⟩
  · have hs₁ := ObjectSteps.sound (hs.dequeue (.node n))
      (readNodeWork_steps (O := fun _ => True) (hs.dequeue (.node n)) env th n rc)
    unfold Driver.readNews
    simp only
    split
    · exact hs₁.enqueue (.node n) true (by simp) hplace
    · exact hs₁
  · have hkept : Kept s (readNodeWork env (s.dequeueWork (.node n)) th n rc).drv :=
      (Kept.same rfl : Kept s (s.dequeueWork (.node n))).trans
        (readNodeWork_steps (O := fun _ => True) (hs.dequeue (.node n)) env th n rc).kept
    unfold Driver.readNews
    simp only
    split
    · have hback : Kept (readNodeWork env (s.dequeueWork (.node n)) th n rc).drv
          ((readNodeWork env (s.dequeueWork (.node n)) th n rc).drv.putBack q (.node n)) :=
        .same rfl
      exact (hkept.trans hback).loads
    · exact hkept.loads
  · have hhonours : Honours s (readNodeWork env (s.dequeueWork (.node n)) th n rc).drv :=
      (Honours.same rfl : Honours s (s.dequeueWork (.node n))).trans (ObjectSteps.honours
        (hs.dequeue (.node n))
        (readNodeWork_steps (O := fun _ => True) (hs.dequeue (.node n)) env th n rc))
    unfold Driver.readNews
    simp only
    split
    · exact hhonours.trans (.same rfl)
    · exact hhonours
  · have hcalm := (dequeueNode_calm s n).trans
      (Calm.readNodeWork (hs.dequeue (.node n)) env th n rc)
    refine Calm.notices ?_
    unfold Driver.readNews
    simp only
    split
    · exact hcalm.trans (.idle (.enqueue _ q true (by simp)) rfl rfl rfl rfl (Nat.le_refl _))
    · exact hcalm
  · have hread : Concludes (fun _ => False) s
        (readNodeWork env (s.dequeueWork (.node n)) th n rc).drv :=
      (Concludes.dequeue s (.node n)).trans (ObjectSteps.concludes (hs.dequeue (.node n))
        (readNodeWork_steps (O := fun _ => True) (hs.dequeue (.node n)) env th n rc))
    unfold Driver.readNews
    simp only
    split
    · exact (hread.trans (.enqueue _ q true (by simp))).mono fun _ => False.elim
    · exact hread.mono fun _ => False.elim

theorem Lull.updUnqueued (hs : Sound s) {t : TxnId} (hloc : s.queues.loc (.transaction t) = none)
    (f : Txn → Txn) : Lull s (s.updTxn t f) :=
  .setTxns (hs.setUnqueued _ hloc)

/-- A delivery changes the record, the buffer and a stack. -/
theorem Lull.delivered (hs : Sound s) {p : ProcId} (th : ThreadId) {t : TxnId} (x : Txn)
    {buf : Buffer} (hused : ((s.arenas p).used buf.id).isSome)
    (hloc : s.queues.loc (.transaction t) = none) : Lull s (s.delivered p th t x buf) := by
  have hbuf : Lull s (s.updBuffer p buf.id fun buf => { buf with allowUserFree := true }) :=
    ⟨.updBuffer s p buf.id _,
      hs.updUsed hused (fun _ => rfl) (fun _ => ⟨rfl, rfl, rfl, rfl⟩) fun _ => rfl,
      (Kept.updBuffer s p buf.id (f := fun buf => { buf with allowUserFree := true })
        (fun _ => rfl) fun _ => ⟨rfl, rfl, rfl, rfl, rfl⟩).loads, .same rfl rfl rfl, .same rfl⟩
  have hloc₁ : (s.updBuffer p buf.id fun buf =>
      { buf with allowUserFree := true }).queues.loc (.transaction t) = none := hloc
  unfold Driver.delivered
  simp only
  split
  · have hs₁ := hbuf.sound
    generalize s.updBuffer p buf.id (fun buf => { buf with allowUserFree := true }) = s₁ at *
    have htxn := Lull.updUnqueued hs₁ hloc₁ fun x =>
      { x with toThread := some th, toParent := (s₁.threads th).bind (·.transactionStack) }
    exact hbuf.trans (htxn.trans (.setStack htxn.sound th (some t)))
  · exact hbuf.trans (.freeTransaction hbuf.sound t)

/-- A transaction is taken. -/
theorem readTransaction_moves (hs : Sound s) (hb : Calls.Base s.view) (env : Env) {p : ProcId}
    {th : ThreadId} {t : TxnId} (rc : ReadCall) (htakes : s.view.Takes th (.transaction t))
    (hproc : s.view.procOf th = some p) (hA : s.StoresWeak → A .weak) :
    Moves A s (readTransaction env (s.dequeueWork (.transaction t)) p th t rc).drv ∧
      ((readTransaction env (s.dequeueWork (.transaction t)) p th t rc).error = some .enomem →
        (readTransaction env (s.dequeueWork (.transaction t)) p th t rc).drv.nextId =
          s.nextId) := by
  have hdequeue : Lull s (s.dequeueWork (.transaction t)) :=
    .dequeue hs (by simp) (by simp)
  have hs₀ := hdequeue.sound
  have hloc₀ := s.dequeueWork_loc_self (.transaction t)
  obtain ⟨x, hx, hxp, hbuffer⟩ := taken_record hs hb htakes
  obtain rfl : p = x.toProc := Option.some.inj (hproc.symm.trans hxp)
  have hx₀ : (s.dequeueWork (.transaction t)).txns t = some x := hx
  cases hxb : x.buffer with
  | none =>
      unfold readTransaction
      simp only [hx₀, hxb, Option.bind_none]
      exact ⟨hdequeue.moves, fun _ => rfl⟩
  | some b =>
      obtain ⟨buf, hfind, hused, rfl⟩ := hbuffer b hxb
      have hfind₀ : x.buffer.bind ((s.dequeueWork (.transaction t)).findBuffer x.toProc) =
          some buf := by
        rw [hxb]
        exact hfind
      have htaken := readTransaction_taken env th rc hx₀ hfind₀
      have hused₀ : (((s.dequeueWork (.transaction t)).arenas x.toProc).used buf.id).isSome := by
        rw [show (s.dequeueWork (.transaction t)).arenas = s.arenas from rfl, hused]
        rfl
      have hweak := Moves.weak (A := A) hdequeue.moves hA
      have hid : (s.dequeueWork (.transaction t)).nextId = s.nextId := rfl
      refine ⟨hdequeue.moves.trans ?_, ?_⟩
      · generalize readTransaction env (s.dequeueWork (.transaction t)) x.toProc th t rc = h
          at htaken
        generalize s.dequeueWork (.transaction t) = s₀ at *
        cases htaken with
        | stopped s' rc' error hdesc =>
            cases hdesc with
            | full => exact .refl _
            | fault hw => exact .refl _
            | torn rc' hwant htear => exact (Lull.note hs₀ _).moves
            | tornFault rc' hwant htear hw => exact (Lull.note hs₀ _).moves
        | delivered rc' rest hcmds =>
            have hnote := Lull.note hs₀ (.emit th (s₀.deliveryCmd buf) (.transaction t))
            exact (hnote.trans (.delivered hnote.sound th x hused₀ hloc₀)).moves
        | dropped kdata hkdata hout =>
            have hfail := Lull.failUndelivered hs₀ t .failedReply
            exact hfail.moves.trans (dropTransaction_moves hfail.sound _ t
              (Moves.weak (A := A) hfail.moves hweak))
      · intro herror
        generalize readTransaction env (s.dequeueWork (.transaction t)) x.toProc th t rc = h
          at htaken herror
        cases htaken with
        | stopped s' rc' error hdesc => cases hdesc <;> rfl
        | delivered rc' rest hcmds => cases herror
        | dropped kdata hkdata hout => cases herror

theorem Handled.put_moves {r : ReadCall × Option Errno} {k₁ k₂ : Driver} (h₁ : Moves A s k₁)
    (h₂ : Moves A s k₂) : Moves A s (Handled.put r k₁ k₂).drv := by
  rcases Handled.put_cases r k₁ k₂ with ⟨-, heq⟩ | ⟨-, heq⟩ <;> rw [heq]
  · exact h₁
  · exact h₂

/-- A death notice is reported: nothing happens to objects. -/
theorem deathReported_aside (hs : Sound s) (th : ThreadId) (d : DeathId) (type : DeathWork) :
    Aside s (s.deathReported th d type) ∧ Sound (s.deathReported th d type) ∧
      (s.deathReported th d type).arenas = s.arenas := by
  cases type with
  | deadBinder => exact ⟨.refl s, hs, rfl⟩
  | deadBinderAndClear =>
      have hset : Aside s (s.updDeath d fun death =>
          { death with type := .clearDeathNotification }) :=
        .same rfl (fun _ => rfl) rfl rfl (fun _ => rfl) (fun _ => rfl) (Nat.le_refl _)
      have hs₁ : Sound (s.updDeath d fun death =>
          { death with type := .clearDeathNotification }) := hs.same rfl
      exact ⟨hset.trans (.enqueue _ (.thread th) false (by simp)),
        hs₁.enqueue (.death d) false (by simp) (by simp), rfl⟩
  | clearDeathNotification =>
      exact ⟨.same rfl (fun _ => rfl) rfl rfl (fun _ => rfl) (fun _ => rfl) (Nat.le_refl _),
        hs.same rfl, rfl⟩

theorem readDeath_aside (hs : Sound s) (env : Env) (th : ThreadId) (d : DeathId)
    (rc : ReadCall) : Aside s (readDeath env s th d rc).drv ∧
      Sound (readDeath env s th d rc).drv ∧ (readDeath env s th d rc).drv.arenas = s.arenas := by
  apply readDeath_rule (P := fun s' => Aside s s' ∧ Sound s' ∧ s'.arenas = s.arenas)
    ⟨.refl s, hs, rfl⟩
  intro death _ _
  have htell : Aside s (s.tell th (deathCmd death.type) (.death d)) :=
    .same rfl (fun _ => rfl) rfl rfl (fun _ => rfl) (fun n => by simp [toldAbout, tell])
      (Nat.le_refl _)
  have hs₁ : Sound (s.tell th (deathCmd death.type) (.death d)) := hs.same rfl
  obtain ⟨haside, hsound, harenas⟩ := deathReported_aside hs₁ th d death.type
  exact ⟨htell.trans haside, hsound, harenas⟩

theorem readDeath_concludes {N : Nat → Prop} (env : Env) (s : Driver) (th : ThreadId)
    (d : DeathId) (rc : ReadCall) : Concludes N s (readDeath env s th d rc).drv := by
  apply readDeath_rule (.same rfl)
  intro death _ _
  unfold deathReported
  cases death.type with
  | deadBinder => exact .same rfl
  | deadBinderAndClear => exact .enqueue s (.thread th) false (by simp)
  | clearDeathNotification => exact .same rfl

/-- A death notice is read. -/
theorem readNotice_moves (hs : Sound s) (env : Env) (th : ThreadId) {d : DeathId} (rc : ReadCall)
    {q : Queue} (hq : s.queues.loc (.death d) = some q)
    (hplace : q = .thread th ∨ ∃ p, q = .proc p ∧ (s.threads th).map (·.proc) = some p)
    (hA : A (.notice (.read env rc))) : Moves A s (readNotice env s th d rc q) := by
  have hqueue : ∀ n, q ≠ .node n := by
    rcases hplace with rfl | ⟨p, rfl, -⟩ <;> simp
  have hout : Aside s (s.dequeueWork (.death d)) := by
    refine .same rfl (fun n => ?_) rfl rfl (fun _ => rfl) (fun _ => rfl) (Nat.le_refl _)
    rw [dequeueWork, Queues.remove_loc, if_neg (by simp)]
  have hall : Aside s (readNotice env s th d rc q) ∧ Sound (readNotice env s th d rc q) ∧
      (readNotice env s th d rc q).arenas = s.arenas := by
    obtain ⟨haside, hsound, harenas⟩ :=
      readDeath_aside (hs.dequeue (.death d)) env th d rc
    unfold readNotice
    generalize readDeath env (s.dequeueWork (.death d)) th d rc = h at *
    simp only
    split
    · exact ⟨(hout.trans haside).trans (.enqueue _ q true (by simp)),
        hsound.enqueue (.death d) true (by simp) hqueue, harenas⟩
    · exact ⟨hout.trans haside, hsound, harenas⟩
  obtain ⟨haside, hsound, harenas⟩ := hall
  have hconcludes : Concludes (fun _ => False) s (readNotice env s th d rc q) := by
    have hread : Concludes (fun _ => False) s
        (readDeath env (s.dequeueWork (.death d)) th d rc).drv :=
      (Concludes.dequeue s (.death d)).trans (readDeath_concludes env _ th d rc)
    unfold readNotice
    simp only
    split
    · exact hread.trans (.enqueue _ q true (by simp))
    · exact hread
  exact Move.moves ⟨.aside haside, hsound, .same harenas, haside.honours,
    (NoticeStep.report env th d rc q hq hplace hA).notices,
    hconcludes.mono fun _ => False.elim⟩

/-- A completion is read, or put back where it was. -/
theorem readComplete_moves (hs : Sound s) (env : Env) (th : ThreadId) {c : Nat} (rc : ReadCall)
    {q : Queue} (hq : s.queues.loc (.complete c) = some q) (hplace : ∀ n, q ≠ .node n) :
    Moves A s (putBackFull (.put (putCmd env rc .transactionComplete)
      (s.dequeueWork (.complete c)) ((s.dequeueWork (.complete c)).note
        (.emit th .transactionComplete (.complete c)))) q (.complete c)) := by
  have hout : Lull s (s.dequeueWork (.complete c)) := .dequeue hs (by simp) (by simp)
  have hback : Moves A s ((s.dequeueWork (.complete c)).putBack q (.complete c)) := by
    refine Aside.moves (hout.aside.trans (.enqueue _ q true (by simp)))
      (hout.sound.enqueue _ true (by simp) hplace) (.same rfl)
      (hout.undisturbed.trans (.enqueue _ q true (by simp))) ?_
    -- The completion is where it was.
    intro c' q' hq'
    rw [putBack, Queues.insert_loc] at hq'
    split at hq'
    · rename_i he
      cases hq'
      cases he.1
      exact .inl hq
    · exact .inl ((Concludes.dequeue (N := fun _ => False) s _ c' q' hq').resolve_right id)
  rcases Handled.put_cases (putCmd env rc .transactionComplete) (s.dequeueWork (.complete c))
      ((s.dequeueWork (.complete c)).note (.emit th .transactionComplete (.complete c)))
    with ⟨-, heq⟩ | ⟨-, heq⟩
  · rw [heq, putBackFull]
    split
    · exact hback
    · exact hout.moves
  · rw [heq, putBackFull]
    exact (hout.trans (.note hout.sound _)).moves

/-- **A turn of a read**, as far as objects are concerned. -/
theorem readTurn_moves (hs : Sound s) (hb : Calls.Base s.view) (env : Env) {th : ThreadId}
    {thread : Thread} (hth : s.threads th = some thread) (rc : ReadCall)
    (hA : s.StoresWeak → A .weak)
    (hnews : ∀ n fromProc, s.nextWork th thread = some (.node n, fromProc) →
      A (.news env s n rc))
    (hnotice : ∀ d fromProc, s.nextWork th thread = some (.death d, fromProc) →
      A (.notice (.read env rc))) : Moves A s (readTurn env s th thread rc) := by
  unfold readTurn
  split
  · exact (Lull.readIdle hs th thread rc).moves
  · rename_i w fromProc hnext
    obtain ⟨hloc, -⟩ := nextWork_loc hs.queues hnext
    have hproc := view_procOf_some hth
    have hplace : ∀ n, (if fromProc then Queue.proc thread.proc else .thread th) ≠ .node n := by
      intro n
      split <;> simp
    have hnext' : ∀ h : Handled, Moves A s (putBackFull h
        (if fromProc then .proc thread.proc else .thread th) w) →
        Moves A s (readNext env h th thread.proc w fromProc) := fun h hmoves =>
      hmoves.trans (Lull.readNext env h th thread.proc w fromProc (hmoves.sound hs)).moves
    refine hnext' _ ?_
    cases w with
    | transaction t =>
        obtain ⟨hmoves, hid⟩ := readTransaction_moves (A := A) hs hb env rc
          (nextWork_takes hs.queues hth hnext rfl) hproc hA
        refine putBackFull_moves hs hmoves (by simp) (by simp) (by simp) ?_ hplace
        intro u hu herror
        cases hu
        exact hid herror ▸ hs.queues.queued_lt t _ hloc
    | complete c => exact readComplete_moves hs env th rc hloc hplace
    | returnError e =>
        have hdequeue : Lull s (s.dequeueWork (.returnError e)) :=
          .dequeue hs (by simp) (by simp)
        refine putBackFull_moves hs (hdequeue.moves.trans ?_) (by simp) (by simp) (by simp)
          (by simp) hplace
        have hclear : Lull (s.dequeueWork (.returnError e))
            ((s.dequeueWork (.returnError e)).updThread e fun thread =>
              { thread with returnError := .ok }) := .updThread hdequeue.sound e fun _ => rfl
        exact Handled.put_moves (.refl _) (hclear.trans (.note hclear.sound _)).moves
    | node n => exact readNews_moves hs env th rc hloc hplace (hnews n fromProc hnext)
    | death d =>
        refine readNotice_moves hs env th rc hloc ?_ (hnotice d fromProc hnext)
        cases fromProc with
        | true => exact .inr ⟨thread.proc, rfl, by rw [hth]; rfl⟩
        | false => exact .inl rfl

/-! ## Arrivals -/

theorem procNew_moves (hs : Sound s) (env : Env) (pid ctx : Nat) (hA : A .birth) :
    Moves A s (procNew env s pid ctx).2 := by
  refine Move.moves ⟨.birth env pid ctx hA, ?_, ?_, ?_, ?_, ?_⟩
  · exact procNew_rule env pid ctx hs.bumpId (hs.bumpId.same rfl)
  · exact procNew_rule env pid ctx (.same rfl) (.same rfl)
  · exact procNew_rule env pid ctx (.same rfl) (.same rfl)
  · refine Calm.notices (procNew_rule env pid ctx (.bumpId s) ?_)
    exact .same (.same rfl rfl rfl) rfl rfl
      (fun _ hp => procAlive_of_insertProc (s := s.bumpId) (Nat.ne_of_lt hp)) (fun _ _ hth => hth)
      (Nat.le_succ _)
  · exact procNew_rule env pid ctx (.same rfl) (.same rfl)

/-- A thread that is entered for the first time gets a record. -/
theorem threadGet_moves (hs : Sound s) (hset : Settled s) (env : Env) (p : ProcId) (tid : Nat) :
    Moves A s (threadGet env s p tid).2 := by
  have hfresh : s.threads s.nextId = none := by
    cases hth : s.threads s.nextId with
    | none => rfl
    | some thread => exact absurd (hset.threads_lt s.nextId (by simp [hth])) (Nat.lt_irrefl _)
  refine Move.moves ⟨.enter env p tid, ?_, ?_, ?_, ?_, ?_⟩
  · have hb := hs.bumpId
    exact threadGet_rule env p tid hs hb ⟨hb.graph.congr rfl (Nat.le_refl _),
      hb.queues.congr rfl rfl (Nat.le_refl _), hb.arenas, Indexes.insert hs.threads hfresh rfl,
      hb.tiled⟩
  · exact threadGet_rule env p tid (.refl s) (.same rfl) (.same rfl)
  · exact threadGet_rule env p tid (.same rfl) (.same rfl) (.same rfl)
  · refine Calm.notices (threadGet_rule env p tid (.refl s) (.bumpId s) ?_)
    refine .same (.same rfl rfl rfl) rfl rfl (fun _ _ hp => hp) ?_ (Nat.le_succ _)
    intro th p' hth
    have hne : th ≠ s.nextId := by
      rintro rfl
      simp [hfresh] at hth
    simpa [insertThread, bumpId, hne] using hth
  · exact threadGet_rule env p tid (.same rfl) (.same rfl) (.same rfl)

/-! ## Actions -/

/-- Action `a` may have an effect of this kind in state `s`. -/
inductive Occurs (s : Driver) : Action → Kind → Prop
  | birth (env : Env) (pid ctx : Nat) : Occurs s (.devOpen env pid ctx) .birth
  | weakTake (env : Env) (th : ThreadId) (thread : Thread) (desc : Nat) (n : NodeId)
      (hth : s.threads th = some thread) (hmgr : s.mgrNodeOf thread.proc = some n) :
      Occurs s (.command env th (.reference false true desc)) (.weakTake s n)
  | weakGive (env : Env) (th : ThreadId) (thread : Thread) (desc : Nat) (r : RefId)
      (hth : s.threads th = some thread) (hfind : s.refFindByDesc thread.proc desc = some r) :
      Occurs s (.command env th (.reference false false desc)) (.weakGive s r)
  | weakParcel (env : Env) (th : ThreadId) (thread : Thread) (reply isSg : Bool)
      (tr : TransactionData) (hth : s.threads th = some thread)
      (h : CarriesWeak tr (sentParcel env s thread.proc th tr reply isSg)) :
      Occurs s (.command env th (.transaction reply isSg tr)) .weak
  | weakStored (a : Action) (h : s.StoresWeak) : Occurs s a .weak
  | discard (th : ThreadId) (n : NodeId) (h : s.queues.loc (.node n) = some (.thread th)) :
      Occurs s (.threadExit th) (.discard n)
  | news (env : Env) (th : ThreadId) (thread : Thread) (rc : ReadCall) (n : NodeId)
      (fromProc : Bool) (hth : s.threads th = some thread) (hrc : s.calls th = some rc)
      (h : s.nextWork th thread = some (.node n, fromProc)) :
      Occurs s (.readTurn env th) (.news env s n rc)
  | aim (env : Env) (th : ThreadId) (thread : Thread) (isSg : Bool) (tr : TransactionData)
      (n : NodeId) (p : ProcId) (hth : s.threads th = some thread)
      (htarget : s.targetNodeOf thread.proc tr.handle = .ok n) (howner : s.nodeOwner n = some p) :
      Occurs s (.command env th (.transaction false isSg tr)) (.aim p n)
  | manager (env : Env) (th : ThreadId) (ptr cookie flags c : Nat) (n : NodeId)
      (h : ((s.act (.setContextMgr env th ptr cookie flags)).contexts c).mgrNode = some n) :
      Occurs s (.setContextMgr env th ptr cookie flags) (.manager n)
  | done (env : Env) (th : ThreadId) (thread : Thread) (strong : Bool) (ptr : Nat) (n : NodeId)
      (hidle : s.idleThread th = some thread) (hfind : s.nodeFind thread.proc ptr = some n) :
      Occurs s (.command env th (.done strong ptr)) (.done n strong)
  | close (p : ProcId) : Occurs s (.devClose p) (.close p)
  | reference (env : Env) (th : ThreadId) (thread : Thread) (strong increment : Bool)
      (desc : Nat) (n : NodeId) (hth : s.threads th = some thread)
      (hmgr : s.mgrNodeOf thread.proc = some n) :
      Occurs s (.command env th (.reference strong increment desc)) (.handle s thread.proc n)
  | parcel (env : Env) (th : ThreadId) (thread : Thread) (reply isSg : Bool)
      (tr : TransactionData) (s₁ : Driver) (tp : ProcId) (n : NodeId)
      (hth : s.threads th = some thread) (hto : s.SendsTo thread.proc th tr.handle reply tp)
      (hknows : s₁.Knows thread.proc n) :
      Occurs s (.command env th (.transaction reply isSg tr)) (.handle s₁ tp n)
  | request (env : Env) (th : ThreadId) (handle cookie : Nat) :
      Occurs s (.command env th (.requestDeathNotification handle cookie)) (.notice .asked)
  | clear (env : Env) (th : ThreadId) (handle cookie : Nat) :
      Occurs s (.command env th (.clearDeathNotification handle cookie)) (.notice .cleared)
  | lost (th : ThreadId) (d : DeathId) (h : s.queues.loc (.death d) = some (.thread th)) :
      Occurs s (.threadExit th) (.notice (.lost d))
  | notice (env : Env) (th : ThreadId) (thread : Thread) (rc : ReadCall) (d : DeathId)
      (fromProc : Bool) (hth : s.threads th = some thread) (hrc : s.calls th = some rc)
      (h : s.nextWork th thread = some (.death d, fromProc)) :
      Occurs s (.readTurn env th) (.notice (.read env rc))
  | complete (env : Env) (th : ThreadId) (reply isSg : Bool) (tr : TransactionData) (c : Nat)
      (hc : s.nextId ≤ c) :
      Occurs s (.command env th (.transaction reply isSg tr)) (.complete c)
  | make (env : Env) (th : ThreadId) (thread : Thread) (reply isSg : Bool)
      (tr : TransactionData) (hidle : s.idleThread th = some thread) :
      Occurs s (.command env th (.transaction reply isSg tr)) (.make thread.proc)
  | makeManager (env : Env) (th : ThreadId) (thread : Thread) (ptr cookie flags : Nat)
      (hidle : s.idleThread th = some thread) :
      Occurs s (.setContextMgr env th ptr cookie flags) (.make thread.proc)

theorem idleThread_eq_some {th : ThreadId} {thread : Thread} (h : s.idleThread th = some thread) :
    s.threads th = some thread ∧ s.procAlive thread.proc = true := by
  unfold idleThread at h
  split at h
  · cases h
  · split at h
    · rename_i hth hidle
      cases h
      exact ⟨hth, hidle.2.2⟩
    · cases h

theorem isSome_of_procAlive {p : ProcId} (h : s.procAlive p = true) : (s.procs p).isSome := by
  unfold procAlive at h
  split at h
  · rename_i hproc
    simp [hproc]
  · cases h

theorem Settled.alive_lt (h : Settled s) {p : ProcId} (hp : s.procAlive p = true) :
    p < s.nextId := by
  exact h.procs_lt p (isSome_of_procAlive hp)

theorem Lull.registerLooper (hs : Sound s) (p : ProcId) (th : ThreadId) :
    Lull s (s.registerLooper p th) := by
  have hproc : Lull s (s.updProc p fun proc =>
      if 0 < proc.requestedThreads then
        { proc with
          requestedThreads := proc.requestedThreads - 1
          requestedThreadsStarted := proc.requestedThreadsStarted + 1 }
      else proc) :=
    .updProc hs p (fun proc => by split <;> rfl) fun proc => by split <;> rfl
  unfold Driver.registerLooper
  exact hproc.trans (.updThread hproc.sound th fun _ => rfl)

theorem Lull.enterLooper (hs : Sound s) (th : ThreadId) : Lull s (s.enterLooper th) := by
  unfold Driver.enterLooper
  exact .updThread hs th fun _ => rfl

theorem Lull.exitLooper (hs : Sound s) (th : ThreadId) : Lull s (s.exitLooper th) := by
  unfold Driver.exitLooper
  exact .updThread hs th fun _ => rfl

/-- One command of a write. -/
theorem writeCommand_moves (hs : Sound s) (hset : Settled s) (env : Env)
    (hhome : ∀ th thread, s.threads th = some thread → (s.procs thread.proc).isSome)
    {th : ThreadId} {thread : Thread} (hidle : s.idleThread th = some thread) (c : Command) :
    Moves (s.Occurs (.command env th c)) s (s.writeCommand env thread.proc th c).1 := by
  obtain ⟨hth, halive⟩ := idleThread_eq_some hidle
  have hp := hset.alive_lt halive
  have hstored : s.StoresWeak → s.Occurs (.command env th c) .weak := .weakStored _
  cases c with
  | reference strong increment desc =>
      refine writeRefCmd_moves hs hset env
        (fun n hmgr => .reference env th thread strong increment desc n hth hmgr)
        (isSome_of_procAlive halive) th strong increment desc ?_ ?_
      · rintro rfl rfl n hmgr
        exact .weakTake env th thread desc n hth hmgr
      · rintro rfl rfl r hfind
        exact .weakGive env th thread desc r hth hfind
  | done strong ptr =>
      exact writeDone_moves hs _ strong ptr fun n hfind =>
        .done env th thread strong ptr n hidle hfind
  | freeBuffer ptr => exact writeFreeBuffer_moves hs _ ptr hstored
  | transaction reply isSg tr =>
      refine transaction_moves hs env hp hhome th tr reply isSg
        (fun c hc => .complete env th reply isSg tr c hc)
        (.make env th thread reply isSg tr hidle)
        (fun s₁ tp n hto hknows =>
          .parcel env th thread reply isSg tr s₁ tp n hth hto hknows)
        hstored (.weakParcel env th thread reply isSg tr hth) ?_
      rintro rfl n tp htarget howner
      exact .aim env th thread isSg tr n tp hth htarget howner
  | registerLooper => exact (Lull.registerLooper hs _ th).moves
  | enterLooper => exact (Lull.enterLooper hs th).moves
  | exitLooper => exact (Lull.exitLooper hs th).moves
  | requestDeathNotification handle cookie =>
      exact deathRequest_moves hs env (by rw [hth]; rfl) hp handle cookie
        (.request env th handle cookie)
  | clearDeathNotification handle cookie =>
      exact deathClear_moves hs (by rw [hth]; rfl) handle cookie (.clear env th handle cookie)
  | deadBinderDone cookie => exact .refl s
  | refused => exact .refl s

/-- The prologue of a read. -/
theorem Lull.readStart (hs : Sound s) (env : Env) (th : ThreadId) (buffer size consumed : Nat) :
    Lull s (readStart env s th buffer size consumed) := by
  have hlock := Lull.setLock hs (some th)
  exact readStart_rule fun rc _ _ => hlock.trans (.setCall hlock.sound th rc)

theorem Lull.resume (hs : Sound s) (th : ThreadId) (thread : Thread) (rc : ReadCall)
    (chan : Channel) (signal : Bool) : Lull s (s.resume th thread rc chan signal) := by
  have hlock := Lull.setLock hs (some th)
  have hback := hlock.trans (.updThread hlock.sound th (f := fun thread =>
    { thread with looper := { thread.looper with waiting := false } }) fun _ => rfl)
  refine resume_rule fun rc' _ _ => ?_
  cases chan with
  | proc p =>
      have hready := hback.trans (Lull.updProc hback.sound p (f := fun proc =>
        { proc with readyThreads := proc.readyThreads - 1 }) (fun _ => rfl) fun _ => rfl)
      exact hready.trans (.setCall hready.sound th rc')
  | thread th' => exact hback.trans (.setCall hback.sound th rc')

theorem Lull.leaveRead (hs : Sound s) (th : ThreadId) (thread : Thread) :
    Lull s (s.leaveRead th thread) := by
  refine leaveRead_rule fun s₁ hs₁ => ?_
  have h₁ : Lull s s₁ := by
    rcases hs₁ with rfl | rfl
    · exact .refl hs
    · exact .wakeupProc hs _
  have hclear : Lull s₁ (s₁.clearCall th) := .same h₁.sound rfl rfl rfl rfl rfl
  exact h₁.trans (hclear.trans (.setLock hclear.sound none))

/-- **Every action is a sequence of effects**, of the kinds that occur in
it. -/
theorem act_moves (hs : Sound s) (hset : Settled s) (hb : Calls.Base s.view) (a : Action) :
    Moves (s.Occurs a) s (s.act a) := by
  have hstored : s.StoresWeak → s.Occurs a .weak := .weakStored a
  have hperforms := s.act_performs a
  generalize s.act a = s' at hperforms ⊢
  cases hperforms with
  | refused => exact .refl s
  | devOpen env pid ctx => exact procNew_moves hs env pid ctx (Occurs.birth env pid ctx)
  | devClose p _ => exact procRelease_moves hs hset p (.close p) hstored
  | enter env p tid _ => exact threadGet_moves hs hset env p tid
  | setArena env th thread addr size _ =>
      exact (Lull.arenaRegister hs env thread.proc addr size).moves
  | setMaxThreads th thread max _ =>
      exact (Lull.updProc hs thread.proc (f := fun proc => { proc with maxThreads := max })
        (fun _ => rfl) fun _ => rfl).moves
  | setContextMgr env th thread ptr cookie flags hidle =>
      obtain ⟨-, halive⟩ := idleThread_eq_some hidle
      refine contextMgrSet_moves hs env (hset.alive_lt halive)
        (.makeManager env th thread ptr cookie flags hidle) ptr cookie flags fun c n hc => ?_
      refine .manager env th ptr cookie flags c n ?_
      rw [act, withIdle, hidle]
      exact hc
  | threadExit th thread hidle =>
      obtain ⟨hth, -⟩ := idleThread_eq_some hidle
      exact (threadRelease_moves hs hset (by rw [hth]; rfl) hstored
        (.inr ⟨fun n hn => .discard th n hn, fun d hd => .lost th d hd⟩)).1
  | freeze th th' tid enable timeoutMs =>
      exact (Lull.updThread hs th' (f := fun thread =>
        { thread with frozen := enable, freezeTimeoutMs := timeoutMs }) fun _ => rfl).moves
  | select p =>
      have hsel : Lull s { s with selRecorded := Function.update s.selRecorded p true } :=
        .same hs rfl rfl rfl rfl rfl
      exact hsel.moves
  | command env th thread c hidle =>
      have hhome : ∀ th thread, s.threads th = some thread → (s.procs thread.proc).isSome :=
        fun th thread hth => by
          simpa [view] using hb.threadProc th thread.proc (view_procOf_some hth)
      exact writeCommand_moves hs hset env hhome hidle c
  | readStart env th thread buffer size consumed _ =>
      exact (Lull.readStart hs env th buffer size consumed).moves
  | readTurn env th thread rc hth hrc _ =>
      exact readTurn_moves hs hb env hth rc hstored
        (fun n fromProc hnext => .news env th thread rc n fromProc hth hrc hnext)
        fun d fromProc hnext => .notice env th thread rc d fromProc hth hrc hnext
  | resume th thread rc chan woken signal _ _ _ _ =>
      exact (Lull.resume hs th thread rc chan signal).moves
  | leave th thread rc error _ _ _ => exact (Lull.leaveRead hs th thread).moves

end Driver

end Binder
