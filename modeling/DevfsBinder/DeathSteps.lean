import DevfsBinder.AccountingSpecs

/-!
# What happens to death notices

A death record is made by `BC_REQUEST_DEATH_NOTIFICATION` and hangs off the
handle it was asked for.  It is queued when the object dies, or at once if the
object is dead already, changes its meaning when the client clears it, and is
released with the handle or with the last thing it has to say.

`NoticeStep` lists what can happen to such a record; everything else the driver
does is `Calm` for all of them.  The lemmas of this file say of which steps the
accounting functions are made.
-/

namespace Binder

/-- What may happen to a death notice, where that matters. -/
inductive Notice
  | asked
  | cleared
  | lost (d : DeathId)
  | read (env : Env) (rc : ReadCall)

/-- The same handle, as far as its holder, its object and its notice go. -/
structure Ref.SameHold (ref ref' : Ref) : Prop where
  proc : ref'.proc = ref.proc
  node : ref'.node = ref.node
  death : ref'.death = ref.death

theorem Ref.SameHold.refl (ref : Ref) : Ref.SameHold ref ref := ⟨rfl, rfl, rfl⟩

theorem Ref.SameHold.trans {ref ref' ref'' : Ref} (h : Ref.SameHold ref ref')
    (h' : Ref.SameHold ref' ref'') : Ref.SameHold ref ref'' :=
  ⟨h'.proc.trans h.proc, h'.node.trans h.node, h'.death.trans h.death⟩

namespace Driver

variable {L : Notice → Prop} {s s' s'' : Driver}

/-- What was said about a death record, newest first. -/
def toldOf (s : Driver) (d : DeathId) : List BR :=
  s.told.filterMap fun e => if e.2.2 = .death d then some e.2.1 else none

/-- A queue that the threads of `p` read. -/
def ReadBy (s : Driver) (p : ProcId) (q : Queue) : Prop :=
  q = .proc p ∨ ∃ th, q = .thread th ∧ (s.threads th).map (·.proc) = some p

/-! ## Leaving the records alone -/

/-- The death records and their releases. -/
def records (s : Driver) : Table Death × List DeathId := (s.deaths, s.freed)

/-- The death records, where they wait and what was said about them. -/
structure Undisturbed (s s' : Driver) : Prop where
  records : s'.records = s.records
  loc : ∀ d, s'.queues.loc (.death d) = s.queues.loc (.death d)
  told : ∀ d, s'.toldOf d = s.toldOf d

namespace Undisturbed

theorem deaths (h : Undisturbed s s') : s'.deaths = s.deaths := congrArg Prod.fst h.records

theorem freed (h : Undisturbed s s') : s'.freed = s.freed := congrArg Prod.snd h.records

theorem same (hrecords : s'.records = s.records) (hqueues : s'.queues = s.queues)
    (htold : s'.told = s.told) : Undisturbed s s' :=
  ⟨hrecords, fun _ => by rw [hqueues], fun _ => by rw [toldOf, toldOf, htold]⟩

theorem refl (s : Driver) : Undisturbed s s := same rfl rfl rfl

theorem trans (h : Undisturbed s s') (h' : Undisturbed s' s'') : Undisturbed s s'' :=
  ⟨h'.records.trans h.records, fun d => (h'.loc d).trans (h.loc d),
    fun d => (h'.told d).trans (h.told d)⟩

theorem enqueue (s : Driver) (q : Queue) {w : Work} (head : Bool) (hw : ∀ d, w ≠ .death d) :
    Undisturbed s { s with queues := s.queues.insert q w head } :=
  ⟨rfl, fun d => Queues.insert_loc_of_ne _ _ _ fun h => hw d h.symm, fun _ => rfl⟩

theorem dequeue (s : Driver) {w : Work} (hw : ∀ d, w ≠ .death d) :
    Undisturbed s (s.dequeueWork w) :=
  ⟨rfl, fun d => by rw [dequeueWork, Queues.remove_loc, if_neg fun h => hw d h.symm],
    fun _ => rfl⟩

theorem tellNode (s : Driver) (th : ThreadId) (cmd : BR) (n : NodeId) :
    Undisturbed s (s.tell th cmd (.node n)) :=
  ⟨rfl, fun _ => rfl, fun d => by simp [toldOf, tell]⟩

theorem popFrom (s : Driver) (th : Option ThreadId) (t : TxnId) (parent : Option TxnId) :
    Undisturbed s (s.popFrom th t parent) := by
  cases th <;> exact same rfl rfl rfl

theorem detachBuffer (s : Driver) (p : ProcId) (b : Option BufferId) :
    Undisturbed s (s.detachBuffer p b) := by
  cases b <;> exact same rfl rfl rfl

theorem freeTransaction (s : Driver) (t : TxnId) : Undisturbed s (s.freeTransaction t) := by
  unfold Driver.freeTransaction
  split
  · exact refl s
  · have hout : Undisturbed s (s.dequeueWork (.transaction t)) := dequeue s (by simp)
    exact (((hout.trans (popFrom _ _ _ _)).trans (popFrom _ _ _ _)).trans
      (detachBuffer _ _ _)).trans (same rfl rfl rfl)

/-- The drain of what waits behind a node. -/
theorem drain (l : List Work) (hl : ∀ w ∈ l, ∃ t, w = .transaction t) (s : Driver) :
    Undisturbed s (l.foldl dropAsync s) := by
  induction l generalizing s with
  | nil => exact refl s
  | cons w l ih =>
      obtain ⟨t, rfl⟩ := hl w (by simp)
      have hout : Undisturbed s (s.dequeueWork (.transaction t)) := dequeue s (by simp)
      have hdrop : Undisturbed s (s.dropAsync (.transaction t)) :=
        (hout.trans (freeTransaction _ t)).trans (same rfl rfl rfl)
      exact hdrop.trans (ih (fun w hw => hl w (List.mem_cons_of_mem _ hw)) _)

theorem clearManager (s : Driver) (p : ProcId) (n : NodeId) :
    Undisturbed s (s.clearManager p n) := by
  unfold Driver.clearManager
  split
  · exact refl s
  · split <;> exact same rfl rfl rfl

/-- Freeing a node disturbs no notice. -/
theorem nodeMaybeFree (hs : Sound s) (n : NodeId) : Undisturbed s (s.nodeMaybeFree n) := by
  have hdrain : Undisturbed s ((s.items (.node n)).foldl dropAsync s) := by
    refine drain _ (fun w hw => ?_) s
    obtain ⟨t, -, hw, -⟩ := hs.queues.behindNode w n ((hs.queues.consistent.mem_iff w _).mp hw)
    exact ⟨t, hw⟩
  unfold Driver.nodeMaybeFree
  split
  · exact refl s
  · rename_i nd _
    split
    · exact refl s
    · split
      · exact refl s
      · split
        · exact refl s
        · unfold nodeFree
          simp only
          cases nd.proc with
          | none => exact hdrain.trans (same rfl rfl rfl)
          | some p =>
              have hunlist : ∀ s : Driver, Undisturbed s (s.unlistNode p n) :=
                fun _ => same rfl rfl rfl
              exact ((hdrain.trans (hunlist _)).trans (clearManager _ p n)).trans
                (same rfl rfl rfl)

theorem nodeNotifyOwner (s : Driver) (n : NodeId) (thread : Option ThreadId) :
    Undisturbed s (s.nodeNotifyOwner n thread) := by
  rcases nodeNotifyOwner_cases s n thread with ⟨hsame, -⟩ | ⟨p, q, -, -, -, -, heq⟩
  · rw [hsame]
    exact refl s
  · rw [heq]
    exact enqueue s q false (by simp)

/-- A change of counts disturbs no notice. -/
theorem nodeUpdateRefs (hs : Sound s) (n : NodeId) (strong increment internal : Bool)
    (thread : Option ThreadId) :
    Undisturbed s (s.nodeUpdateRefs n strong increment internal thread).1 := by
  unfold Driver.nodeUpdateRefs
  split
  · exact refl s
  · rename_i nd hn
    split
    · exact refl s
    · rename_i nd' hcount
      have hs₁ := recount_sound hs hn hcount thread
      have hupd : Undisturbed s (s.updNode n fun _ => nd') := same rfl rfl rfl
      simp only
      split
      · rename_i hcross
        rw [if_pos hcross] at hs₁
        exact (hupd.trans (nodeNotifyOwner _ n thread)).trans (nodeMaybeFree hs₁ n)
      · rename_i hcross
        rw [if_neg hcross] at hs₁
        exact hupd.trans (nodeMaybeFree hs₁ n)

end Undisturbed

/-- No death notice is queued that was not queued there before. -/
def Recedes (s s' : Driver) : Prop :=
  ∀ d q, s'.queues.loc (.death d) = some q → s.queues.loc (.death d) = some q

theorem Undisturbed.recedes (h : Undisturbed s s') : Recedes s s' := fun d _ hq => h.loc d ▸ hq

theorem Recedes.trans (h : Recedes s s') (h' : Recedes s' s'') : Recedes s s'' :=
  fun d q hq => h d q (h' d q hq)

theorem Recedes.dequeue (s : Driver) (w : Work) : Recedes s (s.dequeueWork w) := by
  intro d q hq
  rw [dequeueWork, Queues.remove_loc] at hq
  split at hq
  · cases hq
  · exact hq

theorem refDelete_recedes (hs : Sound s) (r : RefId) : Recedes s (s.refDelete r) := by
  unfold refDelete
  split
  · exact fun _ _ hq => hq
  · rename_i ref hr
    have hs₁ := hs.forgetRef hr
    have hrelease : Recedes s ((s.releaseDeath ref.death).forgetRef r ref) := by
      cases ref.death with
      | none => exact fun _ _ hq => hq
      | some d => exact Recedes.dequeue s (.death d)
    exact hrelease.trans (Undisturbed.nodeUpdateRefs hs₁ ref.node _ false true none).recedes

theorem refReap_recedes (hs : Sound s) (r : RefId) : Recedes s (s.refReap r) := by
  exact refReap_rule r (fun _ _ hq => hq) (refDelete_recedes hs r)

/-- Giving a count of a handle back. -/
theorem refUpdate_recedes (hs : Sound s) (r : RefId) (strong : Bool) (thread : Option ThreadId) :
    Recedes s (s.refUpdate r strong false thread).1 := by
  apply refUpdate_rel hs r strong false thread (fun _ _ hq => hq) fun _ _ => .trans
  · exact fun _ n hs₁ => (Undisturbed.nodeUpdateRefs hs₁ n true false true thread).recedes
  · exact fun _ _ _ _ _ hq => hq
  · exact fun _ _ _ _ _ hq => hq
  · exact fun _ hs₁ => refReap_recedes hs₁ r

theorem releaseObject_recedes (hs : Sound s) (p : ProcId) (kdata : LittleEndian.Bytes)
    (dataSize off : Nat) : Recedes s (s.releaseObject p kdata dataSize off) := by
  apply releaseObject_rule s p kdata dataSize off
  · exact fun _ _ hq => hq
  · intro n strong _
    exact (Undisturbed.nodeUpdateRefs hs n strong false false none).recedes
  · intro desc r strong _ _
    exact refUpdate_recedes hs r strong none

theorem releaseObjects_recedes (hs : Sound s) (p : ProcId) (kdata : LittleEndian.Bytes)
    (dataSize offsetsSize : Nat) :
    Recedes s (s.releaseObjects p kdata dataSize offsetsSize) := by
  unfold releaseObjects
  generalize List.range (offsetsSize / 8) = l
  induction l generalizing s with
  | nil => exact fun _ _ hq => hq
  | cons i l ih =>
      exact (releaseObject_recedes hs p kdata dataSize _).trans
        (ih (ObjectSteps.sound hs (releaseObject_steps hs p kdata dataSize _)))

theorem bufferRelease_recedes (hs : Sound s) (p : ProcId) (b : BufferId) :
    Recedes s (s.bufferRelease p b) := by
  unfold bufferRelease
  split
  · exact fun _ _ hq => hq
  · split
    · exact fun _ _ hq => hq
    · exact releaseObjects_recedes hs p _ _ _

/-- A stretch in which nothing happens to a death notice: handles that have one
keep it, and objects with such a handle are as dead as they were. -/
structure Calm (s s' : Driver) : Prop where
  undisturbed : Undisturbed s s'
  refs : ∀ r ref', s'.refs r = some ref' → ref'.death = none ∨
    ∃ ref, s.refs r = some ref ∧ ref.SameHold ref'
  node : ∀ n nd', s'.nodes n = some nd' → nd'.isDead = false ∨
    ∃ nd, s.nodes n = some nd ∧ nd'.isDead = nd.isDead ∧ nd'.proc = nd.proc
  kept : ∀ r ref', s'.refs r = some ref' → ref'.death ≠ none → (s.nodes ref'.node).isSome →
    ∃ nd nd', s.nodes ref'.node = some nd ∧ s'.nodes ref'.node = some nd' ∧
      nd'.isDead = nd.isDead
  alive : ∀ p, p < s.nextId → s'.procAlive p = true → s.procAlive p = true
  home : ∀ th p, (s.threads th).map (·.proc) = some p → (s'.threads th).map (·.proc) = some p
  nextId : s.nextId ≤ s'.nextId

/-! ## Asking and clearing -/

/-- A handle is given a death record. -/
def registered (s : Driver) (r : RefId) (cookie : Nat) : Driver :=
  (s.bumpId.insertDeath s.nextId { cookie := cookie, type := .deadBinder }).updRef r
    fun ref => { ref with death := some s.nextId }

/-- What `BC_REQUEST_DEATH_NOTIFICATION` comes to. -/
theorem deathRequest_cases (s : Driver) (env : Env) (p : ProcId) (th : ThreadId)
    (handle cookie : Nat) :
    ((s.deathRequest env p th handle cookie).1 = s ∧
        (s.deathRequest env p th handle cookie).2 ≠ none) ∨
      ((s.deathRequest env p th handle cookie).1 = s.bumpId ∧
        (s.deathRequest env p th handle cookie).2 ≠ none) ∨
      ∃ r ref, s.refFindByDesc p handle = some r ∧ s.refs r = some ref ∧ ref.death = none ∧
        (s.deathRequest env p th handle cookie).2 = none ∧
        (s.deathRequest env p th handle cookie).1 =
          if s.nodeIsDead ref.node then
            (s.registered r cookie).enqueueThreadWork th (.death s.nextId)
          else s.registered r cookie := by
  unfold deathRequest
  split
  · exact .inl ⟨rfl, by simp⟩
  · rename_i r hfind
    split
    · exact .inl ⟨rfl, by simp⟩
    · rename_i ref hr
      split
      · exact .inl ⟨rfl, by simp⟩
      · rename_i hnone
        unfold allocMem
        cases env.allocOk s.nextId with
        | false => exact .inr (.inl ⟨rfl, by simp⟩)
        | true => exact .inr (.inr ⟨r, ref, hfind, hr, Decidable.not_not.mp hnone, rfl, rfl⟩)

/-- What `BC_CLEAR_DEATH_NOTIFICATION` comes to. -/
theorem deathClear_cases (s : Driver) (p : ProcId) (th : ThreadId) (handle cookie : Nat) :
    ((s.deathClear p th handle cookie).1 = s ∧ (s.deathClear p th handle cookie).2 ≠ none) ∨
      ∃ r ref d death, s.refFindByDesc p handle = some r ∧ s.refs r = some ref ∧
        ref.death = some d ∧ s.deaths d = some death ∧ death.cookie = cookie ∧
        (s.deathClear p th handle cookie).2 = none ∧
        (((s.queues.loc (.death d)).isSome ∧ (s.deathClear p th handle cookie).1 =
            (s.updDeath d fun death => { death with type := .deadBinderAndClear }).updRef r
              fun ref => { ref with death := none }) ∨
          (s.queues.loc (.death d) = none ∧ (s.deathClear p th handle cookie).1 =
            ((s.updDeath d fun death =>
              { death with type := .clearDeathNotification }).enqueueThreadWork th
                (.death d)).updRef r fun ref => { ref with death := none })) := by
  unfold deathClear
  split
  · exact .inl ⟨rfl, by simp⟩
  · rename_i r hfind
    split
    · exact .inl ⟨rfl, by simp⟩
    · rename_i d hbind
      split
      · exact .inl ⟨rfl, by simp⟩
      · rename_i hcookie
        obtain ⟨ref, hr, hdeath⟩ := Option.bind_eq_some_iff.mp hbind
        obtain ⟨death, hd, hcookie⟩ := Option.map_eq_some_iff.mp (Decidable.not_not.mp hcookie)
        refine .inr ⟨r, ref, d, death, hfind, hr, hdeath, hd, hcookie, rfl, ?_⟩
        simp only
        split
        · rename_i hqueued
          exact .inl ⟨hqueued, rfl⟩
        · rename_i hqueued
          exact .inr ⟨by simpa [workQueued] using hqueued, rfl⟩

/-! ## Steps -/

/-- The read of a death notice: what does not fit goes back to the head of the
queue it came from. -/
def readNotice (env : Env) (s : Driver) (th : ThreadId) (d : DeathId) (rc : ReadCall)
    (q : Queue) : Driver :=
  let h := readDeath env (s.dequeueWork (.death d)) th d rc
  if h.error = some .enomem then h.drv.putBack q (.death d) else h.drv

/-- What `p` finds under a handle's number is its own. -/
def HeldBy (s : Driver) (p : ProcId) (handle : Nat) : Prop :=
  ∀ r ref, s.refFindByDesc p handle = some r → s.refs r = some ref → ref.proc = p

theorem Sound.heldBy (hs : Sound s) (p : ProcId) (handle : Nat) : s.HeldBy p handle := by
  intro r ref hfind hr
  obtain ⟨ref', hr', hproc⟩ :=
    (hs.graph.procRefs.mem_iff p r).mp (List.mem_of_find?_eq_some hfind)
  rw [hr] at hr'
  cases hr'
  exact Option.some.inj hproc

/-- What can happen to a death notice. -/
inductive NoticeStep (L : Notice → Prop) (s : Driver) : Driver → Prop
  | calm {s' : Driver} (h : Calm s s') : NoticeStep L s s'
  | request (env : Env) (p : ProcId) (th : ThreadId) (handle cookie : Nat) (h : L .asked)
      (hth : (s.threads th).map (·.proc) = some p) (hp : p < s.nextId)
      (hheld : s.HeldBy p handle) :
      NoticeStep L s (s.deathRequest env p th handle cookie).1
  | clear (p : ProcId) (th : ThreadId) (handle cookie : Nat) (h : L .cleared)
      (hth : (s.threads th).map (·.proc) = some p) (hheld : s.HeldBy p handle) :
      NoticeStep L s (s.deathClear p th handle cookie).1
  | died (p : ProcId) (n : NodeId) (hown : (s.nodes n).bind (·.proc) = some p)
      (hrefs : ∀ r, r ∈ s.nodeRefs n ↔ ∃ ref, s.refs r = some ref ∧ some ref.node = some n) :
      NoticeStep L s (s.nodeDied n)
  | report (env : Env) (th : ThreadId) (d : DeathId) (rc : ReadCall) (q : Queue)
      (hq : s.queues.loc (.death d) = some q)
      (hplace : q = .thread th ∨ ∃ p, q = .proc p ∧ (s.threads th).map (·.proc) = some p)
      (h : L (.read env rc)) : NoticeStep L s (readNotice env s th d rc q)
  | lost (p : ProcId) (d : DeathId) (q : Queue) (hq : s.queues.loc (.death d) = some q)
      (hplace : s.ReadBy p q) (h : L (.lost d) ∨ s.procAlive p = false) :
      NoticeStep L s (s.dequeueWork (.death d))
  | release (r : RefId) (ref : Ref) (hr : s.refs r = some ref) :
      NoticeStep L s ((s.releaseDeath ref.death).forgetRef r ref)
  | exit (p : ProcId) (th : ThreadId)
      (h : ∀ d, s.queues.loc (.death d) ≠ some (.thread th)) :
      NoticeStep L s (s.forgetThread p th)

/-- A sequence of such steps. -/
def Notices (L : Notice → Prop) : Driver → Driver → Prop :=
  Relation.ReflTransGen (NoticeStep L)

theorem Notices.refl (s : Driver) : Notices L s s := Relation.ReflTransGen.refl

theorem Notices.trans (h : Notices L s s') (h' : Notices L s' s'') : Notices L s s'' :=
  Relation.ReflTransGen.trans h h'

theorem NoticeStep.notices (h : NoticeStep L s s') : Notices L s s' :=
  Relation.ReflTransGen.single h

theorem Calm.notices (h : Calm s s') : Notices L s s' := (NoticeStep.calm h).notices

/-- **Invariant rule.**  What every step keeps, a sequence keeps. -/
theorem Notices.invariant {P : Driver → Prop} (hstep : ∀ s s', NoticeStep L s s' → P s → P s')
    (h : Notices L s s') (hP : P s) : P s' := by
  induction h with
  | refl => exact hP
  | tail _ hstep' ih => exact hstep _ _ hstep' ih

/-! ## Calm stretches -/

namespace Calm

/-- Nothing happens to objects. -/
theorem same (hu : Undisturbed s s') (hrefs : s'.refs = s.refs) (hnodes : s'.nodes = s.nodes)
    (halive : ∀ p, p < s.nextId → s'.procAlive p = true → s.procAlive p = true)
    (hhome : ∀ th p, (s.threads th).map (·.proc) = some p →
      (s'.threads th).map (·.proc) = some p)
    (hid : s.nextId ≤ s'.nextId) : Calm s s' where
  undisturbed := hu
  refs _ ref' hr := .inr ⟨ref', hrefs ▸ hr, .refl ref'⟩
  node _ nd' hn := .inr ⟨nd', hnodes ▸ hn, rfl, rfl⟩
  kept r ref' _ _ hsome := by
    obtain ⟨nd, hn⟩ := Option.isSome_iff_exists.mp hsome
    exact ⟨nd, nd, hn, hnodes ▸ hn, rfl⟩
  alive := halive
  home := hhome
  nextId := hid

/-- Nothing happens to objects, processes and threads. -/
theorem idle (hu : Undisturbed s s') (hrefs : s'.refs = s.refs) (hnodes : s'.nodes = s.nodes)
    (hprocs : s'.procs = s.procs) (hthreads : s'.threads = s.threads)
    (hid : s.nextId ≤ s'.nextId) : Calm s s' :=
  same hu hrefs hnodes (fun p _ hp => by rwa [procAlive, hprocs] at hp)
    (fun th p hth => by rwa [hthreads]) hid

theorem refl (s : Driver) : Calm s s :=
  idle (.refl s) rfl rfl rfl rfl (Nat.le_refl _)

/-- Two calm stretches are one. -/
theorem trans (h : Calm s s') (h' : Calm s' s'') : Calm s s'' where
  undisturbed := h.undisturbed.trans h'.undisturbed
  refs r ref'' hr'' := by
    rcases h'.refs r ref'' hr'' with hnone | ⟨ref', hr', hsame'⟩
    · exact .inl hnone
    · rcases h.refs r ref' hr' with hnone | ⟨ref, hr, hsame⟩
      · exact .inl (hsame'.death.trans hnone)
      · exact .inr ⟨ref, hr, hsame.trans hsame'⟩
  node n nd'' hn'' := by
    rcases h'.node n nd'' hn'' with halive | ⟨nd', hn', hdead', hproc'⟩
    · exact .inl halive
    · rcases h.node n nd' hn' with halive | ⟨nd, hn, hdead, hproc⟩
      · exact .inl (hdead'.trans halive)
      · exact .inr ⟨nd, hn, hdead'.trans hdead, hproc'.trans hproc⟩
  kept r ref'' hr'' hdeath hsome := by
    rcases h'.refs r ref'' hr'' with hnone | ⟨ref', hr', hsame'⟩
    · exact absurd hnone hdeath
    · rw [hsame'.death] at hdeath
      rw [hsame'.node] at hsome ⊢
      obtain ⟨nd, nd', hn, hn', hdead⟩ := h.kept r ref' hr' hdeath hsome
      have hkept' := h'.kept r ref'' hr'' (hsame'.death ▸ hdeath)
      rw [hsame'.node] at hkept'
      obtain ⟨nd₁, nd'', hn₁, hn'', hdead'⟩ := hkept' (by rw [hn']; rfl)
      rw [hn'] at hn₁
      cases hn₁
      exact ⟨nd, nd'', hn, hn'', hdead'.trans hdead⟩
  alive p hp halive := h.alive p hp (h'.alive p (Nat.lt_of_lt_of_le hp h.nextId) halive)
  home th p hth := h'.home th p (h.home th p hth)
  nextId := Nat.le_trans h.nextId h'.nextId

/-- Counts change, and nodes without handles go. -/
theorem accounted {thread : Option ThreadId} (h : Accounted thread s s') (hu : Undisturbed s s')
    (hrefs : ∀ r ref', s'.refs r = some ref' → ref'.death = none ∨
      ∃ ref, s.refs r = some ref ∧ ref.SameHold ref')
    (hkept : ∀ r ref', s'.refs r = some ref' → (s.nodes ref'.node).isSome →
      (s'.nodes ref'.node).isSome) : Calm s s' where
  undisturbed := hu
  refs := hrefs
  node n nd' hn' := by
    obtain ⟨nd, hn, hsame⟩ := h.back n nd' hn'
    exact .inr ⟨nd, hn, hsame.isDead, hsame.proc⟩
  kept r ref' hr _ hsome := by
    obtain ⟨nd', hn'⟩ := Option.isSome_iff_exists.mp (hkept r ref' hr hsome)
    obtain ⟨nd, hn, hsame⟩ := h.back _ nd' hn'
    exact ⟨nd, nd', hn, hn', hsame.isDead⟩
  alive p _ hp := by rwa [procAlive, h.procs] at hp
  home th p hth := by rwa [h.threads]
  nextId := h.nextId

theorem updNode (s : Driver) (n : NodeId) {f : Node → Node} (hproc : ∀ nd, (f nd).proc = nd.proc)
    (hdead : ∀ nd, (f nd).isDead = nd.isDead) : Calm s (s.updNode n f) where
  undisturbed := .same rfl rfl rfl
  refs _ ref' hr := .inr ⟨ref', hr, .refl ref'⟩
  node m nd' hm := by
    by_cases hmn : m = n
    · subst hmn
      simp only [Driver.updNode, Function.update_self, Option.map_eq_some_iff] at hm
      obtain ⟨nd, hm, rfl⟩ := hm
      exact .inr ⟨nd, hm, hdead nd, hproc nd⟩
    · exact .inr ⟨nd', by simpa [Driver.updNode, hmn] using hm, rfl, rfl⟩
  kept r ref' _ _ hsome := by
    obtain ⟨nd, hn⟩ := Option.isSome_iff_exists.mp hsome
    by_cases hmn : ref'.node = n
    · exact ⟨nd, f nd, hn, by simp [Driver.updNode, ← hmn, hn], hdead nd⟩
    · exact ⟨nd, nd, hn, by simpa [Driver.updNode, hmn] using hn, rfl⟩
  alive _ _ hp := hp
  home _ _ hth := hth
  nextId := Nat.le_refl _

/-- A change of a ref that keeps what it holds. -/
theorem updRef (s : Driver) (r : RefId) {f : Ref → Ref} (hf : ∀ ref : Ref, ref.SameHold (f ref)) :
    Calm s (s.updRef r f) where
  undisturbed := .same rfl rfl rfl
  refs q ref' hq := by
    by_cases hqr : q = r
    · subst hqr
      simp only [Driver.updRef, Function.update_self, Option.map_eq_some_iff] at hq
      obtain ⟨ref, hq, rfl⟩ := hq
      exact .inr ⟨ref, hq, hf ref⟩
    · exact .inr ⟨ref', by simpa [Driver.updRef, hqr] using hq, .refl ref'⟩
  node _ nd' hn := .inr ⟨nd', hn, rfl, rfl⟩
  kept _ _ _ _ hsome := by
    obtain ⟨nd, hn⟩ := Option.isSome_iff_exists.mp hsome
    exact ⟨nd, nd, hn, hn, rfl⟩
  alive _ _ hp := hp
  home _ _ hth := hth
  nextId := Nat.le_refl _

/-- A node that some handle names is not released. -/
theorem nodeMaybeFree (hs : Sound s) (n : NodeId) : Calm s (s.nodeMaybeFree n) := by
  rcases nodeMaybeFree_cases hs n with hsame | ⟨nd, hgone⟩
  · rw [hsame]
    exact refl s
  · have hacc : Accounted none s (s.nodeMaybeFree n) := hgone.accounted
    refine accounted hacc (.nodeMaybeFree hs n) ?_ ?_
    · intro r ref' hr
      exact .inr ⟨ref', hgone.refs ▸ hr, .refl ref'⟩
    · intro r ref' hr hsome
      rw [hgone.refs] at hr
      have hmem : r ∈ s.nodeRefs ref'.node := (hs.graph.nodeRefs.mem_iff _ r).mpr ⟨ref', hr, rfl⟩
      have hne : ref'.node ≠ n := by
        intro he
        rw [he, hgone.refs_nil] at hmem
        cases hmem
      rwa [hgone.nodes, Function.update_of_ne hne]

theorem nodeNotifyOwner (s : Driver) (n : NodeId) (thread : Option ThreadId) :
    Calm s (s.nodeNotifyOwner n thread) := by
  have hu := Undisturbed.nodeNotifyOwner s n thread
  rcases nodeNotifyOwner_cases s n thread with ⟨hsame, -⟩ | ⟨p, q, -, -, -, -, heq⟩
  · rw [hsame]
    exact refl s
  · rw [heq] at hu ⊢
    exact idle hu rfl rfl rfl rfl (Nat.le_refl _)

/-- A change of counts is calm. -/
theorem nodeUpdateRefs (hs : Sound s) (n : NodeId) (strong increment internal : Bool)
    (thread : Option ThreadId) :
    Calm s (s.nodeUpdateRefs n strong increment internal thread).1 := by
  unfold Driver.nodeUpdateRefs
  split
  · exact refl s
  · rename_i nd hn
    split
    · exact refl s
    · rename_i nd' hcount
      have hsame := count_standing hcount
      have hs₁ := recount_sound hs hn hcount thread
      have hupd : Calm s (s.updNode n fun _ => nd') := by
        have heq : s.updNode n (fun _ => nd') =
            s.updNode n fun old => { nd' with proc := old.proc, isDead := old.isDead } := by
          simp only [Driver.updNode, hn, Option.map_some, ← hsame.proc, ← hsame.isDead]
        rw [heq]
        exact updNode s n (fun _ => rfl) fun _ => rfl
      simp only
      split
      · rename_i hcross
        rw [if_pos hcross] at hs₁
        exact (hupd.trans (nodeNotifyOwner _ n thread)).trans (nodeMaybeFree hs₁ n)
      · rename_i hcross
        rw [if_neg hcross] at hs₁
        exact hupd.trans (nodeMaybeFree hs₁ n)

theorem nodeDecTmpref (hs : Sound s) (n : NodeId) : Calm s (s.nodeDecTmpref n) := by
  have hstep : ObjectStep (fun _ => True) s
      (s.updNode n fun nd => { nd with tmpRefs := nd.tmpRefs - 1 }) :=
    .count n _ ⟨by simp, by simp, by simp, by simp⟩
  have hcount : Calm s (s.updNode n fun nd => { nd with tmpRefs := nd.tmpRefs - 1 }) :=
    updNode s n (fun _ => rfl) fun _ => rfl
  exact hcount.trans (nodeMaybeFree (ObjectStep.sound hs hstep) n)

theorem bumpId (s : Driver) : Calm s s.bumpId :=
  idle (.same rfl rfl rfl) rfl rfl rfl rfl (Nat.le_succ _)

/-- A new node is alive. -/
theorem insertNode (hs : Sound s) (p : ProcId) (ptr cookie flags : Nat) :
    Calm s (s.bumpId.insertNode s.nextId p ptr cookie flags) where
  undisturbed := .same rfl rfl rfl
  refs _ ref' hr := .inr ⟨ref', hr, .refl ref'⟩
  node m nd' hm := by
    by_cases hmn : m = s.nextId
    · simp only [Driver.insertNode, hmn, Function.update_self, Option.some.injEq] at hm
      exact .inl (by rw [← hm])
    · exact .inr ⟨nd', by simpa [Driver.insertNode, Driver.bumpId, hmn] using hm, rfl, rfl⟩
  kept r ref' _ _ hsome := by
    obtain ⟨nd, hn⟩ := Option.isSome_iff_exists.mp hsome
    have hne : ref'.node ≠ s.nextId := Nat.ne_of_lt (hs.graph.nodes_lt _ nd hn)
    exact ⟨nd, nd, hn, by simpa [Driver.insertNode, Driver.bumpId, hne] using hn, rfl⟩
  alive _ _ hp := hp
  home _ _ hth := hth
  nextId := Nat.le_succ _

/-- A new handle has no notice. -/
theorem insertRef (s : Driver) (p : ProcId) (n : NodeId) :
    Calm s (s.bumpId.insertRef s.nextId p n) := by
  have hacc : Accounted none s (s.bumpId.insertRef s.nextId p n) :=
    .same rfl rfl rfl rfl rfl (Nat.le_succ _) fun _ => rfl
  refine accounted hacc (.same rfl rfl rfl) ?_ fun _ _ _ hsome => hsome
  intro r ref' hr
  by_cases hrn : r = s.nextId
  · simp only [Driver.insertRef, hrn, Function.update_self, Option.some.injEq] at hr
    exact .inl (by rw [← hr])
  · exact .inr ⟨ref', by simpa [Driver.insertRef, Driver.bumpId, hrn] using hr, .refl ref'⟩

theorem refGetForNode (s : Driver) (env : Env) (p : ProcId) (n : NodeId) :
    Calm s (s.refGetForNode env p n).2 := by
  rcases s.refGetForNode_ends env p n with ⟨r, -, heq⟩ | ⟨-, heq⟩ | heq <;> rw [heq]
  · exact refl s
  · exact insertRef s p n
  · exact bumpId s

theorem releaseManager (s : Driver) (p : ProcId) : Calm s (s.releaseManager p) := by
  apply releaseManager_rule p (refl s)
  intro proc m _ _ _
  have hctx : Calm s (s.updContext proc.context fun ctx => { ctx with mgrNode := none }) :=
    idle (.same rfl rfl rfl) rfl rfl rfl rfl (Nat.le_refl _)
  exact hctx.trans (updNode _ _ (fun _ => rfl) fun _ => rfl)

/-- News of a node are no notice. -/
theorem readNodeWork (hs : Sound s) (env : Env) (th : ThreadId) (n : NodeId) (rc : ReadCall) :
    Calm s (readNodeWork env s th n rc).drv := by
  apply And.right (a := Sound (Driver.readNodeWork env s th n rc).drv)
  apply readNodeWork_rule (P := fun h => Sound h.drv ∧ Calm s h.drv) fun _ => ⟨hs, refl s⟩
  · intro h nd cmd _ _ _ _ hcalm
    have hupd : Calm h.drv (h.drv.updNode n (·.record cmd)) :=
      updNode _ n (fun nd => nd.record_proc cmd) fun nd => by cases cmd <;> rfl
    exact ⟨ObjectStep.sound (O := fun _ => True) hcalm.1 (.count n _ (record_kept cmd)),
      hcalm.2.trans hupd⟩
  · intro h cmd hcalm
    exact ⟨ObjectStep.sound (O := fun _ => True) hcalm.1 (.tell th cmd _),
      hcalm.2.trans (idle (.tellNode _ th cmd n) rfl rfl rfl rfl (Nat.le_refl _))⟩
  · intro h hcalm
    exact ⟨ObjectSteps.sound hcalm.1 (nodeMaybeFree_steps (O := fun _ => True) hcalm.1 n),
      hcalm.2.trans (nodeMaybeFree hcalm.1 n)⟩

end Calm

/-! ## The accounting -/

theorem refDelete_notices (hs : Sound s) (r : RefId) : Notices L s (s.refDelete r) := by
  unfold refDelete
  split
  · exact .refl s
  · rename_i ref hr
    have hs₁ := hs.forgetRef hr
    exact (NoticeStep.release r ref hr).notices.trans
      (Calm.nodeUpdateRefs hs₁ ref.node _ false true none).notices

theorem refReap_notices (hs : Sound s) (r : RefId) : Notices L s (s.refReap r) := by
  exact refReap_rule r (.refl s) (refDelete_notices hs r)

theorem refUpdate_notices (hs : Sound s) (r : RefId) (strong increment : Bool)
    (thread : Option ThreadId) : Notices L s (s.refUpdate r strong increment thread).1 := by
  apply refUpdate_rel hs r strong increment thread (.refl s) fun _ _ => .trans
  · exact fun _ n hs₁ => (Calm.nodeUpdateRefs hs₁ n true increment true thread).notices
  · exact fun _ s₁ _ => Calm.notices (.updRef s₁ r fun _ => ⟨rfl, rfl, rfl⟩)
  · exact fun _ s₁ _ => Calm.notices (.updRef s₁ r fun _ => ⟨rfl, rfl, rfl⟩)
  · exact fun _ hs₁ => refReap_notices hs₁ r

/-- A node whose owner goes away: its holders hear about it, and it may be
released. -/
theorem releaseNode_notices (hs : Sound s) {p : ProcId} {n : NodeId} (hmem : n ∈ s.procNodes p) :
    Notices L s (s.releaseNode p n) := by
  have hunlist : Calm s (s.unlistNode p n) :=
    .idle (.same rfl rfl rfl) rfl rfl rfl rfl (Nat.le_refl _)
  have hdied : NoticeStep L (s.unlistNode p n) ((s.unlistNode p n).nodeDied n) := by
    obtain ⟨nd, hn, hp⟩ := (hs.graph.procNodes.mem_iff p n).mp hmem
    exact .died p n (by simpa [unlistNode, hn] using hp) (hs.graph.nodeRefs.mem_iff n)
  exact hunlist.notices.trans (hdied.notices.trans
    (Calm.nodeMaybeFree (nodeDied_sound hs hmem) n).notices)

end Driver

end Binder
