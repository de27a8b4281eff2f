import DevfsBinder.DeathHistory
import DevfsBinder.DeliveredBuffers
import DevfsBinder.ReadsInProgress

/-!
# Death notices on their way

A client that asked about an object which is now dead has been told, or the
record still waits on a queue that its threads read; and after an accepted clear
the answer was given or waits likewise.  `Pending` states the first for the
handles, `Owed` the second for one cleared record.

Two things the driver does break this.  A thread that exits takes the records on
its own list with it, and a record whose report cannot be copied out to the
client was already taken off its queue.  `KeepsNotices` excludes just these two,
and then nothing is lost (`death_notices_kept`); without it a thread that asks
about a dead object and exits leaves its process waiting for ever
(`death_notice_dropped`).
-/

namespace Binder

/-- The report of a death fits into what the client gave, or can be written. -/
def ReadCall.NoticeWritable (env : Env) (rc : ReadCall) : Prop :=
  12 ≤ rc.room → env.copyoutOk rc.cursor 4 = true ∧
    env.copyoutOk ((rc.cursor + 4) % 2 ^ 64) 8 = true

instance (env : Env) (rc : ReadCall) : Decidable (rc.NoticeWritable env) :=
  inferInstanceAs (Decidable (12 ≤ rc.room → env.copyoutOk rc.cursor 4 = true ∧
    env.copyoutOk ((rc.cursor + 4) % 2 ^ 64) 8 = true))

/-- A step that is not a thread's exit with a death record on its list, and not
a read of one that cannot be written to the client. -/
def Driver.KeepsNotices (s : Driver) : Action → Prop
  | .threadExit th => ∀ d, s.queues.loc (.death d) ≠ some (.thread th)
  | .readTurn env th => ∀ thread rc d fromProc, s.threads th = some thread →
      s.calls th = some rc → s.nextWork th thread = some (.death d, fromProc) →
      rc.NoticeWritable env
  | _ => True

/-- Nothing happens to a notice that loses it. -/
structure KeepsRecords (L : Notice → Prop) : Prop where
  lost : ∀ d, ¬ L (.lost d)
  read : ∀ env rc, L (.read env rc) → rc.NoticeWritable env

namespace Driver

variable {L : Notice → Prop} {s s' : Driver} {X : RefId → Prop}

theorem KeepsNotices.records {a : Action} (h : s.KeepsNotices a) :
    KeepsRecords fun k => s.Occurs a (.notice k) where
  lost d hoccurs := by
    cases hoccurs with
    | lost th d hq => exact h d hq
  read env rc hoccurs := by
    cases hoccurs with
    | notice env th thread rc d fromProc hth hrc hnext =>
        exact h thread rc d fromProc hth hrc hnext

theorem ReadBy.unique {p p' : ProcId} {q : Queue} (h : s.ReadBy p q) (h' : s.ReadBy p' q) :
    p = p' := by
  rcases h with rfl | ⟨th, rfl, hth⟩
  · rcases h' with he | ⟨th', he, -⟩
    · cases he
      rfl
    · cases he
  · rcases h' with he | ⟨th', he, hth'⟩
    · cases he
    · cases he
      exact Option.some.inj (hth.symm.trans hth')

theorem ReadBy.mono {p : ProcId} {q : Queue} (h : s.ReadBy p q)
    (hhome : ∀ th p, (s.threads th).map (·.proc) = some p →
      (s'.threads th).map (·.proc) = some p) : s'.ReadBy p q :=
  h.imp_right fun ⟨th, hq, hth⟩ => ⟨th, hq, hhome th p hth⟩

/-- The thread that finds a record on a queue of `p` is one of `p`'s. -/
theorem ReadBy.reader {p : ProcId} {q : Queue} {th : ThreadId} (h : s.ReadBy p q)
    (hplace : q = .thread th ∨ ∃ p, q = .proc p ∧ (s.threads th).map (·.proc) = some p) :
    s.ReadBy p (.thread th) := by
  rcases hplace with rfl | ⟨p', rfl, hth⟩
  · exact h
  · obtain rfl := h.unique (.inl rfl)
    exact .inr ⟨th, rfl, hth⟩

/-! ## The read of a record -/

/-- A report of a death is written whole, does not fit, or faults. -/
theorem putCmdData_notice (env : Env) (rc : ReadCall) (cmd : BR) (cookie : Nat) :
    putCmdData env rc cmd (LittleEndian.leBytes 8 cookie) = (rc, some .enomem) ∨
      (¬ rc.NoticeWritable env ∧
        putCmdData env rc cmd (LittleEndian.leBytes 8 cookie) = (rc, some .efault)) ∨
      putCmdData env rc cmd (LittleEndian.leBytes 8 cookie) =
        (rc.emit cmd (LittleEndian.leBytes 8 cookie), none) := by
  unfold putCmdData
  rw [LittleEndian.leBytes_length]
  split
  · exact .inl rfl
  · rename_i hroom
    split
    · rename_i hfault
      exact .inr (.inl ⟨fun hw => hfault (hw (by omega)).1, rfl⟩)
    · split
      · rename_i hfault
        exact .inr (.inl ⟨fun hw => hfault (hw (by omega)).2, rfl⟩)
      · exact .inr (.inr rfl)

/-- What a turn that meets a record comes to. -/
theorem readNotice_cases (env : Env) (th : ThreadId) {d : DeathId} (rc : ReadCall) (q : Queue)
    {death : Death} (hd : s.deaths d = some death) :
    ((readNotice env s th d rc q).queues.loc (.death d) = some q ∧
        readNotice env s th d rc q = (s.dequeueWork (.death d)).putBack q (.death d)) ∨
      (¬ rc.NoticeWritable env ∧ readNotice env s th d rc q = s.dequeueWork (.death d)) ∨
      readNotice env s th d rc q = ((s.dequeueWork (.death d)).tell th (deathCmd death.type)
        (.death d)).deathReported th d death.type := by
  have hloc := s.dequeueWork_loc_self (.death d)
  have hback : ((s.dequeueWork (.death d)).putBack q (.death d)).queues.loc (.death d) =
      some q := by
    rw [putBack, Queues.insert_loc, if_pos ⟨rfl, hloc⟩]
  have hread : readDeath env (s.dequeueWork (.death d)) th d rc =
      .put (putCmdData env rc (deathCmd death.type) (LittleEndian.leBytes 8 death.cookie))
        (s.dequeueWork (.death d)) (((s.dequeueWork (.death d)).tell th (deathCmd death.type)
          (.death d)).deathReported th d death.type) := by
    have hd₀ : (s.dequeueWork (.death d)).deaths d = some death := hd
    rw [readDeath, hd₀]
  unfold readNotice
  rw [hread]
  rcases putCmdData_notice env rc (deathCmd death.type) death.cookie with
    heq | ⟨hfault, heq⟩ | heq
  · rw [heq]
    exact .inl ⟨hback, rfl⟩
  · rw [heq]
    exact .inr (.inl ⟨hfault, rfl⟩)
  · rw [heq]
    exact .inr (.inr rfl)

/-- Either nothing is said, or the cookie of the record is written behind the command. -/
theorem readDeath_told (env : Env) (s : Driver) (th : ThreadId) (d : DeathId) (rc : ReadCall) :
    (readDeath env s th d rc).drv.told = s.told ∨
      ∃ death, s.deaths d = some death ∧
        (readDeath env s th d rc).drv.told = (th, deathCmd death.type, .death d) :: s.told ∧
        (readDeath env s th d rc).rc.cmds =
          rc.cmds ++ [(deathCmd death.type, LittleEndian.leBytes 8 death.cookie)] := by
  unfold readDeath
  cases hd : s.deaths d with
  | none => exact .inl rfl
  | some death =>
      simp only
      rcases putCmdData_notice env rc (deathCmd death.type) death.cookie with
        heq | ⟨-, heq⟩ | heq
      · rw [heq]
        exact .inl rfl
      · rw [heq]
        exact .inl rfl
      · rw [heq]
        refine .inr ⟨death, rfl, ?_, rfl⟩
        change ((s.tell th (deathCmd death.type) (.death d)).deathReported th d death.type).told = _
        unfold deathReported
        split <;> rfl

/-- A read that goes on or ends says no more. -/
theorem readNext_told (env : Env) (h : Handled) (th : ThreadId) (p : ProcId) (w : Work)
    (fromProc : Bool) : (readNext env h th p w fromProc).told = h.drv.told := by
  obtain ⟨s₁, rc', hnext, heq⟩ := readNext_follows env h th p w fromProc
  rw [heq]
  cases hnext <;> rfl

/-- **The bytes of a report.**  A turn that finds record `d'` and says something of `d`
has found `d`, and has written the command and the eight bytes of the cookie. -/
theorem readTurn_writes_cookie (env : Env) {th : ThreadId} {thread : Thread} (rc : ReadCall)
    {d d' : DeathId} {fromProc : Bool}
    (hnext : s.nextWork th thread = some (.death d', fromProc))
    (htold : (readTurn env s th thread rc).toldOf d ≠ s.toldOf d) :
    ∃ death rc' more, s.deaths d = some death ∧
      (readTurn env s th thread rc).toldOf d = deathCmd death.type :: s.toldOf d ∧
      (readTurn env s th thread rc).calls th = some rc' ∧ rc'.cmds =
        rc.cmds ++ (deathCmd death.type, LittleEndian.leBytes 8 death.cookie) :: more := by
  have hturn : readTurn env s th thread rc =
      readNext env (readDeath env (s.dequeueWork (.death d')) th d' rc) th thread.proc (.death d')
        fromProc := by
    unfold readTurn
    simp only [hnext, readWork]
  rw [hturn] at htold ⊢
  rw [toldOf, readNext_told] at htold ⊢
  rcases readDeath_told env (s.dequeueWork (.death d')) th d' rc with
    hsame | ⟨death, hd, hsaid, hcmds⟩
  · exact absurd (by rw [hsame]; rfl) htold
  · rw [hsaid] at htold ⊢
    by_cases he : d' = d
    · subst he
      obtain ⟨rc', hcalls, hmore⟩ := readNext_cmds env
        (readDeath env (s.dequeueWork (.death d')) th d' rc) th thread.proc (.death d') fromProc
      refine ⟨death, rc', ?_⟩
      rcases hmore with hmore | hmore
      · exact ⟨[], hd, by simp [toldOf, dequeueWork], hcalls, by rw [hmore, hcmds]⟩
      · exact ⟨[(.spawnLooper, [])], hd, by simp [toldOf, dequeueWork], hcalls,
          by rw [hmore, hcmds, List.append_assoc]; rfl⟩
    · exact absurd (by simp [toldOf, dequeueWork, he]) htold

theorem notifyDeath_told (s : Driver) (r : RefId) : (s.notifyDeath r).told = s.told := by
  unfold notifyDeath
  split
  · rfl
  split
  · rfl
  split <;> rfl

theorem nodeDied_told (s : Driver) (n : NodeId) : (s.nodeDied n).told = s.told :=
  foldl_kept Driver.told notifyDeath_told _ _

/-- Nothing is said of records but by a read. -/
theorem NoticeStep.toldOf_eq (h : NoticeStep L s s') (hL : ∀ env rc, ¬ L (.read env rc))
    (d : DeathId) : s'.toldOf d = s.toldOf d := by
  cases h with
  | calm hc => exact hc.undisturbed.told d
  | request env p th handle cookie _ _ _ _ =>
      rcases deathRequest_cases s env p th handle cookie with
        ⟨heq, -⟩ | ⟨heq, -⟩ | ⟨r, ref, -, -, -, -, heq⟩
      · rw [heq]
      · rw [heq]
        rfl
      · rw [heq]
        split <;> rfl
  | clear p th handle cookie _ _ _ =>
      rcases deathClear_cases s p th handle cookie with
        ⟨heq, -⟩ | ⟨r, ref, d', death, -, -, -, -, -, -, ⟨-, heq⟩ | ⟨-, heq⟩⟩
      · rw [heq]
      · rw [heq]
        rfl
      · rw [heq]
        rfl
  | died p n _ _ => rw [toldOf, nodeDied_told, toldOf]
  | report env th d' rc q _ _ hread => exact absurd hread (hL env rc)
  | lost p d' q _ _ _ => rfl
  | release r ref _ =>
      cases ref.death with
      | none => rfl
      | some d' => rfl
  | exit p th _ => rfl

/-- **Every report carries the cookie.**  Whatever an action says of a record is said by
a turn of a read that found the record, and the cookie is written behind it. -/
theorem Reachable.report_carries_cookie (h : Reachable s) {a : Action} {d : DeathId}
    (htold : (s.act a).toldOf d ≠ s.toldOf d) :
    ∃ env th rc death rc' more, a = .readTurn env th ∧ s.calls th = some rc ∧
      s.deaths d = some death ∧ (s.act a).toldOf d = deathCmd death.type :: s.toldOf d ∧
      (s.act a).calls th = some rc' ∧ rc'.cmds =
        rc.cmds ++ (deathCmd death.type, LittleEndian.leBytes 8 death.cookie) :: more := by
  obtain ⟨hsound, hset, hbase, -⟩ := h.steady
  have hread : ∃ env rc, s.Occurs a (.notice (.read env rc)) := by
    by_contra hnone
    refine htold (Moves.invariant (P := fun s' => s'.toldOf d = s.toldOf d) ?_
      (act_moves hsound hset hbase a) hsound rfl)
    intro s₁ s₂ _ hmove heq
    refine Notices.invariant (P := fun s' => s'.toldOf d = s.toldOf d) ?_ hmove.notices heq
    intro s₁ s₂ hstep heq
    exact (hstep.toldOf_eq (fun env rc hL => hnone ⟨env, rc, hL⟩) d).trans heq
  obtain ⟨env, rc, hoccurs⟩ := hread
  cases hoccurs with
  | notice _ th thread _ d' fromProc hth hrc hnext =>
      have hturn : s.act (.readTurn env th) = readTurn env s th thread rc :=
        (act_readTurn hth hrc).resolve_left fun heq => htold (by rw [heq])
      rw [hturn] at htold ⊢
      obtain ⟨death, rc', more, hwritten⟩ := readTurn_writes_cookie env rc hnext htold
      exact ⟨env, th, rc, death, rc', more, rfl, hrc, hwritten⟩

/-! ## Handles that wait -/

/-- Every handle of a live process on a dead object has been told about or its
record waits where the process will read it, save for the handles `X` that the
driver is still to see to. -/
structure PendingBut (X : RefId → Prop) (s : Driver) : Prop where
  holder : ∀ r ref, s.refs r = some ref → ref.death ≠ none → ref.proc < s.nextId
  place : ∀ r ref d q, s.refs r = some ref → ref.death = some d →
    s.queues.loc (.death d) = some q → s.ReadBy ref.proc q
  waits : ∀ r ref d, s.refs r = some ref → ref.death = some d → ¬ X r →
    s.procAlive ref.proc = true → s.nodeIsDead ref.node = true →
    s.toldOf d ≠ [] ∨ s.queues.loc (.death d) ≠ none

/-- All handles are seen to. -/
abbrev Pending (s : Driver) : Prop := PendingBut (fun _ => False) s

namespace PendingBut

theorem init : Pending Driver.init := by
  refine ⟨?_, ?_, ?_⟩ <;> simp [Driver.init]

theorem mono {Y : RefId → Prop} (h : PendingBut X s)
    (himp : ∀ r ref, s.refs r = some ref → ref.death ≠ none → X r → Y r) : PendingBut Y s where
  holder := h.holder
  place := h.place
  waits r ref d hr hd hY :=
    h.waits r ref d hr hd fun hX => hY (himp r ref hr (by simp [hd]) hX)

/-- A stretch that leaves the death records alone leaves the notices pending. -/
theorem calm (h : PendingBut X s) (hc : Calm s s') : PendingBut X s' := by
  have hu := hc.undisturbed
  have hback : ∀ r ref' d, s'.refs r = some ref' → ref'.death = some d →
      ∃ ref, s.refs r = some ref ∧ ref.proc = ref'.proc ∧ ref.node = ref'.node ∧
        ref.death = some d := by
    intro r ref' d hr hd
    rcases hc.refs r ref' hr with hnone | ⟨ref, hr₀, hsame⟩
    · rw [hnone] at hd
      cases hd
    · exact ⟨ref, hr₀, hsame.proc.symm, hsame.node.symm, hsame.death ▸ hd⟩
  refine ⟨?_, ?_, ?_⟩
  · intro r ref' hr hdeath
    obtain ⟨d, hd⟩ := Option.ne_none_iff_exists'.mp hdeath
    obtain ⟨ref, hr₀, hproc, -, hd₀⟩ := hback r ref' d hr hd
    rw [← hproc]
    exact Nat.lt_of_lt_of_le (h.holder r ref hr₀ (by simp [hd₀])) hc.nextId
  · intro r ref' d q hr hd hq
    obtain ⟨ref, hr₀, hproc, -, hd₀⟩ := hback r ref' d hr hd
    rw [hu.loc] at hq
    rw [← hproc]
    exact (h.place r ref d q hr₀ hd₀ hq).mono hc.home
  · intro r ref' d hr hd hX halive hdead
    obtain ⟨ref, hr₀, hproc, hnode, hd₀⟩ := hback r ref' d hr hd
    rw [hu.told, hu.loc]
    refine h.waits r ref d hr₀ hd₀ hX ?_ ?_
    · have hlt := h.holder r ref hr₀ (by simp [hd₀])
      exact hc.alive ref.proc hlt (hproc ▸ halive)
    · rw [hnode]
      unfold nodeIsDead at hdead ⊢
      cases hn : s'.nodes ref'.node with
      | none =>
          rw [hn] at hdead
          cases hdead
      | some nd' =>
          rw [hn] at hdead
          change nd'.isDead = true at hdead
          rcases hc.node _ nd' hn with halive' | ⟨nd, hn₀, hsame, -⟩
          · rw [halive'] at hdead
            cases hdead
          · rw [hn₀]
            exact hsame.symm.trans hdead

/-- One record changes, together with what was said about it. -/
theorem one (h : PendingBut X s) {d : DeathId} (ho : Notified.OnlyRecord d s s')
    (hthreads : s'.threads = s.threads) (hprocs : s'.procs = s.procs)
    (hheld : ∀ r ref, s.refs r = some ref → ref.death = some d →
      (∀ q, s'.queues.loc (.death d) = some q → s.ReadBy ref.proc q) ∧
      (s'.toldOf d ≠ [] ∨ s'.queues.loc (.death d) ≠ none)) : PendingBut X s' := by
  refine ⟨?_, ?_, ?_⟩
  · rw [ho.refs, ho.nextId]
    exact h.holder
  · intro r ref d' q hr hd' hq
    rw [ho.refs] at hr
    have hread : s.ReadBy ref.proc q := by
      by_cases he : d' = d
      · subst he
        exact (hheld r ref hr hd').1 q hq
      · rw [ho.loc d' he] at hq
        exact h.place r ref d' q hr hd' hq
    exact hread.mono fun th p hth => by rwa [hthreads]
  · intro r ref d' hr hd' hX halive hdead
    rw [ho.refs] at hr
    by_cases he : d' = d
    · subst he
      exact (hheld r ref hr hd').2
    · rw [ho.told d' he, ho.loc d' he]
      rw [procAlive, hprocs] at halive
      rw [nodeIsDead, ho.nodes] at hdead
      exact h.waits r ref d' hr hd' hX halive hdead

/-- A record that no handle points at changes. -/
theorem loose (h : PendingBut X s) {d : DeathId} (ho : Notified.OnlyRecord d s s')
    (hthreads : s'.threads = s.threads) (hprocs : s'.procs = s.procs)
    (hheld : ∀ r ref, s.refs r = some ref → ref.death ≠ some d) : PendingBut X s' :=
  h.one ho hthreads hprocs fun r ref hr hd => absurd hd (hheld r ref hr)

/-- A handle lets go of its record. -/
theorem unhand (h : PendingBut X s) (r : RefId) :
    PendingBut X (s.updRef r fun ref => { ref with death := none }) := by
  have hback : ∀ r' ref', (s.updRef r fun ref => { ref with death := none }).refs r' =
      some ref' → ref'.death ≠ none → s.refs r' = some ref' := by
    intro r' ref' hr hd
    by_cases he : r' = r
    · subst he
      simp only [updRef, Function.update_self, Option.map_eq_some_iff] at hr
      obtain ⟨ref, -, rfl⟩ := hr
      exact absurd rfl hd
    · simpa [updRef, he] using hr
  refine ⟨?_, ?_, ?_⟩
  · intro r' ref' hr hd
    exact h.holder r' ref' (hback r' ref' hr hd) hd
  · intro r' ref' d q hr hd
    exact h.place r' ref' d q (hback r' ref' hr (by simp [hd])) hd
  · intro r' ref' d hr hd
    exact h.waits r' ref' d (hback r' ref' hr (by simp [hd])) hd

/-! ### Requests and clears -/

/-- A handle is given a record and is still to be seen to. -/
theorem register (h : Pending s) (hn : Notified s) {r : RefId} {ref : Ref}
    (hr : s.refs r = some ref) (hp : ref.proc < s.nextId) (cookie : Nat) :
    PendingBut (· = r) (s.registered r cookie) := by
  have hback : ∀ r' ref', (s.registered r cookie).refs r' = some ref' →
      (r' = r ∧ ref' = { ref with death := some s.nextId }) ∨
        (r' ≠ r ∧ s.refs r' = some ref') := by
    intro r' ref' hr'
    by_cases he : r' = r
    · subst he
      refine .inl ⟨rfl, ?_⟩
      have hupd : (s.refs r').map (fun ref => { ref with death := some s.nextId }) =
          some ref' := by simpa [registered, insertDeath, updRef, bumpId] using hr'
      rw [hr, Option.map_some, Option.some.injEq] at hupd
      exact hupd.symm
    · exact .inr ⟨he, by simpa [registered, insertDeath, updRef, bumpId, he] using hr'⟩
  refine ⟨?_, ?_, ?_⟩
  · intro r' ref' hr' hd
    rcases hback r' ref' hr' with ⟨-, rfl⟩ | ⟨-, hr₀⟩
    · exact Nat.lt_succ_of_lt hp
    · exact Nat.lt_succ_of_lt (h.holder r' ref' hr₀ hd)
  · intro r' ref' d q hr' hd hq
    change s.queues.loc (.death d) = some q at hq
    rcases hback r' ref' hr' with ⟨-, rfl⟩ | ⟨-, hr₀⟩
    · -- The new record is on no queue.
      cases hd
      cases hn.unqueued.symm.trans hq
    · exact h.place r' ref' d q hr₀ hd hq
  · intro r' ref' d hr' hd hne halive hdead
    rcases hback r' ref' hr' with ⟨he, -⟩ | ⟨-, hr₀⟩
    · exact absurd he hne
    · exact h.waits r' ref' d hr₀ hd id halive hdead

/-- A request is made, and answered at once if the object is dead already. -/
theorem request (h : Pending s) (hn : Notified s) (env : Env) {p : ProcId} {th : ThreadId}
    {handle : Nat} (cookie : Nat) (hth : (s.threads th).map (·.proc) = some p)
    (hp : p < s.nextId) (hheld : s.HeldBy p handle) :
    Pending (s.deathRequest env p th handle cookie).1 := by
  rcases deathRequest_cases s env p th handle cookie with
    ⟨heq, -⟩ | ⟨heq, -⟩ | ⟨r, ref, hfind, hr, -, -, heq⟩
  · rw [heq]
    exact h
  · rw [heq]
    exact h.calm (.bumpId s)
  · have hproc : ref.proc = p := hheld r ref hfind hr
    have hreg := h.register hn hr (hproc ▸ hp) cookie
    have hnreg := hn.register hr cookie
    have hnew : (s.registered r cookie).refs r = some { ref with death := some s.nextId } := by
      simp [registered, insertDeath, updRef, bumpId, hr]
    rw [heq]
    split
    · -- The object is dead already: the record goes to the asking thread.
      have hqueued : ((s.registered r cookie).enqueueThreadWork th
          (.death s.nextId)).queues.loc (.death s.nextId) = some (.thread th) := by
        rw [enqueueThreadWork, Queues.insert_loc, if_pos ⟨rfl, hn.unqueued⟩]
      have hone : PendingBut (· = r)
          ((s.registered r cookie).enqueueThreadWork th (.death s.nextId)) := by
        refine hreg.one (.enqueue _ (.thread th) s.nextId false) rfl rfl ?_
        intro r' ref' hr' hd'
        obtain rfl := hnreg.only r' r ref' _ s.nextId hr' hnew hd' rfl
        obtain rfl := Option.some.inj (hnew.symm.trans hr')
        refine ⟨?_, .inr (by rw [hqueued]; simp)⟩
        intro q hq
        obtain rfl := Option.some.inj (hqueued.symm.trans hq)
        exact .inr ⟨th, rfl, by rw [← hproc] at hth; exact hth⟩
      refine ⟨hone.holder, hone.place, ?_⟩
      intro r' ref' d hr' hd hX halive hdead
      by_cases he : r' = r
      · subst he
        obtain rfl := Option.some.inj (hnew.symm.trans hr')
        cases hd
        exact .inr (by rw [hqueued]; simp)
      · exact hone.waits r' ref' d hr' hd he halive hdead
    · rename_i halive
      refine ⟨hreg.holder, hreg.place, ?_⟩
      intro r' ref' d hr' hd hX halive' hdead
      by_cases he : r' = r
      · subst he
        obtain rfl := Option.some.inj (hnew.symm.trans hr')
        exact absurd hdead halive
      · exact hreg.waits r' ref' d hr' hd he halive' hdead

theorem clear (h : Pending s) (hn : Notified s) (p : ProcId) (th : ThreadId)
    (handle cookie : Nat) : Pending (s.deathClear p th handle cookie).1 := by
  rcases deathClear_cases s p th handle cookie with
    ⟨heq, -⟩ | ⟨r, ref, d, death, -, hr, hd, -, -, -, ⟨-, heq⟩ | ⟨-, heq⟩⟩
  · rw [heq]
    exact h
  all_goals
    have hfree := h.unhand r
    have hno := hn.unhanded hr hd
  · exact heq ▸ hfree.loose (.updDeath _ d _) rfl rfl hno
  · have hnew := hfree.loose (.updDeath _ d fun death =>
      { death with type := .clearDeathNotification }) rfl rfl hno
    exact heq ▸ hnew.loose (.enqueue _ (.thread th) d false) rfl rfl hno

/-! ### The object dies -/

/-- A holder is seen to. -/
theorem notifyDeath (h : PendingBut X s) (hn : Notified s) (r : RefId) :
    PendingBut (fun r' => X r' ∧ r' ≠ r) (s.notifyDeath r) := by
  have hsame : ∀ ref, s.refs r = some ref →
      (∀ d, ref.death = some d → s.queues.loc (.death d) ≠ none) →
      PendingBut (fun r' => X r' ∧ r' ≠ r) s := by
    intro ref href hqueued
    refine ⟨h.holder, h.place, ?_⟩
    intro r' ref' d hr' hd hX halive hdead
    by_cases he : r' = r
    · subst he
      obtain rfl := Option.some.inj (href.symm.trans hr')
      exact .inr (hqueued d hd)
    · exact h.waits r' ref' d hr' hd (fun hx => hX ⟨hx, he⟩) halive hdead
  unfold Driver.notifyDeath
  split
  · rename_i hnone
    refine h.mono fun r' ref hr _ hX => ⟨hX, ?_⟩
    rintro rfl
    rw [hnone] at hr
    cases hr
  · rename_i ref href
    split
    · rename_i hnone
      refine hsame ref href fun d hd => ?_
      rw [hnone] at hd
      cases hd
    · rename_i d hd
      split
      · rename_i hqueued
        refine hsame ref href fun d' hd' => ?_
        obtain rfl := Option.some.inj (hd.symm.trans hd')
        exact Option.isSome_iff_ne_none.mp hqueued
      · rename_i hqueued
        have hnone : s.queues.loc (.death d) = none := by
          simpa [workQueued] using hqueued
        have hlater : (((s.updDeath d fun death => { death with type := .deadBinder }).enqueueWork
            ref.proc (.death d)).wakeupProc ref.proc).queues.loc (.death d) =
              some (.proc ref.proc) := by
          change (s.queues.insert (.proc ref.proc) (.death d) false).loc (.death d) = _
          rw [Queues.insert_loc, if_pos ⟨rfl, hnone⟩]
        have hone : PendingBut X (((s.updDeath d fun death =>
            { death with type := .deadBinder }).enqueueWork ref.proc (.death d)).wakeupProc
              ref.proc) := by
          have honly := (Notified.OnlyRecord.updDeath s d fun death =>
            { death with type := .deadBinder }).trans
              ((Notified.OnlyRecord.enqueue _ (.proc ref.proc) d false).trans
                (.wakeupProc _ ref.proc d))
          refine h.one honly rfl rfl ?_
          intro r' ref' hr' hd'
          obtain rfl := hn.only r' r ref' ref d hr' href hd' hd
          obtain rfl := Option.some.inj (href.symm.trans hr')
          refine ⟨?_, .inr (by rw [hlater]; simp)⟩
          intro q hq
          obtain rfl := Option.some.inj (hlater.symm.trans hq)
          exact .inl rfl
        refine ⟨hone.holder, hone.place, ?_⟩
        intro r' ref' d' hr' hd' hX halive hdead
        by_cases he : r' = r
        · subst he
          obtain rfl := Option.some.inj (href.symm.trans hr')
          obtain rfl := Option.some.inj (hd.symm.trans hd')
          exact .inr (by rw [hlater]; simp)
        · exact hone.waits r' ref' d' hr' hd' (fun hx => hX ⟨hx, he⟩) halive hdead

/-- The loop over the holders: those that are left are still to be seen to. -/
theorem notifyDeaths (l : List RefId) (h : PendingBut (· ∈ l) s) (hn : Notified s)
    (hl : ∀ r ∈ l, ∀ ref, s.refs r = some ref → s.nodeIsDead ref.node = true ∧
      ∀ d, ref.death = some d → s.toldOf d = []) : Pending (l.foldl Driver.notifyDeath s) := by
  induction l generalizing s with
  | nil => exact h.mono fun _ _ _ _ hmem => absurd hmem (by simp)
  | cons r l ih =>
      obtain ⟨hrefs, hnodes, htold⟩ := Notified.notifyDeath_tables s r
      have hnext : PendingBut (· ∈ l) (s.notifyDeath r) :=
        (h.notifyDeath hn r).mono fun r' _ _ _ hX =>
          (List.mem_cons.mp hX.1).resolve_left hX.2
      refine ih hnext (hn.notifyDeath (hl r (by simp))) ?_
      intro r' hmem ref hr'
      rw [hrefs] at hr'
      obtain ⟨hdead, hsaid⟩ := hl r' (List.mem_cons_of_mem _ hmem) ref hr'
      refine ⟨by rw [nodeIsDead, hnodes]; exact hdead, fun d hd => ?_⟩
      rw [toldOf, htold]
      exact hsaid d hd

/-- The node is marked dead, and its holders are to be seen to. -/
theorem markDead (h : Pending s) (n : NodeId)
    (hrefs : ∀ r, r ∈ s.nodeRefs n ↔ ∃ ref, s.refs r = some ref ∧ some ref.node = some n) :
    PendingBut (· ∈ s.nodeRefs n)
      (s.updNode n fun nd => { nd with isDead := true, proc := none }) := by
  refine ⟨h.holder, h.place, ?_⟩
  intro r ref d hr hd hX halive hdead
  have hne : ref.node ≠ n := fun he => hX ((hrefs r).mpr ⟨ref, hr, by rw [he]⟩)
  refine h.waits r ref d hr hd id halive ?_
  unfold nodeIsDead at hdead ⊢
  simpa [updNode, hne] using hdead

theorem died (h : Pending s) (hn : Notified s) {p : ProcId} {n : NodeId}
    (hown : (s.nodes n).bind (·.proc) = some p)
    (hrefs : ∀ r, r ∈ s.nodeRefs n ↔ ∃ ref, s.refs r = some ref ∧ some ref.node = some n) :
    Pending (s.nodeDied n) :=
  notifyDeaths _ (h.markDead n hrefs) (hn.markDead n) (hn.untold hown hrefs)

/-! ### Reports, releases and exits -/

/-- A notice is read: it is put back, or it has been told. -/
theorem readNotice (h : Pending s) (hn : Notified s) (env : Env) (th : ThreadId) {d : DeathId}
    (rc : ReadCall) {q : Queue} (hq : s.queues.loc (.death d) = some q)
    (hwritable : rc.NoticeWritable env) : Pending (readNotice env s th d rc q) := by
  have hrecord := hn.record d
  rw [hq] at hrecord
  obtain ⟨death, hd⟩ := Option.isSome_iff_exists.mp hrecord.isSome_of_queued
  have hout := Notified.OnlyRecord.dequeue s d
  rcases readNotice_cases env th rc q hd with ⟨hlater, heq⟩ | ⟨hfault, -⟩ | heq
  · rw [heq] at hlater ⊢
    refine h.one (hout.trans (.enqueue _ q d true)) rfl rfl ?_
    intro r ref hr hrd
    refine ⟨?_, .inr (by rw [hlater]; simp)⟩
    intro q' hq'
    obtain rfl := Option.some.inj (hlater.symm.trans hq')
    exact h.place r ref d q hr hrd hq
  · exact absurd hwritable hfault
  · have htell := hout.trans (.tell _ th (deathCmd death.type) d)
    have hno : death.type ≠ .deadBinder → ∀ r ref, s.refs r = some ref → ref.death ≠ some d := by
      intro htype r ref hr hrd
      obtain ⟨c, hc⟩ := hn.handle r ref d hr hrd
      rw [hd] at hc
      cases hc
      exact htype rfl
    rw [heq]
    obtain ⟨cookie, type⟩ := death
    cases type with
    | deadBinder =>
        refine h.one htell rfl rfl ?_
        intro r ref hr hrd
        refine ⟨?_, .inl ?_⟩
        · intro q' hq'
          change (s.queues.remove (.death d)).loc (.death d) = some q' at hq'
          rw [Queues.remove_loc, if_pos rfl] at hq'
          cases hq'
        · change ((s.dequeueWork (.death d)).tell th .deadBinder (.death d)).toldOf d ≠ []
          rw [Notified.toldOf_tell]
          simp
    | deadBinderAndClear =>
        exact h.loose (htell.trans ((Notified.OnlyRecord.updDeath _ d _).trans
          (.enqueue _ (.thread th) d false))) rfl rfl (hno (by simp))
    | clearDeathNotification =>
        have hsaid : Pending ((s.dequeueWork (.death d)).tell th .clearDeathNotificationDone
            (.death d)) := h.loose htell rfl rfl (hno (by simp))
        exact ⟨hsaid.holder, hsaid.place, hsaid.waits⟩

theorem dequeue (h : Pending s) {d : DeathId}
    (hdead : ∀ r ref, s.refs r = some ref → ref.death = some d → s.procAlive ref.proc = false) :
    Pending (s.dequeueWork (.death d)) := by
  refine ⟨h.holder, ?_, ?_⟩
  · intro r ref d' q hr hd' hq
    exact h.place r ref d' q hr hd' (Recedes.dequeue s (.death d) d' q hq)
  · intro r ref d' hr hd' hX halive hdead'
    have hne : d' ≠ d := by
      rintro rfl
      have halive : s.procAlive ref.proc = true := halive
      rw [hdead r ref hr hd'] at halive
      cases halive
    rw [(Notified.OnlyRecord.dequeue s d).loc d' hne]
    exact h.waits r ref d' hr hd' hX halive hdead'

/-- A handle is deleted with its record. -/
theorem release (h : Pending s) (hn : Notified s) {r : RefId} {ref : Ref}
    (hr : s.refs r = some ref) : Pending ((s.releaseDeath ref.death).forgetRef r ref) := by
  have hgone : Pending (s.forgetRef r ref) := by
    refine ⟨?_, ?_, ?_⟩
    · intro r' ref' hr'
      exact h.holder r' ref' (forgetRef_back hr').2
    · intro r' ref' d q hr'
      exact h.place r' ref' d q (forgetRef_back hr').2
    · intro r' ref' d hr'
      exact h.waits r' ref' d (forgetRef_back hr').2
  cases hd : ref.death with
  | none => exact hgone
  | some d =>
      have hout := hgone.loose (.dequeue _ d) rfl rfl fun r' ref' hr' hd' =>
        (forgetRef_back hr').1 (hn.only r' r ref' ref d (forgetRef_back hr').2 hr hd' hd)
      exact ⟨hout.holder, hout.place, hout.waits⟩

theorem exit (h : Pending s) {p : ProcId} {th : ThreadId}
    (hth : ∀ d, s.queues.loc (.death d) ≠ some (.thread th)) : Pending (s.forgetThread p th) := by
  refine ⟨h.holder, ?_, h.waits⟩
  intro r ref d q hr hd hq
  rcases h.place r ref d q hr hd hq with hproc | ⟨th', rfl, hth'⟩
  · exact .inl hproc
  · have hne : th' ≠ th := by
      rintro rfl
      exact hth d hq
    exact .inr ⟨th', rfl, by simpa [forgetThread, hne] using hth'⟩

end PendingBut

/-- A step that keeps the records keeps the notices pending. -/
theorem NoticeStep.pending (h : NoticeStep L s s') (hL : KeepsRecords L) (hn : Notified s)
    (hp : Pending s) : Pending s' := by
  cases h with
  | calm hc => exact hp.calm hc
  | request env p th handle cookie _ hth hlt hheld => exact hp.request hn env cookie hth hlt hheld
  | clear p th handle cookie _ _ _ => exact hp.clear hn p th handle cookie
  | died p n hown hrefs => exact hp.died hn hown hrefs
  | report env th d rc q hq _ h => exact hp.readNotice hn env th rc hq (hL.read env rc h)
  | lost p d q hq hplace h =>
      have hdead := h.resolve_left (hL.lost d)
      refine hp.dequeue fun r ref hr hd => ?_
      rw [(hp.place r ref d q hr hd hq).unique hplace]
      exact hdead
  | release r ref hr => exact hp.release hn hr
  | exit p th h => exact hp.exit h

/-- The handles are seen to in every state of a run that loses no notice. -/
theorem Reaches.pending (h : Reaches KeepsNotices s) : Pending s := by
  have hboth : Notified s ∧ Pending s := by
    refine Reaches.effects (P := fun s => Notified s ∧ Pending s) ⟨.init, .init⟩ ?_ h
    intro s a _ _ hkeeps s₁ s₂ _ _ hmove hP
    exact hmove.notices.invariant (P := fun s => Notified s ∧ Pending s)
      (fun _ _ hstep hP => ⟨hstep.notified hP.1, hstep.pending hkeeps.records hP.1 hP.2⟩) hP
  exact hboth.2

/-! ## Answers that wait -/

/-- The record waits where `p` reads it, and its clear will be answered. -/
def Waits (s : Driver) (p : ProcId) (d : DeathId) (cookie : Nat) : Prop :=
  ∃ q type, s.queues.loc (.death d) = some q ∧ s.ReadBy p q ∧
    s.deaths d = some ⟨cookie, type⟩ ∧ type ≠ .deadBinder

/-- The clear of record `d` by `p` was answered, or will be if `p` lives. -/
structure Owed (s : Driver) (p : ProcId) (d : DeathId) (cookie : Nat) : Prop where
  lt : p < s.nextId
  answer : .clearDeathNotificationDone ∈ s.toldOf d ∨ s.procAlive p = false ∨
    s.Waits p d cookie

namespace Owed

variable {p : ProcId} {d : DeathId} {cookie : Nat}

/-- What was said stays said and who is dead stays dead; the record itself is
looked at only while it waits. -/
theorem carry (h : Owed s p d cookie) (htold : ∀ cmd ∈ s.toldOf d, cmd ∈ s'.toldOf d)
    (halive : p < s.nextId → s'.procAlive p = true → s.procAlive p = true)
    (hid : s.nextId ≤ s'.nextId) (hwaits : s.Waits p d cookie →
      .clearDeathNotificationDone ∈ s'.toldOf d ∨ s'.procAlive p = false ∨ s'.Waits p d cookie) :
    Owed s' p d cookie where
  lt := Nat.lt_of_lt_of_le h.lt hid
  answer := by
    rcases h.answer with hdone | hdead | hwait
    · exact .inl (htold _ hdone)
    · refine .inr (.inl ?_)
      cases hp : s'.procAlive p with
      | false => rfl
      | true =>
          rw [halive h.lt hp] at hdead
          cases hdead
    · exact hwaits hwait

/-- The record is left alone. -/
theorem same (h : Owed s p d cookie) (hdeaths : s'.deaths d = s.deaths d)
    (hloc : s'.queues.loc (.death d) = s.queues.loc (.death d))
    (htold : s'.toldOf d = s.toldOf d) (hprocs : s'.procs = s.procs)
    (hthreads : s'.threads = s.threads) (hid : s.nextId ≤ s'.nextId) : Owed s' p d cookie := by
  refine h.carry (fun cmd hcmd => htold ▸ hcmd) (fun _ hp => by rwa [procAlive, hprocs] at hp)
    hid fun ⟨q, type, hq, hread, hd, htype⟩ => .inr (.inr ⟨q, type, hloc.trans hq, ?_,
      hdeaths.trans hd, htype⟩)
  exact hread.mono fun th p hth => by rwa [hthreads]

theorem other (h : Owed s p d cookie) {d' : DeathId} (hne : d ≠ d')
    (ho : Notified.OnlyRecord d' s s') (hprocs : s'.procs = s.procs)
    (hthreads : s'.threads = s.threads) : Owed s' p d cookie :=
  h.same (ho.deaths d hne) (ho.loc d hne) (ho.told d hne) hprocs hthreads (by rw [ho.nextId])

theorem calm (h : Owed s p d cookie) (hc : Calm s s') : Owed s' p d cookie := by
  have hu := hc.undisturbed
  refine h.carry (fun cmd hcmd => hu.told d ▸ hcmd) (hc.alive p) hc.nextId
    fun ⟨q, type, hq, hread, hd, htype⟩ => .inr (.inr ⟨q, type, (hu.loc d).trans hq,
      hread.mono hc.home, ?_, htype⟩)
  rw [hu.deaths]
  exact hd

/-- A record that waits for its last answers hangs off no handle. -/
theorem unheld (hn : Notified s) (hw : s.Waits p d cookie) {r : RefId} {ref : Ref}
    (hr : s.refs r = some ref) : ref.death ≠ some d := by
  intro hd
  obtain ⟨c, hc⟩ := hn.handle r ref d hr hd
  obtain ⟨-, type, -, -, hdeath, htype⟩ := hw
  rw [hc] at hdeath
  cases hdeath
  exact htype rfl

/-- A further request takes no answer away. -/
theorem request (h : Owed s p d cookie) (hn : Notified s) (env : Env) (p' : ProcId)
    (th : ThreadId) (handle cookie' : Nat) :
    Owed (s.deathRequest env p' th handle cookie').1 p d cookie := by
  rcases deathRequest_cases s env p' th handle cookie' with
    ⟨heq, -⟩ | ⟨heq, -⟩ | ⟨r, ref, -, -, -, -, heq⟩
  · rw [heq]
    exact h
  · rw [heq]
    exact h.calm (.bumpId s)
  · have hreg : Owed (s.registered r cookie') p d cookie := by
      refine h.carry (fun _ hcmd => hcmd) (fun _ hp => hp) (Nat.le_succ _) ?_
      rintro ⟨q, type, hq, hread, hd, htype⟩
      have hne : d ≠ s.nextId := Nat.ne_of_lt (hn.lt (by simp [hd]))
      exact .inr (.inr ⟨q, type, hq, hread,
        by simpa [registered, insertDeath, updRef, bumpId, hne] using hd, htype⟩)
    rw [heq]
    split
    · refine hreg.carry (fun _ hcmd => hcmd) (fun _ hp => hp) (Nat.le_refl _) ?_
      rintro ⟨q, type, hq, hread, hd, htype⟩
      refine .inr (.inr ⟨q, type, ?_, hread, hd, htype⟩)
      rw [enqueueThreadWork, Queues.insert_loc, if_neg, hq]
      rintro ⟨he, hnone⟩
      rw [he, hnone] at hq
      cases hq
    · exact hreg

/-- Another clear takes no answer away. -/
theorem clear (h : Owed s p d cookie) (hn : Notified s) (p' : ProcId) (th : ThreadId)
    (handle cookie' : Nat) : Owed (s.deathClear p' th handle cookie').1 p d cookie := by
  rcases deathClear_cases s p' th handle cookie' with
    ⟨heq, -⟩ | ⟨r, ref, d', death, -, hr, hd, -, -, -, hcase⟩
  · rw [heq]
    exact h
  · -- The cleared record hangs off a handle, and a waiting one does not.
    by_cases he : d = d'
    · subst he
      have hfree : ¬ s.Waits p d cookie := fun hw => unheld hn hw hr hd
      rcases hcase with ⟨-, heq⟩ | ⟨-, heq⟩ <;> rw [heq] <;>
        exact h.carry (fun _ hcmd => hcmd) (fun _ hp => hp) (Nat.le_refl _)
          fun hw => absurd hw hfree
    · rcases hcase with ⟨-, heq⟩ | ⟨-, heq⟩
      · rw [heq]
        exact (h.other he (.updDeath s d' _) rfl rfl).same rfl rfl rfl rfl rfl (Nat.le_refl _)
      · rw [heq]
        exact ((h.other he (.updDeath s d' _) rfl rfl).other he
          (.enqueue _ (.thread th) d' false) rfl rfl).same rfl rfl rfl rfl rfl (Nat.le_refl _)

/-- A record that waits is queued, and a holder's is only queued if it was not. -/
theorem notifyDeath (h : Owed s p d cookie) (r : RefId) : Owed (s.notifyDeath r) p d cookie := by
  unfold Driver.notifyDeath
  split
  · exact h
  · split
    · exact h
    · rename_i d' _
      split
      · exact h
      · rename_i hqueued
        by_cases he : d = d'
        · subst he
          refine h.carry (fun _ hcmd => hcmd) (fun _ hp => hp) (Nat.le_refl _) ?_
          rintro ⟨q, type, hq, -⟩
          simp [workQueued, hq] at hqueued
        · exact ((h.other he (.updDeath s d' _) rfl rfl).other he
            (.enqueue _ _ d' false) rfl rfl).same rfl rfl rfl rfl rfl (Nat.le_refl _)

theorem died (h : Owed s p d cookie) (n : NodeId) : Owed (s.nodeDied n) p d cookie := by
  apply List.foldlRecOn (motive := fun s => Owed s p d cookie)
  · exact h.same rfl rfl rfl rfl rfl (Nat.le_refl _)
  · exact fun s hs r _ => hs.notifyDeath r

/-- The record is met by a thread of `p`: it goes back, or is answered, or comes
round once more with the answer. -/
theorem readSelf (h : Owed s p d cookie) (env : Env) (th : ThreadId) (rc : ReadCall) {q : Queue}
    {death : Death} (hd : s.deaths d = some death) (hq : s.queues.loc (.death d) = some q)
    (hplace : q = .thread th ∨ ∃ p, q = .proc p ∧ (s.threads th).map (·.proc) = some p)
    (hwritable : rc.NoticeWritable env) : Owed (readNotice env s th d rc q) p d cookie := by
  have hnone : (s.queues.remove (.death d)).loc (.death d) = none := by
    rw [Queues.remove_loc, if_pos rfl]
  rcases readNotice_cases env th rc q hd with ⟨hlater, heq⟩ | ⟨hfault, -⟩ | heq
  · rw [heq] at hlater ⊢
    exact h.same rfl (hlater.trans hq.symm) rfl rfl rfl (Nat.le_refl _)
  · exact absurd hwritable hfault
  · rw [heq]
    have htold : ((s.dequeueWork (.death d)).tell th (deathCmd death.type) (.death d)).toldOf d =
        deathCmd death.type :: s.toldOf d := Notified.toldOf_tell _ th _ d
    have hkept : ∀ cmd ∈ s.toldOf d,
        cmd ∈ ((s.dequeueWork (.death d)).tell th (deathCmd death.type) (.death d)).toldOf d := by
      intro cmd hcmd
      rw [htold]
      exact List.mem_cons_of_mem _ hcmd
    obtain ⟨cookie', type⟩ := death
    cases type with
    | deadBinder =>
        refine h.carry hkept (fun _ hp => hp) (Nat.le_refl _) ?_
        rintro ⟨q', type, -, -, hd', htype⟩
        cases hd.symm.trans hd'
        exact absurd rfl htype
    | deadBinderAndClear =>
        refine h.carry hkept (fun _ hp => hp) (Nat.le_refl _) ?_
        rintro ⟨q', type, hq', hread, hd', -⟩
        cases hd.symm.trans hd'
        obtain rfl := Option.some.inj (hq.symm.trans hq')
        refine .inr (.inr ⟨.thread th, .clearDeathNotification, ?_, hread.reader hplace, ?_,
          by simp⟩)
        · change ((s.queues.remove (.death d)).insert (.thread th) (.death d) false).loc
            (.death d) = _
          rw [Queues.insert_loc, if_pos ⟨rfl, hnone⟩]
        · simp [deathReported, enqueueThreadWork, updDeath, tell, dequeueWork, hd]
    | clearDeathNotification =>
        refine h.carry hkept (fun _ hp => hp) (Nat.le_refl _) fun _ => .inl ?_
        change _ ∈ ((s.dequeueWork (.death d)).tell th (deathCmd .clearDeathNotification)
          (.death d)).toldOf d
        rw [htold]
        exact List.mem_cons_self ..

/-- Reading another record takes no answer away. -/
theorem readOther (h : Owed s p d cookie) (env : Env) (th : ThreadId) (rc : ReadCall) {q : Queue}
    {d' : DeathId} {death : Death} (hd : s.deaths d' = some death) (hne : d ≠ d') :
    Owed (readNotice env s th d' rc q) p d cookie := by
  have hout := h.other hne (.dequeue s d') rfl rfl
  rcases readNotice_cases env th rc q hd with ⟨-, heq⟩ | ⟨-, heq⟩ | heq
  · rw [heq]
    exact hout.other hne (.enqueue _ q d' true) rfl rfl
  · rw [heq]
    exact hout
  · rw [heq]
    have htell := hout.other hne (.tell _ th (deathCmd death.type) d') rfl rfl
    unfold deathReported
    split
    · exact htell
    · exact (htell.other hne (.updDeath _ d' _) rfl rfl).other hne
        (.enqueue _ (.thread th) d' false) rfl rfl
    · exact htell.same (by simp [forgetDeath, hne]) rfl rfl rfl rfl (Nat.le_refl _)

theorem readNotice (h : Owed s p d cookie) (hn : Notified s) (env : Env) (th : ThreadId)
    {d' : DeathId} (rc : ReadCall) {q : Queue} (hq : s.queues.loc (.death d') = some q)
    (hplace : q = .thread th ∨ ∃ p, q = .proc p ∧ (s.threads th).map (·.proc) = some p)
    (hwritable : rc.NoticeWritable env) : Owed (readNotice env s th d' rc q) p d cookie := by
  have hrecord := hn.record d'
  rw [hq] at hrecord
  obtain ⟨death, hd⟩ := Option.isSome_iff_exists.mp hrecord.isSome_of_queued
  by_cases he : d = d'
  · subst he
    exact h.readSelf env th rc hd hq hplace hwritable
  · exact h.readOther env th rc hd he

theorem release (h : Owed s p d cookie) (hn : Notified s) {r : RefId} {ref : Ref}
    (hr : s.refs r = some ref) :
    Owed ((s.releaseDeath ref.death).forgetRef r ref) p d cookie := by
  cases hd : ref.death with
  | none => exact h.same rfl rfl rfl rfl rfl (Nat.le_refl _)
  | some d' =>
      by_cases he : d = d'
      · subst he
        exact h.carry (fun _ hcmd => hcmd) (fun _ hp => hp) (Nat.le_refl _)
          fun hw => absurd hd (unheld hn hw hr)
      · exact (h.other he (.dequeue s d') rfl rfl).same
          (by simp [releaseDeath, forgetDeath, forgetRef, dequeueWork, he]) rfl rfl rfl rfl
          (Nat.le_refl _)

theorem exit (h : Owed s p d cookie) {p' : ProcId} {th : ThreadId}
    (hth : ∀ d, s.queues.loc (.death d) ≠ some (.thread th)) :
    Owed (s.forgetThread p' th) p d cookie := by
  refine h.carry (fun _ hcmd => hcmd) (fun _ hp => hp) (Nat.le_refl _) ?_
  rintro ⟨q, type, hq, hread, hd, htype⟩
  refine .inr (.inr ⟨q, type, hq, ?_, hd, htype⟩)
  rcases hread with hproc | ⟨th', rfl, hth'⟩
  · exact .inl hproc
  · have hne : th' ≠ th := by
      rintro rfl
      exact hth d hq
    exact .inr ⟨th', rfl, by simpa [forgetThread, hne] using hth'⟩

end Owed

/-- A step that keeps the records keeps what is owed. -/
theorem NoticeStep.owed {p : ProcId} {d : DeathId} {cookie : Nat} (h : NoticeStep L s s')
    (hL : KeepsRecords L) (hn : Notified s) (ho : Owed s p d cookie) : Owed s' p d cookie := by
  cases h with
  | calm hc => exact ho.calm hc
  | request env p' th handle cookie' _ _ _ _ => exact ho.request hn env p' th handle cookie'
  | clear p' th handle cookie' _ _ _ => exact ho.clear hn p' th handle cookie'
  | died p' n _ _ => exact ho.died n
  | report env th d' rc q hq hplace h =>
      exact ho.readNotice hn env th rc hq hplace (hL.read env rc h)
  | lost p' d' q hq hplace h =>
      by_cases he : d = d'
      · subst he
        refine ho.carry (fun _ hcmd => hcmd) (fun _ hp => hp) (Nat.le_refl _) ?_
        rintro ⟨q', type, hq', hread, -⟩
        obtain rfl := Option.some.inj (hq.symm.trans hq')
        rw [hread.unique hplace]
        exact .inr (.inl (h.resolve_left (hL.lost d)))
      · exact ho.other he (.dequeue s d') rfl rfl
  | release r ref hr => exact ho.release hn hr
  | exit p' th h => exact ho.exit h

/-- **An accepted clear is owed its answer**, by the asking process's thread or
by the queue on which the record already was. -/
theorem Clears.owed (hreach : Reachable s) (hpend : Pending s) {a : Action} {p : ProcId}
    {d : DeathId} {cookie : Nat} (h : s.Clears a p d cookie) : Owed (s.act a) p d cookie := by
  have hst := hreach.steady
  cases h with
  | mk env th thread handle cookie r ref d hidle hfind hr hd hok =>
      obtain ⟨hth, halive⟩ := idleThread_eq_some hidle
      have hlt := hst.settled.alive_lt halive
      have hproc : ref.proc = thread.proc := hst.sound.heldBy thread.proc handle r ref hfind hr
      rw [act, withIdle, hidle]
      simp only [writeCommand]
      rcases deathClear_cases s thread.proc th handle cookie with
        ⟨-, herr⟩ | ⟨r', ref', d', death, hfind', hr', hd', hdeath, hcookie, -, hcase⟩
      · exact absurd hok herr
      · obtain rfl := Option.some.inj (hfind.symm.trans hfind')
        obtain rfl := Option.some.inj (hr.symm.trans hr')
        obtain rfl := Option.some.inj (hd.symm.trans hd')
        subst hcookie
        rcases hcase with ⟨hqueued, heq⟩ | ⟨hnone, heq⟩
        · obtain ⟨q, hq⟩ := Option.isSome_iff_exists.mp hqueued
          rw [heq]
          refine ⟨hlt, .inr (.inr ⟨q, .deadBinderAndClear, hq, ?_, ?_, by simp⟩)⟩
          · exact hproc ▸ hpend.place r ref d q hr hd hq
          · simp [updRef, updDeath, hdeath]
        · rw [heq]
          refine ⟨hlt, .inr (.inr ⟨.thread th, .clearDeathNotification, ?_, ?_, ?_, by simp⟩)⟩
          · change (s.queues.insert (.thread th) (.death d) false).loc (.death d) = _
            rw [Queues.insert_loc, if_pos ⟨rfl, hnone⟩]
          · exact .inr ⟨th, rfl, congrArg (Option.map (·.proc)) hth⟩
          · simp [updRef, updDeath, enqueueThreadWork, hdeath]

/-! ## Whole runs -/

/-- A state of a run of allowed steps, one of which was an `E`. -/
inductive After (ok E : Driver → Action → Prop) : Driver → Prop
  | now {s : Driver} (a : Action) (h : Reaches ok s) (hok : ok s a) (hE : E s a) :
      After ok E (s.act a)
  | later {s : Driver} (a : Action) (h : After ok E s) (hok : ok s a) : After ok E (s.act a)

theorem After.reaches {ok E : Driver → Action → Prop} (h : After ok E s) : Reaches ok s := by
  induction h with
  | now a h hok _ => exact .step a h hok
  | later a _ hok ih => exact .step a ih hok

/-- Accepted clears are owed their answers along every run that loses no
notice. -/
theorem After.owed {p : ProcId} {d : DeathId} {cookie : Nat}
    (h : After KeepsNotices (fun s a => s.Clears a p d cookie) s) : Owed s p d cookie := by
  induction h with
  | now a h _ hclears => exact hclears.owed h.reachable h.pending
  | later a h hkeeps ih =>
      rename_i s
      have hreach := h.reaches.reachable
      have hst := hreach.steady
      have hboth : Notified (s.act a) ∧ Owed (s.act a) p d cookie := by
        refine (hst.moves a).invariant
          (P := fun s => Notified s ∧ Owed s p d cookie) ?_ hst.sound ⟨hreach.notified, ih⟩
        intro s₁ s₂ _ hmove hP
        exact hmove.notices.invariant (P := fun s => Notified s ∧ Owed s p d cookie)
          (fun _ _ hstep hP => ⟨hstep.notified hP.1, hstep.owed hkeeps.records hP.1 hP.2⟩) hP
      exact hboth.2

/-- A record keeps the cookie of its request. -/
theorem After.cookie {ok : Driver → Action → Prop} {p : ProcId} {d : DeathId} {cookie : Nat}
    (h : After ok (fun s a => s.Requests a p d cookie) s) :
    d < s.nextId ∧ ∀ death, s.deaths d = some death → death.cookie = cookie := by
  induction h with
  | now a h _ hreq =>
      obtain ⟨-, hdeath, -, hlt⟩ := hreq.armed h.reachable.notified
      refine ⟨hlt, fun death hd => ?_⟩
      cases hdeath.symm.trans hd
      rfl
  | later a h _ ih =>
      rename_i s
      have hreach := h.reaches.reachable
      have hst := hreach.steady
      have hid := hst.nextId_le a
      refine ⟨Nat.lt_of_lt_of_le ih.1 hid, fun death' hd' => ?_⟩
      rcases hreach.act_fate a ih.1 with hfate | ⟨-, death, hd, -, -, hkept⟩
      · obtain ⟨death, hd, hcookie, -⟩ := hfate.kept death' hd'
        exact hcookie.trans (ih.2 death hd)
      · exact (hkept death' hd').trans (ih.2 death hd)

/-- **Death notices are not lost** in runs of `KeepsNotices` steps.  Every handle
of a live process on a dead object, for which a notice was asked and not cleared,
has been told about or its record waits to be read by a live thread of that
process; the record has the cookie of the request, and whatever is said of a record
is written with its cookie behind the command.  After an accepted clear the answer was
given or waits likewise, with the cookie of the clear. -/
theorem death_notices_kept (s : Driver) :
    (∀ r ref d, Reaches KeepsNotices s → s.refs r = some ref → ref.death = some d →
      s.procAlive ref.proc = true → s.nodeIsDead ref.node = true →
      .deadBinder ∈ s.toldOf d ∨
        ∃ q cookie, s.queues.loc (.death d) = some q ∧ s.ReadBy ref.proc q ∧
          s.deaths d = some ⟨cookie, .deadBinder⟩) ∧
    (∀ p d cookie death, After KeepsNotices (fun s a => s.Requests a p d cookie) s →
      s.deaths d = some death → death.cookie = cookie) ∧
    (∀ a d, Reachable s → (s.act a).toldOf d ≠ s.toldOf d →
      ∃ env th rc death rc' more, a = .readTurn env th ∧ s.calls th = some rc ∧
        s.deaths d = some death ∧ (s.act a).toldOf d = deathCmd death.type :: s.toldOf d ∧
        (s.act a).calls th = some rc' ∧ rc'.cmds =
          rc.cmds ++ (deathCmd death.type, LittleEndian.leBytes 8 death.cookie) :: more) ∧
    ∀ p d cookie, After KeepsNotices (fun s a => s.Clears a p d cookie) s →
      s.procAlive p = true → .clearDeathNotificationDone ∈ s.toldOf d ∨
        ∃ q type, s.queues.loc (.death d) = some q ∧ s.ReadBy p q ∧
          s.deaths d = some ⟨cookie, type⟩ ∧ type ≠ .deadBinder := by
  refine ⟨?_, fun p d cookie death h => h.cookie.2 death,
    fun a d h htold => h.report_carries_cookie htold, ?_⟩
  · intro r ref d h hr hd halive hdead
    have hn := h.reachable.notified
    obtain ⟨cookie, hdeath⟩ := hn.handle r ref d hr hd
    have hrecord := hn.record d
    rw [hdeath] at hrecord
    rcases h.pending.waits r ref d hr hd id halive hdead with htold | hqueued
    · rcases hrecord.of_deadBinder with hnil | ⟨hsaid, -⟩
      · exact absurd hnil htold
      · exact .inl (by rw [hsaid]; simp)
    · obtain ⟨q, hq⟩ := Option.ne_none_iff_exists'.mp hqueued
      exact .inr ⟨q, cookie, hq, h.pending.place r ref d q hr hd hq, hdeath⟩
  · intro p d cookie h halive
    rcases h.owed.answer with hdone | hdead | hwaits
    · exact .inl hdone
    · rw [halive] at hdead
      cases hdead
    · exact .inr hwaits

/-- A check of a step that loses no notice. -/
def noticesCheck (s : Driver) : Action → Bool
  | .threadExit th => (s.items (.thread th)).all fun w =>
      match w with
      | .death _ => false
      | _ => true
  | .readTurn env th => (s.calls th).all fun rc => decide (rc.NoticeWritable env)
  | _ => true

theorem keepsNotices_of_check {a : Action} (hs : Sound s) (h : s.noticesCheck a = true) :
    s.KeepsNotices a := by
  cases a with
  | threadExit th =>
      intro d hq
      have hmem := (hs.queues.consistent.mem_iff (.death d) (.thread th)).mpr hq
      have hfalse := List.all_eq_true.mp h _ hmem
      cases hfalse
  | readTurn env th =>
      intro thread rc d fromProc _ hrc _
      rw [noticesCheck, hrc, Option.all_some, decide_eq_true_eq] at h
      exact h
  | _ => trivial

/-- Process 5 asked about the manager, the manager's device was closed, and the
notice waits. -/
theorem death_notices_kept_manager :
    (twoProcessesUp.run [holdManager, watchManager, .devClose 1]).toldOf 9 = [] ∧
      (∃ q cookie, (twoProcessesUp.run [holdManager, watchManager, .devClose 1]).queues.loc
          (.death 9) = some q ∧
        (twoProcessesUp.run [holdManager, watchManager, .devClose 1]).ReadBy 5 q ∧
        (twoProcessesUp.run [holdManager, watchManager, .devClose 1]).deaths 9 =
          some ⟨cookie, .deadBinder⟩) := by
  have himp : ∀ (s : Driver) (a : Action), Reachable s → s.noticesCheck a = true →
      s.KeepsNotices a := fun _ _ hreach h => keepsNotices_of_check hreach.steady.sound h
  have hup : Reaches KeepsNotices twoProcessesUp :=
    Reaches.run himp .init twoProcesses (by decide +kernel)
  have hrun := Reaches.run himp hup [holdManager, watchManager, .devClose 1] (by decide +kernel)
  have htold : (twoProcessesUp.run [holdManager, watchManager, .devClose 1]).toldOf 9 = [] := by
    decide +kernel
  have hstate : ((twoProcessesUp.run [holdManager, watchManager, .devClose 1]).refs 8).any
      (fun ref => ref.proc = 5 && ref.death = some 9 &&
        (twoProcessesUp.run [holdManager, watchManager, .devClose 1]).nodeIsDead ref.node) =
        true := by decide +kernel
  obtain ⟨ref, hr, hstate⟩ := (Option.any_eq_true _ _).mp hstate
  simp only [Bool.and_eq_true, decide_eq_true_eq] at hstate
  obtain ⟨⟨hproc, hdeath⟩, hdead⟩ := hstate
  have halive : (twoProcessesUp.run [holdManager, watchManager, .devClose 1]).procAlive 5 =
      true := by decide +kernel
  refine ⟨htold, ?_⟩
  rcases (death_notices_kept _).1 8 ref 9 hrun hr hdeath (by rw [hproc]; exact halive) hdead with
    hsaid | hwaits
  · rw [htold] at hsaid
    cases hsaid
  · rw [← hproc]
    exact hwaits

/-- The manager dies before process 5 asks about it, so that the record is on
the asking thread's own list, and that thread exits. -/
def askAndExit : List Action := [holdManager, .devClose 1, watchManager, .threadExit 6]

/-- The record is read into memory that can no longer be written. -/
def readIntoNowhere : List Action :=
  [holdManager, watchManager, .devClose 1, .command {} 6 .enterLooper,
    .readStart {} 6 0x9000 256 0, .readTurn { copyoutOk := fun _ _ => false } 6]

/-- **A death notice that is lost.**  Process 5 lives, asked about the manager
and did not clear it, and the manager is dead; but nothing was said and nothing
is queued, because the asking thread exited or because the report could not be
written. -/
theorem death_notice_dropped :
    (Reachable (twoProcessesUp.run askAndExit) ∧
      ((twoProcessesUp.run askAndExit).refs 8).any (fun ref => ref.proc = 5 &&
        ref.death = some 9 && (twoProcessesUp.run askAndExit).nodeIsDead ref.node) = true ∧
      (twoProcessesUp.run askAndExit).procAlive 5 = true ∧
      (twoProcessesUp.run askAndExit).toldOf 9 = [] ∧
      (twoProcessesUp.run askAndExit).queues.loc (.death 9) = none) ∧
    Reachable (twoProcessesUp.run readIntoNowhere) ∧
      ((twoProcessesUp.run readIntoNowhere).refs 8).any (fun ref => ref.proc = 5 &&
        ref.death = some 9 && (twoProcessesUp.run readIntoNowhere).nodeIsDead ref.node) = true ∧
      (twoProcessesUp.run readIntoNowhere).procAlive 5 = true ∧
      (twoProcessesUp.run readIntoNowhere).toldOf 9 = [] ∧
      (twoProcessesUp.run readIntoNowhere).queues.loc (.death 9) = none := by
  have hreach : ∀ as, Reachable (twoProcessesUp.run as) :=
    fun as => (Reachable.run .init twoProcesses).run as
  constructor
  · exact ⟨hreach _, by decide +kernel, by decide +kernel, by decide +kernel, by decide +kernel⟩
  · exact ⟨hreach _, by decide +kernel, by decide +kernel, by decide +kernel, by decide +kernel⟩

end Driver

end Binder
