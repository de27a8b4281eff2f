import DevfsBinder.DeathRecords
import DevfsBinder.OwnerConversation

/-!
# Requests, clears and their answers

`Requests` and `Clears` are the accepted `BC_REQUEST_DEATH_NOTIFICATION` and
`BC_CLEAR_DEATH_NOTIFICATION`.  A record keeps its cookie, and ceases to be armed
only by an accepted clear of that very record (`Fate`), so the answer to a clear
is only ever given after one, with the cookie of the request
(`death_notices_once`).
-/

namespace Binder

namespace Driver

variable {L : Notice → Prop} {s s' s'' : Driver}

/-- Action `a` is an accepted request of process `p`; it makes record `d`. -/
inductive Requests (s : Driver) : Action → ProcId → DeathId → Nat → Prop
  | mk (env : Env) (th : ThreadId) (thread : Thread) (handle cookie : Nat)
      (hidle : s.idleThread th = some thread)
      (hok : (s.deathRequest env thread.proc th handle cookie).2 = none) :
      Requests s (.command env th (.requestDeathNotification handle cookie)) thread.proc
        s.nextId cookie

/-- Action `a` is an accepted clear by process `p` of record `d`. -/
inductive Clears (s : Driver) : Action → ProcId → DeathId → Nat → Prop
  | mk (env : Env) (th : ThreadId) (thread : Thread) (handle cookie : Nat) (r : RefId)
      (ref : Ref) (d : DeathId) (hidle : s.idleThread th = some thread)
      (hfind : s.refFindByDesc thread.proc handle = some r) (hr : s.refs r = some ref)
      (hd : ref.death = some d)
      (hok : (s.deathClear thread.proc th handle cookie).2 = none) :
      Clears s (.command env th (.clearDeathNotification handle cookie)) thread.proc d cookie

/-! ## What becomes of one record -/

/-- Record `d` keeps its cookie and stays armed if it was, and its clear is only
answered if it was not. -/
structure Fate (d : DeathId) (s s' : Driver) : Prop where
  kept : ∀ death', s'.deaths d = some death' → ∃ death, s.deaths d = some death ∧
    death'.cookie = death.cookie ∧ (death.type = .deadBinder → death'.type = .deadBinder)
  answer : .clearDeathNotificationDone ∈ s'.toldOf d →
    .clearDeathNotificationDone ∈ s.toldOf d ∨
      ∃ death, s.deaths d = some death ∧ death.type ≠ .deadBinder
  nextId : s.nextId ≤ s'.nextId

namespace Fate

variable {d : DeathId}

theorem same (hdeaths : s'.deaths d = s.deaths d) (htold : s'.toldOf d = s.toldOf d)
    (hid : s.nextId ≤ s'.nextId) : Fate d s s' where
  kept death' hd := ⟨death', hdeaths ▸ hd, rfl, id⟩
  answer hdone := .inl (htold ▸ hdone)
  nextId := hid

theorem trans (h : Fate d s s') (h' : Fate d s' s'') : Fate d s s'' where
  kept death'' hd'' := by
    obtain ⟨death', hd', hcookie', htype'⟩ := h'.kept death'' hd''
    obtain ⟨death, hd, hcookie, htype⟩ := h.kept death' hd'
    exact ⟨death, hd, hcookie'.trans hcookie, fun harmed => htype' (htype harmed)⟩
  answer hdone := by
    rcases h'.answer hdone with hdone' | ⟨death', hd', htype'⟩
    · exact h.answer hdone'
    · obtain ⟨death, hd, -, htype⟩ := h.kept death' hd'
      exact .inr ⟨death, hd, fun harmed => htype' (htype harmed)⟩
  nextId := Nat.le_trans h.nextId h'.nextId

/-- A record is armed anew. -/
theorem rearm (s : Driver) (d' : DeathId) :
    Fate d s (s.updDeath d' fun death => { death with type := .deadBinder }) := by
  refine ⟨fun death' hd => ?_, .inl, Nat.le_refl _⟩
  by_cases he : d = d'
  · subst he
    simp only [updDeath, Function.update_self, Option.map_eq_some_iff] at hd
    obtain ⟨death, hd, rfl⟩ := hd
    exact ⟨death, hd, rfl, fun _ => rfl⟩
  · exact ⟨death', by simpa [updDeath, he] using hd, rfl, id⟩

theorem notifyDeath (s : Driver) (r : RefId) : Fate d s (s.notifyDeath r) := by
  unfold Driver.notifyDeath
  split
  · exact same rfl rfl (Nat.le_refl _)
  · split
    · exact same rfl rfl (Nat.le_refl _)
    · split
      · exact same rfl rfl (Nat.le_refl _)
      · exact (rearm s _).trans (same rfl rfl (Nat.le_refl _))

theorem nodeDied (s : Driver) (n : NodeId) : Fate d s (s.nodeDied n) := by
  apply List.foldlRecOn (motive := Fate d s)
  · exact same rfl rfl (Nat.le_refl _)
  · exact fun s₁ hfate r _ => hfate.trans (notifyDeath s₁ r)

/-- A request makes a record of its own. -/
theorem request (s : Driver) (env : Env) (p : ProcId) (th : ThreadId) (handle cookie : Nat)
    (hd : d < s.nextId) : Fate d s (s.deathRequest env p th handle cookie).1 := by
  have hbump : Fate d s s.bumpId := same rfl rfl (Nat.le_succ _)
  have hregister : ∀ r, Fate d s (s.registered r cookie) := by
    intro r
    refine same ?_ rfl (Nat.le_succ _)
    simp [registered, insertDeath, updRef, bumpId, Nat.ne_of_lt hd]
  rcases deathRequest_cases s env p th handle cookie with
    ⟨heq, -⟩ | ⟨heq, -⟩ | ⟨r, ref, -, -, -, -, heq⟩
  · rw [heq]
    exact same rfl rfl (Nat.le_refl _)
  · rw [heq]
    exact hbump
  · rw [heq]
    split
    · exact (hregister r).trans (same rfl rfl (Nat.le_refl _))
    · exact hregister r

theorem forget (s : Driver) (d' : DeathId) : Fate d s (s.forgetDeath d') := by
  refine ⟨fun death' hd => ?_, .inl, Nat.le_refl _⟩
  by_cases he : d = d'
  · simp [forgetDeath, he] at hd
  · exact ⟨death', by simpa [forgetDeath, he] using hd, rfl, id⟩

theorem releaseDeath (s : Driver) (death : Option DeathId) :
    Fate d s (s.releaseDeath death) := by
  cases death with
  | none => exact same rfl rfl (Nat.le_refl _)
  | some d' =>
      have hout : Fate d s (s.dequeueWork (.death d')) := same rfl rfl (Nat.le_refl _)
      exact hout.trans (forget _ d')

/-- A record is reported. -/
theorem report (s : Driver) (th : ThreadId) {d' : DeathId} {death : Death}
    (hd' : s.deaths d' = some death) :
    Fate d s ((s.tell th (deathCmd death.type) (.death d')).deathReported th d' death.type) := by
  by_cases he : d = d'
  · subst he
    obtain ⟨cookie, type⟩ := death
    cases type with
    | deadBinder =>
        refine ⟨fun death' hd => ⟨death', hd, rfl, id⟩, fun hdone => .inl ?_, Nat.le_refl _⟩
        simpa [Notified.toldOf_tell, deathReported, deathCmd] using hdone
    | deadBinderAndClear =>
        refine ⟨fun death' hd => ?_, fun _ => .inr ⟨_, hd', by simp⟩, Nat.le_refl _⟩
        have hnew : some ({ cookie := cookie, type := .clearDeathNotification } : Death) =
            some death' := by
          simpa [deathReported, updDeath, enqueueThreadWork, tell, hd'] using hd
        cases hnew
        exact ⟨_, hd', rfl, fun harmed => by cases harmed⟩
    | clearDeathNotification =>
        refine ⟨fun death' hd => ?_, fun _ => .inr ⟨_, hd', by simp⟩, Nat.le_refl _⟩
        simp [deathReported, forgetDeath] at hd
  · have htold := (Notified.OnlyRecord.tell s th (deathCmd death.type) d').told d he
    unfold deathReported
    split
    · exact same rfl htold (Nat.le_refl _)
    · refine same ?_ htold (Nat.le_refl _)
      simp [enqueueThreadWork, updDeath, tell, he]
    · refine same ?_ htold (Nat.le_refl _)
      simp [forgetDeath, tell, he]

theorem readNotice (env : Env) (s : Driver) (th : ThreadId) (d' : DeathId) (rc : ReadCall)
    (q : Queue) : Fate d s (readNotice env s th d' rc q) := by
  have hout : Fate d s (s.dequeueWork (.death d')) := same rfl rfl (Nat.le_refl _)
  have hread : Fate d s (readDeath env (s.dequeueWork (.death d')) th d' rc).drv :=
    readDeath_rule hout fun _ hd' _ => hout.trans (report _ th hd')
  unfold Driver.readNotice
  simp only
  split
  · exact hread.trans (same rfl rfl (Nat.le_refl _))
  · exact hread

end Fate

/-- **Only a clear disarms a record.** -/
theorem NoticeStep.fate {d : DeathId} (h : NoticeStep L s s') (hL : ¬ L .cleared)
    (hd : d < s.nextId) : Fate d s s' := by
  cases h with
  | calm hc =>
      exact .same (congrFun hc.undisturbed.deaths d) (hc.undisturbed.told d) hc.nextId
  | request env p th handle cookie _ _ _ _ => exact .request s env p th handle cookie hd
  | clear p th handle cookie hcleared _ _ => exact absurd hcleared hL
  | died p n _ _ => exact .nodeDied s n
  | report env th d' rc q _ _ _ => exact .readNotice env s th d' rc q
  | lost p d' q _ _ _ => exact .same rfl rfl (Nat.le_refl _)
  | release r ref _ =>
      exact (Fate.releaseDeath s ref.death).trans (.same rfl rfl (Nat.le_refl _))
  | exit p th _ => exact .same rfl rfl (Nat.le_refl _)

theorem Notices.fate {d : DeathId} (h : Notices L s s') (hL : ¬ L .cleared)
    (hd : d < s.nextId) : Fate d s s' :=
  h.invariant (P := Fate d s)
    (fun _ _ hstep hf => hf.trans (hstep.fate hL (Nat.lt_of_lt_of_le hd hf.nextId)))
    (.same rfl rfl (Nat.le_refl _))

theorem Moves.fate {A : Kind → Prop} {d : DeathId} (h : Moves A s s')
    (hA : ¬ A (.notice .cleared)) (hd : d < s.nextId) : Fate d s s' := by
  induction h with
  | refl => exact .same rfl rfl (Nat.le_refl _)
  | tail _ hmove ih =>
      exact ih.trans (hmove.notices.fate hA (Nat.lt_of_lt_of_le hd ih.nextId))

/-- An accepted clear of record `d`: the record keeps its cookie and is not
answered for yet. -/
theorem deathClear_disarms (hn : Notified s) {p : ProcId} {th : ThreadId} {handle : Nat}
    {r : RefId} {ref : Ref} {d : DeathId} {death : Death} (hr : s.refs r = some ref)
    (hrd : ref.death = some d) (hd : s.deaths d = some death)
    (hcase : ((s.queues.loc (.death d)).isSome ∧
        (s.deathClear p th handle death.cookie).1 =
          (s.updDeath d fun death => { death with type := .deadBinderAndClear }).updRef r
            fun ref => { ref with death := none }) ∨
      (s.queues.loc (.death d) = none ∧ (s.deathClear p th handle death.cookie).1 =
        ((s.updDeath d fun death =>
          { death with type := .clearDeathNotification }).enqueueThreadWork th
            (.death d)).updRef r fun ref => { ref with death := none })) :
    .clearDeathNotificationDone ∉ (s.deathClear p th handle death.cookie).1.toldOf d ∧
      ∀ death', (s.deathClear p th handle death.cookie).1.deaths d = some death' →
        death'.cookie = death.cookie := by
  obtain ⟨c, hc⟩ := hn.handle r ref d hr hrd
  have hrecord := hn.record d
  rw [hc] at hrecord
  have htold : (s.deathClear p th handle death.cookie).1.toldOf d = s.toldOf d := by
    rcases hcase with ⟨-, heq⟩ | ⟨-, heq⟩ <;> rw [heq] <;> rfl
  refine ⟨?_, ?_⟩
  · rw [htold]
    rcases hrecord.of_deadBinder with hsaid | ⟨hsaid, -⟩ <;> rw [hsaid] <;> simp
  · intro death' hd'
    rcases hcase with ⟨-, heq⟩ | ⟨-, heq⟩
    all_goals
      rw [heq] at hd'
      simp only [updDeath, updRef, enqueueThreadWork, Function.update_self, hd,
        Option.map_some, Option.some.injEq] at hd'
      rw [← hd']

/-- An action leaves record `d` its fate, or is the accepted clear of it. -/
theorem Reachable.act_fate (h : Reachable s) (a : Action) {d : DeathId} (hlt : d < s.nextId) :
    Fate d s (s.act a) ∨ ∃ p death, s.deaths d = some death ∧ s.Clears a p d death.cookie ∧
      .clearDeathNotificationDone ∉ (s.act a).toldOf d ∧
      ∀ death', (s.act a).deaths d = some death' → death'.cookie = death.cookie := by
  have hst := h.steady
  have hn := h.notified
  by_cases hA : s.Occurs a (.notice .cleared)
  · cases hA with
    | clear env th handle cookie =>
        rw [act, withIdle]
        split
        · rename_i thread hidle
          rw [writeCommand]
          rcases deathClear_cases s thread.proc th handle cookie with
            ⟨heq, -⟩ | ⟨r, ref, d', death, hfind, hr, hrd, hd', hcookie, hok, hcase⟩
          · rw [heq]
            exact .inl (.same rfl rfl (Nat.le_refl _))
          · subst hcookie
            by_cases he : d = d'
            · subst he
              exact .inr ⟨_, death, hd', .mk env th thread handle _ r ref d hidle hfind hr hrd hok,
                deathClear_disarms hn hr hrd hd' hcase⟩
            · refine .inl ?_
              rcases hcase with ⟨-, heq⟩ | ⟨-, heq⟩
              all_goals
                rw [heq]
                refine .same ?_ rfl (Nat.le_refl _)
                simp [updDeath, updRef, enqueueThreadWork, he]
        · exact .inl (.same rfl rfl (Nat.le_refl _))
  · exact .inl ((hst.moves a).fate hA hlt)

/-! ## Whole runs -/

/-- Among the actions `as`, taken from `s`, is an accepted clear of record `d`. -/
def ClearedIn (s : Driver) (as : List Action) (d : DeathId) (cookie : Nat) : Prop :=
  ∃ as₁ a as₂ p, as = as₁ ++ a :: as₂ ∧ (s.run as₁).Clears a p d cookie

theorem ClearedIn.append {d : DeathId} {cookie : Nat} {as : List Action}
    (h : s.ClearedIn as d cookie) (as' : List Action) : s.ClearedIn (as ++ as') d cookie := by
  obtain ⟨as₁, a, as₂, p, rfl, hclears⟩ := h
  exact ⟨as₁, a, as₂ ++ as', p, by simp, hclears⟩

theorem run_append (s : Driver) (as as' : List Action) :
    s.run (as ++ as') = (s.run as).run as' := by
  simp [run]

/-- What is known of record `d` after the actions `as`, if it was armed with
this cookie and its clear not answered before them. -/
structure Traced (s : Driver) (as : List Action) (d : DeathId) (cookie : Nat) : Prop where
  same : ∀ death, (s.run as).deaths d = some death → death.cookie = cookie
  disarmed : ∀ death, (s.run as).deaths d = some death → death.type ≠ .deadBinder →
    s.ClearedIn as d cookie
  answered : .clearDeathNotificationDone ∈ (s.run as).toldOf d → s.ClearedIn as d cookie
  lt : d < (s.run as).nextId

/-- One action more. -/
theorem Traced.step {as : List Action} {d : DeathId} {cookie : Nat} (h : s.Traced as d cookie)
    (hreach : Reachable s) (a : Action) : s.Traced (as ++ [a]) d cookie := by
  have hrun : s.run (as ++ [a]) = (s.run as).act a := by rw [run_append]; rfl
  have hreach' := hreach.run as
  have hst := hreach'.steady
  have hid : (s.run as).nextId ≤ ((s.run as).act a).nextId :=
    hst.nextId_le a
  have hlt : d < (s.run (as ++ [a])).nextId := hrun ▸ Nat.lt_of_lt_of_le h.lt hid
  rcases hreach'.act_fate a h.lt with hfate | ⟨p, death, hd, hclears, hnot, hkept⟩
  · refine ⟨?_, ?_, ?_, hlt⟩
    · intro death' hd'
      obtain ⟨death, hd, hcookie, -⟩ := hfate.kept death' (hrun ▸ hd')
      exact hcookie.trans (h.same death hd)
    · intro death' hd' htype'
      obtain ⟨death, hd, -, htype⟩ := hfate.kept death' (hrun ▸ hd')
      exact (h.disarmed death hd fun harmed => htype' (htype harmed)).append [a]
    · intro hdone
      rcases hfate.answer (hrun ▸ hdone) with hdone' | ⟨death, hd, htype⟩
      · exact (h.answered hdone').append [a]
      · exact (h.disarmed death hd htype).append [a]
  · have hcleared : s.ClearedIn (as ++ [a]) d cookie :=
      ⟨as, a, [], p, rfl, h.same death hd ▸ hclears⟩
    refine ⟨fun death' hd' => ?_, fun _ _ _ => hcleared, fun _ => hcleared, hlt⟩
    exact (hkept death' (hrun ▸ hd')).trans (h.same death hd)

theorem Traced.run {d : DeathId} {cookie : Nat} (hreach : Reachable s)
    (h : s.Traced [] d cookie) (as : List Action) : s.Traced as d cookie := by
  induction as using List.reverseRecOn with
  | nil => exact h
  | append_singleton as a ih => exact ih.step hreach a

/-- An accepted request makes an armed record. -/
theorem Requests.armed (hn : Notified s) {a : Action} {p : ProcId} {d : DeathId} {cookie : Nat}
    (h : s.Requests a p d cookie) :
    d = s.nextId ∧ (s.act a).deaths d = some ⟨cookie, .deadBinder⟩ ∧ (s.act a).toldOf d = [] ∧
      d < (s.act a).nextId := by
  cases h with
  | mk env th thread handle cookie hidle hok =>
      have htold := (hn.fresh s.nextId (Nat.le_refl _)).2
      rw [act, withIdle, hidle]
      simp only [writeCommand]
      rcases deathRequest_cases s env thread.proc th handle cookie with
        ⟨-, herr⟩ | ⟨-, herr⟩ | ⟨r, ref, -, -, -, -, heq⟩
      · exact absurd hok herr
      · exact absurd hok herr
      · rw [heq]
        have hself : (s.registered r cookie).deaths s.nextId = some ⟨cookie, .deadBinder⟩ := by
          simp [registered, insertDeath, updRef, bumpId]
        split <;> exact ⟨trivial, hself, htold, Nat.lt_succ_self _⟩

/-- **Death notices are not repeated or reordered.**  After an accepted request,
and whatever happens then, what was said about its record is at most one
`BR_DEAD_BINDER` and at most one `BR_CLEAR_DEATH_NOTIFICATION_DONE`, never the
first after the second; the second only follows an accepted clear of the record
with the cookie of the request.  No record is ever released twice, and to a
released record points no handle and no queue. -/
theorem death_notices_once (h : Reachable s) :
    (∀ a p d cookie as, s.Requests a p d cookie →
      Said (((s.act a).run as).toldOf d) ∧
      (.clearDeathNotificationDone ∈ ((s.act a).run as).toldOf d →
        ∃ as₁ b as₂ p', as = as₁ ++ b :: as₂ ∧ ((s.act a).run as₁).Clears b p' d cookie)) ∧
    s.freed.Nodup ∧
    ∀ d ∈ s.freed, s.queues.loc (.death d) = none ∧
      ∀ r ref, s.refs r = some ref → ref.death ≠ some d := by
  have hn := h.notified
  refine ⟨?_, hn.nodup, ?_⟩
  · intro a p d cookie as hreq
    have hreach : Reachable (s.act a) := .step a h trivial
    obtain ⟨-, hdeath, htold, hlt⟩ := hreq.armed hn
    have htraced : (s.act a).Traced [] d cookie := by
      refine ⟨?_, ?_, ?_, hlt⟩
      · intro death hd
        cases hdeath.symm.trans hd
        rfl
      · intro death hd htype
        cases hdeath.symm.trans hd
        exact absurd rfl htype
      · intro hdone
        change .clearDeathNotificationDone ∈ (s.act a).toldOf d at hdone
        rw [htold] at hdone
        cases hdone
    exact ⟨((hreach.run as).notified.record d).said, (htraced.run hreach as).answered⟩
  · intro d hd
    have hnone := (hn.freed d hd).1
    refine ⟨?_, ?_⟩
    · have hrecord := hn.record d
      rw [hnone] at hrecord
      cases hq : s.queues.loc (.death d) with
      | none => rfl
      | some q =>
          rw [hq] at hrecord
          exact absurd hrecord.isSome_of_queued (by simp)
    · intro r ref hr hrd
      obtain ⟨c, hc⟩ := hn.handle r ref d hr hrd
      rw [hnone] at hc
      cases hc

/-- Process 5 takes handle 0, the manager. -/
def holdManager : Action := .command {} 6 (.reference true true 0)

/-- It asks to be told of the manager's death. -/
def watchManager : Action := .command {} 6 (.requestDeathNotification 0 7)

def readNotices : List Action :=
  [.readStart {} 6 0x9000 256 0, .readTurn {} 6, .readTurn {} 6, .readTurn {} 6, .leave 6]

/-- The manager's device is closed, process 5 hears of it, clears its request
and hears of that. -/
def watchToTheEnd : List Action :=
  [.devClose 1, .command {} 6 .enterLooper] ++ readNotices ++
    [.command {} 6 (.clearDeathNotification 0 7)] ++ readNotices

theorem watchManager_accepted :
    (twoProcessesUp.run [holdManager]).Requests watchManager 5 9 7 := by
  have hidle : ((twoProcessesUp.run [holdManager]).idleThread 6).map (·.proc) = some 5 := by
    decide +kernel
  have hok : ((twoProcessesUp.run [holdManager]).deathRequest {} 5 6 0 7).2 = none := by
    decide +kernel
  have hid : (twoProcessesUp.run [holdManager]).nextId = 9 := by decide +kernel
  obtain ⟨thread, hthread, hproc⟩ := Option.map_eq_some_iff.mp hidle
  have hreq := Requests.mk {} 6 thread 0 7 hthread (by rw [hproc]; exact hok)
  rw [hproc, hid] at hreq
  exact hreq

/-- The manager dies and the request is cleared: both answers, in this order. -/
theorem watchToTheEnd_told :
    (((twoProcessesUp.run [holdManager]).act watchManager).run watchToTheEnd).toldOf 9 =
        [.clearDeathNotificationDone, .deadBinder] ∧
      ∃ as₁ b as₂ p', watchToTheEnd = as₁ ++ b :: as₂ ∧
        (((twoProcessesUp.run [holdManager]).act watchManager).run as₁).Clears b p' 9 7 := by
  have htold : (((twoProcessesUp.run [holdManager]).act watchManager).run
      watchToTheEnd).toldOf 9 = [.clearDeathNotificationDone, .deadBinder] := by decide +kernel
  have hreach : Reachable (twoProcessesUp.run [holdManager]) :=
    (Reachable.run .init twoProcesses).run _
  refine ⟨htold, ((death_notices_once hreach).1 watchManager 5 9 7 watchToTheEnd
    watchManager_accepted).2 ?_⟩
  rw [htold]
  simp

end Driver

end Binder
