import DevfsBinder.RunRefinement

/-!
# Death records

One record stands for one accepted `BC_REQUEST_DEATH_NOTIFICATION`.  `Record`
lists what a record, its place on a queue and what was said about it can be
together: armed or on its way, reported, owed both answers, owed the answer to
the clear, and over.  `Notified` says that every record is in one of these
states, that the handles point at armed or reported records, each at its own,
and that a record was only queued or reported once its object was dead.

Every step keeps this (`NoticeStep.notified`), so it holds in every state of
every run (`Reachable.notified`): nothing is said twice about a record, nothing
is said after the answer to the clear, and no record is released twice.
-/

namespace Binder

/-- What can have been said about a record, newest first. -/
def Said (told : List BR) : Prop :=
  told = [] ∨ told = [.deadBinder] ∨ told = [.clearDeathNotificationDone] ∨
    told = [.clearDeathNotificationDone, .deadBinder]

/-- **The states of a death record**: the record, the queue it is on, and what
was said about it. -/
inductive Record : Option Death → Option Queue → List BR → Prop
  | armed (cookie : Nat) (q : Option Queue) : Record (some ⟨cookie, .deadBinder⟩) q []
  | reported (cookie : Nat) : Record (some ⟨cookie, .deadBinder⟩) none [.deadBinder]
  | both (cookie : Nat) (q : Option Queue) : Record (some ⟨cookie, .deadBinderAndClear⟩) q []
  | clearing (cookie : Nat) (q : Option Queue) (told : List BR)
      (h : told = [] ∨ told = [.deadBinder]) :
      Record (some ⟨cookie, .clearDeathNotification⟩) q told
  | ended (told : List BR) (h : Said told) : Record none none told

namespace Record

variable {death : Option Death} {q : Option Queue} {told : List BR}

theorem said (h : Record death q told) : Said told := by
  cases h with
  | armed cookie q => exact .inl rfl
  | reported cookie => exact .inr (.inl rfl)
  | both cookie q => exact .inl rfl
  | clearing cookie q told h =>
      rcases h with h | h
      · exact .inl h
      · exact .inr (.inl h)
  | ended told h => exact h

/-- A record can be taken off its queue in any state. -/
theorem unlink (h : Record death q told) : Record death none told := by
  cases h with
  | armed cookie q => exact .armed cookie none
  | reported cookie => exact .reported cookie
  | both cookie q => exact .both cookie none
  | clearing cookie q told h => exact .clearing cookie none told h
  | ended told h => exact .ended told h

theorem isSome_of_queued {q : Queue} (h : Record death (some q) told) : death.isSome := by
  cases h <;> rfl

/-- What was said about a record that is neither cleared nor released. -/
theorem of_deadBinder {cookie : Nat} (h : Record (some ⟨cookie, .deadBinder⟩) q told) :
    told = [] ∨ told = [.deadBinder] ∧ q = none := by
  cases h with
  | armed => exact .inl rfl
  | reported => exact .inr ⟨rfl, rfl⟩

end Record

namespace Driver

variable {L : Notice → Prop} {s s' : Driver}

/-- Every record is in one of its states, and the handles go with them. -/
structure Notified (s : Driver) : Prop where
  record : ∀ d, Record (s.deaths d) (s.queues.loc (.death d)) (s.toldOf d)
  fresh : ∀ d, s.nextId ≤ d → s.deaths d = none ∧ s.toldOf d = []
  handle : ∀ r ref d, s.refs r = some ref → ref.death = some d →
    ∃ cookie, s.deaths d = some ⟨cookie, .deadBinder⟩
  only : ∀ r r' ref ref' d, s.refs r = some ref → s.refs r' = some ref' →
    ref.death = some d → ref'.death = some d → r = r'
  dead : ∀ r ref d, s.refs r = some ref → ref.death = some d →
    s.queues.loc (.death d) ≠ none ∨ s.toldOf d ≠ [] → s.nodeIsDead ref.node = true
  ownerless : ∀ n nd, s.nodes n = some nd → nd.isDead = true → nd.proc = none
  freed : ∀ d ∈ s.freed, s.deaths d = none ∧ d < s.nextId
  nodup : s.freed.Nodup

namespace Notified

theorem init : Notified Driver.init := by
  refine ⟨fun _ => .ended _ (.inl rfl), fun _ _ => ⟨rfl, rfl⟩, ?_, ?_, ?_, ?_, ?_, .nil⟩ <;>
    simp [Driver.init]

theorem lt (h : Notified s) {d : DeathId} (hd : (s.deaths d).isSome) : d < s.nextId := by
  by_contra hle
  rw [(h.fresh d (Nat.le_of_not_lt hle)).1] at hd
  cases hd

/-- A record that a handle points at was not queued and not reported while the
object is alive. -/
theorem silent (h : Notified s) {r : RefId} {ref : Ref} {d : DeathId} (hr : s.refs r = some ref)
    (hd : ref.death = some d) (halive : s.nodeIsDead ref.node = false) :
    s.queues.loc (.death d) = none ∧ s.toldOf d = [] := by
  by_contra hnot
  have hor : s.queues.loc (.death d) ≠ none ∨ s.toldOf d ≠ [] := by
    by_cases hloc : s.queues.loc (.death d) = none
    · exact .inr fun htold => hnot ⟨hloc, htold⟩
    · exact .inl hloc
  rw [h.dead r ref d hr hd hor] at halive
  cases halive

/-! ## What leaves the records alone -/

/-- A stretch that leaves the death records alone keeps the invariant. -/
theorem calm (h : Notified s) (hc : Calm s s') : Notified s' := by
  have hu := hc.undisturbed
  have hback : ∀ r ref' d, s'.refs r = some ref' → ref'.death = some d →
      ∃ ref, s.refs r = some ref ∧ ref.node = ref'.node ∧ ref.death = some d := by
    intro r ref' d hr hd
    rcases hc.refs r ref' hr with hnone | ⟨ref, hr₀, hsame⟩
    · rw [hnone] at hd
      cases hd
    · exact ⟨ref, hr₀, hsame.node.symm, hsame.death ▸ hd⟩
  refine ⟨?_, ?_, ?_, ?_, ?_, ?_, ?_, ?_⟩
  · intro d
    rw [hu.deaths, hu.loc, hu.told]
    exact h.record d
  · intro d hd
    rw [hu.deaths, hu.told]
    exact h.fresh d (Nat.le_trans hc.nextId hd)
  · intro r ref' d hr hd
    obtain ⟨ref, hr₀, -, hd₀⟩ := hback r ref' d hr hd
    rw [hu.deaths]
    exact h.handle r ref d hr₀ hd₀
  · intro r r' ref ref' d hr hr' hd hd'
    obtain ⟨ref₁, hr₁, -, hd₁⟩ := hback r ref d hr hd
    obtain ⟨ref₂, hr₂, -, hd₂⟩ := hback r' ref' d hr' hd'
    exact h.only r r' ref₁ ref₂ d hr₁ hr₂ hd₁ hd₂
  · intro r ref' d hr hd hsaid
    obtain ⟨ref, hr₀, hnode, hd₀⟩ := hback r ref' d hr hd
    rw [hu.loc, hu.told] at hsaid
    have hdead := h.dead r ref d hr₀ hd₀ hsaid
    rw [hnode, nodeIsDead] at hdead
    cases hn : s.nodes ref'.node with
    | none =>
        rw [hn] at hdead
        cases hdead
    | some nd =>
        obtain ⟨nd₀, nd', hn₀, hn', hsame⟩ := hc.kept r ref' hr (by simp [hd]) (by simp [hn])
        rw [hn₀] at hdead
        rw [nodeIsDead, hn']
        exact hsame.trans hdead
  · intro n nd' hn' hdead
    rcases hc.node n nd' hn' with halive | ⟨nd, hn, hsame, hproc⟩
    · rw [halive] at hdead
      cases hdead
    · rw [hproc]
      exact h.ownerless n nd hn (hsame ▸ hdead)
  · intro d hd
    rw [hu.freed] at hd
    rw [hu.deaths]
    exact ⟨(h.freed d hd).1, Nat.lt_of_lt_of_le (h.freed d hd).2 hc.nextId⟩
  · rw [hu.freed]
    exact h.nodup

/-! ## One record changes -/

/-- Nothing changes but record `d`, its place and what was said about it. -/
structure OnlyRecord (d : DeathId) (s s' : Driver) : Prop where
  refs : s'.refs = s.refs
  nodes : s'.nodes = s.nodes
  nextId : s'.nextId = s.nextId
  freed : s'.freed = s.freed
  deaths : ∀ d', d' ≠ d → s'.deaths d' = s.deaths d'
  loc : ∀ d', d' ≠ d → s'.queues.loc (.death d') = s.queues.loc (.death d')
  told : ∀ d', d' ≠ d → s'.toldOf d' = s.toldOf d'

/-- One record changes: what is to be checked is about that one. -/
theorem one (h : Notified s) {d : DeathId} (ho : OnlyRecord d s s') (hd : (s.deaths d).isSome)
    (hrecord : Record (s'.deaths d) (s'.queues.loc (.death d)) (s'.toldOf d))
    (hheld : ∀ r ref, s.refs r = some ref → ref.death = some d →
      (∃ cookie, s'.deaths d = some ⟨cookie, .deadBinder⟩) ∧
      (s'.queues.loc (.death d) ≠ none ∨ s'.toldOf d ≠ [] → s.nodeIsDead ref.node = true)) :
    Notified s' := by
  have hdead : ∀ n, s'.nodeIsDead n = s.nodeIsDead n := by
    intro n
    rw [nodeIsDead, nodeIsDead, ho.nodes]
  refine ⟨?_, ?_, ?_, ?_, ?_, ?_, ?_, ?_⟩
  · intro d'
    by_cases he : d' = d
    · exact he ▸ hrecord
    · rw [ho.deaths d' he, ho.loc d' he, ho.told d' he]
      exact h.record d'
  · intro d' hle
    have hne : d' ≠ d := by
      rintro rfl
      exact absurd (h.lt hd) (Nat.not_lt.mpr (ho.nextId ▸ hle))
    rw [ho.deaths d' hne, ho.told d' hne]
    exact h.fresh d' (ho.nextId ▸ hle)
  · intro r ref d' hr hd'
    rw [ho.refs] at hr
    by_cases he : d' = d
    · subst he
      exact (hheld r ref hr hd').1
    · rw [ho.deaths d' he]
      exact h.handle r ref d' hr hd'
  · intro r r' ref ref' d' hr hr'
    rw [ho.refs] at hr hr'
    exact h.only r r' ref ref' d' hr hr'
  · intro r ref d' hr hd' hsaid
    rw [ho.refs] at hr
    rw [hdead]
    by_cases he : d' = d
    · subst he
      exact (hheld r ref hr hd').2 hsaid
    · rw [ho.loc d' he, ho.told d' he] at hsaid
      exact h.dead r ref d' hr hd' hsaid
  · rw [ho.nodes]
    exact h.ownerless
  · intro d' hd'
    rw [ho.freed] at hd'
    obtain ⟨hnone, hlt⟩ := h.freed d' hd'
    have hne : d' ≠ d := by
      rintro rfl
      rw [hnone] at hd
      cases hd
    rw [ho.deaths d' hne, ho.nextId]
    exact ⟨hnone, hlt⟩
  · rw [ho.freed]
    exact h.nodup

theorem OnlyRecord.trans {s'' : Driver} {d : DeathId} (h : OnlyRecord d s s')
    (h' : OnlyRecord d s' s'') : OnlyRecord d s s'' where
  refs := h'.refs.trans h.refs
  nodes := h'.nodes.trans h.nodes
  nextId := h'.nextId.trans h.nextId
  freed := h'.freed.trans h.freed
  deaths d' hne := (h'.deaths d' hne).trans (h.deaths d' hne)
  loc d' hne := (h'.loc d' hne).trans (h.loc d' hne)
  told d' hne := (h'.told d' hne).trans (h.told d' hne)

theorem OnlyRecord.wakeupProc (s : Driver) (p : ProcId) (d : DeathId) :
    OnlyRecord d s (s.wakeupProc p) :=
  ⟨rfl, rfl, rfl, rfl, fun _ _ => rfl, fun _ _ => rfl, fun _ _ => rfl⟩

theorem OnlyRecord.enqueue (s : Driver) (q : Queue) (d : DeathId) (head : Bool) :
    OnlyRecord d s { s with queues := s.queues.insert q (.death d) head } :=
  ⟨rfl, rfl, rfl, rfl, fun _ _ => rfl,
    fun _ hne => Queues.insert_loc_of_ne _ _ _ (by simpa using hne), fun _ _ => rfl⟩

theorem OnlyRecord.dequeue (s : Driver) (d : DeathId) :
    OnlyRecord d s (s.dequeueWork (.death d)) :=
  ⟨rfl, rfl, rfl, rfl, fun _ _ => rfl,
    fun _ hne => by rw [dequeueWork, Queues.remove_loc, if_neg (by simpa using hne)],
    fun _ _ => rfl⟩

theorem OnlyRecord.updDeath (s : Driver) (d : DeathId) (f : Death → Death) :
    OnlyRecord d s (s.updDeath d f) :=
  ⟨rfl, rfl, rfl, rfl, fun _ hne => by simp [Driver.updDeath, hne], fun _ _ => rfl,
    fun _ _ => rfl⟩

theorem OnlyRecord.tell (s : Driver) (th : ThreadId) (cmd : BR) (d : DeathId) :
    OnlyRecord d s (s.tell th cmd (.death d)) :=
  ⟨rfl, rfl, rfl, rfl, fun _ _ => rfl, fun _ _ => rfl,
    fun _ hne => by simp [toldOf, Driver.tell, Ne.symm hne]⟩

theorem toldOf_tell (s : Driver) (th : ThreadId) (cmd : BR) (d : DeathId) :
    (s.tell th cmd (.death d)).toldOf d = cmd :: s.toldOf d := by
  simp [toldOf, tell]

/-- A record is queued, by somebody who knows that the object is dead if a
handle still points at it. -/
theorem enqueue (h : Notified s) {d : DeathId} (q : Queue) (head : Bool)
    (hd : (s.deaths d).isSome)
    (hrecord : Record (s.deaths d) (some q) (s.toldOf d))
    (hdead : ∀ r ref, s.refs r = some ref → ref.death = some d →
      s.nodeIsDead ref.node = true) :
    Notified { s with queues := s.queues.insert q (.death d) head } := by
  have hloc : (s.queues.insert q (.death d) head).loc (.death d) = some q ∨
      (s.queues.insert q (.death d) head).loc (.death d) = s.queues.loc (.death d) := by
    rw [Queues.insert_loc]
    split
    · exact .inl rfl
    · exact .inr rfl
  refine h.one (.enqueue s q d head) hd ?_ fun r ref hr hrd =>
    ⟨h.handle r ref d hr hrd, fun _ => hdead r ref hr hrd⟩
  rcases hloc with hloc | hloc
  · exact hloc ▸ hrecord
  · exact hloc ▸ h.record d

/-- A record leaves its queue. -/
theorem dequeue (h : Notified s) (d : DeathId) : Notified (s.dequeueWork (.death d)) := by
  by_cases hd : (s.deaths d).isSome
  · refine h.one (.dequeue s d) hd ?_ fun r ref hr hrd => ⟨h.handle r ref d hr hrd, ?_⟩
    · rw [dequeueWork_loc_self]
      exact (h.record d).unlink
    · rintro (hloc | htold)
      · simp [dequeueWork, Queues.remove_loc] at hloc
      · exact h.dead r ref d hr hrd (.inr htold)
  · have hloc : s.queues.loc (.death d) = none := by
      cases hq : s.queues.loc (.death d) with
      | none => rfl
      | some q => exact absurd (hq ▸ h.record d).isSome_of_queued hd
    have hsame : s.dequeueWork (.death d) = s := by
      rw [dequeueWork, Queues.remove_of_unlinked hloc]
    rw [hsame]
    exact h

/-- A record that no handle points at changes its meaning. -/
theorem retype (h : Notified s) {d : DeathId} {death : Death} (type : DeathWork)
    (hd : s.deaths d = some death)
    (hrecord : Record (some ⟨death.cookie, type⟩) (s.queues.loc (.death d)) (s.toldOf d))
    (hheld : ∀ r ref, s.refs r = some ref → ref.death ≠ some d) :
    Notified (s.updDeath d fun death => { death with type := type }) := by
  refine h.one (.updDeath s d _) (by simp [hd]) ?_ fun r ref hr hrd =>
    absurd hrd (hheld r ref hr)
  have hnew : (s.updDeath d fun death => { death with type := type }).deaths d =
      some ⟨death.cookie, type⟩ := by simp [updDeath, hd]
  rw [hnew]
  exact hrecord

/-- A record is released. -/
theorem forget (h : Notified s) {d : DeathId} (hd : (s.deaths d).isSome)
    (hloc : s.queues.loc (.death d) = none)
    (hheld : ∀ r ref, s.refs r = some ref → ref.death ≠ some d) :
    Notified (s.forgetDeath d) := by
  have hother : ∀ d', d' ≠ d → (s.forgetDeath d).deaths d' = s.deaths d' := by
    intro d' hne
    simp [forgetDeath, hne]
  have hself : (s.forgetDeath d).deaths d = none := by simp [forgetDeath]
  refine ⟨?_, ?_, ?_, h.only, h.dead, h.ownerless, ?_, ?_⟩
  · intro d'
    by_cases he : d' = d
    · subst he
      rw [hself]
      change Record none (s.queues.loc (.death d')) (s.toldOf d')
      rw [hloc]
      exact .ended _ (h.record d').said
    · rw [hother d' he]
      exact h.record d'
  · intro d' hle
    have hne : d' ≠ d := by
      rintro rfl
      exact absurd (h.lt hd) (Nat.not_lt.mpr hle)
    rw [hother d' hne]
    exact h.fresh d' hle
  · intro r ref d' hr hd'
    have hne : d' ≠ d := by
      rintro rfl
      exact hheld r ref hr hd'
    rw [hother d' hne]
    exact h.handle r ref d' hr hd'
  · intro d' hd'
    rcases List.mem_cons.mp hd' with rfl | hmem
    · exact ⟨hself, h.lt hd⟩
    · have hne : d' ≠ d := by
        rintro rfl
        rw [(h.freed d' hmem).1] at hd
        cases hd
      rw [hother d' hne]
      exact h.freed d' hmem
  · refine List.nodup_cons.mpr ⟨?_, h.nodup⟩
    intro hmem
    rw [(h.freed d hmem).1] at hd
    cases hd

/-! ## Handles -/

/-- A handle lets go of its record. -/
theorem unhand (h : Notified s) (r : RefId) :
    Notified (s.updRef r fun ref => { ref with death := none }) := by
  have hback : ∀ r' ref' d, (s.updRef r fun ref => { ref with death := none }).refs r' =
      some ref' → ref'.death = some d → r' ≠ r ∧ s.refs r' = some ref' := by
    intro r' ref' d hr hd
    by_cases he : r' = r
    · subst he
      simp only [updRef, Function.update_self, Option.map_eq_some_iff] at hr
      obtain ⟨ref, -, rfl⟩ := hr
      cases hd
    · exact ⟨he, by simpa [updRef, he] using hr⟩
  refine ⟨h.record, h.fresh, ?_, ?_, ?_, h.ownerless, h.freed, h.nodup⟩
  · intro r' ref' d hr hd
    exact h.handle r' ref' d (hback r' ref' d hr hd).2 hd
  · intro r₁ r₂ ref₁ ref₂ d hr₁ hr₂ hd₁ hd₂
    exact h.only r₁ r₂ ref₁ ref₂ d (hback r₁ ref₁ d hr₁ hd₁).2 (hback r₂ ref₂ d hr₂ hd₂).2 hd₁ hd₂
  · intro r' ref' d hr hd
    exact h.dead r' ref' d (hback r' ref' d hr hd).2 hd

/-- No handle points at the record that `r` let go of. -/
theorem unhanded (h : Notified s) {r : RefId} {ref : Ref} {d : DeathId}
    (hr : s.refs r = some ref) (hd : ref.death = some d) (r' : RefId) (ref' : Ref)
    (hr' : (s.updRef r fun ref => { ref with death := none }).refs r' = some ref') :
    ref'.death ≠ some d := by
  intro hd'
  by_cases he : r' = r
  · subst he
    simp only [updRef, Function.update_self, hr, Option.map_some, Option.some.injEq] at hr'
    rw [← hr'] at hd'
    cases hd'
  · have hr₀ : s.refs r' = some ref' := by simpa [updRef, he] using hr'
    exact he (h.only r' r ref' ref d hr₀ hr hd' hd)

/-- No record waits under a number that is still to come. -/
theorem unqueued (h : Notified s) : s.queues.loc (.death s.nextId) = none := by
  have hrecord := h.record s.nextId
  rw [(h.fresh s.nextId (Nat.le_refl _)).1] at hrecord
  generalize s.queues.loc (.death s.nextId) = q at hrecord
  cases hrecord
  rfl

/-- A handle is given a record of its own. -/
theorem register (h : Notified s) {r : RefId} {ref : Ref} (hr : s.refs r = some ref)
    (cookie : Nat) : Notified (s.registered r cookie) := by
  have hself : (s.registered r cookie).deaths s.nextId = some ⟨cookie, .deadBinder⟩ := by
    simp [registered, insertDeath, updRef, bumpId]
  have hother : ∀ d, d ≠ s.nextId → (s.registered r cookie).deaths d = s.deaths d := by
    intro d hne
    simp [registered, insertDeath, updRef, bumpId, hne]
  have htold : s.toldOf s.nextId = [] := (h.fresh s.nextId (Nat.le_refl _)).2
  -- A handle with a record is the one just given one, or had it before.
  have hback : ∀ r' ref' d, (s.registered r cookie).refs r' = some ref' → ref'.death = some d →
      (r' = r ∧ d = s.nextId) ∨ (d ≠ s.nextId ∧ s.refs r' = some ref') := by
    intro r' ref' d hr' hd
    by_cases he : r' = r
    · subst he
      have hupd : (s.refs r').map (fun ref => { ref with death := some s.nextId }) =
          some ref' := by simpa [registered, insertDeath, updRef, bumpId] using hr'
      rw [hr, Option.map_some, Option.some.injEq] at hupd
      rw [← hupd] at hd
      exact .inl ⟨rfl, (Option.some.inj hd).symm⟩
    · have hr₀ : s.refs r' = some ref' := by
        simpa [registered, insertDeath, updRef, bumpId, he] using hr'
      refine .inr ⟨?_, hr₀⟩
      rintro rfl
      obtain ⟨c, hc⟩ := h.handle r' ref' _ hr₀ hd
      rw [(h.fresh s.nextId (Nat.le_refl _)).1] at hc
      cases hc
  refine ⟨?_, ?_, ?_, ?_, ?_, h.ownerless, ?_, h.nodup⟩
  · intro d
    change Record _ (s.queues.loc (.death d)) (s.toldOf d)
    by_cases he : d = s.nextId
    · subst he
      rw [hself, htold]
      exact .armed cookie _
    · rw [hother d he]
      exact h.record d
  · intro d hle
    have hne : d ≠ s.nextId := Nat.ne_of_gt hle
    rw [hother d hne]
    exact h.fresh d (Nat.le_of_succ_le hle)
  · intro r' ref' d hr' hd
    rcases hback r' ref' d hr' hd with ⟨-, rfl⟩ | ⟨hne, hr₀⟩
    · exact ⟨cookie, hself⟩
    · rw [hother d hne]
      exact h.handle r' ref' d hr₀ hd
  · intro r₁ r₂ ref₁ ref₂ d hr₁ hr₂ hd₁ hd₂
    rcases hback r₁ ref₁ d hr₁ hd₁ with ⟨rfl, rfl⟩ | ⟨hne, h₁⟩
    · rcases hback r₂ ref₂ _ hr₂ hd₂ with ⟨rfl, -⟩ | ⟨hne, -⟩
      · rfl
      · exact absurd rfl hne
    · rcases hback r₂ ref₂ d hr₂ hd₂ with ⟨-, rfl⟩ | ⟨-, h₂⟩
      · exact absurd rfl hne
      · exact h.only r₁ r₂ ref₁ ref₂ d h₁ h₂ hd₁ hd₂
  · intro r' ref' d hr' hd hsaid
    change s.queues.loc (.death d) ≠ none ∨ s.toldOf d ≠ [] at hsaid
    rcases hback r' ref' d hr' hd with ⟨-, rfl⟩ | ⟨-, hr₀⟩
    · rcases hsaid with hq | ht
      · exact absurd h.unqueued hq
      · exact absurd htold ht
    · exact h.dead r' ref' d hr₀ hd hsaid
  · intro d hd
    obtain ⟨hnone, hlt⟩ := h.freed d hd
    rw [hother d (Nat.ne_of_lt hlt)]
    exact ⟨hnone, Nat.lt_succ_of_lt hlt⟩

/-- `BC_REQUEST_DEATH_NOTIFICATION` -/
theorem request (h : Notified s) (env : Env) (p : ProcId) (th : ThreadId)
    (handle cookie : Nat) : Notified (s.deathRequest env p th handle cookie).1 := by
  rcases deathRequest_cases s env p th handle cookie with
    ⟨heq, -⟩ | ⟨heq, -⟩ | ⟨r, ref, -, hr, -, -, heq⟩
  · rw [heq]
    exact h
  · rw [heq]
    exact h.calm (.bumpId s)
  · rw [heq]
    have hreg := h.register hr cookie
    split
    · rename_i hdead
      have hself : (s.registered r cookie).deaths s.nextId = some ⟨cookie, .deadBinder⟩ := by
        simp [registered, insertDeath, updRef, bumpId]
      have htold : (s.registered r cookie).toldOf s.nextId = [] :=
        (h.fresh s.nextId (Nat.le_refl _)).2
      refine hreg.enqueue (.thread th) false (by simp [hself]) ?_ ?_
      · rw [hself, htold]
        exact .armed cookie _
      · intro r' ref' hr' hd'
        have hnew : (s.registered r cookie).refs r =
            some { ref with death := some s.nextId } := by
          simp [registered, insertDeath, updRef, bumpId, hr]
        obtain rfl : r' = r := hreg.only r' r ref' _ s.nextId hr' hnew hd' rfl
        rw [hnew] at hr'
        cases hr'
        exact hdead
    · exact hreg

/-- `BC_CLEAR_DEATH_NOTIFICATION` -/
theorem clear (h : Notified s) (p : ProcId) (th : ThreadId) (handle cookie : Nat) :
    Notified (s.deathClear p th handle cookie).1 := by
  rcases deathClear_cases s p th handle cookie with
    ⟨heq, -⟩ | ⟨r, ref, d, death, -, hr, hd, hdeath, -, -, ⟨hq, heq⟩ | ⟨hq, heq⟩⟩
  · rw [heq]
    exact h
  all_goals
    have hfree := h.unhand r
    have hno := h.unhanded hr hd
    obtain ⟨c, hc⟩ := h.handle r ref d hr hd
    obtain rfl : death = ⟨c, .deadBinder⟩ := Option.some.inj (hdeath.symm.trans hc)
    have hsaid := (hdeath ▸ h.record d).of_deadBinder
  · -- The record is on its way: it is owed both answers.
    have htold : s.toldOf d = [] := by
      rcases hsaid with htold | ⟨-, hnone⟩
      · exact htold
      · rw [hnone] at hq
        cases hq
    have hnew := hfree.retype .deadBinderAndClear hdeath (by
      change Record _ _ (s.toldOf d)
      rw [htold]
      exact .both c _) hno
    exact heq ▸ hnew
  · have htold : s.toldOf d = [] ∨ s.toldOf d = [.deadBinder] := hsaid.imp_right And.left
    have hnew := hfree.retype .clearDeathNotification hdeath (.clearing c _ _ htold) hno
    have hself : ((s.updRef r fun ref => { ref with death := none }).updDeath d fun death =>
        { death with type := .clearDeathNotification }).deaths d =
          some ⟨c, .clearDeathNotification⟩ := by
      simp [updDeath, updRef, hdeath]
    have hlast := hnew.enqueue (.thread th) false (by simp [hself])
      (by rw [hself]; exact .clearing c _ _ htold)
      fun r' ref' hr' hd' => absurd hd' (hno r' ref' hr')
    exact heq ▸ hlast

/-! ## The object dies -/

/-- A death is announced once to each handle that asked. -/
theorem notifyDeath (h : Notified s) {r : RefId}
    (hr : ∀ ref, s.refs r = some ref → s.nodeIsDead ref.node = true ∧
      ∀ d, ref.death = some d → s.toldOf d = []) : Notified (s.notifyDeath r) := by
  unfold Driver.notifyDeath
  split
  · exact h
  · rename_i ref href
    obtain ⟨hdead, htold⟩ := hr ref href
    split
    · exact h
    · rename_i d hd
      split
      · exact h
      · obtain ⟨c, hc⟩ := h.handle r ref d href hd
        have hsame : (s.updDeath d fun death => { death with type := .deadBinder }) = s := by
          have hupd : Function.update s.deaths d ((s.deaths d).map fun death =>
              { death with type := .deadBinder }) = s.deaths := by
            rw [hc, Option.map_some, ← hc, Function.update_eq_self]
          rw [updDeath, hupd]
        rw [hsame]
        have hqueued := h.enqueue (d := d) (.proc ref.proc) false (by simp [hc])
          (by rw [hc, htold d hd]; exact .armed c _) (by
            intro r' ref' hr' hd'
            obtain rfl := h.only r' r ref' ref d hr' href hd' hd
            rw [href] at hr'
            cases hr'
            exact hdead)
        exact hqueued.calm (.idle (.same rfl rfl rfl) rfl rfl rfl rfl (Nat.le_refl _))

theorem notifyDeath_tables (s : Driver) (r : RefId) : (s.notifyDeath r).refs = s.refs ∧
    (s.notifyDeath r).nodes = s.nodes ∧ (s.notifyDeath r).told = s.told := by
  unfold Driver.notifyDeath
  split
  · exact ⟨rfl, rfl, rfl⟩
  · split
    · exact ⟨rfl, rfl, rfl⟩
    · split <;> exact ⟨rfl, rfl, rfl⟩

/-- The loop of `binder_node_died` over the handles of a node. -/
theorem notifyDeaths (h : Notified s) (l : List RefId)
    (hl : ∀ r ∈ l, ∀ ref, s.refs r = some ref → s.nodeIsDead ref.node = true ∧
      ∀ d, ref.death = some d → s.toldOf d = []) : Notified (l.foldl Driver.notifyDeath s) := by
  induction l generalizing s with
  | nil => exact h
  | cons r l ih =>
      obtain ⟨hrefs, hnodes, htold⟩ := notifyDeath_tables s r
      refine ih (h.notifyDeath (hl r (by simp))) ?_
      intro r' hmem ref hr'
      rw [hrefs] at hr'
      obtain ⟨hdead, hsaid⟩ := hl r' (List.mem_cons_of_mem _ hmem) ref hr'
      refine ⟨by rw [nodeIsDead, hnodes]; exact hdead, fun d hd => ?_⟩
      rw [toldOf, htold]
      exact hsaid d hd

/-- The node is marked dead. -/
theorem markDead (h : Notified s) (n : NodeId) :
    Notified (s.updNode n fun nd => { nd with isDead := true, proc := none }) := by
  refine ⟨h.record, h.fresh, h.handle, h.only, ?_, ?_, h.freed, h.nodup⟩
  · intro r ref d hr hd hsaid
    have hdead := h.dead r ref d hr hd hsaid
    unfold nodeIsDead at hdead ⊢
    by_cases he : ref.node = n
    · cases hn : s.nodes n with
      | none => simp [he, hn] at hdead
      | some nd => simp [updNode, he, hn]
    · simpa [updNode, he] using hdead
  · intro m nd' hm hdead
    by_cases he : m = n
    · subst he
      simp only [updNode, Function.update_self, Option.map_eq_some_iff] at hm
      obtain ⟨nd, -, rfl⟩ := hm
      rfl
    · exact h.ownerless m nd' (by simpa [updNode, he] using hm) hdead

/-- While the owner lives, nothing was said to the holders of its node. -/
theorem untold (h : Notified s) {p : ProcId} {n : NodeId}
    (hown : (s.nodes n).bind (·.proc) = some p)
    (hrefs : ∀ r, r ∈ s.nodeRefs n ↔ ∃ ref, s.refs r = some ref ∧ some ref.node = some n) :
    ∀ r ∈ s.nodeRefs n, ∀ ref, s.refs r = some ref →
      (s.updNode n fun nd => { nd with isDead := true, proc := none }).nodeIsDead ref.node =
        true ∧ ∀ d, ref.death = some d → s.toldOf d = [] := by
  obtain ⟨nd, hn, hproc⟩ := Option.bind_eq_some_iff.mp hown
  have halive : s.nodeIsDead n = false := by
    rw [nodeIsDead, hn]
    cases hdead : nd.isDead with
    | false => exact hdead
    | true =>
        rw [h.ownerless n nd hn hdead] at hproc
        cases hproc
  intro r hmem ref hr
  obtain ⟨ref', hr', hnode⟩ := (hrefs r).mp hmem
  obtain rfl : ref = ref' := Option.some.inj (hr.symm.trans hr')
  have hnode : ref.node = n := Option.some.inj hnode
  refine ⟨by simp [nodeIsDead, updNode, hnode, hn], ?_⟩
  intro d hd
  exact (h.silent hr' hd (hnode ▸ halive)).2

theorem died (h : Notified s) {p : ProcId} {n : NodeId}
    (hown : (s.nodes n).bind (·.proc) = some p)
    (hrefs : ∀ r, r ∈ s.nodeRefs n ↔ ∃ ref, s.refs r = some ref ∧ some ref.node = some n) :
    Notified (s.nodeDied n) :=
  (h.markDead n).notifyDeaths _ (h.untold hown hrefs)

/-! ## Reports -/

/-- A record that is off its queue is reported. -/
theorem report (h : Notified s) (th : ThreadId) {d : DeathId} {death : Death}
    (hd : s.deaths d = some death) (hloc : s.queues.loc (.death d) = none)
    (hsilent : death.type = .deadBinder → s.toldOf d = [])
    (hdead : ∀ r ref, s.refs r = some ref → ref.death = some d →
      s.nodeIsDead ref.node = true) :
    Notified ((s.tell th (deathCmd death.type) (.death d)).deathReported th d death.type) := by
  have hrecord := h.record d
  rw [hd, hloc] at hrecord
  have hheld : ∀ r ref, s.refs r = some ref → ref.death = some d →
      ∃ cookie, death = ⟨cookie, .deadBinder⟩ := by
    intro r ref hr hrd
    obtain ⟨c, hc⟩ := h.handle r ref d hr hrd
    exact ⟨c, Option.some.inj (hd.symm.trans hc)⟩
  obtain ⟨cookie, type⟩ := death
  cases type with
  | deadBinder =>
      refine h.one (.tell s th .deadBinder d) (by simp [hd]) ?_ fun r ref hr hrd =>
        ⟨h.handle r ref d hr hrd, fun _ => hdead r ref hr hrd⟩
      change Record (s.deaths d) (s.queues.loc (.death d))
        ((s.tell th .deadBinder (.death d)).toldOf d)
      rw [toldOf_tell, hd, hloc, hsilent rfl]
      exact .reported cookie
  | deadBinderAndClear =>
      have hno : ∀ r ref, s.refs r = some ref → ref.death ≠ some d := by
        intro r ref hr hrd
        obtain ⟨c, hc⟩ := hheld r ref hr hrd
        cases hc
      have htold : s.toldOf d = [] := by
        generalize s.toldOf d = told at hrecord
        cases hrecord
        rfl
      -- What is said and what the record becomes, in one change.
      have hself : ((s.tell th .deadBinder (.death d)).updDeath d fun death =>
          { death with type := .clearDeathNotification }).deaths d =
            some ⟨cookie, .clearDeathNotification⟩ := by
        simp [updDeath, tell, hd]
      have hsaid : ((s.tell th .deadBinder (.death d)).updDeath d fun death =>
          { death with type := .clearDeathNotification }).toldOf d = [.deadBinder] := by
        change (s.tell th .deadBinder (.death d)).toldOf d = [.deadBinder]
        rw [toldOf_tell, htold]
      have hnew : Notified ((s.tell th .deadBinder (.death d)).updDeath d fun death =>
          { death with type := .clearDeathNotification }) := by
        refine h.one ((OnlyRecord.tell s th .deadBinder d).trans (.updDeath _ d _))
          (by simp [hd]) ?_
          fun r ref hr hrd => absurd hrd (hno r ref hr)
        rw [hself, hsaid]
        exact .clearing cookie _ _ (.inr rfl)
      refine hnew.enqueue (.thread th) false (by simp [hself]) ?_
        fun r ref hr hrd => absurd hrd (hno r ref hr)
      rw [hself, hsaid]
      exact .clearing cookie _ _ (.inr rfl)
  | clearDeathNotification =>
      have hno : ∀ r ref, s.refs r = some ref → ref.death ≠ some d := by
        intro r ref hr hrd
        obtain ⟨c, hc⟩ := hheld r ref hr hrd
        cases hc
      have hover : Said (.clearDeathNotificationDone :: s.toldOf d) := by
        generalize s.toldOf d = told at hrecord
        cases hrecord with
        | clearing _ _ _ htold =>
            rcases htold with rfl | rfl
            · exact .inr (.inr (.inl rfl))
            · exact .inr (.inr (.inr rfl))
      -- The release comes first here; what is said about the record is the same.
      have hfree := h.forget (by simp [hd]) hloc hno
      refine ⟨?_, ?_, hfree.handle, hfree.only, ?_, hfree.ownerless, hfree.freed, hfree.nodup⟩
      · intro d'
        by_cases he : d' = d
        · subst he
          change Record (Function.update s.deaths d' none d') (s.queues.loc (.death d'))
            ((s.tell th .clearDeathNotificationDone (.death d')).toldOf d')
          rw [Function.update_self, hloc, toldOf_tell]
          exact .ended _ hover
        · change Record ((s.forgetDeath d).deaths d') (s.queues.loc (.death d'))
            ((s.tell th .clearDeathNotificationDone (.death d)).toldOf d')
          rw [(OnlyRecord.tell s th .clearDeathNotificationDone d).told d' he]
          exact hfree.record d'
      · intro d' hle
        have hne : d' ≠ d := by
          rintro rfl
          exact absurd (h.lt (by simp [hd])) (Nat.not_lt.mpr hle)
        refine ⟨(hfree.fresh d' hle).1, ?_⟩
        exact ((OnlyRecord.tell s th .clearDeathNotificationDone d).told d' hne).trans
          (h.fresh d' hle).2
      · intro r ref d' hr hrd hsaid
        have hne : d' ≠ d := by
          rintro rfl
          exact hno r ref hr hrd
        refine h.dead r ref d' hr hrd ?_
        rcases hsaid with hq | ht
        · exact .inl hq
        · refine .inr fun hnil => ht ?_
          exact ((OnlyRecord.tell s th .clearDeathNotificationDone d).told d' hne).trans hnil

/-- A turn of a read that meets a record. -/
theorem readNotice (h : Notified s) (env : Env) (th : ThreadId) {d : DeathId} (rc : ReadCall)
    {q : Queue} (hq : s.queues.loc (.death d) = some q) :
    Notified (readNotice env s th d rc q) := by
  have hout := h.dequeue d
  have hloc := s.dequeueWork_loc_self (.death d)
  have hrecord := h.record d
  rw [hq] at hrecord
  obtain ⟨death, hd⟩ := Option.isSome_iff_exists.mp hrecord.isSome_of_queued
  have hdead : ∀ r ref, s.refs r = some ref → ref.death = some d →
      s.nodeIsDead ref.node = true :=
    fun r ref hr hrd => h.dead r ref d hr hrd (.inl (by simp [hq]))
  have hread : Notified (readDeath env (s.dequeueWork (.death d)) th d rc).drv := by
    have hd₀ : (s.dequeueWork (.death d)).deaths d = some death := hd
    apply readDeath_rule hout
    intro death' hd' _
    cases hd₀.symm.trans hd'
    refine hout.report th hd₀ hloc ?_ hdead
    intro htype
    obtain ⟨cookie, type⟩ := death
    cases htype
    rw [hd] at hrecord
    rcases hrecord.of_deadBinder with htold | ⟨-, hnone⟩
    · exact htold
    · cases hnone
  unfold Driver.readNotice
  simp only
  split
  · rename_i herror
    -- What did not fit was not reported, and goes back.
    have hsame : (readDeath env (s.dequeueWork (.death d)) th d rc).drv =
        s.dequeueWork (.death d) := by
      apply readDeath_rule (P := fun s' => s' = s.dequeueWork (.death d)) rfl
      intro death _ hok
      cases herror.symm.trans hok
    rw [hsame]
    exact hout.enqueue q true (by simpa [dequeueWork] using hrecord.isSome_of_queued) hrecord hdead
  · exact hread

/-- A handle goes, and its record with it. -/
theorem release (h : Notified s) {r : RefId} {ref : Ref} (hr : s.refs r = some ref) :
    Notified ((s.releaseDeath ref.death).forgetRef r ref) := by
  have hgone : Notified (s.forgetRef r ref) := by
    refine ⟨h.record, h.fresh, ?_, ?_, ?_, h.ownerless, h.freed, h.nodup⟩
    · intro r' ref' d hr' hd
      exact h.handle r' ref' d (forgetRef_back hr').2 hd
    · intro r₁ r₂ ref₁ ref₂ d hr₁ hr₂
      exact h.only r₁ r₂ ref₁ ref₂ d (forgetRef_back hr₁).2 (forgetRef_back hr₂).2
    · intro r' ref' d hr' hd
      exact h.dead r' ref' d (forgetRef_back hr').2 hd
  cases hd : ref.death with
  | none => exact hgone
  | some d =>
      obtain ⟨c, hc⟩ := h.handle r ref d hr hd
      have hout := hgone.dequeue d
      refine hout.forget (d := d) ?_ ?_ ?_
      · change (s.deaths d).isSome = true
        rw [hc]
        rfl
      · exact dequeueWork_loc_self ..
      · intro r' ref' hr' hd'
        change (s.forgetRef r ref).refs r' = some ref' at hr'
        obtain ⟨hne, hr₀⟩ := forgetRef_back hr'
        exact hne (h.only r' r ref' ref d hr₀ hr hd' hd)

end Notified

/-- **Every step keeps the records in order.** -/
theorem NoticeStep.notified (h : NoticeStep L s s') (hn : Notified s) : Notified s' := by
  cases h with
  | calm hc => exact hn.calm hc
  | request env p th handle cookie _ _ _ _ => exact hn.request env p th handle cookie
  | clear p th handle cookie _ _ _ => exact hn.clear p th handle cookie
  | died p n hown hrefs => exact hn.died hown hrefs
  | report env th d rc q hq _ _ => exact hn.readNotice env th rc hq
  | lost p d q _ _ _ => exact hn.dequeue d
  | release r ref hr => exact hn.release hr
  | exit p th _ => exact ⟨hn.record, hn.fresh, hn.handle, hn.only, hn.dead, hn.ownerless,
      hn.freed, hn.nodup⟩

theorem Notices.notified (h : Notices L s s') (hn : Notified s) : Notified s' :=
  h.invariant (fun _ _ => NoticeStep.notified) hn

/-- **The records are in order in every state of every run.** -/
theorem Reachable.notified (h : Reachable s) : Notified s :=
  Reaches.effects .init (fun _ _ _ _ _ _ _ _ _ hmove hn => hmove.notices.notified hn) h

end Driver

end Binder
