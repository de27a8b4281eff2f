import DevfsBinder.OwnerConversation

/-!
# Acknowledgements

`BR_ACQUIRE` and `BR_INCREFS` ask the owner of a node for a `BC_ACQUIRE_DONE`
or `BC_INCREFS_DONE`.  The driver records the question (`pending_strong_ref`,
`pending_weak_ref`) and the answer clears the record, but nothing reads it: a
reference given back before the answer is announced at once, and with the last
of them the node goes.  As long as the references an owner was asked about are
held until it answers, the node is there when the answer comes.
-/

namespace Binder

/-- The command that tells the owner of the first strong or weak reference. -/
def opening (strong : Bool) : BR := if strong then .acquire else .increfs

/-- The command that tells the owner of the last one. -/
def closing (strong : Bool) : BR := if strong then .release else .decrefs

/-- The owner was told of a reference. -/
def Node.toldOf (nd : Node) (strong : Bool) : Bool :=
  if strong then nd.hasStrongRef else nd.hasWeakRef

/-- The owner was asked to confirm a reference. -/
def Node.pendingOf (nd : Node) (strong : Bool) : Bool :=
  if strong then nd.pendingStrongRef else nd.pendingWeakRef

/-- The owner was told and has not answered. -/
structure Node.Waits (nd : Node) (strong : Bool) : Prop where
  told : nd.toldOf strong = true
  pending : nd.pendingOf strong = true

variable {strong : Bool} {nd nd' : Node} {cmds : List BR}

theorem Node.Waits.record (h : nd.Waits strong) {cmd : BR} (hcmd : cmd ≠ closing strong) :
    (nd.record cmd).Waits strong := by
  obtain ⟨htold, hpending⟩ := h
  cases strong <;> cases cmd <;>
    simp_all [Node.record, Node.toldOf, Node.pendingOf, closing] <;>
    constructor <;> simp_all [Node.toldOf, Node.pendingOf]

/-- Until a reference is given up, the question stands. -/
theorem Node.Waits.records (h : nd.Waits strong) (hcmds : closing strong ∉ cmds) :
    (cmds.foldl Node.record nd).Waits strong := by
  induction cmds generalizing nd with
  | nil => exact h
  | cons cmd cmds ih =>
      rw [List.mem_cons, not_or] at hcmds
      exact ih (h.record fun he => hcmds.1 he.symm) hcmds.2

theorem Node.record_opening (nd : Node) (strong : Bool) :
    (nd.record (opening strong)).Waits strong := by
  cases strong <;> exact ⟨rfl, rfl⟩

/-- A reference is announced. -/
theorem Node.waits_of_opening (hopen : opening strong ∈ cmds) (hcmds : closing strong ∉ cmds)
    (nd : Node) : (cmds.foldl Node.record nd).Waits strong := by
  induction cmds generalizing nd with
  | nil => cases hopen
  | cons cmd cmds ih =>
      rw [List.mem_cons, not_or] at hcmds
      rcases List.mem_cons.mp hopen with rfl | hlater
      · exact (nd.record_opening strong).records hcmds.2
      · exact ih hlater hcmds.2 (nd.record cmd)

namespace Driver

variable {s s' : Driver} {n : NodeId}

/-- What is true of a node's references. -/
def holds (s : Driver) (n : NodeId) (nd : Node) (strong : Bool) : Bool :=
  if strong then nd.hasStrong else s.nodeHasWeak n nd

theorem closing_mem_due : closing strong ∈ dueCmds (s.nodeNews n nd) ↔
    s.holds n nd strong = false ∧ nd.toldOf strong = true := by
  rw [nodeNews_eq]
  cases strong <;> cases hw : s.nodeHasWeak n nd <;> cases hs : nd.hasStrong <;>
    cases htw : nd.hasWeakRef <;> cases hts : nd.hasStrongRef <;>
    simp [closing, dueCmds, holds, Node.toldOf, hw, hs, htw, hts]

theorem opening_mem_due : opening strong ∈ dueCmds (s.nodeNews n nd) ↔
    s.holds n nd strong = true ∧ nd.toldOf strong = false := by
  rw [nodeNews_eq]
  cases strong <;> cases hw : s.nodeHasWeak n nd <;> cases hs : nd.hasStrong <;>
    cases htw : nd.hasWeakRef <;> cases hts : nd.hasStrongRef <;>
    simp [opening, dueCmds, holds, Node.toldOf, hw, hs, htw, hts]

/-- A node with a reference is not let go. -/
theorem decrefs_not_due (h : s.holds n nd strong = true) : (s.nodeNews n nd).2.2.2 = false := by
  have hweak : s.nodeHasWeak n nd = true := by
    cases strong with
    | true => exact nodeHasWeak_of_strong h
    | false => exact h
  simp [nodeNews_eq, hweak]

/-! ## Questions and answers -/

/-- The action is the owner's answer about node `n`. -/
def acknowledges (s : Driver) (strong : Bool) (n : NodeId) : Action → Bool
  | .command _ th (.done st ptr) =>
      st == strong && decide (((s.idleThread th).bind fun thread =>
        s.nodeFind thread.proc ptr) = some n)
  | _ => false

/-- States in which a question about node `n` has been written to the owner and
not been answered since. -/
inductive Unacknowledged (ok : Driver → Action → Prop) (strong : Bool) (n : NodeId) :
    Driver → Prop
  | emitted {s : Driver} (a : Action) (h : Reaches ok s) (hok : ok s a)
      (hnew : (s.toldAbout n).count (opening strong) <
        ((s.act a).toldAbout n).count (opening strong)) : Unacknowledged ok strong n (s.act a)
  | waiting {s : Driver} (a : Action) (h : Unacknowledged ok strong n s) (hok : ok s a)
      (hnot : s.acknowledges strong n a = false) : Unacknowledged ok strong n (s.act a)

theorem Unacknowledged.reaches {ok : Driver → Action → Prop}
    (h : Unacknowledged ok strong n s) : Reaches ok s := by
  induction h with
  | emitted a h hok _ => exact .step a h hok
  | waiting a _ hok _ ih => exact .step a ih hok

/-- References the owner was asked about are held: when its node's work is
read and what is due fits, and, for a context manager, when its owner closes. -/
structure HeldUntilDone (s : Driver) (a : Action) : Prop where
  news : s.OnNews a fun _ n rc nd => 20 * (dueCmds (s.nodeNews n nd)).length ≤ rc.room →
    (nd.pendingStrongRef = true → nd.hasStrong = true) ∧
      (nd.pendingWeakRef = true → s.nodeHasWeak n nd = true)
  close : ∀ p c n nd, a = .devClose p → (s.contexts c).mgrNode = some n →
    s.nodes n = some nd → nd.proc = some p →
    nd.pendingStrongRef = false ∧ nd.pendingWeakRef = false

/-- Node `n` is there and its owner owes an answer. -/
def Asked (strong : Bool) (n : NodeId) (s : Driver) : Prop :=
  ∃ nd, s.nodes n = some nd ∧ nd.Waits strong

theorem SameFlags.waits (h : SameFlags nd nd') (hw : nd.Waits strong) : nd'.Waits strong := by
  obtain ⟨htold, hpending⟩ := hw
  cases strong with
  | true => exact ⟨h.hasStrongRef.trans htold, h.pendingStrongRef.trans hpending⟩
  | false => exact ⟨h.hasWeakRef.trans htold, h.pendingWeakRef.trans hpending⟩

/-- A node whose owner was told is not released. -/
theorem Still.node (h : Still n s s') (hn : s.nodes n = some nd) (htold : nd.toldOf strong = true) :
    ∃ nd', s'.nodes n = some nd' ∧ SameFlags nd nd' := by
  rcases h.kept nd hn with hsome | ⟨hst, hw, -⟩
  · obtain ⟨nd', hn'⟩ := Option.isSome_iff_exists.mp hsome
    obtain ⟨nd₀, hn₀, hsame, -⟩ := h.back nd' hn'
    rw [hn] at hn₀
    cases hn₀
    exact ⟨nd', hn', hsame⟩
  · cases strong <;> simp_all [Node.toldOf]

theorem Asked.still (h : Asked strong n s) (hstill : Still n s s') : Asked strong n s' := by
  obtain ⟨nd, hn, hw⟩ := h
  obtain ⟨nd', hn', hsame⟩ := hstill.node hn hw.told
  exact ⟨nd', hn', hsame.waits hw⟩

/-- The owner hears nothing of a command that is not among those written. -/
theorem announced_count (th : ThreadId) {cmd : BR} (hcmd : cmd ∉ cmds) (s : Driver) :
    ((announced th n cmds s).toldAbout n).count cmd = (s.toldAbout n).count cmd := by
  rw [announced_told, if_pos rfl, List.count_append, List.count_reverse,
    List.count_eq_zero_of_not_mem hcmd, Nat.zero_add]

/-- **A read of the news asks.**  If it writes the question, the owner owes an
answer afterwards. -/
theorem readNews_asks (hs : Sound s) (strong : Bool) (n : NodeId) (env : Env) (th : ThreadId)
    (rc : ReadCall) (q : Queue) :
    ((readNews env s th n rc q).toldAbout n).count (opening strong) =
        (s.toldAbout n).count (opening strong) ∨
      Asked strong n (readNews env s th n rc q) := by
  have hreads := readNews_reads env s th n rc q
  generalize Driver.readNews env s th n rc q = s' at hreads ⊢
  cases hreads with
  | nothing _ => exact .inl rfl
  | full => exact .inl rfl
  | told nd hn _ =>
      by_cases hopen : opening strong ∈ dueCmds (s.nodeNews n nd)
      · obtain ⟨hheld, htold⟩ := opening_mem_due.mp hopen
        refine .inr ⟨_, announced_node th _ hn, Node.waits_of_opening hopen ?_ nd⟩
        rw [closing_mem_due, hheld]
        simp
      · exact .inl (announced_count th hopen _)
  | released nd hn hdecrefs =>
      have hopen : opening strong ∉ dueCmds (s.nodeNews n nd) := by
        intro hopen
        rw [decrefs_not_due (opening_mem_due.mp hopen).1] at hdecrefs
        cases hdecrefs
      have hfree : Accounted none _ _ := nodeMaybeFree_accounted
        (announced_sound (hs.dequeue (.node n)) th n (dueCmds (s.nodeNews n nd))) n
      refine .inl ?_
      rw [(hfree.still n).told]
      exact announced_count th hopen _
  | faulted nd hn written cmd rest heq _ _ =>
      by_cases hopen : opening strong ∈ written
      · have hclosing : closing strong ∉ dueCmds (s.nodeNews n nd) := by
          have hdue : opening strong ∈ dueCmds (s.nodeNews n nd) := by
            rw [heq]
            exact List.mem_append_left _ hopen
          rw [closing_mem_due, (opening_mem_due.mp hdue).1]
          simp
        rw [heq, List.mem_append, not_or, List.mem_cons, not_or] at hclosing
        have hwaits := Node.waits_of_opening hopen hclosing.1 nd
        refine .inr ⟨_, ?_, hwaits.record fun he => hclosing.2.1 he.symm⟩
        rw [updNode_self, announced_node (s := s.dequeueWork (.node n)) th written hn,
          Option.map_some]
      · exact .inl (announced_count th hopen _)

/-- **A read of the news does not take back a question** whose reference is
still held. -/
theorem readNews_waits (hn : s.nodes n = some nd) (hw : nd.Waits strong) (env : Env)
    (th : ThreadId) (rc : ReadCall) (q : Queue)
    (hheld : 20 * (dueCmds (s.nodeNews n nd)).length ≤ rc.room → s.holds n nd strong = true) :
    (∃ nd', (readNews env s th n rc q).nodes n = some nd' ∧ nd'.Waits strong ∧
        nd'.proc = nd.proc) ∧
      ((readNews env s th n rc q).toldAbout n).count (closing strong) =
        (s.toldAbout n).count (closing strong) := by
  have hclosing : 20 * (dueCmds (s.nodeNews n nd)).length ≤ rc.room →
      closing strong ∉ dueCmds (s.nodeNews n nd) := by
    intro hroom
    rw [closing_mem_due, hheld hroom]
    simp
  have hreads := readNews_reads env s th n rc q
  generalize Driver.readNews env s th n rc q = s' at hreads ⊢
  cases hreads with
  | nothing _ => exact ⟨⟨nd, hn, hw, rfl⟩, rfl⟩
  | full => exact ⟨⟨nd, hn, hw, rfl⟩, rfl⟩
  | told nd' hn' _ hroom =>
      rw [hn] at hn'
      cases hn'
      exact ⟨⟨_, announced_node th _ hn, hw.records (hclosing hroom), nd.records_proc _⟩,
        announced_count th (hclosing hroom) _⟩
  | released nd' hn' hdecrefs hroom =>
      rw [hn] at hn'
      cases hn'
      rw [decrefs_not_due (hheld hroom)] at hdecrefs
      cases hdecrefs
  | faulted nd' hn' written cmd rest heq hroom _ =>
      rw [hn] at hn'
      cases hn'
      have hclosing := hclosing hroom
      rw [heq, List.mem_append, not_or, List.mem_cons, not_or] at hclosing
      refine ⟨⟨(written.foldl Node.record nd).record cmd, ?_,
        (hw.records hclosing.1).record fun he => hclosing.2.1 he.symm,
        (Node.record_proc _ cmd).trans (nd.records_proc written)⟩,
        announced_count th hclosing.1 _⟩
      rw [updNode_self, announced_node (s := s.dequeueWork (.node n)) th written hn,
        Option.map_some]

/-! ## Steps -/

theorem Occurs.acknowledges {a : Action} (h : s.Occurs a (.done n strong)) :
    s.acknowledges strong n a = true := by
  cases h with
  | done env th thread _ ptr _ hidle hfind => simp [Driver.acknowledges, hidle, hfind]

/-- **A step that writes the question** leaves the owner owing an answer. -/
theorem act_asks (hst : Steady s) {a : Action}
    (hnew : (s.toldAbout n).count (opening strong) <
      ((s.act a).toldAbout n).count (opening strong)) : Asked strong n (s.act a) := by
  have hinv : (((s.act a).toldAbout n).count (opening strong) =
        (s.toldAbout n).count (opening strong)) ∨
      (Asked strong n (s.act a) ∧ ∃ env th, a = .readTurn env th) := by
    refine (hst.moves a).invariant
      (P := fun s₁ => ((s₁.toldAbout n).count (opening strong) =
        (s.toldAbout n).count (opening strong)) ∨
          (Asked strong n s₁ ∧ ∃ env th, a = .readTurn env th)) ?_ hst.sound (.inl rfl)
    intro s₁ s₂ hs₁ hmove hP
    cases hmove.effect.touch hs₁ n with
    | still hstill =>
        rw [hstill.told]
        exact hP.imp_right fun h => ⟨h.1.still hstill, h.2⟩
    | made p ptr cookie flags hn _ heq =>
        refine hP.imp (fun h => by rw [heq]; exact h) ?_
        rintro ⟨⟨nd, hnd, -⟩, -⟩
        exact absurd (hs₁.graph.nodes_lt n nd hnd) (hn ▸ Nat.lt_irrefl _)
    | done st hocc =>
        refine hP.imp_right ?_
        rintro ⟨-, env, th, rfl⟩
        cases hocc
    | discarded _ => exact hP
    | managed c hocc =>
        refine hP.imp_right ?_
        rintro ⟨-, env, th, rfl⟩
        cases hocc
    | unmanaged p _ hocc _ c _ htold _ =>
        rw [htold]
        refine hP.imp_right ?_
        rintro ⟨-, env, th, rfl⟩
        cases hocc
    | news env th rc q hq hocc =>
        obtain ⟨rfl, htaken⟩ := hocc.newsTaken
        refine (readNews_asks hs₁ strong n env th rc q).imp_right fun hasked => ⟨hasked, ?_⟩
        cases hocc with
        | news _ th thread _ _ fromProc hth hrc hnext => exact ⟨env, th, rfl⟩
  rcases hinv with hsame | ⟨hasked, -⟩
  · exact absurd hsame (Nat.ne_of_gt hnew)
  · exact hasked

/-- How the state in the middle of a step stands to the one before it: the
node is there with its owner told, the answer is due unless the step brings it,
and nothing was taken back. -/
structure StillAsked (strong : Bool) (n : NodeId) (s : Driver) (a : Action) (s₁ : Driver) :
    Prop where
  node : ∃ nd, s₁.nodes n = some nd ∧ nd.toldOf strong = true ∧
    (s.acknowledges strong n a = false → nd.pendingOf strong = true) ∧
    ∀ p, nd.proc = some p → (s.nodes n).bind (·.proc) = some p
  managers : ∀ c, (s₁.contexts c).mgrNode = some n →
    (s.contexts c).mgrNode = some n ∨ s.Occurs a (.manager n)
  count : (s₁.toldAbout n).count (closing strong) = (s.toldAbout n).count (closing strong)

/-- **No effect of an action takes the question back** before it is answered. -/
theorem StillAsked.effect {a : Action} (hasked : Asked strong n s) (hok : HeldUntilDone s a)
    {s₁ s₂ : Driver} (hs₁ : Sound s₁) (he : Effect (s.Occurs a) s₁ s₂)
    (h : StillAsked strong n s a s₁) : StillAsked strong n s a s₂ := by
  obtain ⟨nd, hn, htold, hpending, howner⟩ := h.node
  have ho := he.onward hs₁
  have hmanagers : ∀ c, (s₂.contexts c).mgrNode = some n →
      (s.contexts c).mgrNode = some n ∨ s.Occurs a (.manager n) := by
    intro c hc
    rcases ho.managers c n hc with hold | hnew
    · exact h.managers c hold
    · exact .inr hnew
  cases he.touch hs₁ n with
  | still hstill =>
      obtain ⟨nd', hn', hsame⟩ := hstill.node hn htold
      refine ⟨⟨nd', hn', ?_, ?_, fun p hp => howner p (hsame.owner p hp)⟩, hmanagers, ?_⟩
      · cases strong with
        | true => exact hsame.hasStrongRef.trans htold
        | false => exact hsame.hasWeakRef.trans htold
      · intro hack
        cases strong with
        | true => exact hsame.pendingStrongRef.trans (hpending hack)
        | false => exact hsame.pendingWeakRef.trans (hpending hack)
      · rw [hstill.told, h.count]
  | made p ptr cookie flags hnew _ heq =>
      exact absurd (hs₁.graph.nodes_lt n nd hn) (hnew ▸ Nat.lt_irrefl _)
  | done st hocc =>
      refine ⟨⟨_, by rw [updNode_self, hn, Option.map_some], ?_, ?_, ?_⟩, hmanagers, h.count⟩
      · cases st <;> cases strong <;> exact htold
      · intro hack
        have hne : st ≠ strong := by
          rintro rfl
          rw [hocc.acknowledges] at hack
          cases hack
        cases st <;> cases strong <;> first | exact absurd rfl hne | exact hpending hack
      · cases st <;> exact howner
  | discarded _ => exact ⟨⟨nd, hn, htold, hpending, howner⟩, hmanagers, h.count⟩
  | managed c hocc =>
      refine ⟨⟨Node.managed nd, ?_, ?_, ?_, howner⟩, hmanagers, h.count⟩
      · rw [updNode_self]
        exact congrArg (Option.map Node.managed) hn
      · cases strong <;> rfl
      · intro hack
        cases strong <;> exact hpending hack
  | unmanaged p _ hocc hproc c hmgr _ _ =>
      -- The owner closes, as its context's manager, with the answer still due.
      obtain ⟨nd₀, hn₀, hw⟩ := hasked
      rw [hn, Option.bind_some] at hproc
      have howned := howner p hproc
      rw [hn₀, Option.bind_some] at howned
      cases hocc with
      | close p =>
          rcases h.managers c hmgr with hold | hnew
          · obtain ⟨hst, hwk⟩ := hok.close p c n nd₀ rfl hold hn₀ howned
            have hpending₀ := hw.pending
            cases strong <;> simp_all [Node.pendingOf]
          · cases hnew
  | news env th rc q hq hocc =>
      obtain ⟨rfl, htaken⟩ := hocc.newsTaken
      obtain ⟨nd₀, hn₀, hw⟩ := hasked
      have hheld : 20 * (dueCmds (s₁.nodeNews n nd₀)).length ≤ rc.room →
          s₁.holds n nd₀ strong = true := by
        intro hroom
        obtain ⟨hst, hwk⟩ := hok.news env n rc nd₀ htaken hn₀ hroom
        cases strong with
        | true => exact hst hw.pending
        | false => exact hwk hw.pending
      obtain ⟨⟨nd', hn', hw', hproc⟩, hcount⟩ := readNews_waits hn₀ hw env th rc q hheld
      refine ⟨⟨nd', hn', hw'.told, fun _ => hw'.pending, ?_⟩, hmanagers, hcount⟩
      intro p hp
      rw [hn₀, Option.bind_some, ← hproc]
      exact hp

/-- **A step takes no question back.** -/
theorem act_stillAsked (hst : Steady s) {a : Action} (hok : HeldUntilDone s a)
    (hasked : Asked strong n s) : StillAsked strong n s a (s.act a) := by
  obtain ⟨nd, hn, hw⟩ := hasked
  refine (hst.moves a).invariant
    (P := StillAsked strong n s a) ?_ hst.sound ?_
  · intro s₁ s₂ hs₁ hmove h₁
    exact h₁.effect ⟨nd, hn, hw⟩ hok hs₁ hmove.effect
  · refine ⟨⟨nd, hn, hw.told, fun _ => hw.pending, ?_⟩, fun _ hc => .inl hc, rfl⟩
    intro p hp
    rw [hn, Option.bind_some, hp]

theorem Unacknowledged.asked (h : Unacknowledged HeldUntilDone strong n s) : Asked strong n s := by
  induction h with
  | emitted a h _ hnew => exact act_asks (Reachable.steady h.reachable) hnew
  | waiting a h hok hnot ih =>
      have hst := Reachable.steady h.reaches.reachable
      obtain ⟨nd, hn, htold, hpending, -⟩ := (act_stillAsked hst hok ih).node
      exact ⟨nd, hn, htold, hpending hnot⟩

/-- **Acknowledgements are respected** as long as the references the owner was
asked about are held.  While it owes an answer the node is there, no step
releases it or tells the owner to let go, and the answer is accepted. -/
theorem acknowledgement_respected (h : Unacknowledged HeldUntilDone strong n s) :
    ∃ nd, s.nodes n = some nd ∧
      (∀ env th thread, s.idleThread th = some thread → nd.proc = some thread.proc →
        (s.writeCommand env thread.proc th (.done strong nd.ptr)).2 = none) ∧
      ∀ a, HeldUntilDone s a → ((s.act a).nodes n).isSome ∧
        ((s.act a).toldAbout n).count (closing strong) =
          (s.toldAbout n).count (closing strong) := by
  have hst := Reachable.steady h.reaches.reachable
  obtain ⟨nd, hn, hw⟩ := h.asked
  refine ⟨nd, hn, ?_, ?_⟩
  · intro env th thread _ hproc
    have hfind : s.nodeFind thread.proc nd.ptr = some n :=
      hst.sound.graph.nodeFind_eq_some.mpr ⟨nd, hn, hproc, rfl⟩
    simp [writeCommand, writeDone, hfind]
  · intro a hok
    have hstill := act_stillAsked hst hok ⟨nd, hn, hw⟩
    obtain ⟨nd', hn', -⟩ := hstill.node
    exact ⟨by rw [hn']; rfl, hstill.count⟩

/-- A run without an answer, whose steps all pass a check. -/
theorem Unacknowledged.run {ok : Driver → Action → Prop} {check : Driver → Action → Bool}
    (himp : ∀ s a, check s a = true → ok s a) (h : Unacknowledged ok strong n s)
    (as : List Action)
    (has : checks (fun s a => check s a && !s.acknowledges strong n a) s as = true) :
    Unacknowledged ok strong n (s.run as) := by
  induction as generalizing s with
  | nil => exact h
  | cons a as ih =>
      simp only [checks, Bool.and_eq_true, Bool.not_eq_true'] at has
      exact ih (.waiting a h (himp s a has.1.1) has.1.2) has.2

/-- Nobody closes, and what is read about a node is in order. -/
def heldCheck (s : Driver) (a : Action) : Bool :=
  decide (s.OnNews a fun _ n _ nd => (nd.pendingStrongRef = true → nd.hasStrong = true) ∧
    (nd.pendingWeakRef = true → s.nodeHasWeak n nd = true)) &&
  match a with
  | .devClose _ => false
  | _ => true

theorem heldUntilDone_of_check {a : Action} (h : s.heldCheck a = true) : HeldUntilDone s a := by
  unfold heldCheck at h
  rw [Bool.and_eq_true, decide_eq_true_eq] at h
  refine ⟨fun env n rc nd htaken hn _ => h.1 env n rc nd htaken hn, ?_⟩
  rintro p c n nd rfl
  cases h.2

/-- Process 5 has shared its object and begins to read. -/
def beginRead : List Action := [shareObject, .readStart {} 6 0x9000 64 0]

/-- Process 5 has been asked about its object. -/
theorem acknowledgement_respected_share :
    Unacknowledged HeldUntilDone true 10 ((twoProcessesUp.run beginRead).act (.readTurn {} 6)) ∧
      (((twoProcessesUp.run beginRead).act (.readTurn {} 6)).nodes 10).isSome := by
  have himp : ∀ (s : Driver) (a : Action), Reachable s → s.heldCheck a = true →
      HeldUntilDone s a := fun _ _ _ h => heldUntilDone_of_check h
  have hup := Reaches.run himp .init twoProcesses (by decide +kernel)
  have hread := Reaches.run himp hup beginRead (by decide +kernel)
  have hasked : Unacknowledged HeldUntilDone true 10
      ((twoProcessesUp.run beginRead).act (.readTurn {} 6)) :=
    .emitted _ hread (heldUntilDone_of_check (by decide +kernel)) (by decide +kernel)
  obtain ⟨nd, hn, -⟩ := acknowledgement_respected hasked
  exact ⟨hasked, by rw [hn]; rfl⟩

/-- The manager gives the object back before process 5 answers, and process 5
reads on. -/
def giveBack : List Action :=
  [.leave 6, .command {} 2 (.reference true false 1), .command {} 6 .enterLooper,
    .readStart {} 6 0x9000 256 0, .readTurn {} 6]

/-- **Released before the answer.**  The next turn takes everything back and
releases the node, and the answer is refused. -/
theorem released_before_done :
    Unacknowledged (fun _ _ => True) true 10
        (((twoProcessesUp.run beginRead).act (.readTurn {} 6)).run giveBack) ∧
      (((twoProcessesUp.run beginRead).act (.readTurn {} 6)).run
        (giveBack ++ [.readTurn {} 6])).toldAbout 10 = [.decrefs, .release, .acquire, .increfs] ∧
      (((twoProcessesUp.run beginRead).act (.readTurn {} 6)).run
        (giveBack ++ [.readTurn {} 6])).nodes 10 = none ∧
      ((((twoProcessesUp.run beginRead).act (.readTurn {} 6)).run
        (giveBack ++ [.readTurn {} 6])).writeCommand {} 5 6 (.done true 0x5000)).2 =
          some .einval := by
  refine ⟨?_, by decide +kernel, by decide +kernel, by decide +kernel⟩
  have hread : Reaches (fun _ _ => True) (twoProcessesUp.run beginRead) :=
    (Reachable.run .init twoProcesses).run beginRead
  have himp : ∀ (s : Driver) (a : Action), (fun (_ : Driver) (_ : Action) => true) s a = true →
      True := fun _ _ _ => trivial
  exact Unacknowledged.run himp (.emitted _ hread trivial (by decide +kernel)) giveBack
    (by decide +kernel)

end Driver

end Binder
