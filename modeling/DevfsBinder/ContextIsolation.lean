import DevfsBinder.CallContexts
import DevfsBinder.HandleNames

/-!
# Contexts are isolated

A device node belongs to a context, and so does every process that opens it.
Tag a process with the context of its open, a thread with the tag of the process
it enters and a node with the tag of the process that makes it, each when it is
first seen (`Tags.next`); tags are never taken back.  Then nothing ever crosses
from one context to another (`Isolated`): a handle is held by a process of its
node's context, a transaction goes from a thread to a process and a node of its
own context, and a manager's node is of the context it manages.

Three ways lead to another process, and all keep to the tag: a handle, which
names a node of the holder's context; handle zero, which is the node of the
manager of the caller's context; and a reply, which goes back to where a call on
the stack came from.  What a parcel carries across is known to its sender, and so
of the sender's context.

The address of a released record is never handed out again here.  A buffer may keep the
address of a node that is gone, and what the source would find there once the allocator
has given the memory to somebody else is outside these statements.
-/

namespace Binder

open Calls

/-- The tags once state `s` is seen. -/
def Tags.next (g : Tags) (s : Driver) : Tags :=
  let proc := fun p => (g.proc p).or ((s.procs p).map (·.context))
  { proc := proc
    thread := fun th => (g.thread th).or ((s.threads th).bind fun thread => proc thread.proc)
    node := fun n => (g.node n).or (((s.nodes n).bind (·.proc)).bind proc) }

theorem Tags.le_next (g : Tags) (s : Driver) : g.Le (g.next s) :=
  ⟨fun _ _ h => by simp [Tags.next, h], fun _ _ h => by simp [Tags.next, h],
    fun _ _ h => by simp [Tags.next, h]⟩

namespace Driver

variable {s s' : Driver} {A : Kind → Prop} {g : Tags}

/-- The tags after a run, given those before it. -/
def tagsAfter (s : Driver) (g : Tags) : List Action → Tags
  | [] => g
  | a :: as => (s.act a).tagsAfter (g.next (s.act a)) as

/-! ## Objects -/

/-- Processes, nodes and handles are tagged as they should be. -/
structure Tagged (g : Tags) (s : Driver) : Prop where
  proc : ∀ p proc, s.procs p = some proc → g.proc p = some proc.context
  node : ∀ n nd, s.nodes n = some nd → ∃ c, g.node n = some c ∧
    ∀ p, nd.proc = some p → g.proc p = some c
  ref : ∀ r ref, s.refs r = some ref → ∃ c, g.proc ref.proc = some c ∧ g.node ref.node = some c

/-- Two processes of one tag. -/
def SameTag (g : Tags) (p q : ProcId) : Prop := ∃ c, g.proc p = some c ∧ g.proc q = some c

/-- A process and a node of one tag. -/
def Within (g : Tags) (p : ProcId) (n : NodeId) : Prop :=
  ∃ c, g.proc p = some c ∧ g.node n = some c

theorem SameTag.within {p q : ProcId} {n : NodeId} (h : SameTag g p q) (h' : Within g q n) :
    Within g p n := by
  obtain ⟨c, hp, hq⟩ := h
  obtain ⟨d, hq', hn⟩ := h'
  cases hq.symm.trans hq'
  exact ⟨c, hp, hn⟩

theorem Within.same {p q : ProcId} {n : NodeId} (h : Within g p n) (h' : Within g q n) :
    SameTag g p q := by
  obtain ⟨c, hp, hn⟩ := h
  obtain ⟨d, hq, hn'⟩ := h'
  cases hn.symm.trans hn'
  exact ⟨c, hp, hq⟩

namespace Tagged

theorem owned (h : Tagged g s) {n : NodeId} {p : ProcId}
    (hp : (s.nodes n).bind (·.proc) = some p) : Within g p n := by
  obtain ⟨nd, hn, hp⟩ := Option.bind_eq_some_iff.mp hp
  obtain ⟨c, hc, howner⟩ := h.node n nd hn
  exact ⟨c, howner p hp, hc⟩

theorem owner (h : Tagged g s) {n : NodeId} {p : ProcId} (hp : s.nodeOwner n = some p) :
    Within g p n := h.owned (nodeOwner_eq_some hp).2

/-- A manager's node is of the context it manages. -/
theorem manager (h : Tagged g s) (hm : Managed s) {c : Nat} {n : NodeId}
    (hn : (s.contexts c).mgrNode = some n) : g.node n = some c := by
  obtain ⟨nd, p, proc, hnd, hp, hproc, rfl⟩ := hm c n hn
  obtain ⟨d, hd, howner⟩ := h.node n nd hnd
  cases (howner p hp).symm.trans (h.proc p proc hproc)
  exact hd

theorem mgrNodeOf (h : Tagged g s) (hm : Managed s) {p : ProcId} {n : NodeId}
    (hn : s.mgrNodeOf p = some n) : Within g p n := by
  obtain ⟨proc, hp, hmgr⟩ := Option.bind_eq_some_iff.mp hn
  exact ⟨proc.context, h.proc p proc hp, h.manager hm hmgr⟩

/-- A transaction is aimed at a node of the sender's context. -/
theorem target (h : Tagged g s) (hs : Sound s) (hm : Managed s) {p : ProcId} {handle : Nat}
    {n : NodeId} (hn : s.targetNodeOf p handle = .ok n) : Within g p n := by
  unfold targetNodeOf at hn
  split at hn
  · split at hn
    · cases hn
    · rename_i ref href
      cases hn
      obtain ⟨r, hfind, hr⟩ := Option.bind_eq_some_iff.mp href
      obtain ⟨ref', hr', hproc, -⟩ := hs.graph.refFindByDesc_eq_some hfind
      rw [hr] at hr'
      cases hr'
      exact hproc ▸ h.ref r ref hr
  · split at hn
    · cases hn
    · rename_i m hmgr
      cases hn
      exact h.mgrNodeOf hm hmgr

/-- A send reaches processes of the sender's context only. -/
theorem sendsTo (h : Tagged g s) (hk : Kin g s.view) (hs : Sound s) (hm : Managed s)
    {th : ThreadId} {thread : Thread} (hth : s.threads th = some thread) {handle : Nat}
    {reply : Bool} {tp : ProcId} (hto : s.SendsTo thread.proc th handle reply tp) :
    SameTag g thread.proc tp := by
  cases hto with
  | reply t target thread' htop hfrom hthread =>
      obtain ⟨x, hx, hxfrom⟩ := Option.bind_eq_some_iff.mp hfrom
      obtain ⟨c, hthc, hxc⟩ := hk.stack th t x (by rw [view_stackOf]; exact htop) hx
      obtain ⟨d, hxd, htarget⟩ := hk.sender t x hx
      obtain ⟨e, htargete, hpe⟩ := hk.home target thread'.proc (view_procOf_some hthread)
      obtain ⟨f, hthf, hpf⟩ := hk.home th thread.proc (view_procOf_some hth)
      cases hxc.symm.trans hxd
      cases (htarget target hxfrom).symm.trans htargete
      cases hthc.symm.trans hthf
      exact ⟨c, hpf, hpe⟩
  | call n _ htarget howner => exact (h.target hs hm htarget).same (h.owner howner)

end Tagged

/-! ## One action -/

/-- The tags in the middle of an action: nodes made in it get the tag `c`. -/
def reserve (g : Tags) (k : Nat) (c : Option Nat) : Tags :=
  { g with node := fun n => if n < k then g.node n else c }

theorem reserve_node_lt {k : Nat} {c : Option Nat} {n : NodeId} (h : n < k) :
    (reserve g k c).node n = g.node n := if_pos h

theorem reserve_node_ge {k : Nat} {c : Option Nat} {n : NodeId} (h : k ≤ n) :
    (reserve g k c).node n = c := if_neg (Nat.not_lt_of_le h)

/-- In the middle of an action that began with addresses below `k`: what was
there is tagged as before, and what is new was made by somebody who lives. -/
structure Midway (A : Kind → Prop) (g : Tags) (k : Nat) (s : Driver) : Prop where
  nextId : k ≤ s.nextId
  proc : ∀ p proc, p < k → s.procs p = some proc → g.proc p = some proc.context
  node : ∀ n nd, s.nodes n = some nd → ∃ c, g.node n = some c ∧
    ∀ p, nd.proc = some p → g.proc p = some c
  ref : ∀ r ref, s.refs r = some ref → ∃ c, g.proc ref.proc = some c ∧ g.node ref.node = some c
  made : ∀ n nd, s.nodes n = some nd → k ≤ n → ∃ p, nd.proc = some p ∧ A (.make p)
  maker : ∀ p, A (.make p) → s.procAlive p = true

theorem Midway.knows {k : Nat} (h : Midway A g k s) {p : ProcId} {n : NodeId}
    (hk : s.Knows p n) : Within g p n := by
  rcases hk with hp | ⟨r, ref, hr, rfl, rfl⟩
  · obtain ⟨nd, hn, hp⟩ := Option.bind_eq_some_iff.mp hp
    obtain ⟨c, hc, howner⟩ := h.node n nd hn
    exact ⟨c, howner p hp, hc⟩
  · exact h.ref r ref hr

/-- A live process stays alive unless it is closed. -/
theorem Effect.alive_kept (hs : Sound s) (hset : Settled s) (he : Effect A s s') {p : ProcId}
    (hp : s.procAlive p = true) (hclose : ¬ A (.close p)) : s'.procAlive p = true := by
  rcases he.procs_cases hs with hsame | ⟨env, pid, ctx, -, rfl⟩ | ⟨q, hq, rfl⟩ | ⟨q, hdead, rfl⟩
  · rw [(hsame p).2]
    exact hp
  · have hne : p ≠ s.nextId := Nat.ne_of_lt (hset.alive_lt hp)
    refine procNew_rule (P := fun s => s.procAlive p = true) env pid ctx hp (Eq.trans ?_ hp)
    simp [procAlive, insertProc, bumpId, hne]
  · have hne : p ≠ q := by
      rintro rfl
      exact hclose hq
    refine Eq.trans ?_ hp
    simp [procAlive, updProc, hne]
  · have hne : p ≠ q := by
      rintro rfl
      rw [hp] at hdead
      cases hdead
    refine Eq.trans ?_ hp
    simp [procAlive, forgetProc, hne]

/-- **Step.**  An effect keeps the tags, if the handles it makes do. -/
theorem Midway.effect {k : Nat} (h : Midway A g k s) (hs : Sound s) (hset : Settled s)
    (he : Effect A s s') (hmake : ∀ p n, A (.make p) → k ≤ n → Within g p n)
    (hclose : ∀ p q, A (.make p) → ¬ A (.close q))
    (hhandle : ∀ p n, A (.handle s p n) → Within g p n) : Midway A g k s' where
  nextId := Nat.le_trans h.nextId (he.onward hs).nextId
  proc p proc' hlt hp' := by
    obtain ⟨proc, hp, hctx⟩ := he.context_back hs (Nat.lt_of_lt_of_le hlt h.nextId) hp'
    rw [hctx]
    exact h.proc p proc hlt hp
  node n nd' hn' := by
    rcases he.node_back hs hn' with ⟨hnew, p, hp, hA⟩ | ⟨nd, hn, howner, -⟩
    · obtain ⟨c, hpc, hnc⟩ := hmake p n hA (hnew ▸ h.nextId)
      refine ⟨c, hnc, fun q hq => ?_⟩
      cases hp.symm.trans hq
      exact hpc
    · obtain ⟨c, hc, hown⟩ := h.node n nd hn
      exact ⟨c, hc, fun p hp => hown p (howner p hp)⟩
  ref r ref' hr' := by
    rcases he.handle_back hs hr' with hA | ⟨ref, hr, hproc, hnode⟩
    · exact hhandle ref'.proc ref'.node hA
    · rw [hproc, hnode]
      exact h.ref r ref hr
  made n nd' hn' hk := by
    rcases he.node_back hs hn' with ⟨-, hmade⟩ | ⟨nd, hn, -, hkept⟩
    · exact hmade
    · obtain ⟨p, hp, hA⟩ := h.made n nd hn hk
      exact ⟨p, hkept p hp (h.maker p hA), hA⟩
  maker p hA := he.alive_kept hs hset (h.maker p hA) (hclose p p hA)

/-! ## Runs -/

/-- **Isolation.**  Everything that hangs together carries one tag, and a
manager's node the tag of the context it manages. -/
structure Isolated (g : Tags) (s : Driver) : Prop where
  proc : ∀ p proc, s.procs p = some proc → g.proc p = some proc.context
  thread : ∀ th thread, s.threads th = some thread →
    ∃ c, g.thread th = some c ∧ g.proc thread.proc = some c
  node : ∀ n nd, s.nodes n = some nd → ∃ c, g.node n = some c ∧
    ∀ p, nd.proc = some p → g.proc p = some c
  ref : ∀ r ref, s.refs r = some ref → ∃ c, g.proc ref.proc = some c ∧ g.node ref.node = some c
  txn : ∀ t x, s.txns t = some x → ∃ c, g.proc x.toProc = some c ∧
    (∀ th, x.fromThread = some th → g.thread th = some c) ∧
    (∃ th call, .accept th t x.toProc call ∈ s.trace ∧ g.thread th = some c) ∧
    ∀ buf, s.Uses x.toProc buf → x.buffer = some buf.id → ∀ n, buf.targetNode = some n →
      g.node n = some c
  accepted : ∀ th t p call, .accept th t p call ∈ s.trace →
    ∃ c, g.thread th = some c ∧ g.proc p = some c
  buffer : ∀ p n, s.Names p n → ∃ c, g.proc p = some c ∧ g.node n = some c
  manager : ∀ c n, (s.contexts c).mgrNode = some n → g.node n = some c

/-- What an action keeps: objects, calls and the targets of buffers are tagged,
and only what has an address. -/
structure Isolates (g : Tags) (s : Driver) : Prop where
  tagged : Tagged g s
  kin : Kin g s.view
  names : ∀ p n, s.Names p n → Within g p n
  proc_lt : ∀ p c, g.proc p = some c → p < s.nextId
  thread_lt : ∀ th c, g.thread th = some c → th < s.nextId
  node_lt : ∀ n c, g.node n = some c → n < s.nextId

/-- Isolation is part of what is kept. -/
theorem Isolates.isolated (h : Isolates g s) (hm : Managed s) : Isolated g s where
  proc := h.tagged.proc
  thread th thread hth := h.kin.home th thread.proc (view_procOf_some hth)
  node := h.tagged.node
  ref := h.tagged.ref
  txn t x hx := by
    obtain ⟨c, hc, hfrom⟩ := h.kin.sender t x hx
    obtain ⟨th, call, he⟩ := h.kin.accepted t x hx
    obtain ⟨d, hth, hd⟩ := h.kin.accepts th t _ call he
    cases hc.symm.trans hd
    refine ⟨c, hc, hfrom, ⟨th, call, he, hth⟩, fun buf huses _ n hn => ?_⟩
    obtain ⟨e, hpe, hne⟩ := h.names x.toProc n ⟨buf, huses, hn⟩
    cases hc.symm.trans hpe
    exact hne
  accepted := h.kin.accepts
  buffer := h.names
  manager _ _ hn := h.tagged.manager hm hn

/-- An action makes nodes for one process, which it does not close. -/
theorem Occurs.make_cases {a : Action} {p : ProcId} (h : s.Occurs a (.make p)) :
    s.procAlive p = true ∧ (∀ q, s.Occurs a (.make q) → q = p) ∧ ∀ q, ¬ s.Occurs a (.close q) := by
  cases h with
  | make env th thread reply isSg tr hidle =>
      refine ⟨(idleThread_eq_some hidle).2, fun q hq => ?_, fun q hq => by cases hq⟩
      cases hq with
      | make _ _ thread' _ _ _ hidle' =>
          cases hidle.symm.trans hidle'
          rfl
  | makeManager env th thread ptr cookie flags hidle =>
      refine ⟨(idleThread_eq_some hidle).2, fun q hq => ?_, fun q hq => by cases hq⟩
      cases hq with
      | makeManager _ _ thread' _ _ _ hidle' =>
          cases hidle.symm.trans hidle'
          rfl

/-- A handle an action makes is for a process of its node's context. -/
theorem Midway.handle {a : Action} {k : Nat} {c : Option Nat} {s₁ : Driver} (hst : Steady s)
    (h : Isolates g s) (h₁ : Midway (s.Occurs a) (reserve g k c) k s₁) (hk : k = s.nextId)
    {p : ProcId} {n : NodeId} (hA : s.Occurs a (.handle s₁ p n)) :
    Within (reserve g k c) p n := by
  cases hA with
  | reference env th thread strong increment desc _ hth hmgr =>
      obtain ⟨d, hp, hn⟩ := h.tagged.mgrNodeOf hst.settled.managed hmgr
      refine ⟨d, hp, ?_⟩
      rw [reserve_node_lt (hk ▸ h.node_lt n d hn)]
      exact hn
  | parcel env th thread reply isSg tr _ tp _ hth hto hknows =>
      obtain ⟨d, hsender, htp⟩ :=
        h.tagged.sendsTo h.kin hst.sound hst.settled.managed hth hto
      have hsame : SameTag (reserve g k c) p thread.proc := ⟨d, htp, hsender⟩
      exact hsame.within (h₁.knows hknows)

/-- The objects after an action. -/
theorem Isolates.midway (hst : Steady s) (h : Isolates g s) (a : Action) :
    ∃ c, Midway (s.Occurs a) (reserve g s.nextId c) s.nextId (s.act a) ∧
      ∀ p, s.Occurs a (.make p) → g.proc p = c := by
  obtain ⟨c, hc⟩ : ∃ c, ∀ p, s.Occurs a (.make p) → g.proc p = c := by
    by_cases hmade : ∃ p, s.Occurs a (.make p)
    · obtain ⟨p, hp⟩ := hmade
      exact ⟨g.proc p, fun q hq => by rw [hp.make_cases.2.1 q hq]⟩
    · exact ⟨none, fun p hp => absurd ⟨p, hp⟩ hmade⟩
  refine ⟨c, ?_, hc⟩
  have hinit : Midway (s.Occurs a) (reserve g s.nextId c) s.nextId s := by
    refine ⟨Nat.le_refl _, fun p proc _ hp => h.tagged.proc p proc hp, ?_, ?_, ?_,
      fun p hp => hp.make_cases.1⟩
    · intro n nd hn
      obtain ⟨d, hd, howner⟩ := h.tagged.node n nd hn
      refine ⟨d, ?_, howner⟩
      rw [reserve_node_lt (h.node_lt n d hd)]
      exact hd
    · intro r ref hr
      obtain ⟨d, hp, hn⟩ := h.tagged.ref r ref hr
      refine ⟨d, hp, ?_⟩
      rw [reserve_node_lt (h.node_lt _ d hn)]
      exact hn
    · intro n nd hn hk
      exact absurd (hst.sound.graph.nodes_lt n nd hn) (Nat.not_lt_of_le hk)
  have hboth : Settled (s.act a) ∧
      Midway (s.Occurs a) (reserve g s.nextId c) s.nextId (s.act a) := by
    refine (hst.moves a).invariant
      (P := fun s₁ => Settled s₁ ∧ Midway (s.Occurs a) (reserve g s.nextId c) s.nextId s₁) ?_
      hst.sound ⟨hst.settled, hinit⟩
    intro s₁ s₂ hs₁ hmove h₁
    refine ⟨hmove.effect.settled hs₁ h₁.1, h₁.2.effect hs₁ h₁.1 hmove.effect ?_ ?_ ?_⟩
    · intro p n hA hle
      obtain ⟨proc, hp⟩ := Option.isSome_iff_exists.mp (isSome_of_procAlive hA.make_cases.1)
      refine ⟨proc.context, h.tagged.proc p proc hp, ?_⟩
      rw [reserve_node_ge hle, ← hc p hA]
      exact h.tagged.proc p proc hp
    · exact fun p q hA => hA.make_cases.2.2 q
    · exact fun p n hA => h₁.2.handle hst h rfl hA
  exact hboth.2

/-- A process that was there, or is there now, has the tag it should have. -/
theorem next_proc {p : ProcId} {proc : Proc} (hp : s.procs p = some proc)
    (hg : ∀ c, g.proc p = some c → c = proc.context) :
    (g.next s).proc p = some proc.context := by
  cases hc : g.proc p with
  | none => simp [Tags.next, hc, hp]
  | some c => simp [Tags.next, hc, hg c hc]

/-- **Step.**  An action keeps the objects to their tags. -/
theorem Isolates.tagged_act (hst : Steady s) (h : Isolates g s) (a : Action)
    (hledger : Ledger (s.act a)) : Tagged (g.next (s.act a)) (s.act a) := by
  obtain ⟨c, hmid, hmake⟩ := h.midway hst a
  have hle := g.le_next (s.act a)
  have hnode : ∀ n nd d, (s.act a).nodes n = some nd →
      (reserve g s.nextId c).node n = some d → (g.next (s.act a)).node n = some d := by
    intro n nd d hn hd
    by_cases hlt : n < s.nextId
    · rw [reserve_node_lt hlt] at hd
      exact hle.node n d hd
    · have hge := Nat.le_of_not_lt hlt
      rw [reserve_node_ge hge] at hd
      obtain ⟨p, hp, hA⟩ := hmid.made n nd hn hge
      have hgp : g.proc p = some d := (hmake p hA).trans hd
      have hnone : g.node n = none := by
        cases hgn : g.node n with
        | none => rfl
        | some e => exact absurd (h.node_lt n e hgn) hlt
      simp [Tags.next, hnone, hn, hp, hgp]
  refine ⟨?_, ?_, ?_⟩
  · intro p proc hp
    refine next_proc hp fun d hd => ?_
    have hpin := hmid.proc p proc (h.proc_lt p d hd) hp
    exact Option.some.inj (hd.symm.trans hpin)
  · intro n nd hn
    obtain ⟨d, hd, howner⟩ := hmid.node n nd hn
    exact ⟨d, hnode n nd d hn hd, fun p hp => hle.proc p d (howner p hp)⟩
  · intro r ref hr
    obtain ⟨d, hp, hd⟩ := hmid.ref r ref hr
    obtain ⟨nd, hn⟩ := Option.isSome_iff_exists.mp (hledger.named r ref hr)
    exact ⟨d, hle.proc _ d hp, hnode _ nd d hn hd⟩

/-- **Step.**  An action keeps the calls to their tags. -/
theorem Isolates.kin_act (hst : Steady s) (h : Isolates g s) (a : Action) :
    Kin (g.next (s.act a)) (s.act a).view := by
  have hle := g.le_next (s.act a)
  have hk := h.kin.mono hle
  have hacts := act_refines hst.sound hst.base hst.aimed a
  generalize hv : (s.act a).view = v' at hacts ⊢
  cases hacts with
  | quiet _ hq => exact hk.quiet hq
  | openProc env pid ctx => exact hk.openProc s.nextId
  | enter env p tid hp =>
      refine hk.enter ?_
      obtain ⟨proc, hproc⟩ : ∃ proc, s.procs p = some proc := by
        obtain ⟨d, hd⟩ := Option.isSome_iff_exists.mp hp
        obtain ⟨proc, hproc, -⟩ := Option.map_eq_some_iff.mp hd
        exact ⟨proc, hproc⟩
      have htag := h.tagged.proc p proc hproc
      have hthread : ((s.act (.enter env p tid)).threads s.nextId).map (·.proc) = some p := by
        rw [← view_procOf, hv]
        simp [Calls.procOf, Calls.setThread]
      obtain ⟨thread, hth, hthp⟩ := Option.map_eq_some_iff.mp hthread
      have hnone : g.thread s.nextId = none := by
        cases hgt : g.thread s.nextId with
        | none => rfl
        | some e => exact absurd (h.thread_lt _ e hgt) (Nat.lt_irrefl _)
      refine ⟨proc.context, ?_, hle.proc p _ htag⟩
      simp [Tags.next, hnone, hth, hthp, htag]
  | send env th p reply isSg tr hth hsend =>
      refine hk.send hst.base hth (fun n x haim => ?_) hsend
      have htarget := h.tagged.target hst.sound hst.settled.managed haim.target
      obtain ⟨d, hp, hx⟩ := htarget.same (h.tagged.owner haim.owner)
      exact ⟨d, hle.proc p d hp, hle.proc _ d hx⟩
  | free env th ptr p hth hp hfree => exact hk.fewer hfree.fewer
  | read env th rc hrc hread => exact hk.read hst.base hread
  | depart th p hth hp hdepart => exact hk.fewer hdepart.fewer
  | close p hp hclose => exact hk.fewer hclose.fewer

/-- **Step.**  An action keeps the targets of buffers to their tags. -/
theorem Isolates.names_act (hst : Steady s) (h : Isolates g s) (a : Action) {p : ProcId}
    {n : NodeId} (hn : (s.act a).Names p n) : Within (g.next (s.act a)) p n := by
  have hle := g.le_next (s.act a)
  have hold : Within g p n := by
    rcases (hst.moves a).loads.names p n hn with hA | hold
    · cases hA with
      | aim env th thread isSg tr _ _ hth htarget howner => exact h.tagged.owner howner
    · exact h.names p n hold
  obtain ⟨c, hp, hc⟩ := hold
  exact ⟨c, hle.proc p c hp, hle.node n c hc⟩

/-- **No action joins two contexts.** -/
theorem Isolates.act (hreach : Reachable s) (h : Isolates g s) (a : Action) :
    Isolates (g.next (s.act a)) (s.act a) := by
  have hst := Reachable.steady hreach
  have hst' : Steady (s.act a) := Reachable.steady (hreach.run [a])
  have hledger : Ledger (s.act a) := Reachable.ledger (hreach.run [a])
  have hid := hst.nextId_le a
  refine ⟨h.tagged_act hst a hledger, h.kin_act hst a, fun p n => h.names_act hst a, ?_, ?_, ?_⟩
  · intro p c hc
    cases hg : g.proc p with
    | some d => exact Nat.lt_of_lt_of_le (h.proc_lt p d hg) hid
    | none =>
        simp only [Tags.next, hg, Option.none_or] at hc
        obtain ⟨proc, hp, -⟩ := Option.map_eq_some_iff.mp hc
        exact hst'.settled.procs_lt p (by simp [hp])
  · intro th c hc
    cases hg : g.thread th with
    | some d => exact Nat.lt_of_lt_of_le (h.thread_lt th d hg) hid
    | none =>
        simp only [Tags.next, hg, Option.none_or] at hc
        obtain ⟨thread, hth, -⟩ := Option.bind_eq_some_iff.mp hc
        exact hst'.settled.threads_lt th (by simp [hth])
  · intro n c hc
    cases hg : g.node n with
    | some d => exact Nat.lt_of_lt_of_le (h.node_lt n d hg) hid
    | none =>
        simp only [Tags.next, hg, Option.none_or] at hc
        obtain ⟨p, hp, -⟩ := Option.bind_eq_some_iff.mp hc
        obtain ⟨nd, hn, -⟩ := Option.bind_eq_some_iff.mp hp
        exact hst'.sound.graph.nodes_lt n nd hn

/-- Run of `Isolates.act`. -/
theorem Isolates.run (hreach : Reachable s) (h : Isolates g s) (as : List Action) :
    Isolates (s.tagsAfter g as) (s.run as) := by
  induction as generalizing s g with
  | nil => exact h
  | cons a as ih => exact ih (hreach.run [a]) (h.act hreach a)

theorem Isolates.init : Isolates {} Driver.init where
  tagged := ⟨by simp [Driver.init], by simp [Driver.init], by simp [Driver.init]⟩
  kin := by
    constructor <;> simp [view, Driver.init, Calls.procOf, Calls.stackOf]
  names p n hn := by
    obtain ⟨buf, huses, -⟩ := hn
    simpa [Driver.init] using huses.mem
  proc_lt := by simp
  thread_lt := by simp
  node_lt := by simp

/-- **Contexts are isolated.**  Whatever the processes do, every handle, every
transaction and every manager's node keeps to the context of the open it goes
back to. -/
theorem contexts_isolated (as : List Action) :
    Isolated (Driver.init.tagsAfter {} as) (Driver.init.run as) := by
  have hreach : Reachable (Driver.init.run as) :=
    Reachable.run .init as
  exact (Isolates.init.run .init as).isolated (Reachable.steady hreach).settled.managed

end Driver

end Binder
