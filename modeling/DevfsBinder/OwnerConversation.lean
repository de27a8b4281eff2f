import DevfsBinder.RunRefinement

/-!
# The conversation with a node's owner

A read that takes a node's work tells the owner what has changed: the commands
that are due, in a fixed order, each recorded in the node's flags before its
bytes are written.  This module follows the commands one by one.  Where every
byte can be written the owner hears all of them, and over a whole run the
commands about a node are well bracketed; where a write faults, the flags are
ahead of what the owner heard.
-/

namespace Binder

open LittleEndian

/-! ## Writing commands of twenty bytes -/

/-- The next `k` commands of the reference family can be written. -/
def ReadCall.Takes (rc : ReadCall) (env : Env) (k : Nat) : Prop :=
  ∀ i < k, env.copyoutOk ((rc.cursor + 20 * i) % 2 ^ 64) 4 = true ∧
    env.copyoutOk ((rc.cursor + 20 * i + 4) % 2 ^ 64) 16 = true

instance (rc : ReadCall) (env : Env) (k : Nat) : Decidable (rc.Takes env k) :=
  inferInstanceAs (Decidable (∀ i < k, _ ∧ _))

theorem ReadCall.emit_room {rc : ReadCall} {cmd : BR} {data : Bytes} (hdata : data.length = 16)
    (hroom : 20 ≤ rc.room) : (rc.emit cmd data).room = rc.room - 20 := by
  have hlen : (leBytes 4 cmd.code ++ data).length = 20 := by simp [hdata]
  simp only [ReadCall.room, ReadCall.emit, ReadCall.append, hlen, sub64] at hroom ⊢
  omega

theorem ReadCall.emit_cursor {rc : ReadCall} {cmd : BR} {data : Bytes}
    (hdata : data.length = 16) : (rc.emit cmd data).cursor = (rc.cursor + 20) % 2 ^ 64 := by
  have hlen : (leBytes 4 cmd.code ++ data).length = 20 := by simp [hdata]
  simp only [ReadCall.cursor, ReadCall.emit, ReadCall.append, hlen]
  omega

theorem ReadCall.Takes.emit {rc : ReadCall} {env : Env} {k : Nat} (h : rc.Takes env (k + 1))
    {cmd : BR} {data : Bytes} (hdata : data.length = 16) : (rc.emit cmd data).Takes env k := by
  intro i hi
  have hcmd : ((rc.cursor + 20) % 2 ^ 64 + 20 * i) % 2 ^ 64 =
      (rc.cursor + 20 * (i + 1)) % 2 ^ 64 := by omega
  have hpayload : ((rc.cursor + 20) % 2 ^ 64 + 20 * i + 4) % 2 ^ 64 =
      (rc.cursor + 20 * (i + 1) + 4) % 2 ^ 64 := by omega
  rw [ReadCall.emit_cursor hdata, hcmd, hpayload]
  exact h (i + 1) (by omega)

/-- A command of twenty bytes is written, does not fit, or faults. -/
theorem putCmdData_twenty (env : Env) (rc : ReadCall) (cmd : BR) {data : Bytes}
    (hdata : data.length = 16) :
    (putCmdData env rc cmd data).2 = none ∧ (putCmdData env rc cmd data).1 = rc.emit cmd data ∨
      rc.room < 20 ∧ (putCmdData env rc cmd data).2 = some .enomem ∨
      ¬ rc.Takes env 1 ∧ (putCmdData env rc cmd data).2 = some .efault := by
  have hcursor : (rc.cursor + 20 * 0) % 2 ^ 64 = rc.cursor := rc.cursor_mod.symm
  unfold putCmdData
  rw [hdata]
  split
  · exact .inr (.inl ⟨by assumption, rfl⟩)
  · split
    · rename_i hout
      refine .inr (.inr ⟨fun htakes => hout ?_, rfl⟩)
      have hcmd := (htakes 0 (Nat.lt_one_iff.mpr rfl)).1
      rwa [hcursor] at hcmd
    · split
      · rename_i hout
        exact .inr (.inr ⟨fun htakes => hout (htakes 0 (Nat.lt_one_iff.mpr rfl)).2, rfl⟩)
      · exact .inl ⟨rfl, rfl⟩

/-! ## Commands in a row -/

theorem Node.records_proc (nd : Node) (cmds : List BR) :
    (cmds.foldl Node.record nd).proc = nd.proc := by
  induction cmds generalizing nd with
  | nil => rfl
  | cons cmd cmds ih => exact (ih (nd.record cmd)).trans (nd.record_proc cmd)

/-- The commands due, in the order in which they are written. -/
def dueCmds (news : Bool × Bool × Bool × Bool) : List BR :=
  (if news.1 then [.increfs] else []) ++ (if news.2.1 then [.acquire] else []) ++
    (if news.2.2.1 then [.release] else []) ++ if news.2.2.2 then [.decrefs] else []

theorem dueCmds_length (news : Bool × Bool × Bool × Bool) :
    (dueCmds news).length = news.1.toNat + news.2.1.toNat + news.2.2.1.toNat +
      news.2.2.2.toNat := by
  obtain ⟨a, b, c, d⟩ := news
  cases a <;> cases b <;> cases c <;> cases d <;> rfl

namespace Driver

variable {s s' : Driver}

/-- Commands about node `n`, written one after another until one fails. -/
def announce (env : Env) (th : ThreadId) (n : NodeId) (data : Bytes) : List BR → Handled → Handled
  | [], h => h
  | cmd :: cmds, h =>
      announce env th n data cmds (tellOwner env th n true cmd data (·.record cmd) h)

/-- Commands about node `n`, all written. -/
def announced (th : ThreadId) (n : NodeId) : List BR → Driver → Driver
  | [], s => s
  | cmd :: cmds, s =>
      announced th n cmds ((s.updNode n (·.record cmd)).tell th cmd (.node n))

theorem announce_append (env : Env) (th : ThreadId) (n : NodeId) (data : Bytes)
    (cmds cmds' : List BR) (h : Handled) : announce env th n data (cmds ++ cmds') h =
      announce env th n data cmds' (announce env th n data cmds h) := by
  induction cmds generalizing h with
  | nil => rfl
  | cons cmd cmds ih => exact ih _

/-- A command that may or may not be due. -/
theorem announce_if (env : Env) (th : ThreadId) (n : NodeId) (data : Bytes) (due : Bool)
    (cmd : BR) (h : Handled) : announce env th n data (if due then [cmd] else []) h =
      tellOwner env th n due cmd data (·.record cmd) h := by
  cases due with
  | true => rw [if_pos rfl, announce, announce]
  | false => simp [announce, tellOwner]

/-- The four conditional commands of the source are the commands due. -/
theorem reportNews_eq (env : Env) (s : Driver) (th : ThreadId) (n : NodeId) (nd : Node)
    (rc : ReadCall) : reportNews env s th n nd rc =
      announce env th n (ptrCookie nd) (dueCmds (s.nodeNews n nd)) ⟨s, rc, none⟩ := by
  rw [dueCmds, announce_append, announce_append, announce_append, announce_if, announce_if,
    announce_if, announce_if]
  rfl

theorem announce_of_error {env : Env} {th : ThreadId} {n : NodeId} {data : Bytes} {h : Handled}
    (herr : h.error ≠ none) (cmds : List BR) : announce env th n data cmds h = h := by
  induction cmds with
  | nil => rfl
  | cons cmd cmds ih =>
      obtain ⟨e, he⟩ := Option.ne_none_iff_exists'.mp herr
      simpa [announce, tellOwner, he] using ih

/-- **Commands in a row.**  All are written, or one fails after the ones before
it and is recorded all the same.  Where there is room for all of them the
failure is a fault. -/
theorem announce_cases (env : Env) (th : ThreadId) (n : NodeId) {data : Bytes}
    (hdata : data.length = 16) (cmds : List BR) (h : Handled) (herr : h.error = none) :
    ((announce env th n data cmds h).error = none ∧
        (announce env th n data cmds h).drv = announced th n cmds h.drv) ∨
      ∃ written cmd rest, cmds = written ++ cmd :: rest ∧
        (announce env th n data cmds h).error.isSome ∧
        (announce env th n data cmds h).drv =
          (announced th n written h.drv).updNode n (·.record cmd) ∧
        (20 * cmds.length ≤ h.rc.room → (announce env th n data cmds h).error = some .efault ∧
          ¬ h.rc.Takes env cmds.length) := by
  induction cmds generalizing h with
  | nil => exact .inl ⟨herr, rfl⟩
  | cons cmd cmds ih =>
      have htell : tellOwner env th n true cmd data (·.record cmd) h =
          Handled.put (putCmdData env h.rc cmd data) (h.drv.updNode n (·.record cmd))
            ((h.drv.updNode n (·.record cmd)).tell th cmd (.node n)) := by
        simp only [tellOwner, herr]
      rw [announce, htell]
      have htwenty := putCmdData_twenty env h.rc cmd hdata
      generalize putCmdData env h.rc cmd data = put at htwenty
      obtain ⟨rc', error⟩ := put
      rcases htwenty with ⟨hnone, hrc⟩ | ⟨hroom, hsome⟩ | ⟨hfault, hsome⟩
      · simp only at hnone hrc
        subst hnone hrc
        simp only [Handled.put]
        rcases ih ⟨_, h.rc.emit cmd data, none⟩ rfl with
          hall | ⟨written, failed, rest, heq, hsome, hdrv, hfault⟩
        · exact .inl hall
        · refine .inr ⟨cmd :: written, failed, rest, by rw [heq]; rfl, hsome, hdrv, ?_⟩
          intro hfits
          rw [List.length_cons] at hfits ⊢
          have hroom : (h.rc.emit cmd data).room = h.rc.room - 20 :=
            ReadCall.emit_room hdata (by omega)
          obtain ⟨hefault, hnot⟩ := hfault (by simp only [hroom]; omega)
          exact ⟨hefault, fun htakes => hnot (htakes.emit hdata)⟩
      · simp only at hsome
        subst hsome
        rw [announce_of_error (by simp [Handled.put])]
        refine .inr ⟨[], cmd, cmds, rfl, rfl, rfl, ?_⟩
        intro hfits
        rw [List.length_cons] at hfits
        omega
      · simp only at hsome
        subst hsome
        rw [announce_of_error (by simp [Handled.put])]
        refine .inr ⟨[], cmd, cmds, rfl, rfl, rfl, fun _ => ⟨rfl, fun htakes => hfault ?_⟩⟩
        intro i hi
        exact htakes i (by rw [List.length_cons]; omega)

theorem announced_nodes (th : ThreadId) (n : NodeId) (cmds : List BR) (s : Driver) :
    (announced th n cmds s).nodes =
      Function.update s.nodes n ((s.nodes n).map fun nd => cmds.foldl Node.record nd) := by
  induction cmds generalizing s with
  | nil => simp [announced]
  | cons cmd cmds ih =>
      rw [announced, ih]
      funext m
      by_cases hm : m = n
      · subst hm
        simp [tell, updNode, Function.comp_def]
      · simp [tell, updNode, hm]

theorem updNode_self (s : Driver) (n : NodeId) (f : Node → Node) :
    (s.updNode n f).nodes n = (s.nodes n).map f := Function.update_self ..

theorem announced_node (th : ThreadId) (cmds : List BR) {n : NodeId} {nd : Node}
    (hn : s.nodes n = some nd) :
    (announced th n cmds s).nodes n = some (cmds.foldl Node.record nd) := by
  rw [announced_nodes, Function.update_self, hn, Option.map_some]

theorem announced_sound (hs : Sound s) (th : ThreadId) (n : NodeId) (cmds : List BR) :
    Sound (announced th n cmds s) := by
  induction cmds generalizing s with
  | nil => exact hs
  | cons cmd cmds ih =>
      have hrecord := ObjectStep.sound (O := fun _ => True) hs
        (.count n _ (record_kept cmd))
      exact ih (ObjectStep.sound (O := fun _ => True) hrecord (.tell th cmd (.node n)))

theorem announced_frame (th : ThreadId) (n : NodeId) (cmds : List BR) (s : Driver) :
    (announced th n cmds s).queues = s.queues ∧ (announced th n cmds s).procs = s.procs := by
  induction cmds generalizing s with
  | nil => exact ⟨rfl, rfl⟩
  | cons cmd cmds ih => exact ih _

theorem procAlive_congr (h : s'.procs = s.procs) (p : ProcId) :
    s'.procAlive p = s.procAlive p := by
  rw [procAlive, procAlive, h]

theorem toldAbout_tell (s : Driver) (th : ThreadId) (cmd : BR) (n m : NodeId) :
    (s.tell th cmd (.node n)).toldAbout m =
      if m = n then cmd :: s.toldAbout m else s.toldAbout m := by
  by_cases hm : m = n
  · simp [toldAbout, tell, hm]
  · have hne : ¬ n = m := fun he => hm he.symm
    simp [toldAbout, tell, hm, hne]

theorem announced_told (th : ThreadId) (n : NodeId) (cmds : List BR) (s : Driver) (m : NodeId) :
    (announced th n cmds s).toldAbout m =
      if m = n then cmds.reverse ++ s.toldAbout m else s.toldAbout m := by
  induction cmds generalizing s with
  | nil => simp [announced]
  | cons cmd cmds ih =>
      rw [announced, ih, toldAbout_tell]
      have hupd : (s.updNode n (·.record cmd)).toldAbout m = s.toldAbout m := rfl
      rw [hupd]
      by_cases hm : m = n
      · rw [if_pos hm, if_pos hm, if_pos hm, List.reverse_cons, List.append_assoc]
        rfl
      · rw [if_neg hm, if_neg hm, if_neg hm]

/-! ## A read of a node's news -/

/-- What a read that takes the work of node `n` off queue `q` comes to. -/
inductive ReadsNews (env : Env) (s : Driver) (th : ThreadId) (n : NodeId) (rc : ReadCall)
    (q : Queue) : Driver → Prop
  | nothing (h : ∀ nd, s.nodes n = some nd → dueCmds (s.nodeNews n nd) = []) :
      ReadsNews env s th n rc q (s.dequeueWork (.node n))
  | full : ReadsNews env s th n rc q ((s.dequeueWork (.node n)).putBack q (.node n))
  | told (nd : Node) (hn : s.nodes n = some nd) (hdecrefs : (s.nodeNews n nd).2.2.2 = false)
      (hroom : 20 * (dueCmds (s.nodeNews n nd)).length ≤ rc.room) :
      ReadsNews env s th n rc q
        (announced th n (dueCmds (s.nodeNews n nd)) (s.dequeueWork (.node n)))
  | released (nd : Node) (hn : s.nodes n = some nd) (hdecrefs : (s.nodeNews n nd).2.2.2 = true)
      (hroom : 20 * (dueCmds (s.nodeNews n nd)).length ≤ rc.room) :
      ReadsNews env s th n rc q
        ((announced th n (dueCmds (s.nodeNews n nd)) (s.dequeueWork (.node n))).nodeMaybeFree n)
  | faulted (nd : Node) (hn : s.nodes n = some nd) (written : List BR) (cmd : BR)
      (rest : List BR) (heq : dueCmds (s.nodeNews n nd) = written ++ cmd :: rest)
      (hroom : 20 * (dueCmds (s.nodeNews n nd)).length ≤ rc.room)
      (hfault : ¬ rc.Takes env (dueCmds (s.nodeNews n nd)).length) :
      ReadsNews env s th n rc q
        ((announced th n written (s.dequeueWork (.node n))).updNode n (·.record cmd))

theorem ptrCookie_length (nd : Node) : (ptrCookie nd).length = 16 := by
  simp [ptrCookie]

theorem dueCmds_nil : dueCmds (false, false, false, false) = [] := rfl

/-- **A read of a node's news** leaves it on its queue, or tells the owner
everything that is due, or faults on the way. -/
theorem readNews_reads (env : Env) (s : Driver) (th : ThreadId) (n : NodeId) (rc : ReadCall)
    (q : Queue) : ReadsNews env s th n rc q (readNews env s th n rc q) := by
  have hnews : ∀ nd, (s.dequeueWork (.node n)).nodeNews n nd = s.nodeNews n nd := fun _ => rfl
  unfold readNews
  simp only
  rcases readNodeWork_cases env (s.dequeueWork (.node n)) th n rc with
    ⟨heq, hnone⟩ | heq | ⟨nd, hn, hroom, heq⟩
  · rw [heq, if_neg (by simp)]
    refine .nothing fun nd hn => ?_
    rw [← hnews, hnone nd hn, dueCmds_nil]
  · rw [heq, if_pos rfl]
    exact .full
  · change s.nodes n = some nd at hn
    rw [← dueCmds_length, hnews, Nat.mul_comm] at hroom
    rw [heq, reportNews_eq, hnews]
    rcases announce_cases env th n (ptrCookie_length nd) (dueCmds (s.nodeNews n nd))
        ⟨s.dequeueWork (.node n), rc, none⟩ rfl with
      ⟨herr, hdrv⟩ | ⟨written, cmd, rest, hsplit, hsome, hdrv, hfault⟩
    · cases hdecrefs : (s.nodeNews n nd).2.2.2 with
      | true =>
          simp only [herr, hdrv, Bool.true_and, Option.isNone_none, if_true]
          rw [if_neg (by simp)]
          exact .released nd hn hdecrefs hroom
      | false =>
          simp only [herr, hdrv, Bool.false_and, Bool.false_eq_true, if_false]
          rw [if_neg (by simp)]
          exact .told nd hn hdecrefs hroom
    · obtain ⟨hefault, hnot⟩ := hfault hroom
      simp only [hefault, hdrv, Option.isNone_some, Bool.and_false, Bool.false_eq_true, if_false]
      rw [if_neg (by simp)]
      exact .faulted nd hn written cmd rest hsplit hroom hnot

/-! ## What an effect does to one node's flags -/

/-- The flags that stand for what the owner was told and has confirmed. -/
structure SameFlags (nd nd' : Node) : Prop where
  owner : ∀ p, nd'.proc = some p → nd.proc = some p
  ptr : nd'.ptr = nd.ptr
  hasStrongRef : nd'.hasStrongRef = nd.hasStrongRef
  hasWeakRef : nd'.hasWeakRef = nd.hasWeakRef
  pendingStrongRef : nd'.pendingStrongRef = nd.pendingStrongRef
  pendingWeakRef : nd'.pendingWeakRef = nd.pendingWeakRef

theorem SameFlags.refl (nd : Node) : SameFlags nd nd := ⟨fun _ h => h, rfl, rfl, rfl, rfl, rfl⟩

theorem SameStanding.flags_same {nd nd' : Node} (h : SameStanding nd nd') : SameFlags nd nd' :=
  ⟨fun _ hp => h.proc ▸ hp, h.ptr, h.hasStrongRef, h.hasWeakRef, h.pendingStrongRef,
    h.pendingWeakRef⟩

/-- Node `n` keeps its flags, its live owner and its place on a queue, the owner
hears nothing, and the node goes only if the owner was told to let go and no
news about it wait. -/
structure Still (n : NodeId) (s s' : Driver) : Prop where
  back : ∀ nd', s'.nodes n = some nd' → ∃ nd, s.nodes n = some nd ∧ SameFlags nd nd' ∧
    ∀ p, nd.proc = some p → s.procAlive p = true → nd'.proc = some p
  kept : ∀ nd, s.nodes n = some nd → (s'.nodes n).isSome ∨
    nd.hasStrongRef = false ∧ nd.hasWeakRef = false ∧ s.queues.loc (.node n) = none
  told : s'.toldAbout n = s.toldAbout n
  queued : (s.queues.loc (.node n)).isSome → (s'.queues.loc (.node n)).isSome

theorem Still.same {n : NodeId} (hnodes : s'.nodes n = s.nodes n)
    (htold : s'.toldAbout n = s.toldAbout n)
    (hloc : s'.queues.loc (.node n) = s.queues.loc (.node n)) : Still n s s' where
  back nd' hn := ⟨nd', hnodes ▸ hn, .refl nd', fun _ hp _ => hp⟩
  kept nd hn := .inl (by rw [hnodes, hn]; rfl)
  told := htold
  queued hq := hloc ▸ hq

/-- Nothing said in two stretches is nothing said. -/
theorem Still.trans {n : NodeId} {s'' : Driver} (h : Still n s s') (h' : Still n s' s'')
    (halive : ∀ p, s.procAlive p = true → s'.procAlive p = true) : Still n s s'' where
  back nd'' hn'' := by
    obtain ⟨nd', hn', hsame', hhome'⟩ := h'.back nd'' hn''
    obtain ⟨nd, hn, hsame, hhome⟩ := h.back nd' hn'
    refine ⟨nd, hn, ?_, fun p hp hlive => hhome' p (hhome p hp hlive) (halive p hlive)⟩
    exact ⟨fun p hp => hsame.owner p (hsame'.owner p hp), hsame'.ptr.trans hsame.ptr,
      hsame'.hasStrongRef.trans hsame.hasStrongRef,
      hsame'.hasWeakRef.trans hsame.hasWeakRef,
      hsame'.pendingStrongRef.trans hsame.pendingStrongRef,
      hsame'.pendingWeakRef.trans hsame.pendingWeakRef⟩
  kept nd hn := by
    rcases h.kept nd hn with hsome | hflags
    · obtain ⟨nd', hn'⟩ := Option.isSome_iff_exists.mp hsome
      obtain ⟨nd₀, hn₀, hsame, -⟩ := h.back nd' hn'
      rw [hn] at hn₀
      cases hn₀
      rcases h'.kept nd' hn' with hsome' | ⟨hst, hw, hidle⟩
      · exact .inl hsome'
      · refine .inr ⟨hsame.hasStrongRef ▸ hst, hsame.hasWeakRef ▸ hw, ?_⟩
        cases hq : s.queues.loc (.node n) with
        | none => rfl
        | some q =>
            have hstays := h.queued (by rw [hq]; rfl)
            rw [hidle] at hstays
            cases hstays
    · exact .inr hflags
  told := h'.told.trans h.told
  queued hq := h'.queued (h.queued hq)

theorem Accounted.still {thread : Option ThreadId} (h : Accounted thread s s') (n : NodeId) :
    Still n s s' where
  back nd' hn := by
    obtain ⟨nd, hnd, hsame⟩ := h.back n nd' hn
    exact ⟨nd, hnd, hsame.flags_same, fun p hp _ => hsame.proc.trans hp⟩
  kept nd hn := by
    rcases h.node n nd hn with ⟨nd', hn', -⟩ | ⟨hnone, hst, hw⟩
    · exact .inl (by rw [hn']; rfl)
    · exact .inr ⟨hst, hw, h.idle n nd hn hnone⟩
  told := by rw [toldAbout, toldAbout, h.told]
  queued := h.queued n

/-- A change that touches no flag says nothing. -/
theorem Still.updNode {n : NodeId} (m : NodeId) {f : Node → Node}
    (hf : m = n → ∀ nd, s.nodes n = some nd → SameFlags nd (f nd) ∧
      ∀ p, nd.proc = some p → s.procAlive p = true → (f nd).proc = some p) :
    Still n s (s.updNode m f) where
  back nd' hn := by
    by_cases he : m = n
    · subst he
      obtain ⟨nd, hnd, rfl⟩ := Option.map_eq_some_iff.mp
        (by simpa [Driver.updNode] using hn : (s.nodes m).map f = some nd')
      exact ⟨nd, hnd, hf rfl nd hnd⟩
    · have hne : ¬ n = m := fun h => he h.symm
      exact ⟨nd', by simpa [Driver.updNode, hne] using hn, .refl nd', fun _ hp _ => hp⟩
  kept nd hn := by
    refine .inl ?_
    by_cases he : n = m
    · subst he
      simp [Driver.updNode, hn]
    · simp [Driver.updNode, he, hn]
  told := rfl
  queued hq := hq

/-- What an effect does to the flags of node `n`. -/
inductive Touch (A : Kind → Prop) (n : NodeId) (s : Driver) : Driver → Prop
  | still {s' : Driver} (h : Still n s s') : Touch A n s s'
  | made {s' : Driver} (p : ProcId) (ptr cookie flags : Nat) (hn : n = s.nextId)
      (hmake : A (.make p)) (h : s' = s.bumpId.insertNode n p ptr cookie flags) : Touch A n s s'
  | done (strong : Bool) (h : A (.done n strong)) :
      Touch A n s (s.updNode n fun nd =>
        if strong then { nd with pendingStrongRef := false }
        else { nd with pendingWeakRef := false })
  | discarded (h : A (.discard n) ∨
      ∀ nd p, s.nodes n = some nd → nd.proc = some p → s.procAlive p = false) :
      Touch A n s (s.dequeueWork (.node n))
  | managed (c : Nat) (h : A (.manager n)) :
      Touch A n s ((s.updContext c fun ctx => { ctx with mgrNode := some n }).updNode n
        Node.managed)
  | unmanaged {s' : Driver} (p : ProcId) (hdead : s.procAlive p = false)
      (hclose : A (.close p)) (hproc : (s.nodes n).bind (·.proc) = some p) (c : Nat)
      (hmgr : (s.contexts c).mgrNode = some n) (htold : s'.toldAbout n = s.toldAbout n)
      (howner : (s'.nodes n).bind (·.proc) = some p) : Touch A n s s'
  | news (env : Env) (th : ThreadId) (rc : ReadCall) (q : Queue)
      (hq : s.queues.loc (.node n) = some q) (h : A (.news env s n rc)) :
      Touch A n s (readNews env s th n rc q)

variable {A : Kind → Prop}

/-- News about another node. -/
theorem Still.readNews (hs : Sound s) {n m : NodeId} (hne : n ≠ m) (env : Env) (th : ThreadId)
    (rc : ReadCall) (q : Queue) : Still n s (readNews env s th m rc q) := by
  have hs₀ := hs.dequeue (.node m)
  have hne' : Work.node n ≠ .node m := fun he => hne (Work.node.inj he)
  have hloc : (s.dequeueWork (.node m)).queues.loc (.node n) = s.queues.loc (.node n) := by
    simp [dequeueWork, Queues.remove_loc, hne]
  have hannounced : ∀ cmds, Still n s (announced th m cmds (s.dequeueWork (.node m))) := by
    intro cmds
    refine .same ?_ ?_ ?_
    · rw [announced_nodes, Function.update_of_ne hne]
      rfl
    · rw [announced_told, if_neg hne]
      rfl
    · rw [(announced_frame th m cmds _).1, hloc]
  have halive : ∀ cmds p, s.procAlive p = true →
      (announced th m cmds (s.dequeueWork (.node m))).procAlive p = true := by
    intro cmds p hp
    rw [procAlive_congr (announced_frame th m cmds _).2]
    exact hp
  generalize hres : Driver.readNews env s th m rc q = s'
  have hreads := readNews_reads env s th m rc q
  rw [hres] at hreads
  cases hreads with
  | nothing _ => exact .same rfl rfl hloc
  | full =>
      refine .same rfl rfl ?_
      rw [putBack, Queues.insert_loc_of_ne _ _ _ hne', hloc]
  | told nd _ _ => exact hannounced _
  | released nd _ _ =>
      have hfree : Accounted none _ _ :=
        nodeMaybeFree_accounted (announced_sound hs₀ th m (dueCmds (s.nodeNews m nd))) m
      exact (hannounced _).trans (hfree.still n) (halive _)
  | faulted nd _ written cmd _ _ _ _ =>
      exact (hannounced written).trans (.updNode m fun he => absurd he.symm hne) (halive _)

/-- News about a node leave its owner alone. -/
theorem readNews_owner (hs : Sound s) (env : Env) (th : ThreadId) (n : NodeId) (rc : ReadCall)
    (q : Queue) {nd' : Node} (hn' : (readNews env s th n rc q).nodes n = some nd') :
    ∃ nd, s.nodes n = some nd ∧ (∀ p, nd'.proc = some p → nd.proc = some p) ∧
      ∀ p, nd.proc = some p → s.procAlive p = true → nd'.proc = some p := by
  have hannounced : ∀ cmds nd', (announced th n cmds (s.dequeueWork (.node n))).nodes n = some nd' →
      ∃ nd, s.nodes n = some nd ∧ nd'.proc = nd.proc := by
    intro cmds nd' h
    rw [announced_nodes, Function.update_self] at h
    obtain ⟨nd, hn, rfl⟩ := Option.map_eq_some_iff.mp h
    exact ⟨nd, hn, nd.records_proc cmds⟩
  have hsame : ∃ nd, s.nodes n = some nd ∧ nd'.proc = nd.proc := by
    generalize hres : Driver.readNews env s th n rc q = s' at hn'
    have hreads := readNews_reads env s th n rc q
    rw [hres] at hreads
    cases hreads with
    | nothing _ => exact ⟨nd', hn', rfl⟩
    | full => exact ⟨nd', hn', rfl⟩
    | told nd _ _ => exact hannounced _ nd' hn'
    | released nd _ _ =>
        have hs₁ := announced_sound (hs.dequeue (.node n)) th n (dueCmds (s.nodeNews n nd))
        rcases nodeMaybeFree_cases hs₁ n with heq | ⟨_, hgone⟩
        · rw [heq] at hn'
          exact hannounced _ nd' hn'
        · rw [hgone.nodes] at hn'
          simp at hn'
    | faulted nd _ written cmd _ _ _ _ =>
        rw [updNode_self] at hn'
        obtain ⟨nd₁, hn₁, rfl⟩ := Option.map_eq_some_iff.mp hn'
        obtain ⟨nd₀, hn₀, heq⟩ := hannounced written nd₁ hn₁
        exact ⟨nd₀, hn₀, (nd₁.record_proc cmd).trans heq⟩
  obtain ⟨nd, hn, heq⟩ := hsame
  exact ⟨nd, hn, fun p hp => heq ▸ hp, fun p hp _ => heq.trans hp⟩

/-- A read of news leaves handles and other nodes alone. -/
theorem readNews_apart (hs : Sound s) (env : Env) (th : ThreadId) (m : NodeId) (rc : ReadCall)
    (q : Queue) : ∃ s₁, s₁.refs = s.refs ∧ s₁.procs = s.procs ∧
      (∀ n, n ≠ m → s₁.nodes n = s.nodes n ∧
        s₁.queues.loc (.node n) = s.queues.loc (.node n)) ∧
      (readNews env s th m rc q = s₁ ∨
        Sound s₁ ∧ readNews env s th m rc q = s₁.nodeMaybeFree m) := by
  obtain ⟨s₁, hrep, hs₁, hcase⟩ := readNodeWork_reported (hs.dequeue (.node m)) env th m rc
  have hother : ∀ n, n ≠ m → s₁.nodes n = s.nodes n ∧
      s₁.queues.loc (.node n) = s.queues.loc (.node n) := by
    intro n hne
    rw [hrep.queues]
    exact ⟨hrep.other n hne, by simp [dequeueWork, Queues.remove_loc, hne]⟩
  unfold Driver.readNews
  simp only
  rcases hcase with heq | ⟨herr, heq⟩
  · rw [heq]
    split
    · refine ⟨s₁.putBack q (.node m), hrep.refs, hrep.procs, fun n hne => ?_, .inl rfl⟩
      obtain ⟨hnode, hloc⟩ := hother n hne
      refine ⟨hnode, ?_⟩
      rw [putBack, Queues.insert_loc_of_ne _ _ _ fun he => hne (Work.node.inj he)]
      exact hloc
    · exact ⟨s₁, hrep.refs, hrep.procs, hother, .inl rfl⟩
  · rw [herr, heq, if_neg (by simp)]
    exact ⟨s₁, hrep.refs, hrep.procs, hother, .inr ⟨hs₁, rfl⟩⟩

/-- Only the node of the manager that resigns is touched. -/
theorem Touch.releaseManager (p : ProcId) (hdead : s.procAlive p = false) (hclose : A (.close p))
    (n : NodeId) : Touch A n s (s.releaseManager p) := by
  apply releaseManager_rule p (.still (.same rfl rfl rfl))
  intro proc m _ hmgr hown
  by_cases hmn : m = n
  · subst hmn
    refine .unmanaged p hdead hclose hown proc.context hmgr rfl ?_
    obtain ⟨nd, hn, hp⟩ := Option.bind_eq_some_iff.mp hown
    simp [Driver.updNode, updContext, hn, hp]
  · have hctx : Still n s (s.updContext proc.context fun ctx => { ctx with mgrNode := none }) :=
      .same rfl rfl rfl
    exact .still (hctx.trans (.updNode m fun he => absurd he hmn) fun _ hp => hp)

/-- The turn of a close over one of the process's nodes: the owner it loses is the one
that goes. -/
theorem Still.releaseNode (hs : Sound s) {p : ProcId} {m : NodeId} (hmem : m ∈ s.procNodes p)
    (hdead : s.procAlive p = false) (n : NodeId) : Still n s (s.releaseNode p m) := by
  obtain ⟨s₁, hs₁, hframe, hobj, heq⟩ := releaseNode_cases hs hmem
  have hnodes : s₁.nodes = _ := congrArg Objects.nodes hobj
  have hunlist : Still n s (s.unlistNode p m) := .same rfl rfl rfl
  have hdied : Still n (s.unlistNode p m) ((s.unlistNode p m).updNode m fun nd =>
      { nd with isDead := true, proc := none }) := by
    refine .updNode m fun he nd hn => ⟨⟨by simp, rfl, rfl, rfl, rfl, rfl⟩, fun p' hp' hlive => ?_⟩
    subst he
    obtain ⟨nd', hn', hp⟩ := (hs.graph.procNodes.mem_iff p m).mp hmem
    rw [show s.nodes m = some nd from hn] at hn'
    cases hn'
    rw [hp] at hp'
    cases hp'
    rw [show s.procAlive p = true from hlive] at hdead
    cases hdead
  have hlast : Still n ((s.unlistNode p m).updNode m fun nd =>
      { nd with isDead := true, proc := none }) s₁ := by
    refine .same (by rw [hnodes]; rfl) ?_ (hframe.news n)
    rw [toldAbout, hframe.told]
    rfl
  have hacc : Accounted none s₁ (s₁.nodeMaybeFree m) := nodeMaybeFree_accounted hs₁ m
  have hone : Still n s s₁ := (hunlist.trans hdied fun _ hp => hp).trans hlast fun _ hp => hp
  rw [heq]
  refine hone.trans (hacc.still n) fun p' hp' => ?_
  rw [procAlive_congr hframe.procs]
  exact hp'

/-- **Every effect leaves a node's flags alone**, or is one of the six that
are about them or its news. -/
theorem Effect.touch (hs : Sound s) (he : Effect A s s') (n : NodeId) : Touch A n s s' := by
  cases he with
  | aside ha =>
      exact .still (.same (congrFun (congrArg Objects.nodes ha.objects) n) (ha.told n) (ha.news n))
  | birth env pid ctx _ =>
      exact .still (procNew_rule env pid ctx (.same rfl rfl rfl) (.same rfl rfl rfl))
  | dying p _ => exact .still (.same rfl rfl rfl)
  | unmanage p hdead hclose => exact .releaseManager p hdead hclose n
  | enter env p tid =>
      exact .still (threadGet_rule env p tid (.same rfl rfl rfl) (.same rfl rfl rfl)
        (.same rfl rfl rfl))
  | exit p th _ => exact .still (.same rfl rfl rfl)
  | discard m h =>
      by_cases hmn : n = m
      · subst hmn
        exact .discarded h
      · refine .still (.same rfl rfl ?_)
        simp [dequeueWork, Queues.remove_loc, hmn]
  | localRef m strong increment thread _ =>
      exact .still ((nodeUpdateRefs_accounted hs m strong increment false thread).still n)
  | takeRef env p m strong thread r s₁ _ hn _ hget _ =>
      exact .still ((takeRef_accounted hs hget strong thread).still n)
  | holdRef r strong thread =>
      exact .still ((refUpdate_accounted hs r strong true thread).still n)
  | giveRef r strong thread _ =>
      exact .still ((refUpdate_accounted hs r strong false thread).still n)
  | markRef r death ha =>
      exact .still (.same (congrFun (congrArg Objects.nodes ha.objects) n) (ha.told n) (ha.news n))
  | deleteRef r _ =>
      have hacc : Accounted none s (s.refDelete r) := refDelete_accounted hs r
      exact .still (hacc.still n)
  | makeNode m p ptr cookie flags _ hm hp hmake =>
      by_cases hmn : n = m
      · subst hmn
        exact .made p ptr cookie flags hm hmake rfl
      · exact .still (.same (by simp [insertNode, bumpId, hmn]) rfl rfl)
  | hold m =>
      exact .still (.updNode m fun _ _ _ =>
        ⟨⟨fun _ h => h, rfl, rfl, rfl, rfl, rfl⟩, fun _ hp _ => hp⟩)
  | unhold m =>
      have hacc : Accounted none s (s.nodeDecTmpref m) := nodeDecTmpref_accounted hs m
      exact .still (hacc.still n)
  | async m b =>
      exact .still (.updNode m fun _ _ _ =>
        ⟨⟨fun _ h => h, rfl, rfl, rfl, rfl, rfl⟩, fun _ hp _ => hp⟩)
  | done m strong h =>
      by_cases hmn : m = n
      · subst hmn
        exact .done strong h
      · exact .still (.updNode m fun he => absurd he hmn)
  | manager c m hA _ =>
      by_cases hmn : m = n
      · subst hmn
        exact .managed c hA
      · have hctx : Still n s (s.updContext c fun ctx => { ctx with mgrNode := some m }) :=
          .same rfl rfl rfl
        exact .still (hctx.trans (.updNode m fun he => absurd he hmn) fun _ hp => hp)
  | orphan p m hmem hdead _ => exact .still (.releaseNode hs hmem hdead n)
  | bury p _ _ => exact .still (.same rfl rfl rfl)
  | news env th m rc q hq hA =>
      by_cases hmn : n = m
      · subst hmn
        exact .news env th rc q hq hA
      · exact .still (.readNews hs hmn env th rc q)

/-- **A node is made by somebody**, or was there and belongs to whom it belonged
to, unless that process is on its way out. -/
theorem Effect.node_back (hs : Sound s) (he : Effect A s s') {n : NodeId} {nd' : Node}
    (hn' : s'.nodes n = some nd') :
    (n = s.nextId ∧ ∃ p, nd'.proc = some p ∧ A (.make p)) ∨
      ∃ nd, s.nodes n = some nd ∧ (∀ p, nd'.proc = some p → nd.proc = some p) ∧
        ∀ p, nd.proc = some p → s.procAlive p = true → nd'.proc = some p := by
  -- a node that is changed in place without touching its owner
  have hupd : ∀ f : Node → Node, (∀ nd, (f nd).proc = nd.proc) →
      (s.nodes n).map f = some nd' → ∃ nd, s.nodes n = some nd ∧
        (∀ p, nd'.proc = some p → nd.proc = some p) ∧
          ∀ p, nd.proc = some p → s.procAlive p = true → nd'.proc = some p := by
    intro f hf hmap
    obtain ⟨nd, hn, rfl⟩ := Option.map_eq_some_iff.mp hmap
    exact ⟨nd, hn, fun p hp => hf nd ▸ hp, fun p hp _ => (hf nd).trans hp⟩
  cases he.touch hs n with
  | still h =>
      obtain ⟨nd, hn, hsame, hhome⟩ := h.back nd' hn'
      exact .inr ⟨nd, hn, hsame.owner, hhome⟩
  | made p ptr cookie flags hn hmake heq =>
      subst heq
      simp only [insertNode, Function.update_self, Option.some.injEq] at hn'
      subst hn'
      exact .inl ⟨hn, p, rfl, hmake⟩
  | done strong _ =>
      rw [updNode_self] at hn'
      exact .inr (hupd _ (fun nd => by cases strong <;> rfl) hn')
  | discarded _ => exact .inr ⟨nd', hn', fun _ hp => hp, fun _ hp _ => hp⟩
  | managed c _ =>
      rw [updNode_self] at hn'
      exact .inr (hupd Node.managed (fun _ => rfl) hn')
  | unmanaged p hdead _ hproc c _ _ howner =>
      obtain ⟨nd, hn, hp⟩ := Option.bind_eq_some_iff.mp hproc
      rw [hn', Option.bind_some] at howner
      refine .inr ⟨nd, hn, fun q hq => ?_, fun q hq _ => ?_⟩
      · cases howner.symm.trans hq
        exact hp
      · cases hp.symm.trans hq
        exact howner
  | news env th rc q hq _ => exact .inr (readNews_owner hs env th n rc q hn')

/-- Addresses are handed out upwards, a new manager is announced, and a process
comes to life only under a new address. -/
structure Onward (A : Kind → Prop) (s s' : Driver) : Prop where
  nextId : s.nextId ≤ s'.nextId
  managers : ∀ c n, (s'.contexts c).mgrNode = some n →
    (s.contexts c).mgrNode = some n ∨ A (.manager n)
  alive : ∀ p, s'.procAlive p = true → s.procAlive p = true ∨ s.nextId ≤ p

theorem Onward.same (hid : s.nextId ≤ s'.nextId) (hcontexts : s'.contexts = s.contexts)
    (hprocs : s'.procs = s.procs) : Onward A s s' :=
  ⟨hid, fun _ _ hc => .inl (hcontexts ▸ hc), fun p hp => .inl (procAlive_congr hprocs p ▸ hp)⟩

theorem Accounted.onward {thread : Option ThreadId} (h : Accounted thread s s') :
    Onward A s s' :=
  ⟨h.nextId, fun c n hc => .inl (h.managers c n hc),
    fun p hp => .inl (procAlive_congr h.procs p ▸ hp)⟩

theorem Onward.trans {s'' : Driver} (h : Onward A s s') (h' : Onward A s' s'') :
    Onward A s s'' where
  nextId := Nat.le_trans h.nextId h'.nextId
  managers c n hc := (h'.managers c n hc).elim (h.managers c n) .inr
  alive p hp := by
    rcases h'.alive p hp with hlive | hle
    · exact h.alive p hlive
    · exact .inr (Nat.le_trans h.nextId hle)

/-- Reading news hands out nothing. -/
theorem Onward.readNews (hs : Sound s) (env : Env) (th : ThreadId) (n : NodeId) (rc : ReadCall)
    (q : Queue) : Onward A s (readNews env s th n rc q) := by
  obtain ⟨s₁, hrep, hs₁, hcase⟩ := readNodeWork_reported (hs.dequeue (.node n)) env th n rc
  have h₁ : Onward A s s₁ := .same (Nat.le_of_eq hrep.nextId.symm) hrep.contexts hrep.procs
  have hdrv : Onward A s (readNodeWork env (s.dequeueWork (.node n)) th n rc).drv := by
    rcases hcase with heq | ⟨-, heq⟩
    · rw [heq]
      exact h₁
    · have hacc : Accounted none s₁ (s₁.nodeMaybeFree n) := nodeMaybeFree_accounted hs₁ n
      rw [heq]
      exact h₁.trans hacc.onward
  unfold Driver.readNews
  simp only
  split
  · exact hdrv.trans (.same (Nat.le_refl _) rfl rfl)
  · exact hdrv

/-- **Every effect goes onward**: it makes no manager unannounced and wakes no dead
process. -/
theorem Effect.onward (hs : Sound s) (he : Effect A s s') : Onward A s s' := by
  cases he with
  | aside ha =>
      exact ⟨ha.nextId, fun c n hc => .inl (ha.managers c n hc), fun p hp => .inl (ha.alive p ▸ hp)⟩
  | birth env pid ctx _ =>
      refine procNew_rule env pid ctx (.same (Nat.le_succ _) rfl rfl)
        ⟨Nat.le_succ _, fun _ _ hc => .inl hc, fun p hp => ?_⟩
      by_cases he : p = s.nextId
      · exact .inr (Nat.le_of_eq he.symm)
      · exact .inl (procAlive_of_insertProc (s := s.bumpId) he hp)
  | dying p _ =>
      exact ⟨Nat.le_refl _, fun _ _ hc => .inl hc, fun _ hp => .inl (procAlive_of_dying hp)⟩
  | unmanage p _ _ =>
      apply releaseManager_rule p (.same (Nat.le_refl _) rfl rfl)
      intro proc m _ _ _
      refine ⟨Nat.le_refl _, fun c n hc => .inl ?_, fun p hp => .inl hp⟩
      by_cases he : c = proc.context
      · simp [updNode, updContext, he] at hc
      · simpa [updNode, updContext, he] using hc
  | enter env p tid =>
      exact threadGet_rule env p tid (.same (Nat.le_refl _) rfl rfl) (.same (Nat.le_succ _) rfl rfl)
        (.same (Nat.le_succ _) rfl rfl)
  | localRef m strong increment thread _ =>
      exact (nodeUpdateRefs_accounted hs m strong increment false thread).onward
  | takeRef env p m strong thread r s₁ _ hn _ hget _ =>
      exact (takeRef_accounted hs hget strong thread).onward
  | markRef r death ha =>
      exact ⟨ha.nextId, fun c n hc => .inl (ha.managers c n hc), fun p hp => .inl (ha.alive p ▸ hp)⟩
  | holdRef r strong thread => exact (refUpdate_accounted hs r strong true thread).onward
  | giveRef r strong thread _ => exact (refUpdate_accounted hs r strong false thread).onward
  | deleteRef r _ =>
      have hacc : Accounted none s (s.refDelete r) := refDelete_accounted hs r
      exact hacc.onward
  | makeNode m p ptr cookie flags _ hm hp _ => exact .same (Nat.le_succ _) rfl rfl
  | unhold m =>
      have hacc : Accounted none s (s.nodeDecTmpref m) := nodeDecTmpref_accounted hs m
      exact hacc.onward
  | manager c m hA _ =>
      refine ⟨Nat.le_refl _, fun c' n hc => ?_, fun _ hp => .inl hp⟩
      by_cases he : c' = c
      · have hm : n = m := by simpa [updNode, updContext, he, eq_comm] using hc
        exact .inr (hm ▸ hA)
      · exact .inl (by simpa [updNode, updContext, he] using hc)
  | orphan p m hmem _ _ =>
      obtain ⟨s₁, hs₁, hframe, -, heq⟩ := releaseNode_cases hs hmem
      have hacc : Accounted none s₁ (s₁.nodeMaybeFree m) := nodeMaybeFree_accounted hs₁ m
      have h₁ : Onward A s s₁ := ⟨Nat.le_of_eq hframe.nextId.symm,
        fun c n hc => .inl (hframe.managers c n hc),
        fun p' hp => .inl (procAlive_congr hframe.procs p' ▸ hp)⟩
      rw [heq]
      exact h₁.trans hacc.onward
  | bury p _ _ =>
      exact ⟨Nat.le_refl _, fun _ _ hc => .inl hc, fun _ hp => .inl (procAlive_of_forgetProc hp)⟩
  | news env th m rc q _ _ => exact .readNews hs env th m rc q
  | _ => exact .same (Nat.le_refl _) rfl rfl

theorem Moves.onward (h : Moves A s s') (hs : Sound s) : Onward A s s' :=
  h.invariant (P := Onward A s) (fun _ _ hs₁ hmove hon => hon.trans (hmove.effect.onward hs₁)) hs
    (.same (Nat.le_refl _) rfl rfl)

theorem Steady.nextId_le (h : Steady s) (a : Action) : s.nextId ≤ (s.act a).nextId :=
  ((h.moves a).onward h.sound).nextId

/-! ## The conversation -/

end Driver

/-- Which spans are open: `BR_INCREFS` without its `BR_DECREFS`, `BR_ACQUIRE`
without its `BR_RELEASE`. -/
structure Spans where
  weak : Bool := false
  strong : Bool := false
  deriving DecidableEq, Repr

/-- A command opens or closes a span; an acquire span opens and closes inside
an open increfs span. -/
def Spans.next (sp : Spans) : BR → Option Spans
  | .increfs => if sp.weak then none else some { sp with weak := true }
  | .acquire => if sp.strong || !sp.weak then none else some { sp with strong := true }
  | .release => if sp.strong then some { sp with strong := false } else none
  | .decrefs => if sp.weak && !sp.strong then some { sp with weak := false } else none
  | _ => none

/-- The spans open after the commands, newest first; `none` if they are not
well bracketed. -/
def conversation : List BR → Option Spans
  | [] => some {}
  | cmd :: cmds => (conversation cmds).bind (·.next cmd)

/-- An acquire span is inside an increfs span. -/
theorem conversation_nested {cmds : List BR} {sp : Spans} (h : conversation cmds = some sp) :
    sp.strong = true → sp.weak = true := by
  induction cmds generalizing sp with
  | nil =>
      cases h
      simp
  | cons cmd cmds ih =>
      obtain ⟨sp₀, h₀, hnext⟩ := Option.bind_eq_some_iff.mp h
      have hold := ih h₀
      unfold Spans.next at hnext
      grind

/-- **The commands due close the gap.**  Told what `sp` says, the owner of a
node with counts `weak` and `strong` is told the rest. -/
theorem conversation_due {cmds : List BR} {sp : Spans} (h : conversation cmds = some sp)
    {weak strong : Bool} (himp : strong = true → weak = true) :
    conversation ((dueCmds (weak && !sp.weak, strong && !sp.strong, !strong && sp.strong,
      !weak && sp.weak)).reverse ++ cmds) = some ⟨weak, strong⟩ := by
  have hnested := conversation_nested h
  obtain ⟨w, st⟩ := sp
  cases w <;> cases st <;> cases weak <;> cases strong <;>
    simp_all [dueCmds, conversation, Spans.next]

namespace Driver

variable {s s' : Driver} {A : Kind → Prop} {n : NodeId}

theorem nodeNews_eq (s : Driver) (n : NodeId) (nd : Node) : s.nodeNews n nd =
    (s.nodeHasWeak n nd && !nd.hasWeakRef, nd.hasStrong && !nd.hasStrongRef,
      !nd.hasStrong && nd.hasStrongRef, !s.nodeHasWeak n nd && nd.hasWeakRef) := rfl

theorem nodeHasWeak_of_strong {nd : Node} (h : nd.hasStrong = true) :
    s.nodeHasWeak n nd = true := by
  simp [nodeHasWeak, h]

/-- Once everything due is recorded, the flags say what is true. -/
theorem record_due (s : Driver) (n : NodeId) (nd : Node) :
    ((dueCmds (s.nodeNews n nd)).foldl Node.record nd).hasWeakRef = s.nodeHasWeak n nd ∧
      ((dueCmds (s.nodeNews n nd)).foldl Node.record nd).hasStrongRef = nd.hasStrong := by
  rw [nodeNews_eq]
  cases s.nodeHasWeak n nd <;> cases nd.hasStrong <;> cases hw : nd.hasWeakRef <;>
    cases hst : nd.hasStrongRef <;> simp [dueCmds, Node.record, hw, hst]

/-- The node whose work an action takes, and the read that takes it. -/
def newsTaken (s : Driver) : Action → Option (Env × NodeId × ReadCall)
  | .readTurn env th =>
      match s.threads th, s.calls th with
      | some thread, some rc =>
          match s.nextWork th thread with
          | some (.node n, _) => some (env, n, rc)
          | _ => none
      | _, _ => none
  | _ => none

/-- If action `a` is a turn of a read that takes a node's work, then `Q`. -/
def OnNews (s : Driver) (a : Action) (Q : Env → NodeId → ReadCall → Node → Prop) : Prop :=
  ∀ env n rc nd, s.newsTaken a = some (env, n, rc) → s.nodes n = some nd → Q env n rc nd

instance (s : Driver) (a : Action) (Q : Env → NodeId → ReadCall → Node → Prop)
    [∀ env n rc nd, Decidable (Q env n rc nd)] : Decidable (s.OnNews a Q) :=
  decidable_of_iff (∀ e ∈ s.newsTaken a, ∀ nd ∈ s.nodes e.2.1, Q e.1 e.2.1 e.2.2 nd) (by
    constructor
    · intro h env n rc nd htaken hn
      exact h (env, n, rc) htaken nd hn
    · intro h e he nd hn
      exact h e.1 e.2.1 e.2.2 nd he hn)

/-- If the commands due about a node fit the read buffer, they can be written
there. -/
def DueWritable (s : Driver) (env : Env) (n : NodeId) (rc : ReadCall) (nd : Node) : Prop :=
  20 * (dueCmds (s.nodeNews n nd)).length ≤ rc.room →
    rc.Takes env (dueCmds (s.nodeNews n nd)).length

instance (s : Driver) (env : Env) (n : NodeId) (rc : ReadCall) (nd : Node) :
    Decidable (s.DueWritable env n rc nd) :=
  inferInstanceAs (Decidable (_ → _))

theorem Occurs.newsTaken {a : Action} {env : Env} {s₀ : Driver} {rc : ReadCall}
    (h : s.Occurs a (.news env s₀ n rc)) : s₀ = s ∧ s.newsTaken a = some (env, n, rc) := by
  cases h with
  | news _ th thread _ _ fromProc hth hrc hnext =>
      refine ⟨rfl, ?_⟩
      rw [Driver.newsTaken, hth, hrc]
      simp only [hnext]

/-- The commands about node `n` so far are well bracketed, and its flags are
the spans that are open. -/
def Talked (n : NodeId) (s : Driver) : Prop :=
  ∃ sp, conversation (s.toldAbout n) = some sp ∧
    ∀ nd, s.nodes n = some nd → sp = ⟨nd.hasWeakRef, nd.hasStrongRef⟩

/-- What holds of a node that is never a manager: its owner heard a well
bracketed conversation, which began after the node was made. -/
structure Conversing (n : NodeId) (s : Driver) : Prop where
  fresh : s.nextId ≤ n → s.toldAbout n = []
  unmanaged : ∀ c, (s.contexts c).mgrNode ≠ some n
  talked : Talked n s

theorem Talked.still (h : Talked n s) (hstill : Still n s s') : Talked n s' := by
  obtain ⟨sp, hconv, hflags⟩ := h
  refine ⟨sp, hstill.told ▸ hconv, fun nd' hn' => ?_⟩
  obtain ⟨nd, hn, hsame, -⟩ := hstill.back nd' hn'
  rw [hflags nd hn, hsame.hasWeakRef, hsame.hasStrongRef]

/-- Everything due was written. -/
theorem Talked.announced (h : Talked n s) {nd : Node} (hn : s.nodes n = some nd)
    (th : ThreadId) :
    Talked n (announced th n (dueCmds (s.nodeNews n nd)) (s.dequeueWork (.node n))) := by
  obtain ⟨sp, hconv, hflags⟩ := h
  have hsp := hflags nd hn
  subst hsp
  refine ⟨⟨s.nodeHasWeak n nd, nd.hasStrong⟩, ?_, ?_⟩
  · rw [announced_told, if_pos rfl, nodeNews_eq]
    exact conversation_due hconv nodeHasWeak_of_strong
  · intro nd' hn'
    have hnode : (s.dequeueWork (.node n)).nodes n = some nd := hn
    rw [announced_nodes, hnode] at hn'
    simp only [Function.update_self, Option.map_some, Option.some.injEq] at hn'
    obtain ⟨hw, hst⟩ := record_due s n nd
    rw [← hn', hw, hst]

/-- A read of the node's news that does not fault keeps the conversation
going. -/
theorem Talked.readNews (hs : Sound s) (h : Talked n s) {env : Env} {rc : ReadCall}
    (hwritable : ∀ nd, s.nodes n = some nd → s.DueWritable env n rc nd)
    (th : ThreadId) (q : Queue) : Talked n (readNews env s th n rc q) := by
  have hreads := readNews_reads env s th n rc q
  generalize Driver.readNews env s th n rc q = s' at hreads ⊢
  cases hreads with
  | nothing _ => exact h
  | full => exact h
  | told nd hn _ => exact h.announced hn th
  | released nd hn _ =>
      have hfree : Accounted none _ _ := nodeMaybeFree_accounted
        (announced_sound (hs.dequeue (.node n)) th n (dueCmds (s.nodeNews n nd))) n
      exact (h.announced hn th).still (hfree.still n)
  | faulted nd hn written cmd rest heq hroom hfault => exact absurd (hwritable nd hn hroom) hfault

/-- **Step.**  No effect but a faulting read breaks the conversation. -/
theorem Conversing.effect (hs : Sound s) (hset : Settled s) (h : Conversing n s)
    (he : Effect A s s') (hmgr : ¬ A (.manager n))
    (hwritable : ∀ env s₀ rc nd, A (.news env s₀ n rc) → s₀.nodes n = some nd →
      s₀.DueWritable env n rc nd) : Conversing n s' := by
  have ho := he.onward hs
  have hunmanaged : ∀ c, (s'.contexts c).mgrNode ≠ some n := by
    intro c hc
    rcases ho.managers c n hc with hold | hnew
    · exact h.unmanaged c hold
    · exact hmgr hnew
  cases he.touch hs n with
  | still hstill =>
      exact ⟨fun hid => hstill.told.trans (h.fresh (Nat.le_trans ho.nextId hid)), hunmanaged,
        h.talked.still hstill⟩
  | made p ptr cookie flags hn _ heq =>
      have htold : s'.toldAbout n = [] := by
        rw [heq]
        exact h.fresh (Nat.le_of_eq hn.symm)
      refine ⟨fun _ => htold, hunmanaged, {}, by rw [htold]; rfl, fun nd hnd => ?_⟩
      rw [heq] at hnd
      simp only [insertNode, Function.update_self, Option.some.injEq] at hnd
      rw [← hnd]
  | done strong _ =>
      refine ⟨h.fresh, hunmanaged, ?_⟩
      obtain ⟨sp, hconv, hflags⟩ := h.talked
      refine ⟨sp, hconv, fun nd' hn' => ?_⟩
      simp only [updNode, Function.update_self, Option.map_eq_some_iff] at hn'
      obtain ⟨nd, hn, rfl⟩ := hn'
      rw [hflags nd hn]
      split <;> rfl
  | discarded _ => exact ⟨h.fresh, hunmanaged, h.talked⟩
  | managed c hA => exact absurd hA hmgr
  | unmanaged p _ _ _ c hc _ _ => exact absurd hc (h.unmanaged c)
  | news env th rc q hq hA =>
      have hlt := hset.news_lt n q hq
      exact ⟨fun hid => absurd (Nat.le_trans ho.nextId hid) (Nat.not_le_of_lt hlt), hunmanaged,
        h.talked.readNews hs (fun nd hn => hwritable env s rc nd hA hn) th q⟩

/-- **The conversation is well bracketed**: the commands about a node that is
never a manager, in every run in which no write of them faults. -/
theorem conversation_bracketed (h : Reaches (fun s a =>
      (s.OnNews a fun env m rc nd => m = n → s.DueWritable env m rc nd) ∧
      ∀ c, ((s.act a).contexts c).mgrNode ≠ some n) s) :
    (conversation (s.toldAbout n)).isSome := by
  have hconversing : Conversing n s := by
    refine Reaches.effects (P := Conversing n) ?_ ?_ h
    · exact ⟨fun _ => rfl, by simp [Driver.init], {}, rfl, by simp [Driver.init]⟩
    · rintro s a - - ⟨hwritable, hmgr⟩ s₁ s₂ hs₁ hset₁ hmove h₁
      refine h₁.effect hs₁ hset₁ hmove.effect ?_ ?_
      · intro hocc
        cases hocc with
        | manager env th ptr cookie flags c _ hc => exact hmgr c hc
      · intro env s₀ rc nd hocc hn
        obtain ⟨rfl, htaken⟩ := hocc.newsTaken
        exact hwritable env n rc nd htaken hn rfl
  obtain ⟨sp, hconv, -⟩ := hconversing.talked
  rw [hconv]
  rfl

/-- The manager of its owner's context. -/
def managesContext (s : Driver) (n : NodeId) : Bool :=
  ((s.nodes n).bind (·.proc)).any fun p =>
    (s.procs p).any fun proc => (s.contexts proc.context).mgrNode = some n

theorem Reachable.managesContext (h : Reachable s) {c : Nat}
    (hc : (s.contexts c).mgrNode = some n) : s.managesContext n = true := by
  obtain ⟨nd, p, proc, hn, hp, hproc, rfl⟩ := (Reachable.steady h).settled.managed c n hc
  simp [Driver.managesContext, hn, hp, hproc, hc]

/-- A node that manages no context after a step. -/
theorem Reachable.unmanaged (h : Reachable s) {a : Action}
    (hcheck : (s.act a).managesContext n = false) (c : Nat) :
    ((s.act a).contexts c).mgrNode ≠ some n := by
  intro hc
  rw [Reachable.managesContext (Reaches.step a h trivial) hc] at hcheck
  cases hcheck

/-- Process 5 hears everything about its object, node 10, that it sent to the
manager. -/
theorem conversation_bracketed_share :
    (twoProcessesUp.run [shareObject, .readStart {} 6 0x9000 256 0, .readTurn {} 6]).toldAbout 10 =
        [.acquire, .increfs] ∧
      (conversation ((twoProcessesUp.run
        [shareObject, .readStart {} 6 0x9000 256 0, .readTurn {} 6]).toldAbout 10)).isSome := by
  refine ⟨by decide +kernel, conversation_bracketed ?_⟩
  have himp : ∀ (s : Driver) (a : Action), Reachable s →
      (decide (s.OnNews a fun env m rc nd => m = 10 → s.DueWritable env m rc nd) &&
        !(s.act a).managesContext 10) = true →
      (s.OnNews a fun env m rc nd => m = 10 → s.DueWritable env m rc nd) ∧
        ∀ c, ((s.act a).contexts c).mgrNode ≠ some 10 := by
    intro s a hreach hcheck
    rw [Bool.and_eq_true, decide_eq_true_eq, Bool.not_eq_true'] at hcheck
    exact ⟨hcheck.1, hreach.unmanaged hcheck.2⟩
  have hup := Reaches.run himp .init twoProcesses (by decide +kernel)
  exact Reaches.run himp hup _ (by decide +kernel)

/-- The read buffer of process 5 ends in an unmapped page: `BR_INCREFS` is
written and `BR_ACQUIRE` faults.  Then the manager gives the object back. -/
def tornAnnouncement : List Action :=
  [shareObject, .readStart {} 6 0x9000 256 0,
    .readTurn { copyoutOk := fun addr _ => addr < 0x9018 } 6, .leave 6,
    .command {} 2 (.reference true false 1), .command {} 6 .enterLooper,
    .readStart {} 6 0x9000 256 0, .readTurn {} 6, .readTurn {} 6]

/-- **A release without an acquire.**  The flag said the owner had been told. -/
theorem release_without_acquire :
    Reaches (fun s a => ∀ c, ((s.act a).contexts c).mgrNode ≠ some 10)
        (twoProcessesUp.run tornAnnouncement) ∧
      (twoProcessesUp.run tornAnnouncement).toldAbout 10 = [.decrefs, .release, .increfs] ∧
      conversation ((twoProcessesUp.run tornAnnouncement).toldAbout 10) = none := by
  refine ⟨?_, by decide +kernel, by decide +kernel⟩
  have himp : ∀ (s : Driver) (a : Action), Reachable s → (!(s.act a).managesContext 10) = true →
      ∀ c, ((s.act a).contexts c).mgrNode ≠ some 10 :=
    fun s a hreach hcheck => hreach.unmanaged (by simpa using hcheck)
  have hup := Reaches.run himp .init twoProcesses (by decide +kernel)
  exact Reaches.run himp hup _ (by decide +kernel)

end Driver

end Binder
