import DevfsBinder.Departures
import DevfsBinder.StrongParcels

/-!
# What the owner has not been told is queued

`binder_node_notify_owner` is called where a change of the counts is seen, by a
comparison inside `binder_node_update_refs`.  A handle that comes or goes with
weak counts only is not seen there.  As long as no such handle is the only sign
that somebody refers to its node, no notification is thrown away and none faults,
a node of which the owner has heard something else than what is true waits on
the owner's queue or on that of one of its threads.

A process that closes loses its handles one by one; in the middle of the close
none of them counts any more (`Held`).
-/

namespace Binder

/-- A node someone refers to, handles apart. -/
def Node.keepsWeak (nd : Node) : Bool := nd.hasStrong || nd.localWeakRefs ≠ 0

namespace Driver

variable {s s' s'' : Driver} {n : NodeId} {E E' : ProcId → Prop} {r : RefId} {ref : Ref}

/-! ## Handles -/

/-- Somebody who is not in `E` has a handle to the node. -/
def Held (E : ProcId → Prop) (n : NodeId) (s : Driver) : Prop :=
  ∃ r ref, s.refs r = some ref ∧ ref.node = n ∧ ¬ E ref.proc

theorem Held.congr (hrefs : s'.refs = s.refs) : Held E n s' ↔ Held E n s := by
  rw [Held, hrefs, Held]

/-- The counts of a handle do not matter. -/
theorem Held.updRef (s : Driver) (r : RefId) {f : Ref → Ref}
    (hf : ∀ ref, (f ref).proc = ref.proc ∧ (f ref).node = ref.node) :
    Held E n (s.updRef r f) ↔ Held E n s := by
  constructor
  · rintro ⟨r', ref', hr', hnode, hproc⟩
    by_cases he : r' = r
    · subst he
      simp only [Driver.updRef, Function.update_self, Option.map_eq_some_iff] at hr'
      obtain ⟨ref, hr, rfl⟩ := hr'
      exact ⟨r', ref, hr, (hf ref).2 ▸ hnode, (hf ref).1 ▸ hproc⟩
    · exact ⟨r', ref', by simpa [Driver.updRef, he] using hr', hnode, hproc⟩
  · rintro ⟨r', ref, hr, hnode, hproc⟩
    by_cases he : r' = r
    · subst he
      exact ⟨r', f ref, by simp [Driver.updRef, hr], (hf ref).2.trans hnode,
        (hf ref).1.symm ▸ hproc⟩
    · exact ⟨r', ref, by simpa [Driver.updRef, he] using hr, hnode, hproc⟩

/-- `binder_node_has_weak`: the node has counts or handles. -/
theorem nodeHasWeak_iff (hs : Sound s) (nd : Node) :
    s.nodeHasWeak n nd = true ↔ nd.keepsWeak = true ∨ Held (fun _ => False) n s := by
  have hheld : s.nodeRefs n ≠ [] ↔ Held (fun _ => False) n s := by
    constructor
    · intro hne
      obtain ⟨r, hmem⟩ := List.exists_mem_of_ne_nil _ hne
      obtain ⟨ref, hr, hnode⟩ := (hs.graph.nodeRefs.mem_iff n r).mp hmem
      exact ⟨r, ref, hr, Option.some.inj hnode, id⟩
    · rintro ⟨r, ref, hr, rfl, -⟩
      exact List.ne_nil_of_mem ((hs.graph.nodeRefs.mem_iff _ r).mpr ⟨ref, hr, rfl⟩)
  simp [Driver.nodeHasWeak, Node.keepsWeak, ← hheld]

/-- A node that a handle holds strongly has a strong count. -/
theorem Ledger.hasStrong (hs : Sound s) (h : Ledger s) (hr : s.refs r = some ref)
    (hpos : 0 < ref.strong) {nd : Node} (hn : s.nodes ref.node = some nd) :
    nd.hasStrong = true := by
  have hmem : r ∈ s.nodeRefs ref.node := (hs.graph.nodeRefs.mem_iff _ r).mpr ⟨ref, hr, rfl⟩
  have hstrong : s.holdsStrong r = true := by
    rw [holdsStrong_of_some hr]
    exact decide_eq_true hpos
  have hcount : 0 < s.strongHandles ref.node := List.countP_pos_iff.mpr ⟨r, hmem, hstrong⟩
  have hcounted := h.counted ref.node nd hn
  have hinternal : nd.internalStrongRefs ≠ 0 := by
    split at hcounted <;> omega
  simp [Node.hasStrong, hinternal]

/-! ## Changes of the counts -/

/-- The owner hears of changes of the counts.  What it was told before does not
change, and nobody gets or loses a handle. -/
structure Heeds (s s' : Driver) : Prop where
  held : ∀ E n, Held E n s' ↔ Held E n s
  back : ∀ n nd', s'.nodes n = some nd' → ∃ nd, s.nodes n = some nd ∧ nd'.proc = nd.proc ∧
    nd'.hasStrongRef = nd.hasStrongRef ∧ nd'.hasWeakRef = nd.hasWeakRef ∧
    (nd'.hasStrong = nd.hasStrong ∧ nd'.localWeakRefs = nd.localWeakRefs ∨
      ∀ p, nd.proc = some p → s.procAlive p = true → (s'.queues.loc (.node n)).isSome)
  queued : ∀ n, (s.queues.loc (.node n)).isSome → (s'.queues.loc (.node n)).isSome
  alive : ∀ p, s'.procAlive p = s.procAlive p

theorem Heeds.same (hnodes : s'.nodes = s.nodes) (hheld : ∀ E n, Held E n s' ↔ Held E n s)
    (hnews : ∀ n, s'.queues.loc (.node n) = s.queues.loc (.node n))
    (halive : ∀ p, s'.procAlive p = s.procAlive p) : Heeds s s' where
  held := hheld
  back _ nd' hn := ⟨nd', hnodes ▸ hn, rfl, rfl, rfl, .inl ⟨rfl, rfl⟩⟩
  queued n hq := hnews n ▸ hq
  alive := halive

theorem Heeds.refl (s : Driver) : Heeds s s :=
  .same rfl (fun _ _ => Iff.rfl) (fun _ => rfl) fun _ => rfl

theorem Heeds.trans (h : Heeds s s') (h' : Heeds s' s'') : Heeds s s'' where
  held E n := (h'.held E n).trans (h.held E n)
  back n nd'' hn'' := by
    obtain ⟨nd', hn', hp', hst', hw', hcount'⟩ := h'.back n nd'' hn''
    obtain ⟨nd, hn, hp, hst, hw, hcount⟩ := h.back n nd' hn'
    refine ⟨nd, hn, hp'.trans hp, hst'.trans hst, hw'.trans hw, ?_⟩
    rcases hcount' with ⟨hstrong', hweak'⟩ | hqueued'
    · rcases hcount with ⟨hstrong, hweak⟩ | hqueued
      · exact .inl ⟨hstrong'.trans hstrong, hweak'.trans hweak⟩
      · exact .inr fun p hnp hlive => h'.queued n (hqueued p hnp hlive)
    · exact .inr fun p hnp hlive => hqueued' p (hp.trans hnp) ((h.alive p).trans hlive)
  queued n hq := h'.queued n (h.queued n hq)
  alive p := (h'.alive p).trans (h.alive p)

theorem Heeds.aside (h : Aside s s') : Heeds s s' :=
  .same (congrArg Objects.nodes h.objects)
    (fun _ _ => Held.congr (congrArg Objects.refs h.objects)) h.news h.alive

/-- A change of a node in neither its counts nor what its owner was told. -/
theorem Heeds.updNode (s : Driver) (m : NodeId) {f : Node → Node}
    (hf : ∀ nd, (f nd).proc = nd.proc ∧ (f nd).hasStrongRef = nd.hasStrongRef ∧
      (f nd).hasWeakRef = nd.hasWeakRef ∧ (f nd).hasStrong = nd.hasStrong ∧
      (f nd).localWeakRefs = nd.localWeakRefs) : Heeds s (s.updNode m f) where
  held _ _ := Held.congr rfl
  back n nd' hn := by
    by_cases he : n = m
    · subst he
      rw [updNode_self, Option.map_eq_some_iff] at hn
      obtain ⟨nd, hn, rfl⟩ := hn
      obtain ⟨hp, hst, hw, hstrong, hweak⟩ := hf nd
      exact ⟨nd, hn, hp, hst, hw, .inl ⟨hstrong, hweak⟩⟩
    · exact ⟨nd', by simpa [Driver.updNode, he] using hn, rfl, rfl, rfl, .inl ⟨rfl, rfl⟩⟩
  queued _ hq := hq
  alive _ := rfl

theorem nodeMaybeFree_heeds (hs : Sound s) (n : NodeId) : Heeds s (s.nodeMaybeFree n) := by
  rcases nodeMaybeFree_cases hs n with hsame | ⟨nd, hgone⟩
  · rw [hsame]
    exact .refl s
  · refine ⟨fun _ _ => Held.congr hgone.refs, ?_, fun m hq => hgone.frame.news m ▸ hq,
      procAlive_congr hgone.frame.procs⟩
    intro m nd' hm
    by_cases he : m = n
    · simp [hgone.nodes, he] at hm
    · exact ⟨nd', by simpa [hgone.nodes, he] using hm, rfl, rfl, rfl, .inl ⟨rfl, rfl⟩⟩

/-- Only the owner's own weak counts change `local_weak_refs`. -/
theorem count_localWeakRefs {nd nd' : Node} {strong increment internal : Bool}
    (hkind : strong = true ∨ internal = true)
    (h : Node.count nd strong increment internal = some nd') :
    nd'.localWeakRefs = nd.localWeakRefs := by
  unfold Node.count at h
  grind

/-- **A crossing is seen.**  The owner hears when a node gets its first strong
count or loses its last. -/
theorem nodeUpdateRefs_heeds (hs : Sound s) (n : NodeId) (strong increment internal : Bool)
    (hkind : strong = true ∨ internal = true) (thread : Option ThreadId) :
    Heeds s (s.nodeUpdateRefs n strong increment internal thread).1 := by
  rcases nodeUpdateRefs_cases hs n strong increment internal thread with
    ⟨hsame, -⟩ | ⟨nd, nd', s₁, hcount, hrec, hs₁, heq⟩
  · rw [hsame]
    exact .refl s
  · rw [heq]
    refine Heeds.trans ?_ (nodeMaybeFree_heeds hs₁ n)
    have hsame := count_standing hcount
    refine ⟨fun _ _ => Held.congr hrec.refs, ?_, (hrec.accounted hsame).queued,
      procAlive_congr hrec.procs⟩
    intro m nd₁ hm
    by_cases he : m = n
    · subst he
      rw [hrec.nodes, Function.update_self, Option.some.injEq] at hm
      subst hm
      refine ⟨nd, hrec.node, hsame.proc, hsame.hasStrongRef, hsame.hasWeakRef, ?_⟩
      by_cases hstrong : nd'.hasStrong = nd.hasStrong
      · exact .inl ⟨hstrong, count_localWeakRefs hkind hcount⟩
      · exact .inr (hrec.crossing (.inl hstrong))
    · exact ⟨nd₁, by simpa [hrec.nodes, he] using hm, rfl, rfl, rfl, .inl ⟨rfl, rfl⟩⟩

theorem updRef_heeds (s : Driver) (r : RefId) {f : Ref → Ref}
    (hf : ∀ ref, (f ref).proc = ref.proc ∧ (f ref).node = ref.node) : Heeds s (s.updRef r f) :=
  .same rfl (fun _ _ => Held.updRef s r hf) (fun _ => rfl) fun _ => rfl

/-- A count that a handle takes is heeded. -/
theorem refRaise_heeds (hs : Sound s) (r : RefId) (strong : Bool) (thread : Option ThreadId) :
    Heeds s (s.refUpdate r strong true thread).1 := by
  unfold refUpdate
  split
  · exact .refl s
  · rename_i ref hr
    cases strong with
    | true =>
        simp only
        rw [refReap_updRef (by simp)]
        split
        · exact (nodeUpdateRefs_heeds hs ref.node true true true (.inl rfl) thread).trans
            (updRef_heeds _ r fun _ => ⟨rfl, rfl⟩)
        · exact updRef_heeds s r fun _ => ⟨rfl, rfl⟩
    | false =>
        simp only
        rw [refReap_updRef (by simp)]
        exact updRef_heeds s r fun _ => ⟨rfl, rfl⟩

/-- A handle that takes a strong count has one. -/
theorem refRaise_strong (hs : Sound s) (hr : s.refs r = some ref) (thread : Option ThreadId) :
    (s.refUpdate r true true thread).1.refs r = some { ref with strong := ref.strong + 1 } := by
  unfold refUpdate
  simp only [hr]
  rw [refReap_updRef (by simp)]
  split <;> simp [Driver.updRef, nodeUpdateRefs_refs hs, hr]

/-- A temporary reference is given back. -/
theorem nodeDecTmpref_heeds (hs : Sound s) (m : NodeId) : Heeds s (s.nodeDecTmpref m) := by
  have hkept : NodeKept fun nd : Node => { nd with tmpRefs := nd.tmpRefs - 1 } :=
    ⟨fun _ => rfl, fun _ => rfl, fun _ => rfl, fun _ => rfl⟩
  have hs₁ := ObjectStep.sound (O := fun _ => True) hs (.count m _ hkept)
  have hcount : Heeds s (s.updNode m fun nd => { nd with tmpRefs := nd.tmpRefs - 1 }) :=
    .updNode s m fun _ => ⟨rfl, rfl, rfl, rfl, rfl⟩
  exact hcount.trans (nodeMaybeFree_heeds hs₁ m)

/-! ## The invariant -/

/-- The owner has heard what is true, if the handles of processes in `E` do not
count. -/
structure UpToDate (E : ProcId → Prop) (n : NodeId) (nd : Node) (s : Driver) : Prop where
  strong : nd.hasStrongRef = nd.hasStrong
  weak : nd.hasWeakRef = true ↔ nd.keepsWeak = true ∨ Held E n s

/-- The owner of `n` has heard what is true, or is about to. -/
def Informed (E : ProcId → Prop) (n : NodeId) (s : Driver) : Prop :=
  ∀ nd p, s.nodes n = some nd → nd.proc = some p → s.procAlive p = true →
    UpToDate E n nd s ∨ (s.queues.loc (.node n)).isSome

theorem UpToDate.congr {nd : Node} (h : UpToDate E n nd s) (hrefs : s'.refs = s.refs) :
    UpToDate E n nd s' :=
  ⟨h.strong, h.weak.trans (or_congr_right (Held.congr hrefs).symm)⟩

theorem Informed.heeds (h : Informed E n s) (hheeds : Heeds s s') : Informed E n s' := by
  intro nd' p hn' hp hlive
  obtain ⟨nd, hn, hproc, hst, hw, hcount⟩ := hheeds.back n nd' hn'
  rw [hproc] at hp
  rw [hheeds.alive] at hlive
  rcases hcount with ⟨hstrong, hweak⟩ | hqueued
  · refine (h nd p hn hp hlive).imp (fun htold => ⟨by rw [hst, hstrong]; exact htold.strong, ?_⟩)
      (hheeds.queued n)
    rw [hw, hheeds.held, htold.weak, Node.keepsWeak, Node.keepsWeak, hstrong, hweak]
  · exact .inr (hqueued p hp hlive)

/-- Nothing about the node changes but, perhaps, that its owner dies. -/
theorem Informed.congr (h : Informed E n s) (hnodes : s'.nodes n = s.nodes n)
    (hrefs : s'.refs = s.refs) (hnews : s'.queues.loc (.node n) = s.queues.loc (.node n))
    (halive : ∀ nd p, s.nodes n = some nd → nd.proc = some p → s'.procAlive p = true →
      s.procAlive p = true) : Informed E n s' := by
  intro nd p hn hp hlive
  rw [hnodes] at hn
  rw [hnews]
  exact (h nd p hn hp (halive nd p hn hp hlive)).imp_left fun htold => htold.congr hrefs

/-- A node whose owner is gone. -/
theorem Informed.orphaned (h : ∀ nd p, s.nodes n = some nd → nd.proc = some p →
    s.procAlive p = false) : Informed E n s := by
  intro nd p hn hp hlive
  rw [h nd p hn hp] at hlive
  cases hlive

/-- Who has handles changes, but not whether somebody does; or the node has counts,
or its owner is about to hear from it anyway. -/
theorem Informed.reheld (h : Informed E n s) (hnodes : s'.nodes = s.nodes)
    (hnews : s'.queues.loc (.node n) = s.queues.loc (.node n)) (hprocs : s'.procs = s.procs)
    (hheld : ∀ nd p, s.nodes n = some nd → nd.proc = some p → s.procAlive p = true →
      nd.keepsWeak = true ∨ (s.queues.loc (.node n)).isSome ∨ (Held E' n s' ↔ Held E n s)) :
    Informed E' n s' := by
  intro nd p hn hp hlive
  rw [hnodes] at hn
  rw [procAlive_congr hprocs] at hlive
  rw [hnews]
  rcases hheld nd p hn hp hlive with hkeeps | hqueued | hsame
  · refine (h nd p hn hp hlive).imp_left fun htold => ⟨htold.strong, htold.weak.trans ?_⟩
    rw [hkeeps]
    exact ⟨fun _ => .inl rfl, fun _ => .inl rfl⟩
  · exact .inr hqueued
  · exact (h nd p hn hp hlive).imp_left fun htold =>
      ⟨htold.strong, htold.weak.trans (or_congr_right hsame.symm)⟩

/-! ## Handles that come and go -/

/-- If the owner of `n` lives, something besides handle `r` speaks for the node: a
count, news that wait, or a handle of somebody who is not in `E`. -/
def Spare (E : ProcId → Prop) (r : RefId) (n : NodeId) (s : Driver) : Prop :=
  ∀ nd p, s.nodes n = some nd → nd.proc = some p → s.procAlive p = true →
    nd.keepsWeak = true ∨ (s.queues.loc (.node n)).isSome ∨
      ∃ r' ref', r' ≠ r ∧ s.refs r' = some ref' ∧ ref'.node = n ∧ ¬ E ref'.proc

/-- A handle goes whose holder does not count, or that can be spared. -/
theorem Informed.forgetRef (h : Informed E n s) (hr : s.refs r = some ref)
    (hspare : E ref.proc ∨ Spare E r ref.node s) (hnodes : s'.nodes = s.nodes)
    (hnews : s'.queues.loc (.node n) = s.queues.loc (.node n)) (hprocs : s'.procs = s.procs)
    (hrefs : s'.refs = Function.update s.refs r none) : Informed E n s' := by
  refine h.reheld hnodes hnews hprocs fun nd p hn hp hlive => ?_
  have hother : ∀ r', r' ≠ r → s'.refs r' = s.refs r' := fun r' hne => by
    rw [hrefs, Function.update_of_ne hne]
  have hback : Held E n s' → Held E n s := by
    rintro ⟨r', ref', hr', hheld⟩
    have hne : r' ≠ r := by
      rintro rfl
      rw [hrefs, Function.update_self] at hr'
      cases hr'
    exact ⟨r', ref', hother r' hne ▸ hr', hheld⟩
  by_cases hlost : ref.node = n ∧ ¬ E ref.proc
  · obtain ⟨rfl, hE⟩ := hlost
    rcases hspare.resolve_left hE nd p hn hp hlive with hkeeps | hq | ⟨r', ref', hne, hr', hheld⟩
    · exact .inl hkeeps
    · exact .inr (.inl hq)
    · exact .inr (.inr ⟨hback, fun _ => ⟨r', ref', hother r' hne ▸ hr', hheld⟩⟩)
  · refine .inr (.inr ⟨hback, ?_⟩)
    rintro ⟨r', ref', hr', hheld⟩
    have hne : r' ≠ r := by
      rintro rfl
      cases hr.symm.trans hr'
      exact hlost hheld
    exact ⟨r', ref', (hother r' hne).trans hr', hheld⟩

theorem Informed.refDelete (hs : Sound s) (h : Informed E n s) (r : RefId)
    (hspare : ∀ ref, s.refs r = some ref → E ref.proc ∨ Spare E r ref.node s) :
    Informed E n (s.refDelete r) := by
  unfold Driver.refDelete
  split
  · exact h
  · rename_i ref hr
    have hs₁ := hs.forgetRef hr
    refine Informed.heeds ?_ (nodeUpdateRefs_heeds hs₁ ref.node _ false true (.inr rfl) none)
    apply h.forgetRef hr (hspare ref hr)
    all_goals cases ref.death
    all_goals simp [Driver.forgetRef, releaseDeath, dequeueWork, forgetDeath, Queues.remove_loc]

/-- A handle without counts goes. -/
theorem Informed.refReap (hs : Sound s) (h : Informed E n s) (r : RefId)
    (hspare : ∀ ref, s.refs r = some ref → ref.strong = 0 → ref.weak = 0 →
      Spare E r ref.node s) : Informed E n (s.refReap r) := by
  unfold Driver.refReap
  split
  · exact h
  · rename_i ref hr
    split
    · rename_i hzero
      refine h.refDelete hs r fun ref' hr' => .inr ?_
      cases hr.symm.trans hr'
      exact hspare ref hr hzero.1 hzero.2
    · exact h

/-- A strong count is given back.  If it was the node's last, the owner hears of it,
and otherwise the node still has a count. -/
theorem Informed.lowerStrong (hs : Sound s) (hledger : Ledger s) (h : Informed E n s) (r : RefId)
    (thread : Option ThreadId) : Informed E n (s.refUpdate r true false thread).1 := by
  unfold refUpdate
  split
  · exact h
  rename_i ref hr
  simp only
  split
  · exact h
  rename_i hpos
  have hlower : Heeds s (s.updRef r fun ref => { ref with strong := ref.strong - 1 }) :=
    updRef_heeds s r fun _ => ⟨rfl, rfl⟩
  have hs₁ : Sound (s.updRef r fun ref => { ref with strong := ref.strong - 1 }) :=
    ObjectStep.sound hs (.lower (O := fun _ => True) r _ ⟨by simp, by simp, by simp⟩
      fun _ _ => trivial)
  have hself : (s.updRef r fun ref => { ref with strong := ref.strong - 1 }).refs r =
      some { ref with strong := ref.strong - 1 } := by
    simp [Driver.updRef, hr]
  split
  · have hheeds := hlower.trans
      (nodeUpdateRefs_heeds hs₁ ref.node true false true (.inl rfl) thread)
    have hs₂ := ObjectSteps.sound hs₁ (nodeUpdateRefs_steps (O := fun _ => True) hs₁ ref.node
      true false true thread)
    refine (h.heeds hheeds).refReap hs₂ r fun ref₂ hr₂ _ _ nd₂ p hn₂ hp hlive => ?_
    rw [nodeUpdateRefs_refs hs₁, hself] at hr₂
    cases hr₂
    obtain ⟨nd, hn, hproc, -, -, ⟨hsame, -⟩ | hqueued⟩ := hheeds.back _ nd₂ hn₂
    · have hstrong := hledger.hasStrong hs hr (Nat.pos_of_ne_zero hpos) hn
      exact .inl (by rw [Node.keepsWeak, hsame, hstrong, Bool.true_or])
    · exact .inr (.inl (hqueued p (hproc ▸ hp) (hheeds.alive p ▸ hlive)))
  · rename_i hone
    refine (h.heeds hlower).refReap hs₁ r fun ref₁ hr₁ hzero _ => ?_
    rw [hself] at hr₁
    cases hr₁
    exact absurd (show ref.strong - 1 = 0 from hzero) (by omega)

/-- A weak count is given back on a handle that can be spared if it was the last. -/
theorem Informed.lowerWeak (hs : Sound s) (h : Informed E n s) (r : RefId)
    (thread : Option ThreadId)
    (hspare : ∀ ref, s.refs r = some ref → ref.strong = 0 → ref.weak = 1 →
      Spare E r ref.node s) : Informed E n (s.refUpdate r false false thread).1 := by
  unfold refUpdate
  split
  · exact h
  rename_i ref hr
  simp only
  split
  · exact h
  rename_i hpos
  have hs₁ : Sound (s.updRef r fun ref => { ref with weak := ref.weak - 1 }) :=
    ObjectStep.sound hs (.lower (O := fun _ => True) r _ ⟨by simp, by simp, by simp⟩
      fun _ _ => trivial)
  have hlower : Heeds s (s.updRef r fun ref => { ref with weak := ref.weak - 1 }) :=
    updRef_heeds s r fun _ => ⟨rfl, rfl⟩
  refine (h.heeds hlower).refReap hs₁ r ?_
  intro ref₁ hr₁ hstrong hweak nd p hn hp hlive
  simp only [Driver.updRef, Function.update_self, hr, Option.map_some, Option.some.injEq] at hr₁
  subst hr₁
  have hone : ref.weak = 1 := by
    have : ref.weak - 1 = 0 := hweak
    omega
  refine (hspare ref hr hstrong hone nd p hn hp hlive).imp_right (Or.imp_right ?_)
  rintro ⟨r', ref', hne, hr', hheld⟩
  exact ⟨r', ref', hne, by simpa [Driver.updRef, hne] using hr', hheld⟩

/-- Somebody gets a handle to node `m`. -/
theorem Informed.insertRef (h : Informed E n s) (p : ProcId) (m : NodeId)
    (hm : n = m → ∀ nd p, s.nodes n = some nd → nd.proc = some p → s.procAlive p = true →
      nd.keepsWeak = true ∨ (s.queues.loc (.node n)).isSome ∨ Held E n s)
    (hfresh : s.refs s.nextId = none) : Informed E n (s.bumpId.insertRef s.nextId p m) := by
  have honward : Held E n s → Held E n (s.bumpId.insertRef s.nextId p m) := by
    rintro ⟨r, ref, hr, hheld⟩
    have hne : r ≠ s.nextId := by
      rintro rfl
      rw [hfresh] at hr
      cases hr
    exact ⟨r, ref, by simpa [Driver.insertRef, bumpId, hne] using hr, hheld⟩
  refine h.reheld rfl rfl rfl fun nd p hn hp hlive => ?_
  by_cases he : n = m
  · refine (hm he nd p hn hp hlive).imp_right (Or.imp_right fun hheld => ?_)
    exact ⟨fun _ => hheld, fun _ => honward hheld⟩
  · refine .inr (.inr ⟨?_, honward⟩)
    rintro ⟨r, ref, hr, hnode, hproc⟩
    by_cases hnew : r = s.nextId
    · simp only [Driver.insertRef, hnew, Function.update_self, Option.some.injEq] at hr
      exact absurd (hnode.symm.trans (by rw [← hr])) he
    · exact ⟨r, ref, by simpa [Driver.insertRef, bumpId, hnew] using hr, hnode, hproc⟩

/-- A handle is found or made, and takes a count.  The owner hears of a strong one
if it is the first; a weak one needs something else that speaks for the node. -/
theorem Informed.takeRef (hs : Sound s) (hledger : Ledger s) (h : Informed E n s) {env : Env}
    {p : ProcId} {m : NodeId} {s₁ : Driver} (hm : (s.nodes m).isSome)
    (hget : s.refGetForNode env p m = (some r, s₁)) (strong : Bool) (thread : Option ThreadId)
    (hweak : strong = false → ∀ nd, s.nodes m = some nd →
      nd.keepsWeak = true ∨ (s.queues.loc (.node m)).isSome ∨ Held E m s) :
    Informed E n (s₁.refUpdate r strong true thread).1 := by
  have hs₁ := refGetForNode_sound hs hget
  have hraise := refRaise_heeds hs₁ r strong thread
  have hledger₂ := hledger.takeRef hs hm hget strong thread
  have hs₂ := ObjectSteps.sound hs₁ (refUpdate_take_steps (O := fun _ => True) hs₁ r strong thread)
  rcases s.refGetForNode_ends env p m with ⟨r, -, heq⟩ | ⟨-, heq⟩ | heq <;>
    cases heq.symm.trans hget
  · exact h.heeds hraise
  have hfresh : s.refs s.nextId = none := hs.graph.refs_fresh
  obtain ⟨nd, hnd⟩ := Option.isSome_iff_exists.mp hm
  by_cases hfirst : n = m ∧ strong = true ∧ nd.hasStrong = false
  · -- the first strong count is a crossing
    obtain ⟨rfl, rfl, hnone⟩ := hfirst
    intro nd₂ q hn₂ hq hlive
    obtain ⟨nd₁, hn₁, hproc, -, -, ⟨hsame, -⟩ | hqueued⟩ := hraise.back n nd₂ hn₂
    · cases hnd.symm.trans hn₁
      have hr₂ := refRaise_strong (r := s.nextId) hs₁ (by simp [Driver.insertRef]; rfl) thread
      have hstrong := hledger₂.hasStrong hs₂ hr₂ (Nat.succ_pos _) hn₂
      rw [hsame, hnone] at hstrong
      cases hstrong
    · exact .inr (hqueued q (hproc ▸ hq) (hraise.alive q ▸ hlive))
  · refine (h.insertRef p m ?_ hfresh).heeds hraise
    rintro rfl nd' q hn' _ _
    cases hnd.symm.trans hn'
    cases strong with
    | false => exact hweak rfl nd hnd
    | true =>
        have hstrong : nd.hasStrong = true := by simpa using hfirst
        exact .inl (by rw [Node.keepsWeak, hstrong, Bool.true_or])

/-! ## Reading news -/

theorem Node.record_counts (nd : Node) (cmd : BR) :
    (nd.record cmd).hasStrong = nd.hasStrong ∧ (nd.record cmd).keepsWeak = nd.keepsWeak := by
  cases cmd <;> exact ⟨rfl, rfl⟩

theorem Node.records_counts (nd : Node) (cmds : List BR) :
    (cmds.foldl Node.record nd).hasStrong = nd.hasStrong ∧
      (cmds.foldl Node.record nd).keepsWeak = nd.keepsWeak := by
  induction cmds generalizing nd with
  | nil => exact ⟨rfl, rfl⟩
  | cons cmd cmds ih =>
      obtain ⟨hstrong, hweak⟩ := ih (nd.record cmd)
      obtain ⟨hstrong', hweak'⟩ := Node.record_counts nd cmd
      exact ⟨hstrong.trans hstrong', hweak.trans hweak'⟩

/-- A node whose owner has just heard all that was due. -/
theorem upToDate_of_due (hs : Sound s) (nd : Node) :
    UpToDate (fun _ => False) n ((dueCmds (s.nodeNews n nd)).foldl Node.record nd) s := by
  obtain ⟨hw, hst⟩ := record_due s n nd
  obtain ⟨hstrong, hkeeps⟩ := Node.records_counts nd (dueCmds (s.nodeNews n nd))
  refine ⟨by rw [hst, hstrong], ?_⟩
  rw [hw, hkeeps]
  exact nodeHasWeak_iff hs nd

/-- A read of the node's news that does not fault. -/
theorem Informed.readNews (hs : Sound s) {env : Env} {rc : ReadCall}
    (hwritable : ∀ nd, s.nodes n = some nd → s.DueWritable env n rc nd) (th : ThreadId)
    (q : Queue) : Informed (fun _ => False) n (readNews env s th n rc q) := by
  intro nd' p hn' _ _
  suffices h : UpToDate (fun _ => False) n nd' s ∨
      ((Driver.readNews env s th n rc q).queues.loc (.node n)).isSome from
    h.imp_left fun htold => htold.congr (readNews_kept hs env th n rc q).1
  have htold : ∀ nd, s.nodes n = some nd →
      (announced th n (dueCmds (s.nodeNews n nd)) (s.dequeueWork (.node n))).nodes n = some nd' →
      UpToDate (fun _ => False) n nd' s := by
    intro nd hn hsome
    rw [announced_node (s := s.dequeueWork (.node n)) th _ hn, Option.some.injEq] at hsome
    exact hsome ▸ upToDate_of_due hs nd
  generalize hres : Driver.readNews env s th n rc q = s' at hn' ⊢
  have hreads := readNews_reads env s th n rc q
  rw [hres] at hreads
  cases hreads with
  | nothing hnothing =>
      have hn : s.nodes n = some nd' := hn'
      have hdue := upToDate_of_due (n := n) hs nd'
      rw [hnothing nd' hn] at hdue
      exact .inl hdue
  | full =>
      refine .inr ?_
      simp [putBack, dequeueWork, Queues.insert_loc, Queues.remove_loc]
  | told nd hn _ => exact .inl (htold nd hn hn')
  | released nd hn _ =>
      rcases nodeMaybeFree_cases (announced_sound (hs.dequeue (.node n)) th n
        (dueCmds (s.nodeNews n nd))) n with hsame | ⟨_, hgone⟩
      · exact .inl (htold nd hn (hsame ▸ hn'))
      · simp [hgone.nodes] at hn'
  | faulted nd hn written cmd rest heq hroom hfault => exact absurd (hwritable nd hn hroom) hfault

/-! ## Effects -/

variable {A : Kind → Prop}

/-- What the invariant needs to know of an effect. -/
structure Cares (A : Kind → Prop) (E : ProcId → Prop) : Prop where
  strong : ¬ A .weak
  take : ∀ s m nd, A (.weakTake s m) → s.nodes m = some nd →
    nd.keepsWeak = true ∨ (s.queues.loc (.node m)).isSome ∨ Held E m s
  give : ∀ s r ref, A (.weakGive s r) → s.refs r = some ref → ref.strong = 0 → ref.weak = 1 →
    Spare E r ref.node s
  close : ∀ p, A (.close p) → E p
  kept : ∀ n, ¬ A (.discard n)
  writable : ∀ env s n rc nd, A (.news env s n rc) → s.nodes n = some nd →
    s.DueWritable env n rc nd
  open_ : ∀ env s n rc, A (.news env s n rc) → E = fun _ => False

/-- An effect on counts that may be weak, where none is, is one on strong counts. -/
theorem strong_of_not_weak (hA : ¬ A .weak) {strong : Bool} (h : strong = false → A .weak) :
    strong = true := by
  cases strong with
  | true => rfl
  | false => exact absurd (h rfl) hA

/-- A new process owns no node yet. -/
theorem Informed.procNew (hset : Settled s) (h : Informed E n s) (env : Env) (pid ctx : Nat) :
    Informed E n (procNew env s pid ctx).2 := by
  refine procNew_rule env pid ctx (h.congr rfl rfl rfl fun _ _ _ _ hp => hp)
    (h.congr rfl rfl rfl fun nd p hn hp hlive => ?_)
  exact procAlive_of_insertProc (s := s.bumpId) (Nat.ne_of_lt (hset.owner_lt n nd p hn hp)) hlive

/-- A manager that resigns belongs to a process that is dead. -/
theorem Informed.releaseManager (h : Informed E n s) {p : ProcId}
    (hdead : s.procAlive p = false) : Informed E n (s.releaseManager p) := by
  apply releaseManager_rule p h
  intro proc m _ _ hown
  by_cases he : n = m
  · subst he
    refine .orphaned fun nd' p' hn' hp' => ?_
    rw [updNode_self, Option.map_eq_some_iff] at hn'
    obtain ⟨nd, hn, rfl⟩ := hn'
    have hn₀ : s.nodes n = some nd := hn
    rw [hn₀, Option.bind_some, show nd.proc = some p' from hp', Option.some.injEq] at hown
    exact hown ▸ hdead
  · exact h.congr (by simp [Driver.updNode, he]; rfl) rfl rfl fun _ _ _ _ hp => hp

/-- Of a node that has just been made there is nothing to tell. -/
theorem Informed.insertNode (hs : Sound s) (hledger : Ledger s) (h : Informed E n s) (p : ProcId)
    (ptr cookie flags : Nat) :
    Informed E n (s.bumpId.insertNode s.nextId p ptr cookie flags) := by
  by_cases he : n = s.nextId
  · intro nd p' hn _ _
    simp only [Driver.insertNode, he, Function.update_self, Option.some.injEq] at hn
    rw [← hn]
    refine .inl ⟨rfl, ⟨fun htold => Bool.noConfusion htold, ?_⟩⟩
    rintro (hkeeps | ⟨r, ref, hr, hnode, -⟩)
    · cases hkeeps
    · have hnamed := hledger.named r ref hr
      rw [hnode, he, hs.graph.nodes_fresh] at hnamed
      cases hnamed
  · exact h.congr (by simp [Driver.insertNode, bumpId, he]) rfl rfl fun _ _ _ _ hp => hp

/-- A manager is made with everything told. -/
theorem Informed.managed (h : Informed E n s) (c : Nat) (m : NodeId) :
    Informed E n ((s.updContext c fun ctx => { ctx with mgrNode := some m }).updNode m
      Node.managed) := by
  by_cases he : n = m
  · subst he
    intro nd' p hn' _ _
    rw [updNode_self, Option.map_eq_some_iff] at hn'
    obtain ⟨nd, -, rfl⟩ := hn'
    refine .inl ⟨?_, ?_⟩ <;> simp [Node.managed, Node.hasStrong, Node.keepsWeak]
  · exact h.congr (by simp [Driver.updNode, he]; rfl) rfl rfl fun _ _ _ _ hp => hp

/-- A node loses its owner. -/
theorem Informed.releaseNode (hs : Sound s) (h : Informed E n s) {p : ProcId} {m : NodeId}
    (hmem : m ∈ s.procNodes p) : Informed E n (s.releaseNode p m) := by
  obtain ⟨s₁, hs₁, hframe, hobj, heq⟩ := releaseNode_cases hs hmem
  have hnodes : s₁.nodes n = _ := congrFun (congrArg Objects.nodes hobj) n
  rw [heq]
  refine Informed.heeds ?_ (nodeMaybeFree_heeds hs₁ m)
  by_cases he : n = m
  · subst he
    intro nd' p' hn' hp' _
    rw [hnodes] at hn'
    simp only [objects, updNode_self, Option.map_eq_some_iff] at hn'
    obtain ⟨nd, -, rfl⟩ := hn'
    cases hp'
  · refine h.congr ?_ (congrArg Objects.refs hobj) (hframe.news n) fun nd p' _ _ hlive => ?_
    · rw [hnodes]
      simp [objects, Driver.updNode, unlistNode, he]
    · rw [← procAlive_congr hframe.procs]
      exact hlive

/-- News about another node are read. -/
theorem Informed.readOther (hs : Sound s) (h : Informed E n s) {m : NodeId} (hne : n ≠ m)
    (env : Env) (th : ThreadId) (rc : ReadCall) (q : Queue) :
    Informed E n (Driver.readNews env s th m rc q) := by
  obtain ⟨s₁, hrefs, hprocs, hother, hcase⟩ := readNews_apart hs env th m rc q
  have h₁ : Informed E n s₁ := h.congr (hother n hne).1 hrefs (hother n hne).2
    fun _ p _ _ hlive => procAlive_congr hprocs p ▸ hlive
  rcases hcase with heq | ⟨hs₁, heq⟩
  · rw [heq]
    exact h₁
  · rw [heq]
    exact h₁.heeds (nodeMaybeFree_heeds hs₁ m)

/-- **Step.**  The owner stays informed, case by case over what an effect can be: the
counts are heeded, a handle that goes can be spared, an owner that dies need not be told,
and news that are read are told. -/
theorem Informed.effect (hs : Sound s) (hset : Settled s) (hledger : Ledger s)
    (h : Informed E n s) (he : Effect A s s') (hA : Cares A E) : Informed E n s' := by
  cases he with
  | aside ha => exact h.heeds (.aside ha)
  | birth env pid ctx _ => exact .procNew hset h env pid ctx
  | dying p _ => exact h.congr rfl rfl rfl fun _ _ _ _ => procAlive_of_dying
  | unmanage p hdead _ => exact h.releaseManager hdead
  | enter env p tid =>
      exact threadGet_rule env p tid h (h.congr rfl rfl rfl fun _ _ _ _ hp => hp)
        (h.congr rfl rfl rfl fun _ _ _ _ hp => hp)
  | exit p th _ => exact h.congr rfl rfl rfl fun _ _ _ _ hp => hp
  | discard m hkind =>
      by_cases he : n = m
      · subst he
        exact .orphaned (hkind.resolve_left (hA.kept n))
      · refine h.congr rfl rfl ?_ fun _ _ _ _ hp => hp
        simp [dequeueWork, Queues.remove_loc, he]
  | localRef m strong increment thread hkind =>
      have hstrong := strong_of_not_weak hA.strong hkind
      exact h.heeds (nodeUpdateRefs_heeds hs m strong increment false (.inl hstrong) thread)
  | takeRef env p m strong thread r s₁ _ hm _ hget hkind =>
      exact .takeRef hs hledger h hm hget strong thread fun hweak nd hn =>
        hA.take s m nd ((hkind hweak).resolve_left hA.strong) hn
  | holdRef r strong thread => exact h.heeds (refRaise_heeds hs r strong thread)
  | giveRef r strong thread hkind =>
      cases strong with
      | true => exact .lowerStrong hs hledger h r thread
      | false =>
          exact .lowerWeak hs h r thread fun ref =>
            hA.give s r ref ((hkind rfl).resolve_left hA.strong)
  | markRef r death ha =>
      have hmark : Heeds s (s.updRef r fun ref => { ref with death := death }) :=
        updRef_heeds s r fun _ => ⟨rfl, rfl⟩
      exact (h.heeds hmark).heeds (.aside ha)
  | deleteRef r hclose =>
      exact .refDelete hs h r fun ref hr => .inl (hA.close ref.proc (hclose ref hr))
  | makeNode m p ptr cookie flags _ hm _ _ =>
      subst hm
      exact .insertNode hs hledger h p ptr cookie flags
  | hold m => exact h.heeds (.updNode s m fun _ => ⟨rfl, rfl, rfl, rfl, rfl⟩)
  | unhold m => exact h.heeds (nodeDecTmpref_heeds hs m)
  | async m b => exact h.heeds (.updNode s m fun _ => ⟨rfl, rfl, rfl, rfl, rfl⟩)
  | done m strong _ =>
      refine h.heeds (.updNode s m fun nd => ?_)
      cases strong <;> exact ⟨rfl, rfl, rfl, rfl, rfl⟩
  | manager c m _ _ => exact h.managed c m
  | orphan p m hmem hdead _ => exact .releaseNode hs h hmem
  | bury p _ _ => exact h.congr rfl rfl rfl fun _ _ _ _ => procAlive_of_forgetProc
  | news env th m rc q _ hkind =>
      by_cases he : n = m
      · subst he
        rw [hA.open_ env s n rc hkind]
        exact .readNews hs (fun nd hn => hA.writable env s n rc nd hkind hn) th q
      · exact .readOther hs h he env th rc q

/-! ## Whole runs -/

/-- Handle `r` is not the only sign that somebody refers to node `n`, or its owner is
about to hear from it anyway. -/
def Backed (s : Driver) (r : RefId) (n : NodeId) (nd : Node) : Prop :=
  nd.keepsWeak = true ∨ (s.queues.loc (.node n)).isSome ∨ ∃ r' ∈ s.nodeRefs n, r' ≠ r

/-- A step that loses no notification.  A handle made for a weak count, and one that
goes with its last weak count or with a process that has no strong count of it, is not
the only sign of a reference to its node; the objects of a parcel are strong and keep
apart, a thread does not exit with news about a node on its queue, and the news a read
takes can be written. -/
structure KeepsNews (s : Driver) (a : Action) : Prop where
  take : ∀ env th thread desc n nd, a = .command env th (.reference false true desc) →
    s.threads th = some thread → s.mgrNodeOf thread.proc = some n → s.nodes n = some nd →
    s.nodeHasWeak n nd = true ∨ (s.queues.loc (.node n)).isSome
  give : ∀ env th thread desc r ref nd, a = .command env th (.reference false false desc) →
    s.threads th = some thread → s.refFindByDesc thread.proc desc = some r →
    s.refs r = some ref → ref.strong = 0 → ref.weak = 1 → s.nodes ref.node = some nd →
    s.Backed r ref.node nd
  close : ∀ r ref nd, a = .devClose ref.proc → s.refs r = some ref → ref.strong = 0 →
    s.nodes ref.node = some nd → s.Backed r ref.node nd
  parcel : ∀ env th thread reply isSg tr c ls, a = .command env th (.transaction reply isSg tr) →
    s.threads th = some thread → sentParcel env s thread.proc th tr reply isSg = some (c, ls) →
    StrongParcel c ls.kdata
  exit : ∀ th n, a = .threadExit th → s.queues.loc (.node n) ≠ some (.thread th)
  news : s.OnNews a fun env n rc nd => s.DueWritable env n rc nd

/-- What such a run keeps. -/
structure WellInformed (s : Driver) : Prop where
  stored : ¬ s.StoresWeak
  informed : ∀ n, Informed (fun _ => False) n s

/-- Another handle of the node is somebody's. -/
theorem exists_handle (hs : Sound s) (h : ∃ r' ∈ s.nodeRefs n, r' ≠ r) :
    ∃ r' ref', r' ≠ r ∧ s.refs r' = some ref' ∧ ref'.node = n := by
  obtain ⟨r', hmem, hne⟩ := h
  obtain ⟨ref', hr', hnode⟩ := (hs.graph.nodeRefs.mem_iff n r').mp hmem
  exact ⟨r', ref', hne, hr', Option.some.inj hnode⟩

/-- The condition on an action, as one on its effects. -/
theorem KeepsNews.cares {a : Action} (h : KeepsNews s a) (hs : Sound s)
    (hstored : ¬ s.StoresWeak) : Cares (s.Occurs a) fun p => s.Occurs a (.close p) where
  strong hocc := by
    cases hocc with
    | weakParcel env th thread reply isSg tr hth hweak =>
        exact StrongParcel.not_carriesWeak
          (fun c ls hparcel => h.parcel env th thread reply isSg tr c ls rfl hth hparcel) hweak
    | weakStored _ hweak => exact hstored hweak
  take s₀ m nd hocc hn := by
    cases hocc with
    | weakTake env th thread desc _ hth hmgr =>
        rcases h.take env th thread desc m nd rfl hth hmgr hn with hweak | hqueued
        · refine ((nodeHasWeak_iff hs nd).mp hweak).imp_right fun hheld => .inr ?_
          obtain ⟨r, ref, hr, hnode, -⟩ := hheld
          exact ⟨r, ref, hr, hnode, fun hclose => by cases hclose⟩
        · exact .inr (.inl hqueued)
  give s₀ r ref hocc hr hstrong hweak nd p hn _ _ := by
    cases hocc with
    | weakGive env th thread desc _ hth hfind =>
        have hbacked := h.give env th thread desc r ref nd rfl hth hfind hr hstrong hweak hn
        refine hbacked.imp_right (Or.imp_right fun hother => ?_)
        obtain ⟨r', ref', hne, hr', hnode⟩ := exists_handle hs hother
        exact ⟨r', ref', hne, hr', hnode, fun hclose => by cases hclose⟩
  close p hocc := hocc
  kept n hocc := by
    cases hocc with
    | discard th _ hloc => exact h.exit th n rfl hloc
  writable env s₀ n rc nd hocc hn := by
    obtain ⟨rfl, htaken⟩ := hocc.newsTaken
    exact h.news env n rc nd htaken hn
  open_ env s₀ n rc hocc := by
    funext p
    refine eq_false fun hclose => ?_
    cases hclose
    cases hocc

theorem Occurs.closes {a : Action} {p : ProcId} (h : s.Occurs a (.close p)) :
    a = .devClose p := by
  cases h
  rfl

/-- At the start of a close the handles of the process stop counting. -/
theorem Informed.parting {a : Action} (hs : Sound s) (hledger : Ledger s) (hok : KeepsNews s a)
    (h : Informed (fun _ => False) n s) : Informed (fun p => s.Occurs a (.close p)) n s := by
  refine h.reheld rfl rfl rfl fun nd p hn _ _ => ?_
  by_cases hheld : Held (fun p => s.Occurs a (.close p)) n s
  · exact .inr (.inr ⟨fun _ => hheld.imp fun _ h => h.imp fun _ h => ⟨h.1, h.2.1, id⟩,
      fun _ => hheld⟩)
  by_cases hany : Held (fun _ => False) n s
  · obtain ⟨r, ref, hr, rfl, -⟩ := hany
    have hclose : s.Occurs a (.close ref.proc) := by
      by_contra hopen
      exact hheld ⟨r, ref, hr, rfl, hopen⟩
    cases hstrong : ref.strong with
    | succ k =>
        have hst := hledger.hasStrong hs hr (hstrong ▸ Nat.succ_pos k) hn
        exact .inl (by rw [Node.keepsWeak, hst, Bool.true_or])
    | zero =>
        rcases hok.close r ref nd hclose.closes hr hstrong hn with hkeeps | hqueued | hother
        · exact .inl hkeeps
        · exact .inr (.inl hqueued)
        · -- another handle is another process's
          obtain ⟨r', ref', hne, hr', hnode⟩ := exists_handle hs hother
          refine absurd ⟨r', ref', hr', hnode, fun hclose' => hne ?_⟩ hheld
          have hproc := Action.devClose.inj (hclose'.closes.symm.trans hclose.closes)
          exact hledger.unique r' r ref' ref hr' hr hproc hnode
  · exact .inr (.inr ⟨fun h => absurd h hheld, fun h => absurd h hany⟩)

/-- A close that is carried out leaves the process no handle. -/
theorem act_parted (hst : Steady s) (a : Action) : s.act a = s ∨
    ∀ r ref, (s.act a).refs r = some ref → ¬ s.Occurs a (.close ref.proc) := by
  by_cases hclose : ∃ p, a = .devClose p
  · obtain ⟨p, rfl⟩ := hclose
    rw [Driver.act]
    split
    · refine .inr fun r ref hr hocc => ?_
      cases hocc
      exact (procRelease_empties hst.sound hst.settled ref.proc).2 r ref hr rfl
    · exact .inl rfl
  · refine .inr fun r ref _ hocc => ?_
    cases hocc
    exact hclose ⟨_, rfl⟩

/-- **Step.**  A step that keeps news leaves every owner informed. -/
theorem WellInformed.act (hreach : Reachable s) (h : WellInformed s) {a : Action}
    (hok : KeepsNews s a) : WellInformed (s.act a) := by
  have hst := Reachable.steady hreach
  have hledger := hreach.ledger
  have hcares := hok.cares hst.sound h.stored
  have hmid : (Settled (s.act a) ∧ Ledger (s.act a)) ∧ ¬ (s.act a).StoresWeak ∧
      ∀ n, Informed (fun p => s.Occurs a (.close p)) n (s.act a) := by
    refine (hst.moves a).invariant
      (P := fun s₁ => (Settled s₁ ∧ Ledger s₁) ∧ ¬ s₁.StoresWeak ∧
        ∀ n, Informed (fun p => s.Occurs a (.close p)) n s₁) ?_ hst.sound ?_
    · rintro s₁ s₂ hs₁ hmove ⟨⟨hset₁, hledger₁⟩, hstored₁, hinf₁⟩
      refine ⟨⟨hmove.effect.settled hs₁ hset₁, hmove.effect.ledger hs₁ hledger₁⟩, ?_, fun n => ?_⟩
      · exact fun hweak => (hmove.loads.weak hweak).elim hcares.strong hstored₁
      · exact (hinf₁ n).effect hs₁ hset₁ hledger₁ hmove.effect hcares
    · exact ⟨⟨hst.settled, hledger⟩, h.stored,
        fun n => (h.informed n).parting hst.sound hledger hok⟩
  refine ⟨hmid.2.1, fun n => ?_⟩
  rcases act_parted hst a with hsame | hparted
  · rw [hsame]
    exact h.informed n
  · refine (hmid.2.2 n).reheld rfl rfl rfl fun _ _ _ _ _ => .inr (.inr ⟨?_, ?_⟩)
    · rintro ⟨r, ref, hr, hnode, -⟩
      exact ⟨r, ref, hr, hnode, hparted r ref hr⟩
    · rintro ⟨r, ref, hr, hnode, -⟩
      exact ⟨r, ref, hr, hnode, id⟩

theorem Reaches.wellInformed (h : Reaches KeepsNews s) : WellInformed s := by
  refine Reaches.invariant (P := WellInformed) ⟨?_, ?_⟩ ?_ h
  · rintro ⟨p, buf, kdata, ⟨hmem, -⟩, -⟩
    cases hmem
  · rintro n nd p hn
    cases hn
  · exact fun s a hreach hinf hok => hinf.act hreach.reachable hok

/-- **The owner is notified**: in a run that keeps news, a node of which the
owner was told something else than what is true waits on the owner's queue or
on that of one of its threads. -/
theorem owner_notified (h : Reaches KeepsNews s) {nd : Node} {p : ProcId}
    (hn : s.nodes n = some nd) (hp : nd.proc = some p) (hlive : s.procAlive p = true)
    (htold : nd.hasStrongRef ≠ nd.hasStrong ∨ nd.hasWeakRef ≠ s.nodeHasWeak n nd) :
    .node n ∈ s.items (.proc p) ∨
      ∃ th thread, s.threads th = some thread ∧ thread.proc = p ∧
        .node n ∈ s.items (.thread th) := by
  have hst := Reachable.steady h.reachable
  rcases h.wellInformed.informed n nd p hn hp hlive with huptodate | hqueued
  · have hweak : nd.hasWeakRef = s.nodeHasWeak n nd :=
      Bool.eq_iff_iff.mpr (huptodate.weak.trans (nodeHasWeak_iff hst.sound nd).symm)
    rcases htold with htold | htold
    · exact absurd huptodate.strong htold
    · exact absurd hweak htold
  · obtain ⟨q, hq⟩ := Option.isSome_iff_exists.mp hqueued
    have hmem := (hst.sound.queues.consistent.mem_iff (.node n) q).mpr hq
    rcases hst.settled.news n q nd p hq hn hp with rfl | ⟨th, rfl, hhome⟩
    · exact .inl hmem
    · obtain ⟨thread, hth, hproc⟩ := Option.map_eq_some_iff.mp hhome
      exact .inr ⟨th, thread, hth, hproc, hmem⟩

/-- A check of a step that keeps news: nobody closes or gives a weak count back. -/
def newsCheck (s : Driver) (a : Action) : Bool :=
  decide (s.OnNews a fun env n rc nd => s.DueWritable env n rc nd) &&
  match a with
  | .command _ th (.reference false increment _) =>
      increment && (s.threads th).all fun thread => (s.mgrNodeOf thread.proc).all fun n =>
        (s.nodes n).all fun nd => s.nodeHasWeak n nd
  | .command env th (.transaction reply isSg tr) =>
      (s.threads th).all fun thread =>
        (sentParcel env s thread.proc th tr reply isSg).all fun parcel =>
          decide (StrongParcel parcel.1 parcel.2.kdata)
  | .threadExit _ | .devClose _ => false
  | _ => true

theorem keepsNews_of_check {a : Action} (h : s.newsCheck a = true) : KeepsNews s a := by
  unfold newsCheck at h
  rw [Bool.and_eq_true, decide_eq_true_eq] at h
  refine ⟨?_, ?_, ?_, ?_, ?_, h.1⟩
  · rintro env th thread desc n nd rfl hth hmgr hn
    exact .inl (by simpa [hth, hmgr, hn] using h.2)
  · rintro env th thread desc r ref nd rfl
    cases h.2
  · rintro r ref nd rfl
    cases h.2
  · rintro env th thread reply isSg tr c ls rfl hth hparcel
    simpa [hth, hparcel] using h.2
  · rintro th n rfl
    cases h.2

/-- Process 5 sends the manager its object, node 10, of which the manager takes a weak
count too. -/
def shareWeakly : List Action := [shareObject, .command {} 2 (.reference false true 1)]

/-- Process 5 has not heard of the reference yet: the news wait on its thread. -/
theorem owner_notified_share :
    (twoProcessesUp.run shareWeakly).items (.thread 6) = [.node 10, .complete 13] ∧
      (.node 10 ∈ (twoProcessesUp.run shareWeakly).items (.proc 5) ∨
        ∃ th thread, (twoProcessesUp.run shareWeakly).threads th = some thread ∧
          thread.proc = 5 ∧ .node 10 ∈ (twoProcessesUp.run shareWeakly).items (.thread th)) := by
  have himp : ∀ (s : Driver) (a : Action), Reachable s → s.newsCheck a = true → KeepsNews s a :=
    fun _ _ _ h => keepsNews_of_check h
  have hup := Reaches.run himp .init twoProcesses (by decide +kernel)
  have hrun := Reaches.run himp hup shareWeakly (by decide +kernel)
  have hnode : ((twoProcessesUp.run shareWeakly).nodes 10).any (fun nd =>
      nd.proc = some 5 && !nd.hasStrongRef && nd.hasStrong) = true := by decide +kernel
  obtain ⟨nd, hn, hstate⟩ := (Option.any_eq_true _ _).mp hnode
  simp only [Bool.and_eq_true, decide_eq_true_eq, Bool.not_eq_true'] at hstate
  obtain ⟨⟨hp, htold⟩, hstrong⟩ := hstate
  exact ⟨by decide +kernel, owner_notified hrun hn hp (by decide +kernel)
    (.inl (by rw [htold, hstrong]; exact Bool.false_ne_true))⟩

/-- The manager takes a weak count of process 5's object, gives the strong one
back, which process 5 reads, and then gives back the weak one. -/
def weakGoodbye : List Action :=
  [shareObject, .readStart {} 6 0x9000 64 0, .readTurn {} 6, .leave 6,
    .command {} 2 (.reference false true 1), .command {} 2 (.reference true false 1),
    .command {} 6 .enterLooper, .readStart {} 6 0x9000 256 0, .readTurn {} 6, .readTurn {} 6,
    .readTurn {} 6, .leave 6, .command {} 2 (.reference false false 1)]

/-- **A handle that goes unnoticed.**  The owner was told of a reference, none
is left, and nothing is queued. -/
theorem weak_goodbye_unheard :
    Reachable (twoProcessesUp.run weakGoodbye) ∧
      (twoProcessesUp.run weakGoodbye).procAlive 5 = true ∧
      (∃ nd, (twoProcessesUp.run weakGoodbye).nodes 10 = some nd ∧ nd.proc = some 5 ∧
        nd.hasWeakRef = true ∧ (twoProcessesUp.run weakGoodbye).nodeHasWeak 10 nd = false) ∧
      (twoProcessesUp.run weakGoodbye).queues.loc (.node 10) = none := by
  refine ⟨(Reachable.run .init twoProcesses).run _, by decide +kernel, ?_, by decide +kernel⟩
  have hnode : ((twoProcessesUp.run weakGoodbye).nodes 10).any (fun nd =>
      nd.proc = some 5 && nd.hasWeakRef && !(twoProcessesUp.run weakGoodbye).nodeHasWeak 10 nd) =
      true := by decide +kernel
  obtain ⟨nd, hn, hstate⟩ := (Option.any_eq_true _ _).mp hnode
  simp only [Bool.and_eq_true, decide_eq_true_eq, Bool.not_eq_true'] at hstate
  exact ⟨nd, hn, hstate.1.1, hstate.1.2, hstate.2⟩

end Driver

end Binder
