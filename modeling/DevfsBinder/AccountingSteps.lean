import DevfsBinder.ObjectSteps

/-!
# The accounting functions are sequences of elementary changes

One lemma for each function that changes nodes or references, from
`binder_node_maybe_free` up to the translation loop, the release walk and the
read loop's reference news.  The label says on whose behalf counts are given
back: nobody's for everything that takes references, the releasing process's
for a payload it releases.
-/

namespace Binder

open LittleEndian

namespace Driver

variable {O : ProcId → Prop} {s s' : Driver}

/-! ## Nodes -/

/-- Telling the owner is at most one item queued. -/
theorem nodeNotifyOwner_steps (n : NodeId) (thread : Option ThreadId) :
    ObjectSteps O s (s.nodeNotifyOwner n thread) := by
  unfold nodeNotifyOwner
  split
  · exact .refl s
  · rename_i p hp
    have hproc : ObjectSteps O s (s.enqueueWork p (.node n)) :=
      (ObjectStep.queueNode n p (.proc p) hp (.inl rfl)).steps
    split
    · exact .refl s
    · split
      · exact .refl s
      · split
        · exact .refl s
        · split
          · rename_i th
            split
            · rename_i hhome
              exact (ObjectStep.queueNode n p (.thread th) hp (.inr ⟨th, rfl, hhome⟩)).steps
            · exact hproc
          · exact hproc

/-- Draining a node's `async_todo`. -/
theorem drain_steps (hs : Sound s) (n : NodeId) (l : List Work)
    (hl : ∀ w ∈ l, s.queues.loc w = some (.node n)) (hnodup : l.Nodup) :
    ObjectSteps O s (l.foldl dropAsync s) ∧
      (l.foldl dropAsync s).objects = s.objects ∧
      ∀ w, (l.foldl dropAsync s).queues.loc w = some (.node n) →
        s.queues.loc w = some (.node n) ∧ w ∉ l := by
  induction l generalizing s with
  | nil => exact ⟨.refl s, rfl, fun w hw => ⟨hw, by simp⟩⟩
  | cons w l ih =>
      obtain ⟨t, x, rfl, hx, ho⟩ := hs.queues.behindNode w n (hl w (by simp))
      have hloc := hl (.transaction t) (by simp)
      have hstep : ObjectStep O s (s.dropAsync (.transaction t)) := .drop n t hloc
      have hother : ∀ v, (s.dropAsync (.transaction t)).queues.loc v =
          if v = .transaction t then none else s.queues.loc v := by
        intro v
        rw [dropAsync_oneway hx ho]
        exact Queues.remove_loc _ _ _
      obtain ⟨hnot, hnodup'⟩ := List.nodup_cons.mp hnodup
      have hrest : ∀ v ∈ l,
          (s.dropAsync (.transaction t)).queues.loc v = some (.node n) := by
        intro v hv
        have hne : v ≠ .transaction t := fun e => hnot (e ▸ hv)
        rw [hother, if_neg hne]
        exact hl v (List.mem_cons_of_mem _ hv)
      obtain ⟨hsteps, hobj, hleft⟩ := ih (ObjectStep.sound hs hstep) hrest hnodup'
      refine ⟨hstep.steps.trans hsteps, hobj.trans (dropAsync_objects s t).1, ?_⟩
      intro v hv
      obtain ⟨hv', hvl⟩ := hleft v hv
      rw [hother] at hv'
      split at hv'
      · cases hv'
      · rename_i hne
        exact ⟨hv', by simp [hne, hvl]⟩

/-- Dropping a node from its owner's list and from the manager role are
independent. -/
private theorem clearManager_unlistNode (p : ProcId) (n : NodeId) :
    (s.unlistNode p n).clearManager p n = (s.clearManager p n).unlistNode p n := by
  unfold clearManager unlistNode
  cases s.procs p with
  | none => rfl
  | some proc =>
      simp only
      split <;> rfl

theorem clearManager_steps (p : ProcId) (n : NodeId) :
    ObjectSteps O s (s.clearManager p n) ∧ (s.clearManager p n).objects = s.objects ∧
      (s.clearManager p n).queues = s.queues := by
  unfold clearManager
  split
  · exact ⟨.refl s, rfl, rfl⟩
  · split
    · exact ⟨(ObjectStep.context _ _ fun hvalid => ⟨hvalid, rfl⟩).steps, rfl, rfl⟩
    · exact ⟨.refl s, rfl, rfl⟩

/-- Freeing a node: its oneway calls are dropped, then it leaves its owner. -/
theorem nodeFree_steps (hs : Sound s) {n : NodeId} {nd : Node} (hn : s.nodes n = some nd)
    (hrefs : s.nodeRefs n = []) : ObjectSteps O s (s.nodeFree n nd) := by
  have hcons := hs.queues.consistent
  obtain ⟨hdrain, hobj, hleft⟩ := drain_steps (O := O) hs n (s.items (.node n))
    (fun w hw => (hcons.mem_iff w _).mp hw) (hcons.nodup _)
  unfold nodeFree
  simp only
  generalize hs₁ : (s.items (.node n)).foldl dropAsync s = s₁ at hdrain hobj hleft ⊢
  have hs₁' : Sound s₁ := ObjectSteps.sound hs hdrain
  -- nothing is left behind the node
  have hempty : s₁.queues.items (.node n) = [] := by
    apply List.eq_nil_iff_forall_not_mem.mpr
    intro w hw
    obtain ⟨hw', hnot⟩ := hleft w ((hs₁'.queues.consistent.mem_iff w _).mp hw)
    exact hnot ((hcons.mem_iff w _).mpr hw')
  obtain ⟨hnodes, hnodeRefs, -, -, -⟩ := Objects.mk.inj hobj
  refine hdrain.trans ?_
  cases hp : nd.proc with
  | none =>
      have hrem : ObjectStep O s₁ ((s₁.unlistOwned n nd.proc).forgetNode n) :=
        .removeNode n nd (hnodes ▸ hn) (hnodeRefs ▸ hrefs) hempty
      rw [hp] at hrem
      exact hrem.steps
  | some p =>
      obtain ⟨hclear, hobj₂, hqueues⟩ := clearManager_steps (O := O) (s := s₁) p n
      obtain ⟨hnodes₂, hnodeRefs₂, -, -, -⟩ := Objects.mk.inj hobj₂
      have hrem : ObjectStep O (s₁.clearManager p n)
          (((s₁.clearManager p n).unlistOwned n nd.proc).forgetNode n) :=
        .removeNode n nd (by rw [hnodes₂, hnodes, hn]) (by rw [hnodeRefs₂, hnodeRefs, hrefs])
          (by rw [hqueues, hempty])
      rw [hp] at hrem
      simp only [clearManager_unlistNode]
      exact hclear.trans hrem.steps

/-- A node goes when nothing keeps it. -/
theorem nodeMaybeFree_steps (hs : Sound s) (n : NodeId) :
    ObjectSteps O s (s.nodeMaybeFree n) := by
  unfold nodeMaybeFree
  split
  · exact .refl s
  · rename_i nd hn
    split
    · exact .refl s
    · rename_i hweak
      split
      · exact .refl s
      · split
        · exact .refl s
        · refine nodeFree_steps hs hn ?_
          have hnone : (nd.hasStrong = false ∧ nd.localWeakRefs = 0) ∧ s.nodeRefs n = [] := by
            simpa [nodeHasWeak] using (not_or.mp hweak).2
          exact hnone.2

theorem nodeDecTmpref_steps (hs : Sound s) (n : NodeId) :
    ObjectSteps O s (s.nodeDecTmpref n) := by
  have hstep : ObjectStep O s (s.updNode n fun nd => { nd with tmpRefs := nd.tmpRefs - 1 }) :=
    .count n _ ⟨by simp, by simp, by simp, by simp⟩
  exact hstep.steps.trans (nodeMaybeFree_steps (ObjectStep.sound hs hstep) n)

/-- The one entry point for counts changes only counts. -/
theorem count_kept {nd nd' : Node} {strong increment internal : Bool}
    (h : Node.count nd strong increment internal = some nd') :
    nd'.proc = nd.proc ∧ nd'.ptr = nd.ptr ∧ nd'.cookie = nd.cookie ∧ nd'.flags = nd.flags := by
  unfold Node.count at h
  split at h <;> first
    | (cases h; exact ⟨rfl, rfl, rfl, rfl⟩)
    | (split at h
       · cases h
       · cases h; exact ⟨rfl, rfl, rfl, rfl⟩)

/-- Writing the new record is a change of counts: it starts from the old one. -/
theorem recount_step {n : NodeId} {nd nd' : Node} {strong increment internal : Bool}
    (hn : s.nodes n = some nd) (hcount : Node.count nd strong increment internal = some nd') :
    ObjectStep O s (s.updNode n fun _ => nd') := by
  obtain ⟨hproc, hptr, hcookie, hflags⟩ := count_kept hcount
  have hupd : s.updNode n (fun _ => nd') = s.updNode n fun old =>
      { nd' with proc := old.proc, ptr := old.ptr, cookie := old.cookie, flags := old.flags } := by
    simp only [updNode, hn, Option.map_some, ← hproc, ← hptr, ← hcookie, ← hflags]
  rw [hupd]
  exact .count n _ ⟨by simp, by simp, by simp, by simp⟩

/-- A count, the news of it, and the end of the node perhaps. -/
theorem nodeUpdateRefs_steps (hs : Sound s) (n : NodeId) (strong increment internal : Bool)
    (thread : Option ThreadId) :
    ObjectSteps O s (s.nodeUpdateRefs n strong increment internal thread).1 := by
  unfold nodeUpdateRefs
  split
  · exact .refl s
  · rename_i nd hn
    split
    · exact .refl s
    · rename_i nd' hcount
      have hstep : ObjectStep O s (s.updNode n fun _ => nd') := recount_step hn hcount
      have hs₁ := ObjectStep.sound hs hstep
      simp only
      split
      · have hnotify := nodeNotifyOwner_steps (O := O) (s := s.updNode n fun _ => nd')
          n thread
        exact hstep.steps.trans (hnotify.trans
          (nodeMaybeFree_steps (ObjectSteps.sound hs₁ hnotify) n))
      · exact hstep.steps.trans (nodeMaybeFree_steps hs₁ n)

theorem nodeNew_steps (env : Env) (p : ProcId) (ptr cookie flags : Nat) :
    ObjectSteps O s (s.nodeNew env p ptr cookie flags).2 := by
  rcases s.nodeNew_ends env p ptr cookie flags with ⟨n, -, heq⟩ | ⟨hfind, heq⟩ | heq <;> rw [heq]
  · exact .refl s
  · exact (ObjectStep.addNode p ptr cookie flags hfind).steps
  · exact ObjectStep.bump.steps

theorem wakeupProc_steps (p : ProcId) : ObjectSteps O s (s.wakeupProc p) :=
  (ObjectStep.wake (.proc p)).steps.trans (ObjectStep.sel p).steps

theorem notifyDeath_steps (r : RefId) : ObjectSteps O s (s.notifyDeath r) := by
  unfold notifyDeath
  split
  · exact .refl s
  · split
    · exact .refl s
    · split
      · exact .refl s
      · exact ((ObjectStep.deaths _ _).steps.trans
          (ObjectStep.queueDeath (.proc _) _ (by simp)).steps).trans
            (wakeupProc_steps _)

/-- A walk over a list whose every turn keeps `g`. -/
theorem foldl_kept {α β : Type} (g : Driver → β) {f : Driver → α → Driver}
    (hf : ∀ s a, g (f s a) = g s) (l : List α) (s : Driver) : g (l.foldl f s) = g s := by
  induction l generalizing s with
  | nil => rfl
  | cons a l ih => exact (ih (f s a)).trans (hf s a)

/-- A walk over a list whose every turn is a sequence of elementary changes. -/
theorem foldl_steps {α : Type} {f : Driver → α → Driver}
    (hf : ∀ s a, Sound s → ObjectSteps O s (f s a)) (hs : Sound s) (l : List α) :
    ObjectSteps O s (l.foldl f s) := by
  induction l generalizing s with
  | nil => exact .refl s
  | cons a l ih => exact (hf s a hs).trans (ih (ObjectSteps.sound hs (hf s a hs)))

theorem releaseNode_steps (hs : Sound s) {p : ProcId} {n : NodeId} (hmem : n ∈ s.procNodes p) :
    ObjectSteps O s (releaseNode p s n) := by
  have horphan : ObjectStep O s ((s.unlistNode p n).updNode n fun nd =>
      { nd with isDead := true, proc := none }) := .orphan p n hmem
  have hnotify := foldl_steps (O := O) (f := notifyDeath)
    (fun _ r _ => notifyDeath_steps r) (ObjectStep.sound hs horphan)
    ((s.unlistNode p n).nodeRefs n)
  have hdied := horphan.steps.trans hnotify
  exact hdied.trans (nodeMaybeFree_steps (ObjectSteps.sound hs hdied) n)

theorem releaseManager_steps (p : ProcId) : ObjectSteps O s (s.releaseManager p) := by
  apply releaseManager_rule p (.refl s)
  intro proc m _ _ _
  exact (ObjectStep.context _ _ fun hvalid => ⟨hvalid, rfl⟩).steps.trans
    (ObjectStep.count _ _ ⟨by simp, by simp, by simp, by simp⟩).steps

/-! ## References -/

theorem refGetForNode_steps (env : Env) (p : ProcId) (n : NodeId) :
    ObjectSteps O s (s.refGetForNode env p n).2 := by
  rcases s.refGetForNode_ends env p n with ⟨r, -, heq⟩ | ⟨hfind, heq⟩ | heq <;> rw [heq]
  · exact .refl s
  · exact (ObjectStep.addRef p n hfind).steps
  · exact ObjectStep.bump.steps

theorem releaseDeath_steps (death : Option DeathId) :
    ObjectSteps O s (s.releaseDeath death) ∧ (s.releaseDeath death).objects = s.objects := by
  cases death with
  | none => exact ⟨.refl s, rfl⟩
  | some d =>
      exact ⟨(ObjectStep.dequeueDeath d).steps.trans (ObjectStep.deaths _ _).steps, rfl⟩

/-- The death record of a handle goes, and then the handle. -/
theorem forgetRef_steps {r : RefId} {ref : Ref} (hr : s.refs r = some ref) (hown : O ref.proc) :
    ObjectSteps O s ((s.releaseDeath ref.death).forgetRef r ref) := by
  obtain ⟨hsteps, hobj⟩ := releaseDeath_steps (O := O) (s := s) ref.death
  have hrefs : (s.releaseDeath ref.death).refs = s.refs := congrArg Objects.refs hobj
  exact hsteps.trans (ObjectStep.removeRef r ref (by rw [hrefs, hr]) hown).steps

theorem Sound.forgetRef (hs : Sound s) {r : RefId} {ref : Ref} (hr : s.refs r = some ref) :
    Sound ((s.releaseDeath ref.death).forgetRef r ref) :=
  ObjectSteps.sound hs (forgetRef_steps (O := fun _ => True) hr trivial)

theorem refDelete_steps (hs : Sound s) (r : RefId)
    (hown : ∀ ref, s.refs r = some ref → O ref.proc) :
    ObjectSteps O s (s.refDelete r) := by
  unfold refDelete
  split
  · exact .refl s
  · rename_i ref hr
    have hforget := forgetRef_steps hr (hown ref hr)
    exact hforget.trans (nodeUpdateRefs_steps (ObjectSteps.sound hs hforget) _ _ _ _ _)

/-- A handle without counts is deleted, others stay. -/
theorem refReap_rule {P : Driver → Prop} (r : RefId) (h : P s) (hdelete : P (s.refDelete r)) :
    P (s.refReap r) := by
  unfold refReap
  split
  · exact h
  · split
    · exact hdelete
    · exact h

theorem refReap_steps (hs : Sound s) (r : RefId)
    (hown : ∀ ref, s.refs r = some ref → O ref.proc) :
    ObjectSteps O s (s.refReap r) := by
  exact refReap_rule r (.refl s) (refDelete_steps hs r hown)

/-- What an elementary change leaves of a reference: the holder, the node and
the number stay as long as it exists. -/
theorem ObjectStep.ref_kept (h : ObjectStep O s s') {r : RefId} (hlt : r < s.nextId) :
    s.nextId ≤ s'.nextId ∧ ∀ ref', s'.refs r = some ref' →
      ∃ ref, s.refs r = some ref ∧ ref'.proc = ref.proc ∧ ref'.node = ref.node ∧
        ref'.desc = ref.desc := by
  have hsame : ∀ s₁ : Driver, s₁.refs = s.refs → s.nextId ≤ s₁.nextId →
      s.nextId ≤ s₁.nextId ∧ ∀ ref', s₁.refs r = some ref' →
        ∃ ref, s.refs r = some ref ∧ ref'.proc = ref.proc ∧ ref'.node = ref.node ∧
          ref'.desc = ref.desc :=
    fun s₁ hrefs hid => ⟨hid, fun ref' hr => ⟨ref', hrefs ▸ hr, rfl, rfl, rfl⟩⟩
  have hupd : ∀ (q : RefId) (f : Ref → Ref), RefKept f →
      ∀ ref', (s.updRef q f).refs r = some ref' →
        ∃ ref, s.refs r = some ref ∧ ref'.proc = ref.proc ∧ ref'.node = ref.node ∧
          ref'.desc = ref.desc := by
    intro q f hf ref' hr
    by_cases hq : r = q
    · subst hq
      simp only [updRef, Function.update_self, Option.map_eq_some_iff] at hr
      obtain ⟨ref, hr, rfl⟩ := hr
      exact ⟨ref, hr, hf.proc _, hf.node _, hf.desc _⟩
    · exact ⟨ref', by simpa [updRef, hq] using hr, rfl, rfl, rfl⟩
  cases h with
  | bump => exact hsame _ rfl (Nat.le_succ _)
  | drop n t hloc =>
      obtain ⟨hobj, hid⟩ := dropAsync_objects s t
      exact hsame _ (congrArg Objects.refs hobj) (Nat.le_of_eq hid.symm)
  | removeNode n nd _ _ _ =>
      exact hsame _ (by cases nd.proc <;> rfl) (by cases nd.proc <;> exact Nat.le_refl _)
  | addNode p ptr cookie flags _ => exact hsame _ rfl (Nat.le_succ _)
  | addRef p n _ =>
      refine ⟨Nat.le_succ _, fun ref' hr => ?_⟩
      have hne : r ≠ s.nextId := Nat.ne_of_lt hlt
      exact ⟨ref', by simpa [bumpId, insertRef, hne] using hr, rfl, rfl, rfl⟩
  | raise q f hf => exact ⟨Nat.le_refl _, hupd q f hf.toRefKept⟩
  | lower q f hf _ => exact ⟨Nat.le_refl _, hupd q f hf⟩
  | removeRef q ref _ _ =>
      exact ⟨Nat.le_refl _, fun ref' hr => ⟨ref', (forgetRef_back hr).2, rfl, rfl, rfl⟩⟩
  | _ => exact hsame _ rfl (Nat.le_refl _)

theorem ObjectSteps.ref_kept (h : ObjectSteps O s s') {r : RefId} (hlt : r < s.nextId) :
    s.nextId ≤ s'.nextId ∧ ∀ ref', s'.refs r = some ref' →
      ∃ ref, s.refs r = some ref ∧ ref'.proc = ref.proc ∧ ref'.node = ref.node ∧
        ref'.desc = ref.desc := by
  induction h with
  | refl => exact ⟨Nat.le_refl _, fun ref' hr => ⟨ref', hr, rfl, rfl, rfl⟩⟩
  | tail _ hstep ih =>
      obtain ⟨hle, hkept⟩ := ih
      obtain ⟨hle', hkept'⟩ := hstep.ref_kept (Nat.lt_of_lt_of_le hlt hle)
      refine ⟨Nat.le_trans hle hle', fun ref' hr => ?_⟩
      obtain ⟨ref₁, hr₁, hproc, hnode, hdesc⟩ := hkept' ref' hr
      obtain ⟨ref, hr₀, hproc₀, hnode₀, hdesc₀⟩ := hkept ref₁ hr₁
      exact ⟨ref, hr₀, hproc.trans hproc₀, hnode.trans hnode₀, hdesc.trans hdesc₀⟩

/-- A reference that was just given a count is not reaped. -/
theorem refReap_updRef {r : RefId} {f : Ref → Ref}
    (hf : ∀ ref, ¬ ((f ref).strong = 0 ∧ (f ref).weak = 0)) :
    (s.updRef r f).refReap r = s.updRef r f := by
  unfold refReap
  split
  · rfl
  · rename_i ref hr
    simp only [updRef, Function.update_self, Option.map_eq_some_iff] at hr
    obtain ⟨ref₀, -, rfl⟩ := hr
    rw [if_neg (hf ref₀)]

/-- Taking a count deletes no handle, so it needs no leave from its holder. -/
theorem refUpdate_take_steps (hs : Sound s) (r : RefId) (strong : Bool)
    (thread : Option ThreadId) :
    ObjectSteps O s (s.refUpdate r strong true thread).1 := by
  unfold refUpdate
  split
  · exact .refl s
  · rename_i ref hr
    cases strong with
    | true =>
        simp only
        rw [refReap_updRef (by simp)]
        have hraise : ∀ s₁ : Driver,
            ObjectStep O s₁ (s₁.updRef r fun ref => { ref with strong := ref.strong + 1 }) :=
          fun s₁ => .raise r _ ⟨⟨by simp, by simp, by simp⟩, by simp, by simp⟩
        split
        · exact (nodeUpdateRefs_steps hs _ _ _ _ _).trans (hraise _).steps
        · exact (hraise _).steps
    | false =>
        simp only
        rw [refReap_updRef (by simp)]
        exact (ObjectStep.raise r _ ⟨⟨by simp, by simp, by simp⟩, by simp, by simp⟩).steps

/-- Giving a count back may delete the handle, which is its holder's. -/
theorem refUpdate_give_steps (hs : Sound s) (r : RefId) (strong : Bool)
    (thread : Option ThreadId) (hown : ∀ ref, s.refs r = some ref → O ref.proc) :
    ObjectSteps O s (s.refUpdate r strong false thread).1 := by
  unfold refUpdate
  split
  · exact .refl s
  · rename_i ref hr
    have hlt := hs.graph.refs_lt r ref hr
    -- a sequence of changes from here may still end in deleting the reference
    have hreap : ∀ s₁, ObjectSteps O s s₁ → ObjectSteps O s (s₁.refReap r) := by
      intro s₁ hsteps
      refine hsteps.trans (refReap_steps (ObjectSteps.sound hs hsteps) r ?_)
      intro ref₁ hr₁
      obtain ⟨ref₀, hr₀, hproc, -⟩ := (hsteps.ref_kept hlt).2 ref₁ hr₁
      rw [hproc]
      exact hown ref₀ hr₀
    cases strong with
    | true =>
        simp only
        split
        · exact .refl s
        · have hlower : ObjectStep O s
              (s.updRef r fun ref => { ref with strong := ref.strong - 1 }) :=
            .lower r _ ⟨by simp, by simp, by simp⟩ hown
          split
          · exact hreap _ (hlower.steps.trans
              (nodeUpdateRefs_steps (ObjectStep.sound hs hlower) _ _ _ _ _))
          · exact hreap _ hlower.steps
    | false =>
        simp only
        split
        · exact .refl s
        · exact hreap _ (ObjectStep.lower r _ ⟨by simp, by simp, by simp⟩ hown).steps

/-- **Rule.**  What a change of a handle's counts is made of: a count of the node, a
change of one of the handle's counts, and its deletion when none is left. -/
theorem refUpdate_rule {P : Driver → Prop} (r : RefId) (strong increment : Bool)
    (thread : Option ThreadId) (h : P s)
    (hnode : ∀ s₁ n, P s₁ → P (s₁.nodeUpdateRefs n true increment true thread).1)
    (hstrong : strong = true → ∀ s₁ (k : Nat → Nat), P s₁ →
      P (s₁.updRef r fun ref => { ref with strong := k ref.strong }))
    (hweak : strong = false → ∀ s₁ (k : Nat → Nat), P s₁ →
      P (s₁.updRef r fun ref => { ref with weak := k ref.weak }))
    (hreap : ∀ s₁, P s₁ → P (s₁.refReap r)) : P (s.refUpdate r strong increment thread).1 := by
  unfold refUpdate
  split
  · exact h
  split
  · apply hreap
    apply hstrong rfl _ (· + 1)
    split
    · exact hnode s _ h
    · exact h
  · split
    · exact h
    · apply hreap
      split
      · exact hnode _ _ (hstrong rfl s (· - 1) h)
      · exact hstrong rfl s (· - 1) h
  · exact hreap _ (hweak rfl s (· + 1) h)
  · split
    · exact h
    · exact hreap _ (hweak rfl s (· - 1) h)

/-- The same for what is true of any two states of which one becomes the other. -/
theorem refUpdate_rel {R : Driver → Driver → Prop} (hs : Sound s) (r : RefId)
    (strong increment : Bool) (thread : Option ThreadId) (hrefl : R s s)
    (htrans : ∀ s₁ s₂, R s s₁ → R s₁ s₂ → R s s₂)
    (hnode : ∀ s₁ n, Sound s₁ → R s₁ (s₁.nodeUpdateRefs n true increment true thread).1)
    (hstrong : strong = true → ∀ s₁ (k : Nat → Nat),
      R s₁ (s₁.updRef r fun ref => { ref with strong := k ref.strong }))
    (hweak : strong = false → ∀ s₁ (k : Nat → Nat),
      R s₁ (s₁.updRef r fun ref => { ref with weak := k ref.weak }))
    (hreap : ∀ s₁, Sound s₁ → R s₁ (s₁.refReap r)) :
    R s (s.refUpdate r strong increment thread).1 := by
  apply And.right (a := Sound (s.refUpdate r strong increment thread).1)
  apply refUpdate_rule (P := fun s₁ => Sound s₁ ∧ R s s₁) r strong increment thread ⟨hs, hrefl⟩
  · intro s₁ n h
    exact ⟨ObjectSteps.sound h.1 (nodeUpdateRefs_steps (O := fun _ => True) h.1 _ _ _ _ _),
      htrans _ _ h.2 (hnode s₁ n h.1)⟩
  · intro hkind s₁ k h
    exact ⟨ObjectStep.sound h.1 (.lower (O := fun _ => True) r _ ⟨by simp, by simp, by simp⟩
      fun _ _ => trivial), htrans _ _ h.2 (hstrong hkind s₁ k)⟩
  · intro hkind s₁ k h
    exact ⟨ObjectStep.sound h.1 (.lower (O := fun _ => True) r _ ⟨by simp, by simp, by simp⟩
      fun _ _ => trivial), htrans _ _ h.2 (hweak hkind s₁ k)⟩
  · intro s₁ h
    exact ⟨ObjectSteps.sound h.1 (refReap_steps (O := fun _ => True) h.1 r fun _ _ => trivial),
      htrans _ _ h.2 (hreap s₁ h.1)⟩

/-! ## Payloads -/

/-- A handle found under a process's number is held by that process. -/
theorem refFindByDesc_proc (hs : Sound s) {p : ProcId} {desc : Nat} {r : RefId}
    (h : s.refFindByDesc p desc = some r) :
    ∃ ref, s.refs r = some ref ∧ ref.proc = p ∧ ref.desc = desc := by
  obtain ⟨ref, hr, hp⟩ :=
    (hs.graph.procRefs.mem_iff p r).mp (List.mem_of_find?_eq_some h)
  have hdesc := List.find?_some h
  simp only [hr, decide_eq_true_eq] at hdesc
  exact ⟨ref, hr, Option.some.inj hp, hdesc⟩

theorem releaseObject_steps (hs : Sound s) (p : ProcId) (kdata : Bytes) (dataSize off : Nat) :
    ObjectSteps (· = p) s (s.releaseObject p kdata dataSize off) := by
  apply releaseObject_rule s p kdata dataSize off (.refl s)
  · intro n strong _
    exact nodeUpdateRefs_steps hs n strong false false none
  · intro desc r strong _ hfind
    refine refUpdate_give_steps hs r strong none ?_
    intro ref' hr'
    obtain ⟨ref, hr, hp, -⟩ := refFindByDesc_proc hs hfind
    cases hr.symm.trans hr'
    exact hp

theorem bufferRelease_steps (hs : Sound s) (p : ProcId) (b : BufferId) :
    ObjectSteps (· = p) s (s.bufferRelease p b) := by
  unfold bufferRelease
  split
  · exact .refl s
  · split
    · exact .refl s
    · exact foldl_steps (fun _ _ hs => releaseObject_steps hs _ _ _ _) hs _

theorem translation_steps (c : Parcel) (s : Driver) :
    KeptByTranslation c fun _ s' => Sound s' ∧ ObjectSteps O s s' := by
  have hkept : ∀ {s₁ s₂ : Driver}, Sound s₁ ∧ ObjectSteps O s s₁ →
      ObjectSteps O s₁ s₂ → Sound s₂ ∧ ObjectSteps O s s₂ :=
    fun h hsteps => ⟨ObjectSteps.sound h.1 hsteps, h.2.trans hsteps⟩
  exact ⟨id, fun _ _ _ h => hkept h (nodeNew_steps ..), fun _ h => hkept h (refGetForNode_steps ..),
    fun _ _ h => hkept h (refUpdate_take_steps h.1 ..),
    fun _ _ h => hkept h (nodeUpdateRefs_steps h.1 ..)⟩

theorem translateObject_steps {c : Parcel} {ls : LoopState} (hs : Sound ls.drv) (i : Nat) :
    ObjectSteps O ls.drv (translateObject c ls i).1.drv :=
  ((translation_steps c ls.drv).translateObject (k := 0) ⟨hs, .refl _⟩ i).2

/-- **The translation loop takes references and gives none back.** -/
theorem translateLoop_steps {c : Parcel} {ls : LoopState} (hs : Sound ls.drv)
    (entries : List Nat) : ObjectSteps O ls.drv (translateLoop c ls entries).1.drv :=
  ((translation_steps c ls.drv).translateLoop (k := 0) ⟨hs, .refl _⟩ entries).2

/-! ## Commands about objects -/

/-- A count command deletes no handle of another process. -/
theorem writeRefCmd_steps (hs : Sound s) (env : Env) (p : ProcId) (th : ThreadId)
    (strong increment : Bool) (desc : Nat) :
    ObjectSteps (· = p) s (s.writeRefCmd env p th strong increment desc).1 := by
  unfold writeRefCmd
  split
  · rename_i r hfind
    cases increment with
    | true => exact refUpdate_take_steps hs _ _ _
    | false =>
        refine refUpdate_give_steps hs _ _ _ ?_
        intro ref hr
        obtain ⟨ref', hr', hp, -⟩ := refFindByDesc_proc hs hfind
        rw [hr] at hr'
        cases hr'
        exact hp
  · split
    · exact .refl s
    · rename_i hinc
      have htrue : increment = true := by
        cases increment with
        | true => rfl
        | false => simp at hinc
      split
      · exact .refl s
      · rename_i n _
        have hget := refGetForNode_steps (O := (· = p)) (s := s) env p n
        generalize s.refGetForNode env p n = r' at hget ⊢
        obtain ⟨r, s₁⟩ := r'
        cases r with
        | none => exact hget
        | some r =>
            rw [htrue]
            exact hget.trans (refUpdate_take_steps (ObjectSteps.sound hs hget) _ _ _)

theorem writeDone_steps (p : ProcId) (strong : Bool) (ptr : Nat) :
    ObjectSteps O s (s.writeDone p strong ptr).1 := by
  unfold writeDone
  split
  · exact .refl s
  · refine (ObjectStep.count _ _ ?_).steps
    cases strong <;> exact ⟨by simp, by simp, by simp, by simp⟩

/-- A registration makes a node at most, and counts it. -/
theorem contextMgrSet_steps (env : Env) (p : ProcId) (ptr cookie flags : Nat) :
    ObjectSteps O s (s.contextMgrSet env p ptr cookie flags).1 := by
  unfold contextMgrSet
  split
  · exact .refl s
  · rename_i proc _
    simp only
    split
    · exact .refl s
    · split
      · exact .refl s
      · rename_i huid
        have hctx : ObjectStep O s (s.updContext proc.context fun ctx =>
            { ctx with mgrUid := env.uid, mgrUidValid := true }) := by
          refine .context _ _ fun hvalid => ⟨rfl, ?_⟩
          exact (Decidable.not_not.mp fun hne => huid ⟨hvalid, hne⟩).symm
        have hnew := nodeNew_steps (O := O) (s := s.updContext proc.context fun ctx =>
          { ctx with mgrUid := env.uid, mgrUidValid := true }) env p ptr cookie flags
        generalize (s.updContext proc.context _).nodeNew env p ptr cookie flags = r at hnew ⊢
        obtain ⟨n, s₁⟩ := r
        cases n with
        | none => exact hctx.steps.trans hnew
        | some n =>
            exact hctx.steps.trans (hnew.trans
              ((ObjectStep.context _ _ fun hvalid => ⟨hvalid, rfl⟩).steps.trans
                (ObjectStep.count _ _ ⟨by simp, by simp, by simp, by simp⟩).steps))

/-- A death request is a record tied to a handle. -/
theorem deathRequest_steps (env : Env) (p : ProcId) (th : ThreadId) (handle cookie : Nat) :
    ObjectSteps O s (s.deathRequest env p th handle cookie).1 := by
  unfold deathRequest
  split
  · exact .refl s
  · rename_i r _
    split
    · exact .refl s
    · split
      · exact .refl s
      · unfold allocMem
        cases env.allocOk s.nextId with
        | false => exact ObjectStep.bump.steps
        | true =>
            have hrec : ObjectSteps O s ((s.bumpId.insertDeath s.nextId
                { cookie := cookie, type := .deadBinder }).updRef r fun ref =>
                  { ref with death := some s.nextId }) :=
              ObjectStep.bump.steps.trans ((ObjectStep.deaths _ _).steps.trans
                (ObjectStep.raise _ _ ⟨⟨by simp, by simp, by simp⟩, by simp, by simp⟩).steps)
            simp only [if_true]
            split
            · exact hrec.trans (ObjectStep.queueDeath (.thread th) _ (by simp)).steps
            · exact hrec

/-- A request is taken back: its record is queued or freed. -/
theorem deathClear_steps (p : ProcId) (th : ThreadId) (handle cookie : Nat) :
    ObjectSteps O s (s.deathClear p th handle cookie).1 := by
  unfold deathClear
  split
  · exact .refl s
  · split
    · exact .refl s
    · split
      · exact .refl s
      · have hraise : ∀ (s₁ : Driver) (r : RefId),
            ObjectStep O s₁ (s₁.updRef r fun ref => { ref with death := none }) :=
          fun s₁ r => .raise _ _ ⟨⟨by simp, by simp, by simp⟩, by simp, by simp⟩
        simp only
        split
        · exact (ObjectStep.deaths _ _).steps.trans (hraise _ _).steps
        · exact ((ObjectStep.deaths _ _).steps.trans
            (ObjectStep.queueDeath (.thread th) _ (by simp)).steps).trans
              (hraise _ _).steps

/-! ## News about objects -/

theorem record_kept (cmd : BR) : NodeKept (·.record cmd) := by
  constructor <;> intro nd <;> cases cmd <;> rfl

theorem reportNews_steps (env : Env) (s : Driver) (th : ThreadId) (n : NodeId) (nd : Node)
    (rc : ReadCall) : ObjectSteps O s (reportNews env s th n nd rc).drv := by
  apply reportNews_rule (P := fun h => ObjectSteps O s h.drv) (.refl s)
  · exact fun h cmd _ _ _ _ hsteps => hsteps.trans (ObjectStep.count n _ (record_kept cmd)).steps
  · exact fun h cmd hsteps => hsteps.trans (ObjectStep.tell th cmd _).steps

theorem readNodeWork_steps (hs : Sound s) (env : Env) (th : ThreadId) (n : NodeId)
    (rc : ReadCall) : ObjectSteps O s (readNodeWork env s th n rc).drv := by
  apply readNodeWork_rule (P := fun h => ObjectSteps O s h.drv) fun _ => .refl s
  · exact fun h nd cmd _ _ _ _ hsteps =>
      hsteps.trans (ObjectStep.count n _ (record_kept cmd)).steps
  · exact fun h cmd hsteps => hsteps.trans (ObjectStep.tell th cmd _).steps
  · exact fun h hsteps => hsteps.trans (nodeMaybeFree_steps (ObjectSteps.sound hs hsteps) n)

theorem deathReported_steps (th : ThreadId) (d : DeathId) (type : DeathWork) :
    ObjectSteps O s (s.deathReported th d type) := by
  cases type with
  | deadBinder => exact .refl s
  | deadBinderAndClear =>
      exact (ObjectStep.deaths _ _).steps.trans
        (ObjectStep.queueDeath (.thread th) d (by simp)).steps
  | clearDeathNotification => exact (ObjectStep.deaths _ _).steps

theorem readDeath_steps (env : Env) (th : ThreadId) (d : DeathId) (rc : ReadCall) :
    ObjectSteps O s (readDeath env s th d rc).drv :=
  readDeath_rule (.refl s) fun _ _ _ =>
    (ObjectStep.tell _ _ _).steps.trans (deathReported_steps th d _)

end Driver

end Binder
