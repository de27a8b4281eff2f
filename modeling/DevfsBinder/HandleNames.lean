import DevfsBinder.AddressSupply
import DevfsBinder.OwnerConversation
import DevfsBinder.ReferenceLedger
import Mathlib.Data.Nat.Find
import Mathlib.Order.Bounds.Defs

/-!
# Handle numbers as names

A client names what it holds by small numbers.  An ordinary handle gets the
lowest number its process does not use, but the context manager's handle is
number zero by decree: nobody looks whether zero is taken.  It is taken when a
client still holds the handle of a manager that died and another process has
registered since; and it is handed out by the search itself once all other
numbers are used up.  Where neither can happen, no process has two handles of
one number, and looking a handle up by number and by node are inverse to each
other.  The search itself finds the least number that is not in use
(`refNextDesc_lowest`).
-/

namespace Binder

namespace Driver

variable {s s' : Driver} {A : Kind → Prop}

/-! ## Looking handles up -/

theorem Graph.refFindForNode_eq_none (h : Graph s) {p : ProcId} {n : NodeId} :
    s.refFindForNode p n = none ↔
      ∀ r ref, s.refs r = some ref → ref.proc = p → ref.node ≠ n := by
  unfold refFindForNode
  rw [List.find?_eq_none]
  constructor
  · intro hnone r ref hr hproc
    have hmem : r ∈ s.procRefs p := (h.procRefs.mem_iff p r).mpr ⟨ref, hr, by rw [hproc]⟩
    simpa [hr] using hnone r hmem
  · intro hnone r hmem
    obtain ⟨ref, hr, hproc⟩ := (h.procRefs.mem_iff p r).mp hmem
    simpa [hr] using hnone r ref hr (Option.some.inj hproc)

theorem Graph.refFindByDesc_eq_some (h : Graph s) {p : ProcId} {d : Nat} {r : RefId}
    (hfind : s.refFindByDesc p d = some r) :
    ∃ ref, s.refs r = some ref ∧ ref.proc = p ∧ ref.desc = d := by
  have hmem := List.mem_of_find?_eq_some hfind
  have hdesc := List.find?_some hfind
  obtain ⟨ref, hr, hproc⟩ := (h.procRefs.mem_iff p r).mp hmem
  exact ⟨ref, hr, Option.some.inj hproc, by simpa [hr] using hdesc⟩

theorem Graph.refFindForNode_eq_some (h : Graph s) {p : ProcId} {n : NodeId} {r : RefId}
    (hfind : s.refFindForNode p n = some r) :
    ∃ ref, s.refs r = some ref ∧ ref.proc = p ∧ ref.node = n := by
  have hmem := List.mem_of_find?_eq_some hfind
  have hnode := List.find?_some hfind
  obtain ⟨ref, hr, hproc⟩ := (h.procRefs.mem_iff p r).mp hmem
  exact ⟨ref, hr, Option.some.inj hproc, by simpa [hr] using hnode⟩

/-! ## The search for a free number -/

/-- No handle of `p` has the number `d`. -/
def Unused (s : Driver) (p : ProcId) (d : Nat) : Prop :=
  ∀ r ∈ s.procRefs p, ∀ ref, s.refs r = some ref → ref.desc ≠ d

theorem refFindByDesc_eq_none (s : Driver) (p : ProcId) (d : Nat) :
    s.refFindByDesc p d = none ↔ s.Unused p d := by
  unfold refFindByDesc Unused
  rw [List.find?_eq_none]
  refine forall_congr' fun r => forall_congr' fun _ => ?_
  cases s.refs r with
  | none => simp
  | some ref => simp

theorem Graph.refFindByDesc_eq_none (h : Graph s) {p : ProcId} {d : Nat} :
    s.refFindByDesc p d = none ↔
      ∀ r ref, s.refs r = some ref → ref.proc = p → ref.desc ≠ d := by
  rw [Driver.refFindByDesc_eq_none]
  constructor
  · intro hfree r ref hr hproc
    exact hfree r ((h.procRefs.mem_iff p r).mpr ⟨ref, hr, by rw [hproc]⟩) ref hr
  · intro hfree r hmem ref hr
    obtain ⟨ref', hr', hproc⟩ := (h.procRefs.mem_iff p r).mp hmem
    cases hr.symm.trans hr'
    exact hfree r ref hr (Option.some.inj hproc)

/-- The search ends at the first number that is free. -/
theorem nextDescFrom_eq (s : Driver) (p : ProcId) (fuel : Nat) {desc d : Nat} (hle : desc ≤ d)
    (hd : d < 2 ^ 32) (hfree : s.refFindByDesc p d = none)
    (htaken : ∀ e, desc ≤ e → e < d → s.refFindByDesc p e ≠ none) (hfuel : d < desc + fuel) :
    s.nextDescFrom p fuel desc = d := by
  induction fuel generalizing desc with
  | zero => omega
  | succ fuel ih =>
      rw [nextDescFrom, if_neg (by omega)]
      by_cases he : desc = d
      · subst he
        rw [if_pos hfree]
      · rw [if_neg (htaken desc (Nat.le_refl _) (by omega))]
        exact ih (by omega) (fun e hlow hhigh => htaken e (by omega) hhigh) (by omega)

/-- A process with `k` handles does not use all of the numbers up to `k+1`. -/
theorem number_free (s : Driver) (p : ProcId) :
    ∃ d, 1 ≤ d ∧ d ≤ (s.procRefs p).length + 1 ∧ s.Unused p d := by
  by_contra hcon
  have htaken : ∀ d, 1 ≤ d → d ≤ (s.procRefs p).length + 1 → ¬ s.Unused p d :=
    fun d hlow hhigh hfree => hcon ⟨d, hlow, hhigh, hfree⟩
  -- the numbers in use are at most as many as the handles
  let numbers := (s.procRefs p).filterMap fun r => (s.refs r).map (·.desc)
  have hsub : List.range' 1 ((s.procRefs p).length + 1) ⊆ numbers := by
    intro d hd
    obtain ⟨hlow, hhigh⟩ := List.mem_range'_1.mp hd
    have hused := htaken d hlow (by omega)
    simp only [Unused, not_forall, not_not] at hused
    obtain ⟨r, hmem, ref, hr, hdesc⟩ := hused
    exact List.mem_filterMap.mpr ⟨r, hmem, by rw [hr, Option.map_some, hdesc]⟩
  have hlen := (List.subperm_of_subset List.nodup_range' hsub).length_le
  have hle : numbers.length ≤ (s.procRefs p).length := List.length_filterMap_le _ _
  simp only [List.length_range'] at hlen
  omega

/-- The first free number, and the search that finds it if it has as many turns
as there are handles, and one more. -/
theorem nextDescFrom_least (s : Driver) (p : ProcId) (hroom : (s.procRefs p).length + 1 < 2 ^ 32) :
    ∃ d, IsLeast {d | 1 ≤ d ∧ s.Unused p d} d ∧ d ≤ (s.procRefs p).length + 1 ∧
      ∀ fuel, (s.procRefs p).length < fuel → s.nextDescFrom p fuel 1 = d := by
  classical
  obtain ⟨d₀, hlow₀, hhigh₀, hfree₀⟩ := s.number_free p
  have hex : ∃ d, 1 ≤ d ∧ s.Unused p d := ⟨d₀, hlow₀, hfree₀⟩
  obtain ⟨hlow, hfree⟩ := Nat.find_spec hex
  have hleast : ∀ e, 1 ≤ e ∧ s.Unused p e → Nat.find hex ≤ e := fun e he => Nat.find_min' hex he
  have hhigh : Nat.find hex ≤ (s.procRefs p).length + 1 :=
    Nat.le_trans (hleast d₀ ⟨hlow₀, hfree₀⟩) hhigh₀
  refine ⟨Nat.find hex, ⟨⟨hlow, hfree⟩, hleast⟩, hhigh, fun fuel hfuel => ?_⟩
  refine s.nextDescFrom_eq p fuel hlow (by omega) ((s.refFindByDesc_eq_none p _).mpr hfree) ?_
    (by omega)
  intro e he hlt hnone
  have hle := hleast e ⟨he, (s.refFindByDesc_eq_none p e).mp hnone⟩
  omega

/-- `binder_ref_next_desc`: zero for the manager, else a number not in use. -/
theorem refNextDesc_cases (s : Driver) {p : ProcId} (n : NodeId)
    (hroom : (s.procRefs p).length + 1 < 2 ^ 32) :
    s.mgrNodeOf p = some n ∧ s.refNextDesc p n = 0 ∨
      s.refNextDesc p n ≠ 0 ∧ s.refFindByDesc p (s.refNextDesc p n) = none := by
  unfold refNextDesc
  split
  · rename_i hmgr
    exact .inl ⟨hmgr, rfl⟩
  · obtain ⟨d, ⟨⟨hlow, hfree⟩, -⟩, -, hsearch⟩ := s.nextDescFrom_least p hroom
    rw [hsearch _ (Nat.lt_succ_self _)]
    exact .inr ⟨Nat.ne_of_gt hlow, (s.refFindByDesc_eq_none p d).mpr hfree⟩

/-- **The lowest free handle.**  A node that is not the manager's gets the least
number from one on that its holder does not use.  It is at most one more than
the holder has handles, and the search has found it after as many turns. -/
theorem refNextDesc_lowest (s : Driver) (p : ProcId) (n : NodeId) (hmgr : s.mgrNodeOf p ≠ some n)
    (hfew : (s.procRefs p).length < 2 ^ 32 - 1) :
    IsLeast {d | 1 ≤ d ∧ s.Unused p d} (s.refNextDesc p n) ∧
      s.refNextDesc p n ≤ (s.procRefs p).length + 1 ∧ s.refNextDesc p n ≠ 0 ∧
      ∀ fuel, (s.procRefs p).length < fuel → s.nextDescFrom p fuel 1 = s.refNextDesc p n := by
  obtain ⟨d, hleast, hhigh, hsearch⟩ := s.nextDescFrom_least p (by omega)
  have heq : s.refNextDesc p n = d := by
    rw [refNextDesc, if_neg hmgr]
    exact hsearch _ (Nat.lt_succ_self _)
  rw [heq]
  exact ⟨hleast, hhigh, Nat.ne_of_gt hleast.1.1, hsearch⟩

/-! ## Handles across an effect -/

/-- No handle is new, and those that are left name what they named. -/
def FewerHandles (s s' : Driver) : Prop :=
  ∀ r ref', s'.refs r = some ref' → ∃ ref, s.refs r = some ref ∧ ref'.proc = ref.proc ∧
    ref'.node = ref.node ∧ ref'.desc = ref.desc

theorem FewerHandles.same (h : s'.refs = s.refs) : FewerHandles s s' :=
  fun _ ref hr => ⟨ref, h ▸ hr, rfl, rfl, rfl⟩

theorem FewerHandles.trans {s'' : Driver} (h : FewerHandles s s') (h' : FewerHandles s' s'') :
    FewerHandles s s'' := by
  intro r ref₂ hr₂
  obtain ⟨ref₁, hr₁, hproc₁, hnode₁, hdesc₁⟩ := h' r ref₂ hr₂
  obtain ⟨ref, hr, hproc, hnode, hdesc⟩ := h r ref₁ hr₁
  exact ⟨ref, hr, hproc₁.trans hproc, hnode₁.trans hnode, hdesc₁.trans hdesc⟩

/-- A sequence of elementary changes that allocates nothing makes no handle. -/
theorem ObjectSteps.fewer {O : ProcId → Prop} (h : ObjectSteps O s s') (hs : Sound s)
    (hid : s'.nextId = s.nextId) : FewerHandles s s' := by
  intro r ref' hr'
  have hlt : r < s.nextId := hid ▸ (ObjectSteps.sound hs h).graph.refs_lt r ref' hr'
  exact (h.ref_kept hlt).2 ref' hr'

/-- A process has no more handles than before. -/
theorem FewerHandles.length_le (h : FewerHandles s s') (hs : Sound s) (hs' : Sound s')
    (p : ProcId) : (s'.procRefs p).length ≤ (s.procRefs p).length := by
  refine (List.subperm_of_subset (hs'.graph.procRefs.nodup p) ?_).length_le
  intro r hmem
  obtain ⟨ref', hr', hproc'⟩ := (hs'.graph.procRefs.mem_iff p r).mp hmem
  obtain ⟨ref, hr, hproc, -⟩ := h r ref' hr'
  exact (hs.graph.procRefs.mem_iff p r).mpr ⟨ref, hr, by rw [← hproc]; exact hproc'⟩

theorem readNews_kept (hs : Sound s) (env : Env) (th : ThreadId) (n : NodeId) (rc : ReadCall)
    (q : Queue) : (readNews env s th n rc q).refs = s.refs ∧
      (readNews env s th n rc q).procs = s.procs := by
  obtain ⟨s₁, hrefs, hprocs, -, heq | ⟨hs₁, heq⟩⟩ := readNews_apart hs env th n rc q
  · rw [heq]
    exact ⟨hrefs, hprocs⟩
  · rw [heq]
    rcases nodeMaybeFree_cases hs₁ n with hsame | ⟨nd, hgone⟩
    · rw [hsame]
      exact ⟨hrefs, hprocs⟩
    · exact ⟨hgone.refs.trans hrefs, hgone.frame.procs.trans hprocs⟩

/-- What an effect does to the handles: it makes one, if the action may, or
none. -/
theorem Effect.handles (hs : Sound s) (he : Effect A s s') :
    (∃ p n, A (.handle s p n) ∧ (s.procs p).isSome ∧ s.refFindForNode p n = none ∧
        s'.nextId = s.nextId + 1 ∧
        FewerHandles (s.bumpId.insertRef s.nextId p n) s') ∨
      FewerHandles s s' := by
  cases he with
  | aside ha => exact .inr (.same (congrArg Objects.refs ha.objects))
  | birth env pid ctx _ =>
      exact .inr (.same (procNew_rule (P := fun s' => s'.refs = s.refs) env pid ctx rfl rfl))
  | unmanage p _ _ =>
      exact .inr (.same (releaseManager_rule (P := fun s' => s'.refs = s.refs) p rfl
        fun _ _ _ _ _ => rfl))
  | enter env p tid =>
      exact .inr (.same (threadGet_rule (P := fun s' => s'.refs = s.refs) env p tid rfl rfl rfl))
  | localRef n strong increment thread _ =>
      exact .inr ((nodeUpdateRefs_steps (O := fun _ => True) hs n strong increment false
        thread).fewer hs (nodeUpdateRefs_nextId s n strong increment false thread))
  | takeRef env p n strong thread r s₁ hA _ hp hget _ =>
      have hs₁ := refGetForNode_sound hs hget
      have hcount : FewerHandles s₁ (s₁.refUpdate r strong true thread).1 :=
        (refUpdate_take_steps (O := fun _ => True) hs₁ r strong thread).fewer hs₁
          (refUpdate_nextId s₁ r strong true thread)
      rcases s.refGetForNode_ends env p n with ⟨r, -, heq⟩ | ⟨hnone, heq⟩ | heq <;>
        cases heq.symm.trans hget
      · exact .inr hcount
      · exact .inl ⟨p, n, hA, hp, hnone, refUpdate_nextId _ _ _ _ _, hcount⟩
  | holdRef r strong thread =>
      exact .inr ((refUpdate_take_steps (O := fun _ => True) hs r strong thread).fewer hs
        (refUpdate_nextId s r strong true thread))
  | giveRef r strong thread _ =>
      exact .inr ((refUpdate_give_steps (O := fun _ => True) hs r strong thread
        fun _ _ => trivial).fewer hs (refUpdate_nextId s r strong false thread))
  | markRef r death ha =>
      have hkept : RefKept fun ref : Ref => { ref with death := death } :=
        ⟨fun _ => rfl, fun _ => rfl, fun _ => rfl⟩
      have hmark := (ObjectStep.lower (O := fun _ => True) r _ hkept
        fun _ _ => trivial).steps.fewer hs rfl
      exact .inr (hmark.trans (.same (congrArg Objects.refs ha.objects)))
  | deleteRef r _ =>
      exact .inr ((refDelete_steps (O := fun _ => True) hs r fun _ _ => trivial).fewer hs
        (refDelete_nextId s r))
  | unhold n =>
      exact .inr ((nodeDecTmpref_steps (O := fun _ => True) hs n).fewer hs
        (nodeDecTmpref_nextId s n))
  | orphan p n hmem _ _ =>
      exact .inr ((releaseNode_steps (O := fun _ => True) hs hmem).fewer hs
        ((nodeMaybeFree_nextId _ n).trans (nodeDied_nextId _ n)))
  | news env th n rc q hq _ => exact .inr (.same (readNews_kept hs env th n rc q).1)
  | _ => exact .inr (.same rfl)

/-- A process that is not new belongs to the context it belonged to. -/
theorem Effect.context_back (hs : Sound s) (he : Effect A s s') {p : ProcId}
    (hlt : p < s.nextId) {proc' : Proc} (hp' : s'.procs p = some proc') :
    ∃ proc, s.procs p = some proc ∧ proc'.context = proc.context := by
  rcases he.procs_cases hs with hsame | ⟨env, pid, ctx, -, rfl⟩ | ⟨q, -, rfl⟩ | ⟨q, -, rfl⟩
  · have hctx := (hsame p).1
    rw [hp'] at hctx
    obtain ⟨proc, hp, heq⟩ := Option.map_eq_some_iff.mp hctx.symm
    exact ⟨proc, hp, heq.symm⟩
  · unfold procNew allocMem at hp'
    cases hal : env.allocOk s.nextId with
    | true =>
        simp only [hal, if_true] at hp'
        exact ⟨proc', by simpa [insertProc, bumpId, Nat.ne_of_lt hlt] using hp', rfl⟩
    | false =>
        simp only [hal] at hp'
        exact ⟨proc', hp', rfl⟩
  · by_cases he : p = q
    · subst he
      simp only [updProc, Function.update_self, Option.map_eq_some_iff] at hp'
      obtain ⟨proc, hp, rfl⟩ := hp'
      exact ⟨proc, hp, rfl⟩
    · exact ⟨proc', by simpa [updProc, he] using hp', rfl⟩
  · by_cases he : p = q
    · simp [forgetProc, he] at hp'
    · exact ⟨proc', by simpa [forgetProc, he] using hp', rfl⟩

/-- No process of before gets a manager it did not have. -/
theorem Effect.mgrNodeOf_back (hs : Sound s) (he : Effect A s s')
    (hA : ∀ n, ¬ A (.manager n)) {p : ProcId} (hlt : p < s.nextId) {m : NodeId}
    (hm : s'.mgrNodeOf p = some m) : s.mgrNodeOf p = some m := by
  obtain ⟨proc', hp', hmgr⟩ := Option.bind_eq_some_iff.mp hm
  obtain ⟨proc, hp, hctx⟩ := he.context_back hs hlt hp'
  rcases (he.onward hs).managers _ m hmgr with hold | hnew
  · exact Option.bind_eq_some_iff.mpr ⟨proc, hp, hctx ▸ hold⟩
  · exact absurd hnew (hA m)

/-! ## Names -/

/-- No process has two handles of one number, and a handle numbered zero is the
context manager's if there is a manager. -/
structure Named (s : Driver) : Prop where
  distinct : ∀ r r' ref ref', s.refs r = some ref → s.refs r' = some ref' →
    ref.proc = ref'.proc → ref.desc = ref'.desc → r = r'
  zero : ∀ r ref m, s.refs r = some ref → ref.desc = 0 → s.mgrNodeOf ref.proc = some m →
    ref.node = m
  holder_lt : ∀ r ref, s.refs r = some ref → ref.proc < s.nextId

/-- Losing handles and managers takes no name away. -/
theorem Named.fewer (h : Named s) (hfewer : FewerHandles s s') (hid : s.nextId ≤ s'.nextId)
    (hmgr : ∀ r ref m, s.refs r = some ref → s'.mgrNodeOf ref.proc = some m →
      s.mgrNodeOf ref.proc = some m) : Named s' where
  distinct r r' ref ref' hr hr' hproc hdesc := by
    obtain ⟨ref₀, hr₀, hproc₀, -, hdesc₀⟩ := hfewer r ref hr
    obtain ⟨ref₁, hr₁, hproc₁, -, hdesc₁⟩ := hfewer r' ref' hr'
    exact h.distinct r r' ref₀ ref₁ hr₀ hr₁ (hproc₀ ▸ hproc₁ ▸ hproc) (hdesc₀ ▸ hdesc₁ ▸ hdesc)
  zero r ref m hr hdesc hm := by
    obtain ⟨ref₀, hr₀, hproc₀, hnode₀, hdesc₀⟩ := hfewer r ref hr
    rw [hnode₀]
    exact h.zero r ref₀ m hr₀ (hdesc₀ ▸ hdesc) (hmgr r ref₀ m hr₀ (hproc₀ ▸ hm))
  holder_lt r ref hr := by
    obtain ⟨ref₀, hr₀, hproc₀, -⟩ := hfewer r ref hr
    exact hproc₀ ▸ Nat.lt_of_lt_of_le (h.holder_lt r ref₀ hr₀) hid

theorem insertRef_mgrNodeOf (s : Driver) (r : RefId) (p : ProcId) (n : NodeId) (q : ProcId) :
    (s.bumpId.insertRef r p n).mgrNodeOf q = s.mgrNodeOf q := rfl

theorem nextDescFrom_bumpId (s : Driver) (p : ProcId) (fuel desc : Nat) :
    s.bumpId.nextDescFrom p fuel desc = s.nextDescFrom p fuel desc := by
  induction fuel generalizing desc with
  | zero => rfl
  | succ fuel ih =>
      rw [nextDescFrom, nextDescFrom, ih]
      rfl

theorem refNextDesc_bumpId (s : Driver) (p : ProcId) (n : NodeId) :
    s.bumpId.refNextDesc p n = s.refNextDesc p n := by
  unfold refNextDesc
  rw [nextDescFrom_bumpId]
  rfl

/-- The handles once a new one is there. -/
theorem insertRef_refs {p : ProcId} {n : NodeId} {r : RefId} {ref : Ref}
    (hr : (s.bumpId.insertRef s.nextId p n).refs r = some ref) :
    s.refs r = some ref ∨
      r = s.nextId ∧ ref.proc = p ∧ ref.node = n ∧ ref.desc = s.refNextDesc p n := by
  by_cases he : r = s.nextId
  · subst he
    simp only [Driver.insertRef, Function.update_self, Option.some.injEq] at hr
    subst hr
    exact .inr ⟨rfl, rfl, rfl, refNextDesc_bumpId s p n⟩
  · exact .inl (by simpa [Driver.insertRef, bumpId, he] using hr)

/-- A handle after an effect is one the action may make, or it was there before. -/
theorem Effect.handle_back (hs : Sound s) (he : Effect A s s') {r : RefId} {ref' : Ref}
    (hr' : s'.refs r = some ref') :
    A (.handle s ref'.proc ref'.node) ∨
      ∃ ref, s.refs r = some ref ∧ ref'.proc = ref.proc ∧ ref'.node = ref.node := by
  rcases he.handles hs with ⟨p, n, hA, -, -, -, hfewer⟩ | hfewer
  · obtain ⟨ref, hr, hproc, hnode, -⟩ := hfewer r ref' hr'
    rcases insertRef_refs hr with hold | ⟨-, hp, hn, -⟩
    · exact .inr ⟨ref, hold, hproc, hnode⟩
    · rw [hproc, hnode, hp, hn]
      exact .inl hA
  · obtain ⟨ref, hr, hproc, hnode, -⟩ := hfewer r ref' hr'
    exact .inr ⟨ref, hr, hproc, hnode⟩

/-- A new handle gets a number its holder does not use. -/
theorem Named.insertRef (h : Named s) (hs : Sound s) (hset : Settled s) {p : ProcId}
    {n : NodeId} (hp : (s.procs p).isSome) (hnone : s.refFindForNode p n = none)
    (hroom : (s.procRefs p).length + 1 < 2 ^ 32) :
    Named (s.bumpId.insertRef s.nextId p n) := by
  -- nobody in `p` has the number of the new handle
  have hfree : ∀ r ref, s.refs r = some ref → ref.proc = p → ref.desc ≠ s.refNextDesc p n := by
    intro r ref hr hproc hdesc
    rcases s.refNextDesc_cases n hroom with ⟨hmgr, hzero⟩ | ⟨-, hunused⟩
    · have hnode := h.zero r ref n hr (hdesc.trans hzero) (hproc ▸ hmgr)
      exact hs.graph.refFindForNode_eq_none.mp hnone r ref hr hproc hnode
    · exact hs.graph.refFindByDesc_eq_none.mp hunused r ref hr hproc hdesc
  constructor
  · intro r r' ref ref' hr hr' hproc hdesc
    rcases insertRef_refs hr with hr₀ | ⟨rfl, hp₀, -, hd₀⟩
    · rcases insertRef_refs hr' with hr₁ | ⟨-, hp₁, -, hd₁⟩
      · exact h.distinct r r' ref ref' hr₀ hr₁ hproc hdesc
      · exact absurd (hdesc.trans hd₁) (hfree r ref hr₀ (hproc.trans hp₁))
    · rcases insertRef_refs hr' with hr₁ | ⟨he, -⟩
      · exact absurd (hdesc.symm.trans hd₀) (hfree r' ref' hr₁ (hproc.symm.trans hp₀))
      · exact he.symm
  · intro r ref m hr hdesc hm
    rw [insertRef_mgrNodeOf] at hm
    rcases insertRef_refs hr with hr₀ | ⟨-, hp₀, hn₀, hd₀⟩
    · exact h.zero r ref m hr₀ hdesc hm
    · rcases s.refNextDesc_cases n hroom with ⟨hmgr, -⟩ | ⟨hne, -⟩
      · rw [hp₀, hmgr] at hm
        rw [hn₀]
        exact Option.some.inj hm
      · exact absurd (hd₀.symm.trans hdesc) hne
  · intro r ref hr
    rcases insertRef_refs hr with hr₀ | ⟨-, hp₀, -⟩
    · exact Nat.lt_succ_of_lt (h.holder_lt r ref hr₀)
    · exact Nat.lt_succ_of_lt (hp₀ ▸ hset.procs_lt p hp)

/-- An effect that appoints no manager keeps the names, if a process that gets
a handle has a number left for it. -/
theorem Named.effect (h : Named s) (hs : Sound s) (hset : Settled s) (he : Effect A s s')
    (hA : ∀ n, ¬ A (.manager n))
    (hroom : (∃ p n, A (.handle s p n)) → s.nextId < s'.nextId →
      ∀ p, (s.procRefs p).length + 1 < 2 ^ 32) :
    Named s' := by
  rcases he.handles hs with ⟨p, n, hH, hp, hnone, hid, hfewer⟩ | hfewer
  · have hnew := h.insertRef hs hset hp hnone (hroom ⟨p, n, hH⟩ (hid ▸ Nat.lt_succ_self _) p)
    refine hnew.fewer hfewer (Nat.le_of_eq hid.symm) ?_
    intro r ref m hr hm
    have hlt : ref.proc < s.nextId := by
      rcases insertRef_refs hr with hr₀ | ⟨-, hp₀, -⟩
      · exact h.holder_lt r ref hr₀
      · exact hp₀ ▸ hset.procs_lt p hp
    exact he.mgrNodeOf_back hs hA hlt hm
  · exact h.fewer hfewer (he.onward hs).nextId fun r ref m hr hm =>
      he.mgrNodeOf_back hs hA (h.holder_lt r ref hr) hm

/-- Handles are made no faster than addresses are handed out. -/
theorem Effect.procRefs_length (hs : Sound s) (hs' : Sound s') (he : Effect A s s')
    (p : ProcId) :
    (s'.procRefs p).length + s.nextId ≤ (s.procRefs p).length + s'.nextId := by
  rcases he.handles hs with ⟨q, n, -, -, hnone, hid, hfewer⟩ | hfewer
  · have hs₁ := ObjectStep.sound (O := fun _ => True) hs (.addRef q n hnone)
    have hle := hfewer.length_le hs₁ hs' p
    have hone : ((s.bumpId.insertRef s.nextId q n).procRefs p).length ≤
        (s.procRefs p).length + 1 := by
      by_cases he : p = q
      · simp [Driver.insertRef, bumpId, he]
      · simp [Driver.insertRef, bumpId, he]
    omega
  · have hle := hfewer.length_le hs hs' p
    have hid := (he.onward hs).nextId
    omega

/-! ## Steps that keep the names -/

/-- A reference command makes at most one ref. -/
theorem writeRefCmd_nextId_le (s : Driver) (env : Env) (p : ProcId) (th : ThreadId)
    (strong increment : Bool) (desc : Nat) :
    (s.writeRefCmd env p th strong increment desc).1.nextId ≤ s.nextId + 1 := by
  unfold writeRefCmd
  split
  · rw [refUpdate_nextId]
    exact Nat.le_succ _
  · split
    · exact Nat.le_succ _
    · split
      · exact Nat.le_succ _
      · rename_i n _
        have hget := refGetForNode_nextId_le s env p n
        generalize s.refGetForNode env p n = r at hget
        obtain ⟨_ | r, s₁⟩ := r
        · exact hget
        · simp only [refUpdate_nextId]
          exact hget

/-- An action that may make handles allocates no more than a send. -/
theorem Occurs.act_nextId_le {a : Action} {s₁ : Driver} {p : ProcId} {n : NodeId}
    (h : s.Occurs a (.handle s₁ p n)) :
    (s.act a).nextId ≤ s.nextId + sendCost := by
  have hidle : ∀ (th : ThreadId) (f : Thread → Driver),
      (∀ thread, (f thread).nextId ≤ s.nextId + sendCost) →
      (s.withIdle th f).nextId ≤ s.nextId + sendCost := by
    intro th f hf
    unfold withIdle
    split
    · exact hf _
    · exact Nat.le_add_right _ _
  cases h with
  | reference env th _ strong increment desc _ _ _ =>
      refine hidle th _ fun thread => ?_
      have hcmd := writeRefCmd_nextId_le s env thread.proc th strong increment desc
      exact Nat.le_trans hcmd (Nat.add_le_add_left (by simp [sendCost]) _)
  | parcel env th _ reply isSg tr _ _ _ _ _ _ =>
      exact hidle th _ fun thread => transaction_nextId_le env s thread.proc th tr reply isSg

/-- A registration replaces no manager. -/
theorem contextMgrSet_kept (s : Driver) (env : Env) (p : ProcId) (ptr cookie flags : Nat) :
    (s.contextMgrSet env p ptr cookie flags).1.refs = s.refs ∧
      (s.contextMgrSet env p ptr cookie flags).1.procs = s.procs ∧
      ∀ c m, ((s.contextMgrSet env p ptr cookie flags).1.contexts c).mgrNode = some m →
        (s.contexts c).mgrNode = some m ∨ (s.contexts c).mgrNode = none := by
  unfold contextMgrSet
  split
  · exact ⟨rfl, rfl, fun c m hc => .inl hc⟩
  · rename_i proc hp
    simp only
    split
    · exact ⟨rfl, rfl, fun c m hc => .inl hc⟩
    · rename_i hnone
      split
      · exact ⟨rfl, rfl, fun c m hc => .inl hc⟩
      · have hnew := nodeNew_kept (s.updContext proc.context fun ctx =>
          { ctx with mgrUid := env.uid, mgrUidValid := true }) env p ptr cookie flags
        generalize (s.updContext proc.context fun ctx =>
          { ctx with mgrUid := env.uid, mgrUidValid := true }).nodeNew env p ptr cookie flags = r
          at hnew ⊢
        have hother : ∀ c, c ≠ proc.context →
            (r.2.contexts c).mgrNode = (s.contexts c).mgrNode := by
          intro c hc
          rw [hnew.2.2]
          simp [updContext, hc]
        obtain ⟨_ | n, s₁⟩ := r
        all_goals
          refine ⟨hnew.1, hnew.2.1, fun c m hc => ?_⟩
          by_cases he : c = proc.context
          · exact .inr (by simpa [he] using hnone)
          · refine .inl ((hother c he).symm.trans (Eq.trans ?_ hc))
            simp [updContext, updNode, he]

/-- A step that takes no number twice: a manager gets a context only while no
process of it has a handle numbered zero, and at a command no process has so many
handles that a send could use up its numbers. -/
structure KeepsNames (s : Driver) (a : Action) : Prop where
  manager : ∀ env th ptr cookie flags c, a = .setContextMgr env th ptr cookie flags →
    (s.contexts c).mgrNode = none → ((s.act a).contexts c).mgrNode ≠ none →
    ∀ r ref, s.refs r = some ref → ref.desc = 0 → (s.procs ref.proc).map (·.context) ≠ some c
  room : ∀ env th cmd, a = .command env th cmd → ∀ p, (s.procRefs p).length + sendCost < 2 ^ 32

/-- A registration keeps the names. -/
theorem Named.setContextMgr (h : Named s) {env : Env} {th : ThreadId} {ptr cookie flags : Nat}
    (hok : KeepsNames s (.setContextMgr env th ptr cookie flags))
    (hid : s.nextId ≤ (s.act (.setContextMgr env th ptr cookie flags)).nextId) :
    Named (s.act (.setContextMgr env th ptr cookie flags)) := by
  have hact : s.act (.setContextMgr env th ptr cookie flags) = s.withIdle th fun thread =>
      (s.contextMgrSet env thread.proc ptr cookie flags).1 := rfl
  have hmanager := fun c => hok.manager env th ptr cookie flags c rfl
  rw [hact] at hid hmanager ⊢
  unfold withIdle at hid hmanager ⊢
  split
  · rename_i thread hidle
    rw [hidle] at hid hmanager
    obtain ⟨hrefs, hprocs, hmgrs⟩ := contextMgrSet_kept s env thread.proc ptr cookie flags
    constructor
    · rw [hrefs]
      exact h.distinct
    · intro r ref m hr hdesc hm
      rw [hrefs] at hr
      rw [mgrNodeOf, hprocs] at hm
      obtain ⟨proc, hp, hmgr⟩ := Option.bind_eq_some_iff.mp hm
      rcases hmgrs proc.context m hmgr with hold | hnone
      · exact h.zero r ref m hr hdesc (Option.bind_eq_some_iff.mpr ⟨proc, hp, hold⟩)
      · refine absurd (by rw [hp]; rfl) (hmanager proc.context hnone ?_ r ref hr hdesc)
        rw [hmgr]
        exact Option.some_ne_none m
    · rw [hrefs]
      exact fun r ref hr => Nat.lt_of_lt_of_le (h.holder_lt r ref hr) hid
  · exact h

/-- Every other action keeps the names. -/
theorem Named.moves {a : Action} (h : Named s) (hs : Sound s) (hset : Settled s)
    (hmoves : Moves (s.Occurs a) s (s.act a)) (hok : KeepsNames s a)
    (hA : ∀ n, ¬ s.Occurs a (.manager n)) : Named (s.act a) := by
  have hinv : Settled (s.act a) ∧ ((s.act a).nextId ≤ (s.act a).nextId → Named (s.act a) ∧
      ∀ p, ((s.act a).procRefs p).length + s.nextId ≤
        (s.procRefs p).length + (s.act a).nextId) := by
    refine hmoves.invariant (P := fun s₁ => Settled s₁ ∧ (s₁.nextId ≤ (s.act a).nextId →
      Named s₁ ∧ ∀ p, (s₁.procRefs p).length + s.nextId ≤
        (s.procRefs p).length + s₁.nextId)) ?_ hs ⟨hset, fun _ => ⟨h, fun p => Nat.le_refl _⟩⟩
    rintro s₁ s₂ hs₁ hmove ⟨hset₁, h₁⟩
    refine ⟨hmove.effect.settled hs₁ hset₁, fun hle => ?_⟩
    have hid := (hmove.effect.onward hs₁).nextId
    obtain ⟨hnamed, hlength⟩ := h₁ (Nat.le_trans hid hle)
    refine ⟨hnamed.effect hs₁ hset₁ hmove.effect hA ?_, fun p => ?_⟩
    · rintro ⟨_, _, hH⟩ hlt p
      have hroom : (s.procRefs p).length + sendCost < 2 ^ 32 := by
        cases hH with
        | reference env th _ _ _ _ _ _ _ => exact hok.room env th _ rfl p
        | parcel env th _ _ _ _ _ _ _ _ _ _ => exact hok.room env th _ rfl p
      have hcost := hH.act_nextId_le
      have hlen := hlength p
      omega
    · have hlen := hlength p
      have hstep := hmove.effect.procRefs_length hs₁ hmove.sound p
      omega
  exact (hinv.2 (Nat.le_refl _)).1

theorem Reaches.named (h : Reaches KeepsNames s) : Named s := by
  refine Reaches.invariant (P := Named) ?_ ?_ h
  · constructor <;> simp [Driver.init]
  · intro s a hreach hnamed hok
    have hst := Reachable.steady hreach.reachable
    have hmoves := hst.moves a
    by_cases hmgr : ∃ env th ptr cookie flags, a = .setContextMgr env th ptr cookie flags
    · obtain ⟨env, th, ptr, cookie, flags, rfl⟩ := hmgr
      refine hnamed.setContextMgr hok ?_
      refine hmoves.invariant (P := fun s₁ => s.nextId ≤ s₁.nextId) ?_ hst.sound (Nat.le_refl _)
      exact fun s₁ s₂ hs₁ hmove hle => Nat.le_trans hle (hmove.effect.onward hs₁).nextId
    · refine hnamed.moves hst.sound hst.settled hmoves hok fun n hocc => ?_
      cases hocc with
      | manager env th ptr cookie flags c n _ => exact hmgr ⟨env, th, ptr, cookie, flags, rfl⟩

/-! ## Handle numbers name handles -/

/-- Within each process no two handles have the same number, and the look-ups
by number and by node both find the handle itself. -/
structure NamesHandles (s : Driver) : Prop where
  distinct : ∀ p r r' ref ref', r ∈ s.procRefs p → r' ∈ s.procRefs p → s.refs r = some ref →
    s.refs r' = some ref' → ref.desc = ref'.desc → r = r'
  byDesc : ∀ p r ref, r ∈ s.procRefs p → s.refs r = some ref →
    s.refFindByDesc p ref.desc = some r
  byNode : ∀ p r ref, r ∈ s.procRefs p → s.refs r = some ref →
    s.refFindForNode p ref.node = some r

/-- **Handle numbers are names**, as long as no manager registers while somebody
in its context still holds a handle numbered zero and no process runs out of
numbers. -/
theorem handle_numbers_are_names (h : Reaches KeepsNames s) : NamesHandles s := by
  have hgraph := (Reachable.steady h.reachable).sound.graph
  have hledger := Reachable.ledger h.reachable
  have hnamed := Reaches.named h
  have hholder : ∀ p r ref, r ∈ s.procRefs p → s.refs r = some ref → ref.proc = p := by
    intro p r ref hmem hr
    obtain ⟨ref', hr', hproc⟩ := (hgraph.procRefs.mem_iff p r).mp hmem
    rw [hr] at hr'
    cases hr'
    exact Option.some.inj hproc
  refine ⟨?_, ?_, ?_⟩
  · intro p r r' ref ref' hmem hmem' hr hr' hdesc
    exact hnamed.distinct r r' ref ref' hr hr'
      ((hholder p r ref hmem hr).trans (hholder p r' ref' hmem' hr').symm) hdesc
  · intro p r ref hmem hr
    have hproc := hholder p r ref hmem hr
    cases hfind : s.refFindByDesc p ref.desc with
    | none => exact absurd rfl (hgraph.refFindByDesc_eq_none.mp hfind r ref hr hproc)
    | some r' =>
        obtain ⟨ref', hr', hproc', hdesc⟩ := hgraph.refFindByDesc_eq_some hfind
        rw [hnamed.distinct r' r ref' ref hr' hr (hproc'.trans hproc.symm) hdesc]
  · intro p r ref hmem hr
    have hproc := hholder p r ref hmem hr
    cases hfind : s.refFindForNode p ref.node with
    | none => exact absurd rfl (hgraph.refFindForNode_eq_none.mp hfind r ref hr hproc)
    | some r' =>
        obtain ⟨ref', hr', hproc', hnode⟩ := hgraph.refFindForNode_eq_some hfind
        rw [hledger.unique r' r ref' ref hr' hr (hproc'.trans hproc.symm) hnode]

/-- A decidable form of the condition: nobody at all has a handle numbered zero
when a manager registers, and few addresses are in use. -/
def namesCheck (s : Driver) (a : Action) : Bool :=
  decide (s.nextId + sendCost < 2 ^ 32) &&
  match a with
  | .setContextMgr _ _ _ _ _ =>
      decide (∀ r < s.nextId, (s.refs r).all (fun ref => ref.desc ≠ 0) = true)
  | _ => true

/-- The condition on an action can be checked. -/
theorem keepsNames_of_check {a : Action} (hs : Sound s) (h : s.namesCheck a = true) :
    KeepsNames s a := by
  unfold namesCheck at h
  rw [Bool.and_eq_true, decide_eq_true_eq] at h
  refine ⟨?_, fun _ _ _ _ p => ?_⟩
  · rintro env th ptr cookie flags c rfl - - r ref hr hdesc
    have hall := of_decide_eq_true h.2 r (hs.graph.refs_lt r ref hr)
    simp [hr, hdesc] at hall
  · -- a process's handles are distinct addresses in use
    have hsub : s.procRefs p ⊆ List.range s.nextId := by
      intro r hmem
      obtain ⟨ref, hr, -⟩ := (hs.graph.procRefs.mem_iff p r).mp hmem
      exact List.mem_range.mpr (hs.graph.refs_lt r ref hr)
    have hlen := (List.subperm_of_subset (hs.graph.procRefs.nodup p) hsub).length_le
    rw [List.length_range] at hlen
    exact Nat.lt_of_le_of_lt (Nat.add_le_add_right hlen _) h.1

/-- Process 5 has acquired the manager and sent it an object. -/
def acquireAndShare : List Action := [.command {} 6 (.reference true true 0), shareObject]

theorem refNextDesc_lowest_share :
    (twoProcessesUp.run acquireAndShare).refNextDesc 1 11 = 2 ∧
      IsLeast {d | 1 ≤ d ∧ (twoProcessesUp.run acquireAndShare).Unused 1 d}
        ((twoProcessesUp.run acquireAndShare).refNextDesc 1 11) :=
  ⟨by decide +kernel,
    (refNextDesc_lowest _ 1 11 (by decide +kernel) (by decide +kernel)).1⟩

theorem handle_numbers_are_names_share :
    (twoProcessesUp.run acquireAndShare).refFindByDesc 5 0 = some 8 ∧
      (twoProcessesUp.run acquireAndShare).refFindByDesc 1 1 = some 12 ∧
      NamesHandles (twoProcessesUp.run acquireAndShare) := by
  have himp : ∀ (s : Driver) (a : Action), Reachable s → s.namesCheck a = true →
      KeepsNames s a := fun _ _ hreach h =>
    keepsNames_of_check (Reachable.steady hreach).sound h
  have hup := Reaches.run himp .init twoProcesses (by decide +kernel)
  exact ⟨by decide +kernel, by decide +kernel,
    handle_numbers_are_names (Reaches.run himp hup acquireAndShare (by decide +kernel))⟩

/-- The manager dies while process 5 holds its handle; process 9 registers in
its place, gets an object of process 5, and sends process 5 its own. -/
def secondManager : List Action :=
  [.command {} 6 (.reference true true 0), .devClose 1, .devOpen {} 12 0, .enter {} 9 300,
    .setArena {} 10 0x300000 0x20000, .setContextMgr {} 10 0 0 0, shareObject,
    ({ handle := 1
       flags := 1
       data := LittleEndian.leBytes 4 0x73622a85 ++ LittleEndian.leBytes 4 0 ++
         LittleEndian.leBytes 8 0 ++ LittleEndian.leBytes 8 0
       offsets := [0] } : Message).send 10]

/-- **Two handles numbered zero.**  Process 5 has a handle to the dead manager
and one to the new one, both numbered zero, and the look-up by number finds
only one of them. -/
theorem two_handles_zero :
    Reachable (twoProcessesUp.run secondManager) ∧
      (twoProcessesUp.run secondManager).procRefs 5 = [21, 8] ∧
      ((twoProcessesUp.run secondManager).refs 21).map (fun ref => (ref.node, ref.desc)) =
        some (12, 0) ∧
      ((twoProcessesUp.run secondManager).refs 8).map (fun ref => (ref.node, ref.desc)) =
        some (4, 0) ∧
      (twoProcessesUp.run secondManager).refFindForNode 5 4 = some 8 ∧
      (twoProcessesUp.run secondManager).refFindByDesc 5 0 = some 21 :=
  ⟨(Reachable.run .init twoProcesses).run _, by decide +kernel, by decide +kernel,
    by decide +kernel, by decide +kernel, by decide +kernel⟩

end Driver

end Binder
