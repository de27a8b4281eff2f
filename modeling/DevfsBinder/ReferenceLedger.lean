import DevfsBinder.RunRefinement
import Mathlib.Data.List.Perm.Basic

/-!
# Handles and the counts they stand for

A node counts the handles that hold it strongly, and hears only of the handles
that start or stop doing so.  `Books` is the account in the middle of such an
operation: off by a known amount at one node, and with one handle that may hold
nothing yet.  Between operations it balances (`Ledger`), and every effect keeps
it that way.
-/

/-- Counting a list without repetition when the answer for one element
changes. -/
theorem List.Nodup.countP_update {α : Type} [DecidableEq α] {l : List α} (h : l.Nodup) {a : α}
    (ha : a ∈ l) {p q : α → Bool} (hpq : ∀ b ∈ l, b ≠ a → q b = p b) :
    l.countP q + (if p a then 1 else 0) = l.countP p + if q a then 1 else 0 := by
  have hrest : (l.erase a).countP q = (l.erase a).countP p := by
    refine List.countP_congr fun b hb => ?_
    obtain ⟨hne, hmem⟩ := h.mem_erase_iff.mp hb
    rw [hpq b hmem hne]
  rw [(List.perm_cons_erase ha).countP_eq q, (List.perm_cons_erase ha).countP_eq p,
    List.countP_cons, List.countP_cons, hrest]
  omega

namespace Binder

/-- What a handle adds to its node's count. -/
def Ref.strongOne (ref : Ref) : Int := if 0 < ref.strong then 1 else 0

namespace Driver

variable {s s' : Driver}

/-- The handle holds its node strongly. -/
def holdsStrong (s : Driver) (r : RefId) : Bool :=
  match s.refs r with
  | some ref => 0 < ref.strong
  | none => false

/-- How many handles hold a node strongly. -/
def strongHandles (s : Driver) (n : NodeId) : Nat := (s.nodeRefs n).countP s.holdsStrong

/-- The account, off by `k` at node `n`, while handle `pending` may hold
nothing. -/
structure Books (pending : Option RefId) (n : NodeId) (k : Int) (s : Driver) : Prop where
  counted : ∀ m nd, s.nodes m = some nd →
    (nd.internalStrongRefs : Int) = s.strongHandles m + if m = n then k else 0
  unique : ∀ r r' ref ref', s.refs r = some ref → s.refs r' = some ref' →
    ref.proc = ref'.proc → ref.node = ref'.node → r = r'
  held : ∀ r ref, s.refs r = some ref → some r ≠ pending → 0 < ref.strong + ref.weak
  named : ∀ r ref, s.refs r = some ref → (s.nodes ref.node).isSome

/-- The account balances. -/
def Ledger (s : Driver) : Prop := Books none 0 0 s

variable {pending : Option RefId} {n : NodeId} {k : Int}

/-- Balanced books are balanced wherever one looks. -/
theorem Books.at (h : Books pending n 0 s) (m : NodeId) : Books pending m 0 s :=
  { h with counted := fun m' nd hm => by simpa using h.counted m' nd hm }

theorem Ledger.at (h : Ledger s) (n : NodeId) : Books none n 0 s := Books.at h n

theorem Books.ledger (h : Books none n 0 s) : Ledger s := Books.at h 0

/-- Nothing about handles changes, and nodes only keep their count or go
unnamed. -/
theorem Books.keep (h : Books pending n k s) (hrefs : s'.refs = s.refs)
    (hlists : s'.nodeRefs = s.nodeRefs)
    (hback : ∀ m nd', s'.nodes m = some nd' → ∃ nd, s.nodes m = some nd ∧
      nd'.internalStrongRefs = nd.internalStrongRefs)
    (hgone : ∀ r ref, s.refs r = some ref → (s.nodes ref.node).isSome →
      (s'.nodes ref.node).isSome) : Books pending n k s' where
  counted m nd' hm := by
    obtain ⟨nd, hnd, hcount⟩ := hback m nd' hm
    rw [hcount, strongHandles, hlists, show s'.holdsStrong = s.holdsStrong by
      funext r; rw [holdsStrong, holdsStrong, hrefs]]
    exact h.counted m nd hnd
  unique := by rw [hrefs]; exact h.unique
  held := by rw [hrefs]; exact h.held
  named := by
    rw [hrefs]
    exact fun r ref hr => hgone r ref hr (h.named r ref hr)

/-- A node goes that no handle names. -/
theorem Books.gone (hs : Sound s) (h : Books pending n k s) {m : NodeId} {nd : Node}
    (hgone : NodeGone s s' m nd) : Books pending n k s' := by
  refine h.keep hgone.refs hgone.nodeRefs ?_ ?_
  · intro m' nd' hm'
    rw [hgone.nodes] at hm'
    by_cases he : m' = m
    · simp [he] at hm'
    · exact ⟨nd', by simpa [he] using hm', rfl⟩
  · intro r ref hr hnode
    have hne : ref.node ≠ m := by
      rintro rfl
      have hmem : r ∈ s.nodeRefs ref.node := (hs.graph.nodeRefs.mem_iff _ r).mpr ⟨ref, hr, rfl⟩
      rw [hgone.refs_nil] at hmem
      cases hmem
    rw [hgone.nodes, Function.update_of_ne hne]
    exact hnode

theorem Books.nodeMaybeFree (hs : Sound s) (h : Books pending n k s) (m : NodeId) :
    Books pending n k (s.nodeMaybeFree m) := by
  rcases nodeMaybeFree_cases hs m with heq | ⟨nd, hgone⟩
  · rw [heq]
    exact h
  · exact h.gone hs hgone

/-- A node's own count moves. -/
theorem Books.recounted (h : Books pending n k s) {nd nd' : Node} {thread : Option ThreadId}
    (hrec : Recounted s s' n nd nd' thread) {j : Int}
    (hcount : (nd'.internalStrongRefs : Int) = nd.internalStrongRefs + j) :
    Books pending n (k + j) s' where
  counted m nd₁ hm := by
    rw [strongHandles, hrec.nodeRefs, show s'.holdsStrong = s.holdsStrong by
      funext r; rw [holdsStrong, holdsStrong, hrec.refs]]
    rw [hrec.nodes] at hm
    by_cases hmn : m = n
    · subst hmn
      simp only [Function.update_self, Option.some.injEq] at hm
      subst hm
      have hold := h.counted m nd hrec.node
      simp only [if_true, strongHandles] at hold ⊢
      omega
    · have hold := h.counted m nd₁ (by simpa [hmn] using hm)
      simpa [hmn, strongHandles] using hold
  unique := by rw [hrec.refs]; exact h.unique
  held := by rw [hrec.refs]; exact h.held
  named := by
    rw [hrec.refs, hrec.nodes]
    intro r ref hr
    by_cases hrn : ref.node = n
    · simp [hrn]
    · rw [Function.update_of_ne hrn]
      exact h.named r ref hr

/-- The objects are what they were. -/
theorem Books.objects (h : Books pending n k s) (hobj : s'.objects = s.objects) :
    Books pending n k s' := by
  obtain ⟨hnodes, hlists, hrefs, -⟩ := Objects.mk.inj hobj
  refine h.keep hrefs hlists (fun m nd hm => ⟨nd, hnodes ▸ hm, rfl⟩) ?_
  intro r ref _ hnode
  rw [hnodes]
  exact hnode

/-- A node changes in anything but its count. -/
theorem Books.updNode (h : Books pending n k s) (m : NodeId) {f : Node → Node}
    (hf : ∀ nd, (f nd).internalStrongRefs = nd.internalStrongRefs) :
    Books pending n k (s.updNode m f) := by
  refine h.keep rfl rfl ?_ ?_
  · intro m' nd' hm'
    by_cases he : m' = m
    · subst he
      obtain ⟨nd, hnd, rfl⟩ := Option.map_eq_some_iff.mp
        (by simpa [Driver.updNode] using hm' : (s.nodes m').map f = some nd')
      exact ⟨nd, hnd, hf nd⟩
    · exact ⟨nd', by simpa [Driver.updNode, he] using hm', rfl⟩
  · intro r ref _ hnode
    by_cases he : ref.node = m
    · rw [he] at hnode ⊢
      simpa [Driver.updNode] using hnode
    · simpa [Driver.updNode, he] using hnode

/-- A node's count moves by `j`, or the update is refused and `j` is zero. -/
theorem Books.nodeUpdateRefs (hs : Sound s) (h : Books pending n k s)
    (strong increment internal : Bool) (thread : Option ThreadId) (j : Int)
    (hcount : ∀ nd nd', s.nodes n = some nd → Node.count nd strong increment internal = some nd' →
      (nd'.internalStrongRefs : Int) = nd.internalStrongRefs + j)
    (hrefused : ∀ nd, s.nodes n = some nd → Node.count nd strong increment internal = none →
      j = 0) :
    Books pending n (k + j) (s.nodeUpdateRefs n strong increment internal thread).1 := by
  rcases nodeUpdateRefs_cases hs n strong increment internal thread with
    ⟨heq, hnone⟩ | ⟨nd, nd', s₁, hnd', hrec, hs₁, heq⟩
  · rw [heq]
    refine { h with counted := fun m nd hm => ?_ }
    have hold := h.counted m nd hm
    by_cases hmn : m = n
    · subst hmn
      rw [hrefused nd hm (hnone nd hm), Int.add_zero]
      exact hold
    · simpa [hmn] using hold
  · rw [heq]
    exact (h.recounted hrec (hcount nd nd' hrec.node hnd')).nodeMaybeFree hs₁ n

/-- A count of the node moves and the handles stay. -/
theorem nodeUpdateRefs_refs (hs : Sound s) (n : NodeId) (strong increment internal : Bool)
    (thread : Option ThreadId) :
    (s.nodeUpdateRefs n strong increment internal thread).1.refs = s.refs := by
  rcases nodeUpdateRefs_cases hs n strong increment internal thread with
    ⟨heq, -⟩ | ⟨nd, nd', s₁, -, hrec, hs₁, heq⟩
  · rw [heq]
  · rw [heq]
    rcases nodeMaybeFree_cases hs₁ n with hsame | ⟨nd₁, hgone⟩
    · rw [hsame, hrec.refs]
    · rw [hgone.refs, hrec.refs]

/-! ## One handle at a time -/

variable {r : RefId} {ref : Ref}

theorem Books.loosen (h : Books none n k s) (r : RefId) : Books (some r) n k s :=
  { h with held := fun r' ref' hr' _ => h.held r' ref' hr' (by simp) }

theorem Books.settle (h : Books (some r) n k s)
    (hr : ∀ ref, s.refs r = some ref → 0 < ref.strong + ref.weak) : Books none n k s := by
  refine { h with held := fun r' ref' hr' _ => ?_ }
  by_cases he : r' = r
  · subst he
    exact hr ref' hr'
  · exact h.held r' ref' hr' (by simpa using he)

theorem Books.settle_updRef {f : Ref → Ref} (h : Books (some r) n 0 (s.updRef r f))
    (hr : s.refs r = some ref) (hheld : 0 < (f ref).strong + (f ref).weak) :
    Ledger (s.updRef r f) := by
  refine (h.settle fun ref' hr' => ?_).ledger
  simp only [Driver.updRef, Function.update_self, hr, Option.map_some, Option.some.injEq] at hr'
  exact hr' ▸ hheld

theorem holdsStrong_of_some (hr : s.refs r = some ref) :
    s.holdsStrong r = decide (0 < ref.strong) := by
  rw [holdsStrong, hr]

theorem holdsStrong_congr (h : s'.refs r = s.refs r) : s'.holdsStrong r = s.holdsStrong r := by
  rw [holdsStrong, holdsStrong, h]

/-- The handle is on no other node's list. -/
theorem Graph.ne_of_mem_nodeRefs (h : Graph s) (hr : s.refs r = some ref) {m : NodeId}
    (hm : m ≠ ref.node) {r' : RefId} (hr' : r' ∈ s.nodeRefs m) : r' ≠ r := by
  intro he
  obtain ⟨ref', href', hnode⟩ := (h.nodeRefs.mem_iff m r').mp hr'
  rw [he, hr] at href'
  cases href'
  exact hm (Option.some.inj hnode).symm

/-- The counts of a handle change: its node is off by the difference. -/
theorem Books.updRef (hs : Sound s) (hr : s.refs r = some ref) (h : Books (some r) ref.node k s)
    {f : Ref → Ref} (hf : RefKept f) :
    Books (some r) ref.node (k + ref.strongOne - (f ref).strongOne) (s.updRef r f) := by
  have hself : (s.updRef r f).refs r = some (f ref) := by simp [Driver.updRef, hr]
  have hother : ∀ r', r' ≠ r → (s.updRef r f).refs r' = s.refs r' := by
    intro r' hne
    simp [Driver.updRef, hne]
  have hback : ∀ r' ref', (s.updRef r f).refs r' = some ref' →
      ∃ ref₀, s.refs r' = some ref₀ ∧ ref'.proc = ref₀.proc ∧ ref'.node = ref₀.node := by
    intro r' ref' hr'
    by_cases he : r' = r
    · subst he
      rw [hself] at hr'
      cases hr'
      exact ⟨ref, hr, hf.proc ref, hf.node ref⟩
    · exact ⟨ref', hother r' he ▸ hr', rfl, rfl⟩
  have hmem : r ∈ s.nodeRefs ref.node := (hs.graph.nodeRefs.mem_iff _ r).mpr ⟨ref, hr, rfl⟩
  constructor
  · intro m nd hm
    have hold := h.counted m nd hm
    by_cases hmn : m = ref.node
    · have hstep := (hs.graph.nodeRefs.nodup ref.node).countP_update hmem
        (p := s.holdsStrong) (q := (s.updRef r f).holdsStrong)
        fun r' _ hne => holdsStrong_congr (hother r' hne)
      rw [holdsStrong_of_some hr, holdsStrong_of_some hself] at hstep
      subst hmn
      simp only [if_true, strongHandles, Ref.strongOne, decide_eq_true_eq] at hold hstep ⊢
      change _ = (((s.nodeRefs ref.node).countP (s.updRef r f).holdsStrong : Nat) : Int) + _
      split_ifs at hstep ⊢ <;> omega
    · have hsame : (s.updRef r f).strongHandles m = s.strongHandles m := by
        refine List.countP_congr fun r' hr' => ?_
        rw [holdsStrong_congr (hother r' (hs.graph.ne_of_mem_nodeRefs hr hmn hr'))]
      rw [hsame]
      simpa [hmn] using hold
  · intro r₁ r₂ ref₁ ref₂ h₁ h₂ hproc hnode
    obtain ⟨old₁, ho₁, hp₁, hn₁⟩ := hback r₁ ref₁ h₁
    obtain ⟨old₂, ho₂, hp₂, hn₂⟩ := hback r₂ ref₂ h₂
    exact h.unique r₁ r₂ old₁ old₂ ho₁ ho₂ (hp₁ ▸ hp₂ ▸ hproc) (hn₁ ▸ hn₂ ▸ hnode)
  · intro r' ref' hr' hne
    exact h.held r' ref' (hother r' (by simpa using hne) ▸ hr') hne
  · intro r' ref' hr'
    obtain ⟨old, hold, -, hnode⟩ := hback r' ref' hr'
    rw [hnode]
    exact h.named r' old hold

/-- A handle goes: its node is off by what it held. -/
theorem Books.forgetRef (hs : Sound s) (hr : s.refs r = some ref)
    (h : Books (some r) ref.node k s) :
    Books none ref.node (k + ref.strongOne) (s.forgetRef r ref) := by
  have hother : ∀ r', r' ≠ r → (s.forgetRef r ref).refs r' = s.refs r' := by
    intro r' hne
    simp [Driver.forgetRef, hne]
  have hmem : r ∈ s.nodeRefs ref.node := (hs.graph.nodeRefs.mem_iff _ r).mpr ⟨ref, hr, rfl⟩
  constructor
  · intro m nd hm
    have hold := h.counted m nd hm
    by_cases hmn : m = ref.node
    · subst hmn
      have hlist : (s.forgetRef r ref).nodeRefs ref.node = (s.nodeRefs ref.node).erase r := by
        simp [Driver.forgetRef]
      have hrest : (s.forgetRef r ref).strongHandles ref.node =
          ((s.nodeRefs ref.node).erase r).countP s.holdsStrong := by
        rw [strongHandles, hlist]
        refine List.countP_congr fun r' hr' => ?_
        have hne := ((hs.graph.nodeRefs.nodup ref.node).mem_erase_iff.mp hr').1
        rw [holdsStrong_congr (hother r' hne)]
      have hsplit := (List.perm_cons_erase hmem).countP_eq s.holdsStrong
      rw [List.countP_cons, holdsStrong_of_some hr] at hsplit
      rw [hrest]
      simp only [if_true, strongHandles, Ref.strongOne, decide_eq_true_eq] at hold hsplit ⊢
      split_ifs at hsplit ⊢ <;> omega
    · have hsame : (s.forgetRef r ref).strongHandles m = s.strongHandles m := by
        have hlist : (s.forgetRef r ref).nodeRefs m = s.nodeRefs m := by
          simp [Driver.forgetRef, hmn]
        rw [strongHandles, strongHandles, hlist]
        refine List.countP_congr fun r' hr' => ?_
        rw [holdsStrong_congr (hother r' (hs.graph.ne_of_mem_nodeRefs hr hmn hr'))]
      rw [hsame]
      simpa [hmn] using hold
  · intro r₁ r₂ ref₁ ref₂ h₁ h₂
    exact h.unique r₁ r₂ ref₁ ref₂ (forgetRef_back h₁).2 (forgetRef_back h₂).2
  · intro r' ref' hr' _
    obtain ⟨hne, hr'⟩ := forgetRef_back hr'
    exact h.held r' ref' hr' (by simpa using hne)
  · intro r' ref' hr'
    exact h.named r' ref' (forgetRef_back hr').2

/-- A new handle holds nothing yet. -/
theorem Books.insertRef (hs : Sound s) (h : Ledger s) {p : ProcId}
    (hfind : s.refFindForNode p n = none) (hn : (s.nodes n).isSome) :
    Books (some s.nextId) n 0 (s.bumpId.insertRef s.nextId p n) := by
  have hfresh := hs.graph.refs_fresh
  have hother : ∀ r', r' ≠ s.nextId →
      (s.bumpId.insertRef s.nextId p n).refs r' = s.refs r' := by
    intro r' hne
    simp [Driver.insertRef, bumpId, hne]
  have hold : ∀ m r', r' ∈ s.nodeRefs m → r' ≠ s.nextId := by
    intro m r' hr' he
    obtain ⟨ref', href', -⟩ := (hs.graph.nodeRefs.mem_iff m r').mp hr'
    rw [he, hfresh] at href'
    cases href'
  have hsame : ∀ m, (s.nodeRefs m).countP (s.bumpId.insertRef s.nextId p n).holdsStrong =
      s.strongHandles m := by
    intro m
    refine List.countP_congr fun r' hr' => ?_
    rw [holdsStrong_congr (hother r' (hold m r' hr'))]
  have hself : (s.bumpId.insertRef s.nextId p n).refs s.nextId =
      some { proc := p, node := n, desc := s.bumpId.refNextDesc p n } := by
    simp [Driver.insertRef]
  -- A handle of `p` to `n` would have been found.
  have hnew : ∀ r' ref', s.refs r' = some ref' → ref'.proc = p → ref'.node ≠ n := by
    intro r' ref' hr' hp hnode
    have hmem : r' ∈ s.procRefs p := (hs.graph.procRefs.mem_iff p r').mpr ⟨ref', hr', by rw [hp]⟩
    have hnot := List.find?_eq_none.mp hfind r' hmem
    simp [hr', hnode] at hnot
  constructor
  · intro m nd hm
    have hcount : (s.bumpId.insertRef s.nextId p n).strongHandles m = s.strongHandles m := by
      by_cases hmn : m = n
      · subst hmn
        have hlist : (s.bumpId.insertRef s.nextId p m).nodeRefs m = s.nextId :: s.nodeRefs m := by
          simp [Driver.insertRef, bumpId]
        rw [strongHandles, hlist, List.countP_cons, hsame, holdsStrong_of_some hself]
        simp
      · have hlist : (s.bumpId.insertRef s.nextId p n).nodeRefs m = s.nodeRefs m := by
          simp [Driver.insertRef, bumpId, hmn]
        rw [strongHandles, hlist, hsame]
    rw [hcount]
    simpa using h.counted m nd hm
  · intro r₁ r₂ ref₁ ref₂ h₁ h₂ hproc hnode
    by_cases he₁ : r₁ = s.nextId <;> by_cases he₂ : r₂ = s.nextId
    · rw [he₁, he₂]
    · rw [he₁, hself] at h₁
      cases h₁
      exact absurd hnode.symm (hnew r₂ ref₂ (hother r₂ he₂ ▸ h₂) hproc.symm)
    · rw [he₂, hself] at h₂
      cases h₂
      exact absurd hnode (hnew r₁ ref₁ (hother r₁ he₁ ▸ h₁) hproc)
    · exact h.unique r₁ r₂ ref₁ ref₂ (hother r₁ he₁ ▸ h₁) (hother r₂ he₂ ▸ h₂) hproc hnode
  · intro r' ref' hr' hne
    exact h.held r' ref' (hother r' (by simpa using hne) ▸ hr') (by simp)
  · intro r' ref' hr'
    by_cases he : r' = s.nextId
    · rw [he, hself] at hr'
      cases hr'
      exact hn
    · exact h.named r' ref' (hother r' he ▸ hr')

/-- Deleting a handle gives back what it held. -/
theorem Books.refDelete (hs : Sound s) (h : Books (some r) n 0 s) : Ledger (s.refDelete r) := by
  unfold Driver.refDelete
  split
  · rename_i hr
    exact (h.settle fun ref hsome => by rw [hr] at hsome; cases hsome).ledger
  · rename_i ref hr
    obtain ⟨hsteps, hobj⟩ := releaseDeath_steps (O := fun _ => True) (s := s) ref.death
    have hr₁ : (s.releaseDeath ref.death).refs r = some ref := by
      rw [show (s.releaseDeath ref.death).refs = s.refs from congrArg Objects.refs hobj, hr]
    have hs₁ := ObjectSteps.sound hs hsteps
    have hs₂ := ObjectStep.sound (O := fun _ => True) hs₁ (.removeRef r ref hr₁ trivial)
    have h₁ := ((h.objects hobj).at ref.node).forgetRef hs₁ hr₁
    have h₂ := h₁.nodeUpdateRefs hs₂ (decide (0 < ref.strong)) false true none
      (-ref.strongOne) ?_ ?_
    · rw [show (0 : Int) + ref.strongOne + -ref.strongOne = 0 by omega] at h₂
      exact h₂.ledger
    all_goals
      intro nd
      have hcounted := h₁.counted ref.node nd
      by_cases hst : 0 < ref.strong
      · simp only [Ref.strongOne, hst, if_true, decide_true, Node.count] at hcounted ⊢
        grind
      · simp only [Ref.strongOne, hst, if_false, decide_false, Node.count]
        grind

theorem Books.refReap (hs : Sound s) (h : Books (some r) n 0 s) : Ledger (s.refReap r) := by
  unfold Driver.refReap
  split
  · rename_i hr
    exact (h.settle fun ref hsome => by rw [hr] at hsome; cases hsome).ledger
  · rename_i ref hr
    split
    · exact h.refDelete hs
    · rename_i hheld
      refine (h.settle fun ref' hr' => ?_).ledger
      rw [hr] at hr'
      cases hr'
      omega

/-- One strong count more: the node hears of the first. -/
theorem Books.raiseStrong (hs : Sound s) (hr : s.refs r = some ref)
    (h : Books (some r) ref.node 0 s) (thread : Option ThreadId) :
    Ledger (s.refUpdate r true true thread).1 := by
  unfold Driver.refUpdate
  rw [hr]
  simp only
  rw [refReap_updRef (by simp)]
  split
  · rename_i hzero
    have hs₁ := ObjectSteps.sound hs
      (nodeUpdateRefs_steps (O := fun _ => True) hs ref.node true true true thread)
    have hr₁ : (s.nodeUpdateRefs ref.node true true true thread).1.refs r = some ref := by
      rw [nodeUpdateRefs_refs hs, hr]
    have h₁ := h.nodeUpdateRefs hs true true true thread 1
      (fun nd nd' _ hcount => by cases hcount; rfl) (fun nd _ hcount => by cases hcount)
    have h₂ := h₁.updRef hs₁ hr₁ (f := fun ref => { ref with strong := ref.strong + 1 })
      ⟨fun _ => rfl, fun _ => rfl, fun _ => rfl⟩
    simp only [Ref.strongOne, hzero] at h₂
    exact h₂.settle_updRef hr₁ (Nat.add_pos_left (Nat.succ_pos _) _)
  · rename_i hpos
    have h₁ := h.updRef hs hr (f := fun ref => { ref with strong := ref.strong + 1 })
      ⟨fun _ => rfl, fun _ => rfl, fun _ => rfl⟩
    have hone : (0 : Int) + ref.strongOne -
        ({ ref with strong := ref.strong + 1 } : Ref).strongOne = 0 := by
      simp [Ref.strongOne, Nat.pos_of_ne_zero hpos]
    rw [hone] at h₁
    exact h₁.settle_updRef hr (Nat.add_pos_left (Nat.succ_pos _) _)

/-- One weak count more is the handle's own business. -/
theorem Books.raiseWeak (hs : Sound s) (hr : s.refs r = some ref)
    (h : Books (some r) ref.node 0 s) (thread : Option ThreadId) :
    Ledger (s.refUpdate r false true thread).1 := by
  unfold Driver.refUpdate
  rw [hr]
  simp only
  rw [refReap_updRef (by simp)]
  have h₁ := h.updRef hs hr (f := fun ref => { ref with weak := ref.weak + 1 })
    ⟨fun _ => rfl, fun _ => rfl, fun _ => rfl⟩
  rw [show (0 : Int) + ref.strongOne - ({ ref with weak := ref.weak + 1 } : Ref).strongOne = 0 by
    simp [Ref.strongOne]] at h₁
  exact h₁.settle_updRef hr (Nat.add_pos_right _ (Nat.succ_pos _))

/-- One strong count less: the node hears of the last. -/
theorem Ledger.lowerStrong (hs : Sound s) (h : Ledger s) (hr : s.refs r = some ref)
    (thread : Option ThreadId) : Ledger (s.refUpdate r true false thread).1 := by
  have h₀ := (h.at ref.node).loosen r
  unfold Driver.refUpdate
  rw [hr]
  simp only
  split
  · exact h
  · rename_i hpos
    have hkept : RefKept fun ref : Ref => { ref with strong := ref.strong - 1 } :=
      ⟨fun _ => rfl, fun _ => rfl, fun _ => rfl⟩
    have hs₁ := hs.updRef r hkept
    have h₁ := h₀.updRef hs hr hkept
    split
    · rename_i hone
      simp only [Ref.strongOne, hone] at h₁
      have hs₂ := ObjectSteps.sound hs₁
        (nodeUpdateRefs_steps (O := fun _ => True) hs₁ ref.node true false true thread)
      refine (h₁.nodeUpdateRefs hs₁ true false true thread (-1) ?_ ?_).refReap hs₂
      all_goals
        intro nd
        have hcounted := h₁.counted ref.node nd
        simp only [Node.count]
        grind
    · rename_i hmore
      rw [show (0 : Int) + ref.strongOne -
          ({ ref with strong := ref.strong - 1 } : Ref).strongOne = 0 by
        simp only [Ref.strongOne]
        split_ifs <;> omega] at h₁
      exact h₁.refReap hs₁

/-- One weak count less. -/
theorem Ledger.lowerWeak (hs : Sound s) (h : Ledger s) (hr : s.refs r = some ref)
    (thread : Option ThreadId) : Ledger (s.refUpdate r false false thread).1 := by
  have h₀ := (h.at ref.node).loosen r
  unfold Driver.refUpdate
  rw [hr]
  simp only
  split
  · exact h
  · have hkept : RefKept fun ref : Ref => { ref with weak := ref.weak - 1 } :=
      ⟨fun _ => rfl, fun _ => rfl, fun _ => rfl⟩
    have h₁ := h₀.updRef hs hr hkept
    rw [show (0 : Int) + ref.strongOne - ({ ref with weak := ref.weak - 1 } : Ref).strongOne = 0 by
      simp [Ref.strongOne]] at h₁
    exact h₁.refReap (hs.updRef r hkept)

theorem Books.raise (hs : Sound s) (hr : s.refs r = some ref) (h : Books (some r) ref.node 0 s)
    (strong : Bool) (thread : Option ThreadId) :
    Ledger (s.refUpdate r strong true thread).1 := by
  cases strong with
  | true => exact h.raiseStrong hs hr thread
  | false => exact h.raiseWeak hs hr thread

theorem Ledger.refUpdate (hs : Sound s) (h : Ledger s) (r : RefId) (strong increment : Bool)
    (thread : Option ThreadId) : Ledger (s.refUpdate r strong increment thread).1 := by
  cases hr : s.refs r with
  | none =>
      unfold Driver.refUpdate
      rw [hr]
      exact h
  | some ref =>
      cases increment with
      | true => exact ((h.at ref.node).loosen r).raise hs hr strong thread
      | false =>
          cases strong with
          | true => exact h.lowerStrong hs hr thread
          | false => exact h.lowerWeak hs hr thread

/-- A handle is found or made, and holds something before anyone looks. -/
theorem Ledger.takeRef (hs : Sound s) (h : Ledger s) {env : Env} {p : ProcId} {s₁ : Driver}
    (hn : (s.nodes n).isSome) (hget : s.refGetForNode env p n = (some r, s₁)) (strong : Bool)
    (thread : Option ThreadId) : Ledger (s₁.refUpdate r strong true thread).1 := by
  rcases s.refGetForNode_ends env p n with ⟨r, -, heq⟩ | ⟨hfind, heq⟩ | heq <;>
    cases heq.symm.trans hget
  · exact h.refUpdate hs r strong true thread
  · have hs₁ := ObjectStep.sound (O := fun _ => True) hs (.addRef p n hfind)
    have hr : (s.bumpId.insertRef s.nextId p n).refs s.nextId =
        some { proc := p, node := n, desc := s.bumpId.refNextDesc p n } := by
      simp [Driver.insertRef]
    exact (Books.insertRef hs h hfind hn).raise hs₁ hr strong thread

/-! ## Effects -/

/-- A death request is no count. -/
theorem Ledger.markRef (hs : Sound s) (h : Ledger s) (r : RefId) (death : Option DeathId) :
    Ledger (s.updRef r fun ref => { ref with death := death }) := by
  cases hr : s.refs r with
  | none =>
      have hsame : Function.update s.refs r none = s.refs := hr ▸ Function.update_eq_self r s.refs
      unfold Driver.updRef
      rw [hr, Option.map_none, hsame]
      exact h
  | some ref =>
      have h₁ := ((h.at ref.node).loosen r).updRef hs hr
        (f := fun ref => { ref with death := death }) ⟨fun _ => rfl, fun _ => rfl, fun _ => rfl⟩
      rw [show (0 : Int) + ref.strongOne - ({ ref with death := death } : Ref).strongOne = 0 by
        simp [Ref.strongOne]] at h₁
      exact h₁.settle_updRef hr (h.held r ref hr (by simp))

/-- A new node has no handles and counts none. -/
theorem Ledger.insertNode (hs : Sound s) (h : Ledger s) (p : ProcId) (ptr cookie flags : Nat) :
    Ledger (s.bumpId.insertNode s.nextId p ptr cookie flags) := by
  refine { h with counted := ?_, named := ?_ }
  · intro m nd hm
    by_cases he : m = s.nextId
    · have hnil : s.nodeRefs s.nextId = [] := by
        refine List.eq_nil_iff_forall_not_mem.mpr fun r hr => ?_
        obtain ⟨ref, href, hnode⟩ := (hs.graph.nodeRefs.mem_iff _ r).mp hr
        have hnamed := h.named r ref href
        rw [Option.some.inj hnode, hs.graph.nodes_fresh] at hnamed
        cases hnamed
      subst he
      simp only [Driver.insertNode, Function.update_self, Option.some.injEq] at hm
      subst hm
      have hzero : (s.bumpId.insertNode s.nextId p ptr cookie flags).strongHandles s.nextId = 0 :=
        (congrArg (List.countP _) hnil).trans rfl
      rw [hzero]
      simp
    · exact h.counted m nd (by simpa [Driver.insertNode, bumpId, he] using hm)
  · intro r ref hr
    have hnamed := h.named r ref hr
    by_cases he : ref.node = s.nextId
    · simp [Driver.insertNode, he]
    · simpa [Driver.insertNode, bumpId, he] using hnamed

variable {A : Kind → Prop}

/-- News that are read change no count. -/
theorem Ledger.readNews (hs : Sound s) (h : Ledger s) (env : Env) (th : ThreadId) (m : NodeId)
    (rc : ReadCall) (q : Queue) : Ledger (readNews env s th m rc q) := by
  obtain ⟨s₁, hrep, hs₁, hcase⟩ := readNodeWork_reported (hs.dequeue (.node m)) env th m rc
  have h₁ : Ledger s₁ := by
    refine Books.keep h hrep.refs hrep.nodeRefs ?_ ?_
    · intro m' nd' hm'
      by_cases he : m' = m
      · subst he
        obtain ⟨nd, hnd, -, hcount, -⟩ := hrep.node nd' hm'
        exact ⟨nd, hnd, hcount⟩
      · exact ⟨nd', hrep.other m' he ▸ hm', rfl⟩
    · intro r ref _ hnode
      by_cases he : ref.node = m
      · obtain ⟨nd, hnd⟩ := Option.isSome_iff_exists.mp hnode
        exact he ▸ hrep.kept nd (he ▸ hnd)
      · rw [hrep.other _ he]
        exact hnode
  unfold Driver.readNews
  simp only
  have hdrv : Ledger (readNodeWork env (s.dequeueWork (.node m)) th m rc).drv := by
    rcases hcase with heq | ⟨-, heq⟩
    · rw [heq]
      exact h₁
    · rw [heq]
      exact Books.nodeMaybeFree hs₁ h₁ m
  split
  · exact Books.objects hdrv rfl
  · exact hdrv

/-- **Every effect keeps the ledger.** -/
theorem Effect.ledger (hs : Sound s) (h : Ledger s) (he : Effect A s s') : Ledger s' := by
  cases he with
  | aside ha => exact Books.objects h ha.objects
  | birth env pid ctx _ =>
      exact Books.objects h
        (procNew_rule (P := fun s' => s'.objects = s.objects) env pid ctx rfl rfl)
  | dying p _ => exact Books.objects h rfl
  | unmanage p _ _ =>
      apply releaseManager_rule p h
      intro proc m _ _ _
      exact Books.updNode (s := s.updContext _ _) (Books.objects h rfl) _ fun _ => rfl
  | enter env p tid =>
      exact Books.objects h
        (threadGet_rule (P := fun s' => s'.objects = s.objects) env p tid rfl rfl rfl)
  | exit p th _ => exact Books.objects h rfl
  | discard n _ => exact Books.objects h rfl
  | localRef n strong increment thread _ =>
      refine ((h.at n).nodeUpdateRefs hs strong increment false thread 0 ?_ fun _ _ _ => rfl).ledger
      intro nd nd' _ hcount
      unfold Node.count at hcount
      grind
  | takeRef env p n strong thread r s₁ _ hn _ hget _ => exact h.takeRef hs hn hget strong thread
  | holdRef r strong thread => exact h.refUpdate hs r strong true thread
  | giveRef r strong thread _ => exact h.refUpdate hs r strong false thread
  | markRef r death ha => exact Books.objects (h.markRef hs r death) ha.objects
  | deleteRef r _ => exact (Books.loosen h r).refDelete hs
  | makeNode n p ptr cookie flags hnew hn hp _ =>
      subst hn
      exact h.insertNode hs p ptr cookie flags
  | hold n => exact Books.updNode h n fun _ => rfl
  | unhold n =>
      have hkept : NodeKept fun nd : Node => { nd with tmpRefs := nd.tmpRefs - 1 } :=
        ⟨fun _ => rfl, fun _ => rfl, fun _ => rfl, fun _ => rfl⟩
      have hs₁ := ObjectStep.sound (O := fun _ => True) hs (.count n _ hkept)
      have h₁ : Ledger (s.updNode n fun nd => { nd with tmpRefs := nd.tmpRefs - 1 }) :=
        Books.updNode h n fun _ => rfl
      exact Books.nodeMaybeFree hs₁ h₁ n
  | async n b => exact Books.updNode h n fun _ => rfl
  | done n strong _ =>
      refine Books.updNode h n fun nd => ?_
      split <;> rfl
  | manager c n _ hown =>
      exact Books.updNode (s := s.updContext c _) (Books.objects h rfl) n fun _ => rfl
  | orphan p n hmem _ _ =>
      obtain ⟨s₁, hs₁, -, hobj, heq⟩ := releaseNode_cases hs hmem
      have hunlisted : Ledger (s.unlistNode p n) :=
        Books.keep h rfl rfl (fun _ nd hm => ⟨nd, hm, rfl⟩) fun _ _ _ hnode => hnode
      have h₁ : Ledger ((s.unlistNode p n).updNode n fun nd =>
          { nd with isDead := true, proc := none }) := Books.updNode hunlisted n fun _ => rfl
      rw [heq]
      exact Books.nodeMaybeFree hs₁ (Books.objects h₁ hobj) n
  | bury p _ _ => exact Books.objects h rfl
  | news env th n rc q hq _ => exact h.readNews hs env th n rc q

/-- Every run keeps the account. -/
theorem Reachable.ledger (h : Reachable s) : Ledger s := by
  refine Reaches.effects (P := Ledger) ?_ ?_ h
  · constructor <;> simp [Driver.init]
  · intro s a _ _ _ s₁ s₂ hs₁ _ hmove hledger
    exact hmove.effect.ledger hs₁ hledger

/-- **The reference graph.**  A node counts the handles that hold it strongly; a
handle is on one process's list exactly if it is on its node's list; a process
has one handle to a node; a handle holds something; and the node it names is
there. -/
structure RefGraph (s : Driver) : Prop where
  counted : ∀ n nd, s.nodes n = some nd → nd.internalStrongRefs = s.strongHandles n
  listed : ∀ r, (∃! p, r ∈ s.procRefs p) ↔ ∃ ref, s.refs r = some ref ∧ r ∈ s.nodeRefs ref.node
  unique : ∀ p r r' ref ref', r ∈ s.procRefs p → r' ∈ s.procRefs p → s.refs r = some ref →
    s.refs r' = some ref' → ref.node = ref'.node → r = r'
  held : ∀ r ref, s.refs r = some ref → 0 < ref.strong + ref.weak
  named : ∀ r ref, s.refs r = some ref → ∃ nd, s.nodes ref.node = some nd

/-- The lists of processes and nodes hold the same handles. -/
theorem Graph.listed (h : Graph s) (r : RefId) :
    (∃! p, r ∈ s.procRefs p) ↔ ∃ ref, s.refs r = some ref ∧ r ∈ s.nodeRefs ref.node := by
  constructor
  · rintro ⟨p, hp, -⟩
    obtain ⟨ref, hr, -⟩ := (h.procRefs.mem_iff p r).mp hp
    exact ⟨ref, hr, (h.nodeRefs.mem_iff _ r).mpr ⟨ref, hr, rfl⟩⟩
  · rintro ⟨ref, hr, -⟩
    refine ⟨ref.proc, (h.procRefs.mem_iff _ r).mpr ⟨ref, hr, rfl⟩, fun p hp => ?_⟩
    obtain ⟨ref', hr', hproc⟩ := (h.procRefs.mem_iff p r).mp hp
    rw [hr] at hr'
    cases hr'
    exact (Option.some.inj hproc).symm

/-- **Every state of every run has its reference graph in order.** -/
theorem reachable_refGraph (h : Reachable s) : RefGraph s where
  counted n nd hn := by
    have hcounted := (Reachable.ledger h).counted n nd hn
    simpa using hcounted
  listed := (Reachable.steady h).sound.graph.listed
  unique p r r' ref ref' hp hp' hr hr' hnode := by
    have hgraph := (Reachable.steady h).sound.graph
    obtain ⟨ref₁, hr₁, hproc⟩ := (hgraph.procRefs.mem_iff p r).mp hp
    obtain ⟨ref₂, hr₂, hproc'⟩ := (hgraph.procRefs.mem_iff p r').mp hp'
    rw [hr] at hr₁
    cases hr₁
    rw [hr'] at hr₂
    cases hr₂
    exact (Reachable.ledger h).unique r r' ref ref' hr hr'
      (Option.some.inj (hproc.trans hproc'.symm)) hnode
  held r ref hr := (Reachable.ledger h).held r ref hr (by simp)
  named r ref hr := Option.isSome_iff_exists.mp ((Reachable.ledger h).named r ref hr)

/-- Process 5 has acquired the manager. -/
theorem reachable_refGraph_acquire :
    (twoProcessesUp.run [.command {} 6 (.reference true true 0)]).strongHandles 4 = 1 ∧
      RefGraph (twoProcessesUp.run [.command {} 6 (.reference true true 0)]) :=
  ⟨by decide +kernel, reachable_refGraph ((Reachable.run .init twoProcesses).run _)⟩

end Driver

end Binder
