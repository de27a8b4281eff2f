import DevfsBinder.IoctlDispatch
import Mathlib.Data.List.Sort

/-!
# Enumerating the nodes of a process

`BINDER_GET_NODE_DEBUG_INFO` keeps no cursor: each ioctl goes through the node
list, which is in no particular order, and returns the least address above the
one it is given, or zero.  A client that starts from zero and hands back what it
was given last sees every node of its process that is not at address zero, once
and in order, and then zero (`debug_info_enumerates`).
-/

namespace Binder

/-! ## The least number above another -/

/-- One look at `x`; zero stands for nothing found so far. -/
def leastStep (after best x : ℕ) : ℕ :=
  if x ≤ after then best else if best = 0 ∨ x < best then x else best

/-- The least number of `xs` above `after`, or zero. -/
def leastAbove (after : ℕ) (xs : List ℕ) : ℕ := xs.foldl (leastStep after) 0

/-- What a search has found in `xs`. -/
structure Found (after best : ℕ) (xs : List ℕ) : Prop where
  mem : best = 0 ∨ best ∈ xs ∧ after < best
  least : ∀ x ∈ xs, after < x → best ≠ 0 ∧ best ≤ x

/-- One number more has been looked at. -/
theorem Found.step {after best : ℕ} {xs : List ℕ} (h : Found after best xs) (x : ℕ) :
    Found after (leastStep after best x) (xs ++ [x]) := by
  have hin : ∀ {y}, y ∈ xs ++ [x] ↔ y ∈ xs ∨ y = x := by simp
  unfold leastStep
  split
  · rename_i hle
    refine ⟨h.mem.imp_right fun hmem => ⟨hin.mpr (.inl hmem.1), hmem.2⟩, fun y hy hlt => ?_⟩
    rcases hin.mp hy with hy | rfl
    · exact h.least y hy hlt
    · omega
  split
  · rename_i hgt hbest
    refine ⟨.inr ⟨hin.mpr (.inr rfl), by omega⟩, fun y hy hlt => ?_⟩
    rcases hin.mp hy with hy | rfl
    · have hleast := h.least y hy hlt
      omega
    · omega
  · rename_i hgt hbest
    refine ⟨h.mem.imp_right fun hmem => ⟨hin.mpr (.inl hmem.1), hmem.2⟩, fun y hy hlt => ?_⟩
    rcases hin.mp hy with hy | rfl
    · exact h.least y hy hlt
    · omega

theorem Found.foldl {after : ℕ} (ys : List ℕ) {best : ℕ} {xs : List ℕ} (h : Found after best xs) :
    Found after (ys.foldl (leastStep after) best) (xs ++ ys) := by
  induction ys generalizing best xs with
  | nil =>
      rw [List.append_nil]
      exact h
  | cons y ys ih =>
      rw [List.append_cons]
      exact ih (h.step y)

theorem leastAbove_found (after : ℕ) (xs : List ℕ) : Found after (leastAbove after xs) xs := by
  have hnone : Found after 0 [] := ⟨.inl rfl, by simp⟩
  exact hnone.foldl xs

/-- The first `k` answers to a question that is asked about the last answer. -/
def answers (next : ℕ → ℕ) : ℕ → ℕ → List ℕ
  | _, 0 => []
  | after, k + 1 => next after :: answers next (next after) k

/-- Asking for the least number above the last goes through all of them. -/
theorem answers_leastAbove {xs l : List ℕ} (hl : l.Pairwise (· < ·)) {after : ℕ}
    (hmem : ∀ x, x ∈ l ↔ x ∈ xs ∧ after < x) :
    answers (fun after => leastAbove after xs) after (l.length + 1) = l ++ [0] := by
  induction l generalizing after with
  | nil =>
      have hzero : leastAbove after xs = 0 := by
        rcases (leastAbove_found after xs).mem with hzero | hfound
        · exact hzero
        · exact absurd ((hmem _).mpr hfound) (by simp)
      simp [answers, hzero]
  | cons a l ih =>
      obtain ⟨hle, hl⟩ := List.pairwise_cons.mp hl
      obtain ⟨ha, hlt⟩ := (hmem a).mp List.mem_cons_self
      obtain ⟨hne, hleast⟩ := (leastAbove_found after xs).least a ha hlt
      have hfirst : leastAbove after xs = a := by
        have hfound := ((leastAbove_found after xs).mem.resolve_left hne)
        rcases List.mem_cons.mp ((hmem _).mpr hfound) with heq | hin
        · exact heq
        · exact absurd (hle _ hin) (by omega)
      have hrest : ∀ x, x ∈ l ↔ x ∈ xs ∧ a < x := by
        intro x
        constructor
        · intro hx
          exact ⟨((hmem x).mp (List.mem_cons_of_mem a hx)).1, hle x hx⟩
        · rintro ⟨hx, hax⟩
          rcases List.mem_cons.mp ((hmem x).mpr ⟨hx, by omega⟩) with rfl | hin
          · omega
          · exact hin
      rw [List.length_cons, answers, hfirst, ih hl hrest, List.cons_append]

/-! ## The search through the node list -/

namespace Driver

variable {s s' : Driver}

/-- The address of a node, zero for none. -/
def ptrOf (s : Driver) (n : NodeId) : ℕ := ((s.nodes n).map (·.ptr)).getD 0

theorem debugInfoTurn_ptr (s : Driver) (after : ℕ) (info : NodeDebugInfo) (n : NodeId) :
    (s.debugInfoTurn after info n).ptr = leastStep after info.ptr (s.ptrOf n) := by
  unfold debugInfoTurn leastStep ptrOf
  cases s.nodes n with
  | none => simp
  | some nd =>
      simp only [Option.map_some, Option.getD_some]
      split
      · rfl
      split <;> rfl

theorem nodeDebugInfo_ptr (s : Driver) (p : ProcId) (after : ℕ) :
    (s.nodeDebugInfo p after).ptr = leastAbove after ((s.procNodes p).map s.ptrOf) := by
  have hfold : ∀ (ns : List NodeId) (info : NodeDebugInfo),
      (ns.foldl (s.debugInfoTurn after) info).ptr =
        (ns.map s.ptrOf).foldl (leastStep after) info.ptr := by
    intro ns
    induction ns with
    | nil => exact fun _ => rfl
    | cons n ns ih =>
        intro info
        rw [List.foldl_cons, ih, debugInfoTurn_ptr, List.map_cons, List.foldl_cons]
  exact hfold _ {}

/-- The pointers that come back when the search is asked about the last one. -/
def debugPtrs (s : Driver) (p : ProcId) : ℕ → ℕ → List ℕ :=
  answers fun after => (s.nodeDebugInfo p after).ptr

/-- The nodes of a process that are not at address zero. -/
def addressedNodes (s : Driver) (p : ProcId) : List NodeId :=
  (s.procNodes p).filter fun n => s.ptrOf n ≠ 0

theorem ptrOf_inj (hs : Sound s) {p : ProcId} {n n' : NodeId} (hn : n ∈ s.procNodes p)
    (hn' : n' ∈ s.procNodes p) (heq : s.ptrOf n = s.ptrOf n') : n = n' := by
  obtain ⟨nd, hnd, hproc⟩ := (hs.graph.procNodes.mem_iff p n).mp hn
  obtain ⟨nd', hnd', hproc'⟩ := (hs.graph.procNodes.mem_iff p n').mp hn'
  refine hs.graph.ptr_inj n n' nd nd' p hnd hnd' hproc hproc' ?_
  simpa [ptrOf, hnd, hnd'] using heq

/-- The nodes of a process in the order of their addresses. -/
def nodesByPtr (s : Driver) (p : ProcId) : List NodeId :=
  (s.addressedNodes p).mergeSort fun n n' => s.ptrOf n ≤ s.ptrOf n'

theorem nodesByPtr_perm (s : Driver) (p : ProcId) : (s.nodesByPtr p).Perm (s.addressedNodes p) :=
  List.mergeSort_perm ..

/-- The nodes in the order of their pointers, no two alike. -/
theorem nodesByPtr_pairwise (hs : Sound s) (p : ProcId) :
    ((s.nodesByPtr p).map s.ptrOf).Pairwise (· < ·) := by
  have htrans : ∀ a b c, decide (s.ptrOf a ≤ s.ptrOf b) = true →
      decide (s.ptrOf b ≤ s.ptrOf c) = true → decide (s.ptrOf a ≤ s.ptrOf c) = true := by
    simp only [decide_eq_true_eq]
    omega
  have htotal : ∀ a b,
      (decide (s.ptrOf a ≤ s.ptrOf b) || decide (s.ptrOf b ≤ s.ptrOf a)) = true := by
    simp only [Bool.or_eq_true, decide_eq_true_eq]
    omega
  have hle : (s.nodesByPtr p).Pairwise fun n n' => s.ptrOf n ≤ s.ptrOf n' :=
    (List.pairwise_mergeSort htrans htotal (s.addressedNodes p)).imp of_decide_eq_true
  have hnodup : (s.nodesByPtr p).Nodup :=
    (s.nodesByPtr_perm p).nodup_iff.mpr ((hs.graph.procNodes.nodup p).filter _)
  rw [List.pairwise_map]
  refine (hle.and hnodup).imp_of_mem fun {n n'} hn hn' hboth => ?_
  refine lt_of_le_of_ne hboth.1 fun heq => hboth.2 (ptrOf_inj hs (p := p) ?_ ?_ heq)
  · exact List.mem_of_mem_filter ((s.nodesByPtr_perm p).mem_iff.mp hn)
  · exact List.mem_of_mem_filter ((s.nodesByPtr_perm p).mem_iff.mp hn')

/-- **The search goes through the nodes in order.** -/
theorem debugPtrs_eq (hs : Sound s) (p : ProcId) :
    s.debugPtrs p 0 ((s.nodesByPtr p).length + 1) = (s.nodesByPtr p).map s.ptrOf ++ [0] := by
  have hnext : (fun after => (s.nodeDebugInfo p after).ptr) =
      fun after => leastAbove after ((s.procNodes p).map s.ptrOf) :=
    funext fun after => nodeDebugInfo_ptr s p after
  have hmem : ∀ x, x ∈ (s.nodesByPtr p).map s.ptrOf ↔
      x ∈ (s.procNodes p).map s.ptrOf ∧ 0 < x := by
    intro x
    simp only [List.mem_map, (s.nodesByPtr_perm p).mem_iff, addressedNodes, List.mem_filter,
      decide_eq_true_eq]
    constructor
    · rintro ⟨n, ⟨hn, hne⟩, rfl⟩
      exact ⟨⟨n, hn, rfl⟩, by omega⟩
    · rintro ⟨⟨n, hn, rfl⟩, hlt⟩
      exact ⟨n, ⟨hn, by omega⟩, rfl⟩
  have hwalk := answers_leastAbove (nodesByPtr_pairwise hs p) hmem
  rw [List.length_map] at hwalk
  rw [debugPtrs, hnext]
  exact hwalk

theorem threadGet_nodes (env : Env) (s : Driver) (p : ProcId) (tid : Nat) :
    (threadGet env s p tid).2.nodes = s.nodes ∧
      (threadGet env s p tid).2.procNodes = s.procNodes ∧
      (threadGet env s p tid).2.procs = s.procs := by
  exact threadGet_rule (P := fun s' => s'.nodes = s.nodes ∧ s'.procNodes = s.procNodes ∧
    s'.procs = s.procs) env p tid ⟨rfl, rfl, rfl⟩ ⟨rfl, rfl, rfl⟩ ⟨rfl, rfl, rfl⟩

theorem nodeDebugInfo_congr {p : ProcId} (hnodes : s'.nodes = s.nodes)
    (hlist : s'.procNodes = s.procNodes) : s'.nodeDebugInfo p = s.nodeDebugInfo p := by
  funext after
  unfold nodeDebugInfo
  rw [hlist]
  congr 1
  funext info n
  unfold debugInfoTurn
  rw [hnodes]

end Driver

/-! ## The ioctls -/

namespace IoctlState

open Driver LittleEndian

variable {st st' : IoctlState}

/-- The ioctl is answered when the calling thread is known or can be made known. -/
theorem devIoctl_debugInfo {m i tid : Nat} {p : ProcId} {cmd : UInt32} {env : Env} {th : ThreadId}
    {s : Driver} (hm : Device.slotForDev m = some i) (hp : (st.slots i).proc = some p)
    (halive : st.driver.procAlive p = true) (hcmd : decodeIoctl cmd = some .getNodeDebugInfo)
    (hget : threadGet env st.driver p tid = (some th, s)) (made : Bool) (arg : Bytes) :
    st.devIoctl env made tid m cmd arg = .served (st.setDriver s) none
      (.nodeDebugInfo (st.driver.nodeDebugInfo p (field arg 0 8))) := by
  have hnodes := threadGet_nodes env st.driver p tid
  rw [hget] at hnodes
  have hinfo : s.nodeDebugInfo p = st.driver.nodeDebugInfo p :=
    nodeDebugInfo_congr hnodes.1 hnodes.2.1
  unfold devIoctl
  simp only [hm, hcmd, Option.any_some, Ioctl.readsArgument, Bool.false_eq_true, false_and,
    if_false, hp, halive, if_true, hget]
  rw [serve, setDriver, hinfo]

/-- The client of minor `m` asks about `after`, then about each answer in turn, and
is given the addresses `l`. -/
inductive DebugWalk (m : Nat) : IoctlState → ℕ → List ℕ → Prop
  | nil (st : IoctlState) (after : ℕ) : DebugWalk m st after []
  | cons {st st' : IoctlState} {after : ℕ} {l : List ℕ} {info : NodeDebugInfo} (env : Env)
      (made : Bool) (tid : Nat) (cmd : UInt32) (arg : Bytes)
      (hcmd : decodeIoctl cmd = some .getNodeDebugInfo) (harg : field arg 0 8 = after)
      (heq : st.devIoctl env made tid m cmd arg = .served st' none (.nodeDebugInfo info))
      (h : DebugWalk m st' info.ptr l) : DebugWalk m st after (info.ptr :: l)

/-- The walk is given what the search finds, turn by turn. -/
theorem DebugWalk.eq_debugPtrs {m i : Nat} {p : ProcId} {after : ℕ} {l : List ℕ}
    (h : DebugWalk m st after l) (hm : Device.slotForDev m = some i)
    (hp : (st.slots i).proc = some p) (halive : st.driver.procAlive p = true) :
    l = st.driver.debugPtrs p after l.length := by
  induction h with
  | nil st after => rfl
  | @cons st st' after l info env made tid cmd arg hcmd harg heq h ih =>
      rcases hget : threadGet env st.driver p tid with ⟨_ | th, s⟩
      · unfold devIoctl at heq
        simp only [hm, hcmd, Option.any_some, Ioctl.readsArgument, Bool.false_eq_true, false_and,
          if_false, hp, halive, if_true, hget] at heq
        cases heq
      · obtain ⟨hnodes, hlist, hprocs⟩ := threadGet_nodes env st.driver p tid
        rw [hget] at hnodes hlist hprocs
        rw [devIoctl_debugInfo hm hp halive hcmd hget made arg, harg] at heq
        cases heq
        have hrest := ih hp (by rw [setDriver, procAlive, hprocs]; exact halive)
        have hsame : (st.setDriver s).driver.debugPtrs p = st.driver.debugPtrs p := by
          unfold debugPtrs
          rw [setDriver, nodeDebugInfo_congr hnodes hlist]
        rw [hsame] at hrest
        exact congrArg (_ :: ·) hrest

/-- **The nodes of a process are enumerated.**  Whoever asks about zero first and
then about each answer in turn is told the addresses of the nodes that are not at
zero, in order, and then zero; and every ioctl on the way is answered. -/
theorem debug_info_enumerates (h : IoctlRun st) {m i : Nat} {p : ProcId}
    (hm : Device.slotForDev m = some i) (hp : (st.slots i).proc = some p) :
    ∃ ns : List NodeId, ns.Perm ((st.driver.procNodes p).filter fun n => st.driver.ptrOf n ≠ 0) ∧
      (ns.map st.driver.ptrOf).Pairwise (· < ·) ∧
      (∀ env made tid cmd arg, decodeIoctl cmd = some .getNodeDebugInfo →
        (threadGet env st.driver p tid).1.isSome → ∃ st',
          st.devIoctl env made tid m cmd arg = .served st' none
            (.nodeDebugInfo (st.driver.nodeDebugInfo p (field arg 0 8)))) ∧
      st.driver.debugPtrs p 0 (ns.length + 1) = ns.map st.driver.ptrOf ++ [0] ∧
      ∀ l, DebugWalk m st 0 l → l.length = ns.length + 1 →
        l = ns.map st.driver.ptrOf ++ [0] := by
  have hs := h.kept.reachable.steady.sound
  obtain ⟨proc, hproc, -⟩ := h.kept.belongs i p hp
  have halive := h.kept.reachable.open_alive (p := p) (by rw [hproc]; rfl)
  have hptrs := debugPtrs_eq hs p
  refine ⟨st.driver.nodesByPtr p, nodesByPtr_perm _ p, nodesByPtr_pairwise hs p, ?_, hptrs, ?_⟩
  · intro env made tid cmd arg hcmd hsome
    rcases hget : threadGet env st.driver p tid with ⟨_ | th, s⟩
    · rw [hget] at hsome
      cases hsome
    · exact ⟨_, devIoctl_debugInfo hm hp halive hcmd hget made arg⟩
  · intro l hwalk hlength
    rw [hwalk.eq_debugPtrs hm hp halive, hlength, hptrs]

/-- Process 5 has also sent the manager its object at `0x6000`, above the first. -/
def sharingTwo : IoctlState :=
  let parcel : Message :=
    { objectParcel with
      data := leBytes 4 0x73622a85 ++ leBytes 4 0 ++ leBytes 8 0x6000 ++ leBytes 8 0 }
  { sharingState with
    toDevice := [DeviceAction.driver (parcel.send 6)].foldl Device.act sharingState.toDevice }

theorem sharingTwo_run : IoctlRun sharingTwo := sharingState_run.devices _

/-- The node list has the object at `0x6000` first.  Process 5 asks three times and
sees its objects from below, and the end. -/
theorem debug_info_enumerates_two :
    (sharingTwo.driver.procNodes 5).map sharingTwo.driver.ptrOf = [0x6000, 0x5000] ∧
      sharingTwo.driver.debugPtrs 5 0 3 = [0x5000, 0x6000, 0] ∧
      ∀ l, DebugWalk 65 sharingTwo 0 l → l.length = 3 → l = [0x5000, 0x6000, 0] := by
  obtain ⟨ns, hperm, hsorted, -, hptrs, hwalk⟩ := debug_info_enumerates sharingTwo_run
    (m := 65) (i := 1) (p := 5) (by decide) (by decide +kernel)
  have hlist : (sharingTwo.driver.procNodes 5).map sharingTwo.driver.ptrOf = [0x6000, 0x5000] := by
    decide +kernel
  have hnodes : ((sharingTwo.driver.procNodes 5).filter fun n => sharingTwo.driver.ptrOf n ≠ 0) =
      sharingTwo.driver.procNodes 5 := by decide +kernel
  rw [hnodes] at hperm
  have hmap : (ns.map sharingTwo.driver.ptrOf).Perm [0x5000, 0x6000] :=
    ((hperm.map _).trans (hlist ▸ .refl _)).trans (.swap ..)
  have heq : ns.map sharingTwo.driver.ptrOf = [0x5000, 0x6000] :=
    hmap.eq_of_pairwise (fun _ _ _ _ h h' => absurd h (Nat.lt_asymm h')) hsorted (by decide)
  have hlength : ns.length = 2 := by
    rw [← ns.length_map, heq]
    rfl
  rw [heq, hlength] at hptrs hwalk
  exact ⟨hlist, hptrs, hwalk⟩

end IoctlState

end Binder
