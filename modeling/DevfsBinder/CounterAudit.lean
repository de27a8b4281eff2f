import DevfsBinder.CounterRoll
import DevfsBinder.OnewayBudget
import DevfsBinder.ReadsInProgress

/-!
# The counters are right

Every operation that makes or releases a record moves the counter beside it, and
none moves a counter for nothing.
-/

namespace Binder

namespace Driver

open Roll

variable {s : Driver} {k : ℤ}

theorem Audited.of_eq {s' : Driver} (h : s.roll.Audited k) (heq : s'.roll = s.roll) :
    s'.roll.Audited k := heq ▸ h

theorem Audited.bumpId (h : s.roll.Audited k) : s.bumpId.roll.Audited k where
  procs := h.procs.mono (Nat.le_succ _)
  threads := h.threads.mono (Nat.le_succ _)
  nodes := h.nodes.mono (Nat.le_succ _)
  refs := h.refs.mono (Nat.le_succ _)
  txns := h.txns.mono (Nat.le_succ _)
  arenaBytes := h.arenaBytes
  kdataBytes := h.kdataBytes
  tidy p := (h.tidy p).mono (Nat.le_succ _)

theorem foldl_audited {α : Type} {f : Driver → α → Driver}
    (hf : ∀ s a, s.roll.Audited k → (f s a).roll.Audited k) (l : List α)
    (h : s.roll.Audited k) : (l.foldl f s).roll.Audited k := by
  induction l generalizing s with
  | nil => exact h
  | cons a l ih => exact ih (hf s a h)

/-! ## Transactions -/

theorem Audited.forgetTxn (h : s.roll.Audited k) {t : TxnId} (ht : present s.txns t = 1) :
    (s.forgetTxn t).roll.Audited k := by
  have heq : (s.forgetTxn t).roll.txns = Function.update s.roll.txns t 0 :=
    present_erase s.txns t
  refine { h with txns := ?_ }
  rw [heq]
  exact h.txns.erase ht

/-- Unlinking a transaction leaves the roll alone, up to the record itself. -/
theorem freeTransaction_forgets {t : TxnId} {x : Txn} (hx : s.txns t = some x) :
    ∃ s₁ : Driver, s₁.roll = s.roll ∧ s.freeTransaction t = s₁.forgetTxn t := by
  refine ⟨((((s.dequeueWork (.transaction t)).popFrom x.fromThread t x.fromParent).popFrom
    x.toThread t x.toParent).detachBuffer x.toProc x.buffer), by simp, ?_⟩
  simp only [Driver.freeTransaction, hx]

theorem Audited.freeTransaction (h : s.roll.Audited k) (t : TxnId) :
    (s.freeTransaction t).roll.Audited k := by
  cases hx : s.txns t with
  | none =>
      simp only [Driver.freeTransaction, hx]
      exact h
  | some x =>
      obtain ⟨s₁, hroll, heq⟩ := freeTransaction_forgets hx
      rw [heq]
      apply Audited.forgetTxn (Audited.of_eq h hroll)
      exact (congrFun (congrArg Roll.txns hroll) t).trans (present_of_some hx)

theorem freeTransaction_nodes (s : Driver) (t : TxnId) :
    (s.freeTransaction t).roll.nodes = s.roll.nodes := by
  cases hx : s.txns t with
  | none => simp only [Driver.freeTransaction, hx]
  | some x =>
      obtain ⟨s₁, hroll, heq⟩ := freeTransaction_forgets hx
      have hnodes : s₁.roll.nodes = s.roll.nodes := congrArg Roll.nodes hroll
      rw [heq]
      exact hnodes

/-! ## Nodes -/

theorem Audited.dropAsync (h : s.roll.Audited k) (w : Work) :
    (s.dropAsync w).roll.Audited k := by
  unfold Driver.dropAsync
  split
  · rename_i t
    have hdone := Audited.freeTransaction (Audited.of_eq h (s.dequeueWork_roll (.transaction t))) t
    exact Audited.of_eq hdone (note_roll ..)
  · exact h

theorem dropAsync_nodes (s : Driver) (w : Work) : (s.dropAsync w).roll.nodes = s.roll.nodes := by
  unfold Driver.dropAsync
  split
  · rename_i t
    rw [note_roll]
    exact freeTransaction_nodes (s.dequeueWork (.transaction t)) t
  · rfl

theorem Audited.forgetNode (h : s.roll.Audited k) {n : NodeId} (hn : present s.nodes n = 1) :
    (s.forgetNode n).roll.Audited k := by
  have heq : (s.forgetNode n).roll.nodes = Function.update s.roll.nodes n 0 :=
    present_erase s.nodes n
  refine { h with nodes := ?_ }
  rw [heq]
  exact h.nodes.erase hn

/-- A node that is freed is uncounted. -/
theorem Audited.nodeFree (h : s.roll.Audited k) {n : NodeId} {nd : Node}
    (hn : s.nodes n = some nd) : (s.nodeFree n nd).roll.Audited k := by
  have hdrop := foldl_audited (fun s w h => Audited.dropAsync h w) (s.items (.node n)) h
  have hnodes := foldl_kept (fun s => s.roll.nodes) dropAsync_nodes (s.items (.node n)) s
  unfold Driver.nodeFree
  simp only
  generalize (s.items (.node n)).foldl Driver.dropAsync s = s₁ at hdrop hnodes
  have hthere : s₁.roll.nodes n = 1 := by
    rw [hnodes]
    exact present_of_some hn
  split
  · rename_i p hp
    have hroll : ((s₁.unlistNode p n).clearManager p n).roll = s₁.roll := by simp
    apply Audited.forgetNode (Audited.of_eq hdrop hroll)
    exact (congrFun (congrArg Roll.nodes hroll) n).trans hthere
  · exact Audited.forgetNode hdrop hthere

theorem Audited.nodeMaybeFree (h : s.roll.Audited k) (n : NodeId) :
    (s.nodeMaybeFree n).roll.Audited k := by
  unfold Driver.nodeMaybeFree
  split
  · exact h
  · rename_i nd hn
    split
    · exact h
    split
    · exact h
    split
    · exact h
    · exact Audited.nodeFree h hn

theorem Audited.nodeDecTmpref (h : s.roll.Audited k) (n : NodeId) :
    (s.nodeDecTmpref n).roll.Audited k :=
  Audited.nodeMaybeFree (Audited.of_eq h (updNode_roll ..)) n

theorem Audited.nodeUpdateRefs (h : s.roll.Audited k) (n : NodeId)
    (strong increment internal : Bool) (thread : Option ThreadId) :
    (s.nodeUpdateRefs n strong increment internal thread).1.roll.Audited k := by
  unfold Driver.nodeUpdateRefs
  split
  · exact h
  split
  · exact h
  · apply Audited.nodeMaybeFree
    split
    · exact Audited.of_eq h (by simp)
    · exact Audited.of_eq h (by simp)

theorem Audited.insertNode (h : s.roll.Audited k) {n : NodeId} (hlt : n < s.nextId)
    (hn : present s.nodes n = 0) (p : ProcId) (ptr cookie flags : Nat) :
    (s.insertNode n p ptr cookie flags).roll.Audited k := by
  have heq : (s.insertNode n p ptr cookie flags).roll.nodes = Function.update s.roll.nodes n 1 :=
    present_insert s.nodes n _
  refine { h with nodes := ?_ }
  rw [heq]
  exact h.nodes.insert hlt hn

theorem Audited.nodeNew (h : s.roll.Audited k) (env : Env) (p : ProcId)
    (ptr cookie flags : Nat) : (s.nodeNew env p ptr cookie flags).2.roll.Audited k := by
  rcases s.nodeNew_ends env p ptr cookie flags with ⟨n, -, heq⟩ | ⟨-, heq⟩ | heq <;> rw [heq]
  · exact h
  · exact Audited.insertNode (Audited.bumpId h) (Nat.lt_succ_self _)
      (h.nodes.fresh s.nextId (Nat.le_refl _)) p ptr cookie flags
  · exact Audited.bumpId h

/-! ## References -/

theorem Audited.insertRef (h : s.roll.Audited k) {r : RefId} (hlt : r < s.nextId)
    (hr : present s.refs r = 0) (p : ProcId) (n : NodeId) :
    (s.insertRef r p n).roll.Audited k := by
  have heq : (s.insertRef r p n).roll.refs = Function.update s.roll.refs r 1 :=
    present_insert s.refs r _
  refine { h with refs := ?_ }
  rw [heq]
  exact h.refs.insert hlt hr

theorem Audited.refGetForNode (h : s.roll.Audited k) (env : Env) (p : ProcId) (n : NodeId) :
    (s.refGetForNode env p n).2.roll.Audited k := by
  rcases s.refGetForNode_ends env p n with ⟨r, -, heq⟩ | ⟨-, heq⟩ | heq <;> rw [heq]
  · exact h
  · exact Audited.insertRef (Audited.bumpId h) (Nat.lt_succ_self _)
      (h.refs.fresh s.nextId (Nat.le_refl _)) p n
  · exact Audited.bumpId h

theorem Audited.forgetRef (h : s.roll.Audited k) {r : RefId} (hr : present s.refs r = 1)
    (ref : Ref) : (s.forgetRef r ref).roll.Audited k := by
  have heq : (s.forgetRef r ref).roll.refs = Function.update s.roll.refs r 0 :=
    present_erase s.refs r
  refine { h with refs := ?_ }
  rw [heq]
  exact h.refs.erase hr

theorem Audited.refDelete (h : s.roll.Audited k) (r : RefId) :
    (s.refDelete r).roll.Audited k := by
  unfold Driver.refDelete
  split
  · exact h
  · rename_i ref hr
    have hroll := s.releaseDeath_roll ref.death
    have hthere : present (s.releaseDeath ref.death).refs r = 1 :=
      (congrFun (congrArg Roll.refs hroll) r).trans (present_of_some hr)
    exact Audited.nodeUpdateRefs (Audited.forgetRef (Audited.of_eq h hroll) hthere ref) ..

theorem Audited.refReap (h : s.roll.Audited k) (r : RefId) : (s.refReap r).roll.Audited k := by
  exact refReap_rule (P := fun s => s.roll.Audited k) r h (Audited.refDelete h r)

theorem Audited.refUpdate (h : s.roll.Audited k) (r : RefId) (strong increment : Bool)
    (thread : Option ThreadId) :
    (s.refUpdate r strong increment thread).1.roll.Audited k := by
  apply refUpdate_rule (P := fun s => s.roll.Audited k) r strong increment thread h
  · exact fun _ _ h => Audited.nodeUpdateRefs h ..
  · exact fun _ _ _ h => Audited.of_eq h (updRef_roll ..)
  · exact fun _ _ _ h => Audited.of_eq h (updRef_roll ..)
  · exact fun _ h => Audited.refReap h r

end Driver

/-! ## Buffers -/

section Buffers

open Driver

variable {b : BufferId} {bufs : List Buffer}

/-- What a buffer holds. -/
def Buffer.held (buf : Buffer) : ℤ := ((buf.kdata.getD []).length : ℤ)

/-- Only buffers in use hold a payload. -/
def Vacant (bufs : List Buffer) : Prop := ∀ buf ∈ bufs, buf.free = true → buf.kdata = none

theorem shelved_cons (buf : Buffer) (bufs : List Buffer) :
    shelved ((buf :: bufs).map Buffer.slot) = buf.held + shelved (bufs.map Buffer.slot) := rfl

theorem held_of_none {buf : Buffer} (h : buf.kdata = none) : buf.held = 0 := by
  simp [Buffer.held, h]

theorem kdataBytes_eq (bufs : List Buffer) : kdataBytes bufs = shelved (bufs.map Buffer.slot) := by
  induction bufs with
  | nil => rfl
  | cons buf bufs ih =>
      rw [shelved_cons, ← ih]
      simp [kdataBytes, Buffer.held]

theorem Vacant.cons {buf : Buffer} (hbuf : buf.free = true → buf.kdata = none)
    (h : Vacant bufs) : Vacant (buf :: bufs) := by
  intro y hy
  rcases List.mem_cons.mp hy with rfl | hy
  · exact hbuf
  · exact h y hy

theorem Vacant.tail {buf : Buffer} (h : Vacant (buf :: bufs)) : Vacant bufs :=
  fun y hy => h y (List.mem_cons_of_mem _ hy)

/-- Freeing takes the payload of the buffer off the shelf. -/
theorem markFree_shelved (hv : Vacant bufs) {buf : Buffer}
    (hfind : bufs.find? (fun buf => buf.id = b) = some buf) :
    shelved ((markFree b bufs).map Buffer.slot) + buf.held = shelved (bufs.map Buffer.slot) := by
  induction bufs with
  | nil => cases hfind
  | cons first rest ih =>
      unfold markFree
      by_cases hid : first.id = b
      · rw [List.find?_cons_of_pos (by simpa using hid)] at hfind
        have hreleased (size : Nat) : ({ first.released with size := size } : Buffer).held = 0 :=
          held_of_none rfl
        have hfirst : first.released.held = 0 := held_of_none rfl
        cases hfind
        rw [if_pos hid]
        cases rest with
        | nil =>
            simp only [shelved_cons, hfirst]
            omega
        | cons next rest =>
            simp only
            split
            · rename_i hnext
              have hnone := held_of_none (hv next (by simp) hnext)
              simp only [shelved_cons, hnone, hreleased]
              omega
            · simp only [shelved_cons, hfirst]
              omega
      · rw [List.find?_cons_of_neg (by simpa using hid)] at hfind
        rw [if_neg hid, shelved_cons, shelved_cons, ← ih hv.tail hfind]
        omega

theorem markFree_vacant (hv : Vacant bufs) : Vacant (markFree b bufs) := by
  induction bufs with
  | nil => exact hv
  | cons first rest ih =>
      unfold markFree
      split
      · cases rest with
        | nil => exact Vacant.cons (fun _ => rfl) hv.tail
        | cons next rest =>
            simp only
            split
            · exact Vacant.cons (fun _ => rfl) hv.tail.tail
            · exact Vacant.cons (fun _ => rfl) hv.tail
      · exact Vacant.cons (hv first (by simp)) (ih hv.tail)

theorem markFree_ids : ((markFree b bufs).map Buffer.id).Sublist (bufs.map Buffer.id) := by
  induction bufs with
  | nil => exact .slnil
  | cons first rest ih =>
      unfold markFree
      split
      · cases rest with
        | nil => exact List.Sublist.refl _
        | cons next rest =>
            simp only
            split
            · exact ((List.Sublist.refl _).cons next.id).cons_cons first.id
            · exact List.Sublist.refl _
      · exact ih.cons_cons first.id

/-- The buffer that was marked holds no bytes. -/
theorem markFree_blank (hnodup : (bufs.map Buffer.id).Nodup) :
    ∀ buf ∈ markFree b bufs, buf.id = b → buf.kdata = none := by
  induction bufs with
  | nil => simp [markFree]
  | cons first rest ih =>
      obtain ⟨hnew, hnodup⟩ := List.nodup_cons.mp hnodup
      have hother : ∀ buf ∈ rest, first.id = b → buf.id = b → False := by
        intro buf hbuf hfirst hid
        exact hnew (hfirst ▸ hid ▸ List.mem_map_of_mem hbuf)
      unfold markFree
      split
      · rename_i hfirst
        cases rest with
        | nil =>
            intro buf hbuf _
            rw [List.mem_singleton.mp hbuf]
            rfl
        | cons next rest =>
            simp only
            split
            · intro buf hbuf hid
              rcases List.mem_cons.mp hbuf with rfl | hbuf
              · rfl
              · exact (hother buf (List.mem_cons_of_mem _ hbuf) hfirst hid).elim
            · intro buf hbuf hid
              rcases List.mem_cons.mp hbuf with rfl | hbuf
              · rfl
              · exact (hother buf hbuf hfirst hid).elim
      · rename_i hfirst
        intro buf hbuf hid
        rcases List.mem_cons.mp hbuf with rfl | hbuf
        · exact absurd hid hfirst
        · exact ih hnodup buf hbuf hid

/-- Merging a blank buffer loses no bytes. -/
theorem mergePrev_shelved (hblank : ∀ buf ∈ bufs, buf.id = b → buf.kdata = none) :
    shelved ((mergePrev b bufs).map Buffer.slot) = shelved (bufs.map Buffer.slot) := by
  induction bufs with
  | nil => rfl
  | cons prev rest ih =>
      cases rest with
      | nil => rfl
      | cons buf rest =>
          rw [mergePrev]
          split
          · rename_i hid
            split
            · simp only [shelved_cons, held_of_none (hblank buf (by simp) hid)]
              have hsame : ({ prev with size := prev.size + buf.size } : Buffer).held =
                  prev.held := rfl
              omega
            · rfl
          · rw [shelved_cons, shelved_cons, ih fun y hy => hblank y (List.mem_cons_of_mem _ hy)]

theorem mergePrev_vacant (hv : Vacant bufs) : Vacant (mergePrev b bufs) := by
  induction bufs with
  | nil => exact hv
  | cons prev rest ih =>
      cases rest with
      | nil => exact hv
      | cons buf rest =>
          rw [mergePrev]
          split
          · split
            · rename_i hprev
              exact Vacant.cons (fun _ => hv prev (by simp) hprev) hv.tail.tail
            · exact hv
          · exact Vacant.cons (hv prev (by simp)) (ih hv.tail)

theorem mergePrev_ids : ((mergePrev b bufs).map Buffer.id).Sublist (bufs.map Buffer.id) := by
  induction bufs with
  | nil => exact .slnil
  | cons prev rest ih =>
      cases rest with
      | nil => exact List.Sublist.refl _
      | cons buf rest =>
          rw [mergePrev]
          split
          · split
            · exact ((List.Sublist.refl _).cons buf.id).cons_cons prev.id
            · exact List.Sublist.refl _
          · exact ih.cons_cons prev.id

end Buffers

namespace Driver

open Roll

variable {s : Driver} {k : ℤ}

theorem Tidy.vacant {bufs : List Buffer} {bound : Nat} (h : Tidy (bufs.map Buffer.slot) bound) :
    Vacant bufs :=
  fun buf hbuf hfree => h.empty buf.slot (List.mem_map_of_mem hbuf) hfree

theorem Tidy.ids {bufs : List Buffer} {bound : Nat} (h : Tidy (bufs.map Buffer.slot) bound) :
    (bufs.map Buffer.id).Nodup := by
  have hnodup := h.nodup
  rw [List.map_map] at hnodup
  exact hnodup

theorem tidy_iff {bufs : List Buffer} {bound : Nat} : Tidy (bufs.map Buffer.slot) bound ↔
    (bufs.map Buffer.id).Nodup ∧ (∀ buf ∈ bufs, buf.id < bound) ∧ Vacant bufs := by
  constructor
  · intro h
    exact ⟨Tidy.ids h, fun buf hbuf => h.lt buf.slot (List.mem_map_of_mem hbuf), Tidy.vacant h⟩
  · intro ⟨hnodup, hlt, hvacant⟩
    constructor
    · rw [List.map_map]
      exact hnodup
    · intro slot hslot
      obtain ⟨buf, hbuf, rfl⟩ := List.mem_map.mp hslot
      exact hlt buf hbuf
    · intro slot hslot
      obtain ⟨buf, hbuf, rfl⟩ := List.mem_map.mp hslot
      exact hvacant buf hbuf

@[simp]
theorem updArena_stats (p : ProcId) (f : Arena → Arena) : (s.updArena p f).stats = s.stats :=
  rfl

/-- One arena changes, and the counters of bytes with it. -/
theorem Audited.setArena (h : s.roll.Audited k) (p : ProcId) (arenaBytes kdata : ℤ) {a : Arena}
    {j : ℤ}
    (htidy : Tidy (a.buffers.map Buffer.slot) s.nextId)
    (hsize : arenaBytes = s.stats.arenaBytes + a.size - (s.arenas p).size)
    (hkdata : kdata - j = s.stats.kdataBytes - k + shelved (a.buffers.map Buffer.slot) -
      shelved ((s.arenas p).buffers.map Buffer.slot)) :
    ((s.updArena p fun _ => a).updStats fun st =>
      { st with arenaBytes := arenaBytes, kdataBytes := kdata }).roll.Audited j := by
  have hsizes : ((s.updArena p fun _ => a).updStats fun st =>
      { st with arenaBytes := arenaBytes, kdataBytes := kdata }).roll.sizes =
      Function.update s.roll.sizes p a.size := by
    funext q
    by_cases hq : q = p
    · subst hq
      simp [roll, updArena, updStats]
    · simp [roll, updArena, updStats, hq]
  have hshelves : (fun q => shelved (((s.updArena p fun _ => a).updStats fun st =>
      { st with arenaBytes := arenaBytes, kdataBytes := kdata }).roll.shelves q)) =
      Function.update (fun q => shelved (s.roll.shelves q)) p
        (shelved (a.buffers.map Buffer.slot)) := by
    funext q
    by_cases hq : q = p
    · subst hq
      simp [roll, updArena, updStats]
    · simp [roll, updArena, updStats, hq]
  refine { h with arenaBytes := ?_, kdataBytes := ?_, tidy := ?_ }
  · rw [hsizes]
    have htotal := h.arenaBytes.update p a.size
    have hstat : ((s.updArena p fun _ => a).updStats fun st =>
        { st with arenaBytes := arenaBytes, kdataBytes := kdata }).roll.stats.arenaBytes =
        s.roll.stats.arenaBytes + a.size - s.roll.sizes p := hsize
    rw [hstat]
    exact htotal
  · rw [hshelves]
    have htotal := h.kdataBytes.update p (shelved (a.buffers.map Buffer.slot))
    have hstat : ((s.updArena p fun _ => a).updStats fun st =>
        { st with arenaBytes := arenaBytes, kdataBytes := kdata }).roll.stats.kdataBytes - j =
        s.roll.stats.kdataBytes - k + shelved (a.buffers.map Buffer.slot) -
          shelved (s.roll.shelves p) := hkdata
    rw [hstat]
    exact htotal
  · intro q
    by_cases hq : q = p
    · subst hq
      simp only [roll, updArena, updStats, Function.update_self]
      exact htidy
    · simp only [roll, updArena, updStats, Function.update_of_ne hq]
      exact h.tidy q

/-- A freed buffer takes its bytes off the count. -/
theorem Audited.bufferFree (h : s.roll.Audited k) (p : ProcId) (b : BufferId) :
    (s.bufferFree p b).roll.Audited k := by
  obtain ⟨hnodup, hlt, hvacant⟩ := tidy_iff.mp (h.tidy p)
  unfold Driver.bufferFree
  split
  · exact h
  rename_i buf hfind
  split
  · exact h
  have hmark := markFree_shelved hvacant hfind
  have hmerge := mergePrev_shelved (markFree_blank (b := b) hnodup)
  have hsub : ((mergePrev b (markFree b (s.arenas p).buffers)).map Buffer.id).Sublist
      ((s.arenas p).buffers.map Buffer.id) := mergePrev_ids.trans markFree_ids
  refine Audited.setArena h p _ _ (tidy_iff.mpr ⟨hsub.nodup hnodup, ?_, ?_⟩) ?_ ?_
  · intro y hy
    obtain ⟨z, hz, hzid⟩ := List.mem_map.mp (hsub.subset (List.mem_map_of_mem hy))
    rw [← hzid]
    exact hlt z hz
  · exact mergePrev_vacant (markFree_vacant hvacant)
  · simp
  · have hheld : buf.held = ((buf.kdata.getD []).length : ℤ) := rfl
    simp only [updArena_stats]
    omega

theorem Audited.arenaTeardown (h : s.roll.Audited k) (p : ProcId) :
    (s.arenaTeardown p).roll.Audited k := by
  refine Audited.setArena h p _ _ (a := {}) (tidy_iff.mpr ⟨?_, ?_, ?_⟩) ?_ ?_
  · simp
  · simp
  · intro buf hbuf
    cases hbuf
  · simp
  · rw [kdataBytes_eq]
    simp [shelved]
    omega

theorem shelved_append (l₁ l₂ : List Slot) : shelved (l₁ ++ l₂) = shelved l₁ + shelved l₂ := by
  induction l₁ with
  | nil => simp [shelved]
  | cons slot l₁ ih =>
      simp only [List.cons_append, shelved, ih]
      omega

/-- A process may change its buffers where the counted bytes stay the same. -/
theorem Audited.rearrange (h : s.roll.Audited k) (p : ProcId) {f : Arena → Arena}
    (htidy : Tidy ((f (s.arenas p)).buffers.map Buffer.slot) s.nextId)
    (hsize : (f (s.arenas p)).size = (s.arenas p).size)
    (hkdata : shelved ((f (s.arenas p)).buffers.map Buffer.slot) =
      shelved ((s.arenas p).buffers.map Buffer.slot)) :
    (s.updArena p f).roll.Audited k := by
  have hset := Audited.setArena (j := k) h p s.stats.arenaBytes s.stats.kdataBytes htidy
    (by omega) (by omega)
  exact hset

/-- The buffers of an arena after an allocation: the remainder that may have been
split off has a new name, and nothing new holds a payload. -/
theorem placeIn_tidy {bufs : List Buffer} {bound need d o e : Nat} (isAsync : Bool)
    (split : Option BufferId) {hole : Buffer} (htidy : Tidy (bufs.map Buffer.slot) bound)
    (hfit : firstFit need bufs = some hole) (hsplit : ∀ id, split = some id → id = bound) :
    Tidy ((placeIn need split (Buffer.allocated d o e isAsync) bufs).map Buffer.slot)
        (bound + 1) ∧
      (split = none →
        Tidy ((placeIn need split (Buffer.allocated d o e isAsync) bufs).map Buffer.slot) bound) ∧
      shelved ((placeIn need split (Buffer.allocated d o e isAsync) bufs).map Buffer.slot) =
        shelved (bufs.map Buffer.slot) := by
  obtain ⟨hnodup, hlt, hvacant⟩ := tidy_iff.mp htidy
  obtain ⟨l₁, l₂, rfl, hfree, -, hplace⟩ := firstFit_spec hfit
  have hhole : hole.held = 0 := held_of_none (hvacant hole (by simp) hfree)
  rw [hplace]
  cases split with
  | none =>
      have hkept : Tidy ((l₁ ++ placed need none (Buffer.allocated d o e isAsync) hole ++
          l₂).map Buffer.slot) bound := by
        apply tidy_iff.mpr
        constructor
        · simpa [placed, Buffer.allocated] using hnodup
        constructor
        · intro buf hbuf
          simp only [placed, List.append_assoc, List.mem_append, List.mem_cons,
            List.not_mem_nil, or_false] at hbuf
          obtain hbuf | rfl | hbuf := hbuf
          · exact hlt buf (by simp [hbuf])
          · exact hlt hole (by simp)
          · exact hlt buf (by simp [hbuf])
        · intro buf hbuf hbfree
          simp only [placed, List.append_assoc, List.mem_append, List.mem_cons,
            List.not_mem_nil, or_false] at hbuf
          obtain hbuf | rfl | hbuf := hbuf
          · exact hvacant buf (by simp [hbuf]) hbfree
          · rfl
          · exact hvacant buf (by simp [hbuf]) hbfree
      refine ⟨hkept.mono (Nat.le_succ bound), fun _ => hkept, ?_⟩
      have hnew : (Buffer.allocated d o e isAsync hole).held = 0 := held_of_none rfl
      simp only [placed, List.map_append, shelved_append, shelved_cons, hnew, hhole]
      simp [shelved]
  | some id =>
      obtain rfl := hsplit id rfl
      have hfresh : ∀ buf ∈ l₁ ++ hole :: l₂, buf.id ≠ id := by
        intro buf hbuf heq
        exact Nat.lt_irrefl _ (heq ▸ hlt buf hbuf)
      refine ⟨tidy_iff.mpr ⟨?_, ?_, ?_⟩, (fun hno => by cases hno), ?_⟩
      · have hids : (l₁ ++ placed need (some id) (Buffer.allocated d o e isAsync) hole ++
            l₂).map Buffer.id = (l₁.map Buffer.id ++ [hole.id]) ++ id :: l₂.map Buffer.id := by
          simp [placed, Buffer.allocated]
        have hold : ((l₁.map Buffer.id ++ [hole.id]) ++ l₂.map Buffer.id).Nodup := by
          simpa using hnodup
        rw [hids]
        apply List.nodup_middle.mpr
        apply List.nodup_cons.mpr
        refine ⟨?_, hold⟩
        intro hmem
        have hmem' : id ∈ (l₁ ++ hole :: l₂).map Buffer.id := by simpa using hmem
        obtain ⟨buf, hbuf, heq⟩ := List.mem_map.mp hmem'
        exact hfresh buf hbuf heq
      · intro buf hbuf
        simp only [placed, List.append_assoc, List.mem_append, List.mem_cons,
          List.not_mem_nil, or_false] at hbuf
        obtain hbuf | (rfl | rfl) | hbuf := hbuf
        · exact Nat.lt_succ_of_lt (hlt buf (by simp [hbuf]))
        · exact Nat.lt_succ_of_lt (hlt hole (by simp))
        · exact Nat.lt_succ_self _
        · exact Nat.lt_succ_of_lt (hlt buf (by simp [hbuf]))
      · intro buf hbuf hbfree
        simp only [placed, List.append_assoc, List.mem_append, List.mem_cons,
          List.not_mem_nil, or_false] at hbuf
        obtain hbuf | (rfl | rfl) | hbuf := hbuf
        · exact hvacant buf (by simp [hbuf]) hbfree
        · rfl
        · rfl
        · exact hvacant buf (by simp [hbuf]) hbfree
      · have hnew : (Buffer.allocated d o e isAsync { hole with size := need }).held = 0 :=
          held_of_none rfl
        have hrest : Buffer.held
            { id := id, offset := hole.offset + need, size := hole.size - need } = 0 :=
          held_of_none rfl
        simp only [placed, List.map_append, shelved_append, shelved_cons, hnew, hrest, hhole]
        simp [shelved]

theorem Audited.bufferAlloc (h : s.roll.Audited k) (env : Env) (p : ProcId) (d o e : Nat)
    (isAsync : Bool) : (s.bufferAlloc env p d o e isAsync).2.roll.Audited k := by
  rcases s.bufferAlloc_ends env p d o e isAsync with heq | heq |
    ⟨hole, split, s₁, hfit, -, -, ⟨rfl, rfl, -⟩ | ⟨rfl, rfl, -⟩, heq⟩ <;> rw [heq]
  · exact h
  · exact Audited.bumpId h
  · have hplaced := placeIn_tidy (d := d) (o := o) (e := e) isAsync none (h.tidy p) hfit
      (fun id hid => by cases hid)
    exact Audited.rearrange h p (hplaced.2.1 rfl) rfl hplaced.2.2
  · have hplaced := placeIn_tidy (d := d) (o := o) (e := e) isAsync (some s.nextId)
      (h.tidy p) hfit (fun id hid => (Option.some.inj hid).symm)
    exact Audited.rearrange (Audited.bumpId h) p hplaced.1 rfl hplaced.2.2

/-- A fresh arena adds its size to the count. -/
theorem Audited.arenaRegister (h : s.roll.Audited k) (env : Env) (p : ProcId) (addr size : Nat)
    (hempty : (s.arenas p).size = 0 → (s.arenas p).buffers = []) :
    (s.arenaRegister env p addr size).1.roll.Audited k := by
  unfold Driver.arenaRegister
  split
  · exact h
  rename_i hnone
  have hold : (s.arenas p).size = 0 := by omega
  split
  · exact h
  split
  · exact h
  split
  · exact h
  unfold allocMem
  by_cases hal : env.allocOk s.nextId = true
  · simp only [hal, if_true]
    refine Audited.setArena (Audited.bumpId h) p _ _ (tidy_iff.mpr ⟨?_, ?_, ?_⟩) ?_ ?_
    · simp
    · intro buf hbuf
      rw [List.mem_singleton.mp hbuf]
      exact Nat.lt_succ_self _
    · intro buf hbuf _
      rw [List.mem_singleton.mp hbuf]
    · have hsize : ((s.bumpId.arenas p).size : ℤ) = 0 := by
        have : (s.bumpId.arenas p).size = 0 := hold
        omega
      simp [hsize]
    · have hbufs : (s.bumpId.arenas p).buffers = [] := hempty hold
      simp [hbufs, shelved, Buffer.slot]
  · simp only [hal]
    exact Audited.bumpId h

/-! ## Payloads -/

/-- A buffer that was reserved and has not been filled. -/
def Reserved (s : Driver) (p : ProcId) (b : BufferId) : Prop :=
  (⟨b, false, none⟩ : Slot) ∈ s.roll.shelves p

/-- A buffer that was allocated holds no bytes yet. -/
theorem bufferAlloc_reserved (env : Env) (s : Driver) (p : ProcId) (d o e : Nat)
    (isAsync : Bool) {b : BufferId} (hb : (s.bufferAlloc env p d o e isAsync).1 = some b) :
    (s.bufferAlloc env p d o e isAsync).2.Reserved p b := by
  obtain ⟨hnone, -⟩ | ⟨hole, split, hsome, htaken⟩ := bufferAlloc_arena env s p d o e isAsync
  · rw [hnone] at hb
    cases hb
  · obtain rfl : hole.id = b := Option.some.inj (hsome.symm.trans hb)
    obtain ⟨l₁, l₂, -, -, -, hplace⟩ := firstFit_spec htaken.fit
    have hbufs : (s.bufferAlloc env p d o e isAsync).2.roll.shelves p =
        (l₁ ++ placed (needOf d o e) split (Buffer.allocated d o e isAsync) hole ++ l₂).map
          Buffer.slot := by
      rw [← hplace]
      exact congrArg (fun a => a.buffers.map Buffer.slot) htaken.arena
    unfold Reserved
    rw [hbufs]
    cases split with
    | none => simp [placed, Buffer.slot, Buffer.allocated]
    | some id => simp [placed, Buffer.slot, Buffer.allocated]

/-- Filling one buffer of a list leaves the others. -/
theorem fill_split {bufs : List Buffer} {buf : Buffer} (hnodup : (bufs.map Buffer.id).Nodup)
    (hmem : buf ∈ bufs) (kdata : LittleEndian.Bytes) :
    ∃ l₁ l₂, bufs = l₁ ++ buf :: l₂ ∧
      (bufs.map fun y => if y.id = buf.id then { y with kdata := some kdata } else y) =
        l₁ ++ { buf with kdata := some kdata } :: l₂ := by
  obtain ⟨l₁, l₂, rfl⟩ := List.append_of_mem hmem
  have hother : ∀ l : List Buffer, (∀ y ∈ l, y.id ≠ buf.id) →
      (l.map fun y => if y.id = buf.id then { y with kdata := some kdata } else y) = l := by
    intro l hl
    refine Eq.trans (List.map_congr_left ?_) (List.map_id l)
    intro y hy
    rw [if_neg (hl y hy)]
    rfl
  rw [List.map_append, List.map_cons, List.nodup_append, List.nodup_cons] at hnodup
  obtain ⟨-, ⟨hbehind, -⟩, hbefore⟩ := hnodup
  refine ⟨l₁, l₂, rfl, ?_⟩
  rw [List.map_append, List.map_cons, if_pos rfl, hother l₁, hother l₂]
  · intro y hy heq
    exact hbehind (heq ▸ List.mem_map_of_mem hy)
  · intro y hy
    exact hbefore y.id (List.mem_map_of_mem hy) buf.id (List.mem_cons_self ..)

/-- The payload reaches its buffer. -/
theorem Audited.store (h : s.roll.Audited k) {p : ProcId} {b : BufferId}
    (hb : s.Reserved p b) (kdata : LittleEndian.Bytes) :
    (s.updBuffer p b fun buf => { buf with kdata := some kdata }).roll.Audited
      (k - kdata.length) := by
  obtain ⟨hnodup, hlt, hvacant⟩ := tidy_iff.mp (h.tidy p)
  obtain ⟨buf, hmem, hslot⟩ := List.mem_map.mp hb
  obtain ⟨rfl, hfree, hnone⟩ := Slot.mk.inj hslot
  obtain ⟨l₁, l₂, hbufs, hfill⟩ := fill_split hnodup hmem kdata
  have hset := Audited.setArena (j := k - kdata.length) h p s.stats.arenaBytes
    s.stats.kdataBytes (a := { s.arenas p with
      buffers := (s.arenas p).buffers.map fun y =>
        if y.id = buf.id then { y with kdata := some kdata } else y }) ?_ (by simp) ?_
  · exact hset
  · rw [hbufs] at hnodup hlt hvacant
    rw [hfill]
    apply tidy_iff.mpr
    constructor
    · simpa using hnodup
    constructor
    · intro y hy
      obtain hy | rfl | hy := by simpa using hy
      · exact hlt y (by simp [hy])
      · exact hlt buf (by simp)
      · exact hlt y (by simp [hy])
    · intro y hy hyfree
      obtain hy | rfl | hy := by simpa using hy
      · exact hvacant y (by simp [hy]) hyfree
      · exact absurd (hfree.symm.trans hyfree) Bool.false_ne_true
      · exact hvacant y (by simp [hy]) hyfree
  · have hempty : buf.held = 0 := held_of_none hnone
    have hheld : ({ buf with kdata := some kdata } : Buffer).held = (kdata.length : ℤ) := rfl
    rw [hfill, hbufs, List.map_append, List.map_append, shelved_append, shelved_append,
      shelved_cons, shelved_cons, hempty, hheld]
    omega

end Driver

end Binder
