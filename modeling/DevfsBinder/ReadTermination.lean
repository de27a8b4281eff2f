import DevfsBinder.DeathSteps
import DevfsBinder.ReadsInProgress
import DevfsBinder.RunRefinement
import Mathlib.Data.List.Perm.Subperm
import Mathlib.Data.Prod.Lex
import Mathlib.Order.WellFounded

/-!
# The read loop comes to an end

A turn of the loop may add to the queues it drains: a transaction that cannot be
delivered is dropped, which queues an error to its sender and news about the
objects in it, and a death record whose clear was asked for meanwhile goes back
on the queue for its second answer.  So neither the room in the buffer nor the
number of waiting items goes down with every turn.

Three numbers do, in this order: the transactions that wait where the thread
looks for work, the death records that are still owed two answers, and the items
altogether.  A turn that goes on lowers one of them and none that comes before
it (`readTurn_backlog`), so a read is asleep or over after finitely many turns
(`read_ends`).
-/

namespace Binder

/-! ## Counting -/

section Counting

variable {α : Type} {l l' : List α} {P P' : α → Bool}

/-- Fewer of a kind, when all of them were of the other kind. -/
theorem filter_length_le (hnodup : l'.Nodup) (hsub : ∀ a ∈ l', P' a = true → a ∈ l ∧ P a = true) :
    (l'.filter P').length ≤ (l.filter P).length := by
  refine (List.subperm_of_subset (hnodup.filter P') fun a ha => ?_).length_le
  obtain ⟨ha, hP⟩ := List.mem_filter.mp ha
  exact List.mem_filter.mpr (hsub a ha hP)

/-- Fewer still, when one is missing. -/
theorem filter_length_lt [DecidableEq α] (hnodup : l'.Nodup) {a : α} (ha : a ∈ l) (hP : P a = true)
    (hsub : ∀ b ∈ l', P' b = true → b ∈ l ∧ P b = true ∧ b ≠ a) :
    (l'.filter P').length < (l.filter P).length := by
  have hmem : a ∈ l.filter P := List.mem_filter.mpr ⟨ha, hP⟩
  have hle : (l'.filter P').length ≤ ((l.filter P).erase a).length := by
    refine (List.subperm_of_subset (hnodup.filter P') fun b hb => ?_).length_le
    obtain ⟨hb, hP'⟩ := List.mem_filter.mp hb
    obtain ⟨hbl, hPb, hne⟩ := hsub b hb hP'
    exact (List.mem_erase_of_ne hne).mpr (List.mem_filter.mpr ⟨hbl, hPb⟩)
  rw [List.length_erase_of_mem hmem] at hle
  have hpos := List.length_pos_of_mem hmem
  omega

end Counting

/-! ## Waiting items -/

def Work.isTransaction : Work → Bool
  | .transaction _ => true
  | _ => false

namespace Driver

open Calls

variable {s s' : Driver}

/-- What waits where thread `th` of process `p` looks for work. -/
def waiting (s : Driver) (th : ThreadId) (p : ProcId) : List Work :=
  s.items (.thread th) ++ s.items (.proc p)

theorem mem_waiting (hq : s.queues.Consistent) {th : ThreadId} {p : ProcId} {w : Work} :
    w ∈ s.waiting th p ↔
      s.queues.loc w = some (.thread th) ∨ s.queues.loc w = some (.proc p) := by
  unfold waiting items
  rw [List.mem_append, hq.mem_iff, hq.mem_iff]

theorem waiting_nodup (hq : s.queues.Consistent) (th : ThreadId) (p : ProcId) :
    (s.waiting th p).Nodup := by
  refine (hq.nodup _).append (hq.nodup _) fun w hth hp => ?_
  have hth := (hq.mem_iff _ _).mp hth
  have hp := (hq.mem_iff _ _).mp hp
  cases hth.symm.trans hp

/-- A death record that is owed the notice and the answer to the clear. -/
def owedTwice (s : Driver) : Work → Bool
  | .death d => (s.deaths d).map (·.type) = some .deadBinderAndClear
  | _ => false

/-- What is left to do for a read of `th`. -/
def backlog (s : Driver) (th : ThreadId) (p : ProcId) : ℕ ×ₗ ℕ ×ₗ ℕ :=
  toLex (((s.waiting th p).filter Work.isTransaction).length,
    toLex (((s.waiting th p).filter s.owedTwice).length, (s.waiting th p).length))

/-- The backlog falls if one of its parts does and none before it has grown. -/
theorem backlog_lt_of {th : ThreadId} {p : ProcId}
    (htxns : ((s'.waiting th p).filter Work.isTransaction).length ≤
      ((s.waiting th p).filter Work.isTransaction).length)
    (hrest : ((s'.waiting th p).filter s'.owedTwice).length <
        ((s.waiting th p).filter s.owedTwice).length ∨
      ((s'.waiting th p).filter s'.owedTwice).length ≤
          ((s.waiting th p).filter s.owedTwice).length ∧
        (s'.waiting th p).length < (s.waiting th p).length) :
    s'.backlog th p < s.backlog th p := by
  rcases Nat.lt_or_eq_of_le htxns with hlt | heq
  · exact Prod.Lex.toLex_lt_toLex.mpr (.inl hlt)
  refine Prod.Lex.toLex_lt_toLex.mpr (.inr ⟨heq, Prod.Lex.toLex_lt_toLex.mpr ?_⟩)
  rcases hrest with hlt | ⟨hle, hlt⟩
  · exact .inl hlt
  rcases Nat.lt_or_eq_of_le hle with hlt' | heq'
  · exact .inl hlt'
  · exact .inr ⟨heq', hlt⟩

/-- A transaction is gone and no other has come. -/
theorem backlog_lt_of_transaction (hq : s.queues.Consistent) (hq' : s'.queues.Consistent)
    {th : ThreadId}
    {p : ProcId} {t : TxnId} (ht : .transaction t ∈ s.waiting th p)
    (hback : ∀ u q, s'.queues.loc (.transaction u) = some q →
      s.queues.loc (.transaction u) = some q ∧ u ≠ t) : s'.backlog th p < s.backlog th p := by
  refine Prod.Lex.toLex_lt_toLex.mpr (.inl ?_)
  refine filter_length_lt (waiting_nodup hq' th p) ht rfl fun w hw hP => ?_
  cases w with
  | transaction u =>
      refine ⟨?_, rfl, ?_⟩
      · rcases (mem_waiting hq').mp hw with hloc | hloc
        · exact (mem_waiting hq).mpr (.inl (hback u _ hloc).1)
        · exact (mem_waiting hq).mpr (.inr (hback u _ hloc).1)
      · rcases (mem_waiting hq').mp hw with hloc | hloc
        · exact fun heq => (hback u _ hloc).2 (Work.transaction.inj heq)
        · exact fun heq => (hback u _ hloc).2 (Work.transaction.inj heq)
  | _ => cases hP

/-- Item `w` is done with: it is gone, nothing else has come, and the other death
records are as they were. -/
structure Sheds (w : Work) (s s' : Driver) : Prop where
  loc : ∀ v q, s'.queues.loc v = some q → s.queues.loc v = some q ∧ v ≠ w
  deaths : ∀ d, .death d ≠ w → s'.deaths d = s.deaths d

theorem Sheds.owedTwice {w v : Work} (h : Sheds w s s') (hv : v ≠ w) :
    s'.owedTwice v = s.owedTwice v := by
  cases v with
  | death d => rw [Driver.owedTwice, Driver.owedTwice, h.deaths d hv]
  | _ => rfl

theorem Sheds.mem_waiting {w v : Work} (h : Sheds w s s') (hq : s.queues.Consistent)
    (hq' : s'.queues.Consistent)
    {th : ThreadId} {p : ProcId} (hv : v ∈ s'.waiting th p) : v ∈ s.waiting th p ∧ v ≠ w := by
  rcases (Driver.mem_waiting hq').mp hv with hloc | hloc
  · exact ⟨(Driver.mem_waiting hq).mpr (.inl (h.loc v _ hloc).1), (h.loc v _ hloc).2⟩
  · exact ⟨(Driver.mem_waiting hq).mpr (.inr (h.loc v _ hloc).1), (h.loc v _ hloc).2⟩

/-- An item that is shed is one less to read. -/
theorem Sheds.backlog_lt {w : Work} (h : Sheds w s s') (hq : s.queues.Consistent)
    (hq' : s'.queues.Consistent)
    {th : ThreadId} {p : ProcId} (hw : w ∈ s.waiting th p) :
    s'.backlog th p < s.backlog th p := by
  have hnodup := waiting_nodup hq' th p
  have htxns : ((s'.waiting th p).filter Work.isTransaction).length ≤
      ((s.waiting th p).filter Work.isTransaction).length :=
    filter_length_le hnodup fun v hv hP => ⟨(h.mem_waiting hq hq' hv).1, hP⟩
  have howed : ((s'.waiting th p).filter s'.owedTwice).length ≤
      ((s.waiting th p).filter s.owedTwice).length :=
    filter_length_le hnodup fun v hv hP =>
      ⟨(h.mem_waiting hq hq' hv).1, h.owedTwice (h.mem_waiting hq hq' hv).2 ▸ hP⟩
  have hall : (s'.waiting th p).length < (s.waiting th p).length := by
    have hlt : ((s'.waiting th p).filter fun _ => true).length <
        ((s.waiting th p).filter fun _ => true).length :=
      filter_length_lt hnodup hw rfl fun v hv _ =>
        ⟨(h.mem_waiting hq hq' hv).1, rfl, (h.mem_waiting hq hq' hv).2⟩
    simpa using hlt
  exact backlog_lt_of htxns (.inr ⟨howed, hall⟩)

theorem Sheds.trans {w : Work} {s'' : Driver} (h : Sheds w s s')
    (hloc : ∀ v q, s''.queues.loc v = some q → s'.queues.loc v = some q)
    (hdeaths : ∀ d, .death d ≠ w → s''.deaths d = s'.deaths d) : Sheds w s s'' where
  loc v q hv := h.loc v q (hloc v q hv)
  deaths d hd := (hdeaths d hd).trans (h.deaths d hd)

theorem remove_loc_le {qs : Queues Queue Work} {v w : Work} {q : Queue}
    (h : (qs.remove w).loc v = some q) : qs.loc v = some q ∧ v ≠ w := by
  rw [Queues.remove_loc] at h
  split at h
  · cases h
  · exact ⟨h, by assumption⟩

theorem dequeueWork_sheds (s : Driver) (w : Work) : Sheds w s (s.dequeueWork w) where
  loc _ _ hv := remove_loc_le hv
  deaths _ _ := rfl

/-- An item was handled, and that was all. -/
theorem Sheds.done {w : Work} {k : Driver} {out : Handled} (hdrv : out.drv = k)
    (hloc : k.queues.loc = (s.dequeueWork w).queues.loc)
    (hdeaths : ∀ d, .death d ≠ w → k.deaths d = s.deaths d) : Sheds w s out.drv := by
  rw [hdrv]
  exact (s.dequeueWork_sheds w).trans (fun v q hv => hloc ▸ hv) hdeaths

/-- A death record has had the first of its two answers and goes back for the
second. -/
theorem backlog_lt_of_death (hq : s.queues.Consistent) (hq' : s'.queues.Consistent)
    {th : ThreadId} {p : ProcId}
    {d : DeathId} (hd : .death d ∈ s.waiting th p) (howed : s.owedTwice (.death d) = true)
    (hback : ∀ v q, v ≠ .death d → s'.queues.loc v = some q → s.queues.loc v = some q)
    (hother : ∀ d', d' ≠ d → s'.deaths d' = s.deaths d')
    (honce : s'.owedTwice (.death d) = false) : s'.backlog th p < s.backlog th p := by
  have hnodup := waiting_nodup hq' th p
  have hmem : ∀ v ∈ s'.waiting th p, v ≠ .death d → v ∈ s.waiting th p := by
    intro v hv hne
    rcases (Driver.mem_waiting hq').mp hv with hloc | hloc
    · exact (Driver.mem_waiting hq).mpr (.inl (hback v _ hne hloc))
    · exact (Driver.mem_waiting hq).mpr (.inr (hback v _ hne hloc))
  refine backlog_lt_of ?_ (.inl ?_)
  · refine filter_length_le hnodup fun v hv hP => ⟨hmem v hv ?_, hP⟩
    rintro rfl
    cases hP
  · refine filter_length_lt hnodup hd howed fun v hv hP => ?_
    have hne : v ≠ .death d := by
      rintro rfl
      rw [honce] at hP
      cases hP
    refine ⟨hmem v hv hne, ?_, hne⟩
    cases v with
    | death d' =>
        rw [Driver.owedTwice, hother d' fun heq => hne (heq ▸ rfl)] at hP
        exact hP
    | _ => cases hP

/-! ## Handling an item -/

/-- Releasing a node only takes items off their queues. -/
theorem dropAsync_loc_le {w v : Work} {q : Queue} (h : (s.dropAsync w).queues.loc v = some q) :
    s.queues.loc v = some q := by
  cases w with
  | transaction t =>
      change ((s.dequeueWork (.transaction t)).freeTransaction t).queues.loc v = some q at h
      rcases freeTransaction_queues (s.dequeueWork (.transaction t)) t with heq | heq
      · rw [heq] at h
        exact (remove_loc_le h).1
      · rw [heq] at h
        exact (remove_loc_le (remove_loc_le h).1).1
  | _ => exact (remove_loc_le h).1

theorem foldl_dropAsync_loc_le (l : List Work) {v : Work} {q : Queue}
    (h : (l.foldl dropAsync s).queues.loc v = some q) : s.queues.loc v = some q := by
  induction l generalizing s with
  | nil => exact h
  | cons w l ih => exact dropAsync_loc_le (ih h)

theorem clearManager_queues (s : Driver) (p : ProcId) (n : NodeId) :
    (s.clearManager p n).queues = s.queues := by
  unfold clearManager
  split
  · rfl
  split <;> rfl

/-- Freeing a node puts nothing on a queue. -/
theorem nodeMaybeFree_loc_le {n : NodeId} {v : Work} {q : Queue}
    (h : (s.nodeMaybeFree n).queues.loc v = some q) : s.queues.loc v = some q := by
  unfold nodeMaybeFree at h
  split at h
  · exact h
  split at h
  · exact h
  split at h
  · exact h
  split at h
  · exact h
  · rename_i nd _ _ _ _
    unfold nodeFree at h
    cases hp : nd.proc with
    | none =>
        simp only [hp] at h
        exact foldl_dropAsync_loc_le _ h
    | some p =>
        simp only [hp, forgetNode, clearManager_queues] at h
        exact foldl_dropAsync_loc_le _ h

theorem put_drv_of_none {r : ReadCall × Option Errno} {s k : Driver}
    (h : (Handled.put r s k).error = none) : (Handled.put r s k).drv = k := by
  rcases r with ⟨rc, _ | error⟩
  · rfl
  · cases h

/-- Reference news is told, and the item is done with. -/
theorem readNodeWork_sheds (hs : Sound s) (env : Env) (th : ThreadId) (n : NodeId)
    (rc : ReadCall) :
    Sheds (.node n) s (readNodeWork env (s.dequeueWork (.node n)) th n rc).drv := by
  refine (dequeueWork_sheds s (.node n)).trans (fun v q hv => ?_) fun d _ => ?_
  · rcases readNodeWork_cases env (s.dequeueWork (.node n)) th n rc with
      ⟨heq, -⟩ | heq | ⟨nd, -, -, heq⟩
    · rwa [heq] at hv
    · rwa [heq] at hv
    · have hreport := reportNews_reported env (s.dequeueWork (.node n)) th n nd rc
      rw [← hreport.queues]
      rw [heq] at hv
      split at hv
      · exact nodeMaybeFree_loc_le hv
      · exact hv
  · have hcalm := Calm.readNodeWork (hs.dequeue (.node n)) env th n rc
    rw [hcalm.undisturbed.deaths]

theorem dropTransaction_loc_le {v : Calls} {p : ProcId} {t u : TxnId} {q : Queue}
    (h : (v.dropTransaction p t).loc (.transaction u) = some q) :
    v.loc (.transaction u) = some q := by
  by_cases hut : u = t
  · subst hut
    cases hx : v.txns u with
    | none => simpa only [Calls.dropTransaction, hx, Option.bind_none, freePayload,
        Calls.freeTransaction] using h
    | some x =>
        rw [loc_dropTransaction_self hx] at h
        cases h
  · rwa [loc_dropTransaction v p t fun heq => hut (Work.transaction.inj heq)] at h

theorem delivered_queues (s : Driver) (p : ProcId) (th : ThreadId) (t : TxnId) (x : Txn)
    (buf : Buffer) : (s.delivered p th t x buf).queues = s.queues ∨
      (s.delivered p th t x buf).queues = s.queues.remove (.transaction t) := by
  unfold delivered
  simp only
  split
  · exact .inl rfl
  · exact freeTransaction_queues _ t

/-- A transaction is handed out or given up, and no other comes in its place. -/
theorem readTransaction_loc_le (hs : Sound s) (env : Env) (p : ProcId) (th : ThreadId) (t : TxnId)
    (rc : ReadCall)
    (hok : (readTransaction env (s.dequeueWork (.transaction t)) p th t rc).error = none)
    {u : TxnId} {q : Queue}
    (h : (readTransaction env (s.dequeueWork (.transaction t)) p th t rc).drv.queues.loc
      (.transaction u) = some q) :
    s.queues.loc (.transaction u) = some q ∧ u ≠ t := by
  have hs₀ := hs.dequeue (.transaction t)
  have hloc₀ := s.dequeueWork_loc_self (.transaction t)
  have hback : ∀ {u}, (s.dequeueWork (.transaction t)).queues.loc (.transaction u) = some q →
      s.queues.loc (.transaction u) = some q ∧ u ≠ t := by
    intro u hu
    obtain ⟨hu, hne⟩ := remove_loc_le hu
    exact ⟨hu, fun heq => hne (heq ▸ rfl)⟩
  refine hback ?_
  generalize s.dequeueWork (.transaction t) = s₀ at hs₀ hloc₀ hok h ⊢
  cases hx : s₀.txns t with
  | none => simp [readTransaction, hx] at hok
  | some x =>
      cases hbuf : x.buffer.bind (s₀.findBuffer p) with
      | none => simp [readTransaction, hx, hbuf] at hok
      | some buf =>
          have htaken := readTransaction_taken env th rc hx hbuf
          generalize readTransaction env s₀ p th t rc = out at htaken hok h
          cases htaken with
          | stopped s' rc' error hdesc => cases hok
          | delivered rc' rest hcmds =>
              rcases delivered_queues (s₀.note (.emit th (s₀.deliveryCmd buf) (.transaction t)))
                p th t x buf with heq | heq
              · rw [heq] at h
                exact h
              · rw [heq] at h
                exact (remove_loc_le h).1
          | dropped kdata hkdata hout =>
              obtain ⟨v₁, hquiet, hdrop⟩ := undelivered_view hs₀ p .failedReply hloc₀
              have hu : (v₁.dropTransaction p t).loc (.transaction u) = some q := by
                rw [← hdrop]
                exact h
              have hloc := hquiet.loc_le (dropTransaction_loc_le hu)
              rw [loc_failUndelivered] at hloc
              exact hloc

/-- What becomes of a death record that was reported. -/
theorem readDeath_drv {env : Env} {th : ThreadId} {d : DeathId} {rc : ReadCall}
    (hok : (readDeath env s th d rc).error = none) :
    s.deaths d = none ∧ (readDeath env s th d rc).drv = s ∨
      ∃ death, s.deaths d = some death ∧ (readDeath env s th d rc).drv =
        (s.tell th (deathCmd death.type) (.death d)).deathReported th d death.type := by
  unfold readDeath at hok ⊢
  cases hd : s.deaths d with
  | none => exact .inl ⟨rfl, rfl⟩
  | some death =>
      rw [hd] at hok
      exact .inr ⟨death, rfl, put_drv_of_none hok⟩

/-- A notice that is read leaves less to read. -/
theorem readDeath_backlog (hs : Sound s) (env : Env) (p : ProcId) (th : ThreadId) {d : DeathId}
    (rc : ReadCall) (hw : .death d ∈ s.waiting th p)
    (hok : (readDeath env (s.dequeueWork (.death d)) th d rc).error = none)
    (hq : (readDeath env (s.dequeueWork (.death d)) th d rc).drv.queues.Consistent) :
    (readDeath env (s.dequeueWork (.death d)) th d rc).drv.backlog th p < s.backlog th p := by
  rcases readDeath_drv hok with ⟨-, hdrv⟩ | ⟨death, hdeath, hdrv⟩
  · exact (Sheds.done hdrv rfl fun _ _ => rfl).backlog_lt hs.queues.consistent hq hw
  cases htype : death.type with
  | deadBinder =>
      rw [htype] at hdrv
      exact (Sheds.done hdrv rfl fun _ _ => rfl).backlog_lt hs.queues.consistent hq hw
  | clearDeathNotification =>
      rw [htype] at hdrv
      have hother : ∀ d', Work.death d' ≠ .death d →
          Function.update s.deaths d none d' = s.deaths d' := by
        intro d' hne
        exact Function.update_of_ne (fun heq => hne (congrArg Work.death heq)) none s.deaths
      exact (Sheds.done hdrv rfl hother).backlog_lt hs.queues.consistent hq hw
  | deadBinderAndClear =>
      rw [htype] at hdrv
      rw [hdrv] at hq ⊢
      have hdeath' : s.deaths d = some death := hdeath
      refine backlog_lt_of_death hs.queues.consistent hq hw ?_ (fun v q hne hv => ?_)
        (fun d' hne => ?_) ?_
      · simp [Driver.owedTwice, hdeath', htype]
      · have hv' := (Queues.insert_loc_of_ne _ _ _ hne).symm.trans hv
        exact (remove_loc_le hv').1
      · exact Function.update_of_ne hne _ s.deaths
      · have hnew : Function.update s.deaths d ((s.deaths d).map fun death =>
            { death with type := .clearDeathNotification }) d =
              some { death with type := .clearDeathNotification } := by
          rw [Function.update_self, hdeath']
          rfl
        have htypes := congrArg (fun r : Option Death => r.map (·.type)) hnew
        exact decide_eq_false fun h => by cases htypes.symm.trans h

/-- **An item.**  Whatever is handled without an error leaves less to do. -/
theorem readWork_backlog (hs : Sound s) (env : Env) (p : ProcId) (th : ThreadId) {w : Work}
    (rc : ReadCall) (hw : w ∈ s.waiting th p)
    (hok : (readWork env (s.dequeueWork w) p th w rc).error = none)
    (hq : (readWork env (s.dequeueWork w) p th w rc).drv.queues.Consistent) :
    (readWork env (s.dequeueWork w) p th w rc).drv.backlog th p < s.backlog th p := by
  cases w with
  | transaction t =>
      exact backlog_lt_of_transaction hs.queues.consistent hq hw fun u q hu =>
        readTransaction_loc_le hs env p th t rc hok hu
  | complete c =>
      have hdrv := put_drv_of_none hok
      exact (Sheds.done hdrv rfl fun _ _ => rfl).backlog_lt hs.queues.consistent hq hw
  | returnError e =>
      have hdrv := put_drv_of_none hok
      exact (Sheds.done hdrv rfl fun _ _ => rfl).backlog_lt hs.queues.consistent hq hw
  | node n => exact (readNodeWork_sheds hs env th n rc).backlog_lt hs.queues.consistent hq hw
  | death d => exact readDeath_backlog hs env p th rc hw hok hq

/-! ## A turn -/

theorem backlog_congr {th : ThreadId} {p : ProcId} (hqueues : s'.queues = s.queues)
    (hdeaths : s'.deaths = s.deaths) : s'.backlog th p = s.backlog th p := by
  have howed : s'.owedTwice = s.owedTwice := by
    funext w
    cases w with
    | death d => rw [owedTwice, owedTwice, hdeaths]
    | _ => rfl
  rw [backlog, backlog, waiting, waiting, items, items, items, items, hqueues, howed]

theorem readIdle_calls (s : Driver) (th : ThreadId) (thread : Thread) (rc : ReadCall) :
    ∃ rc', (s.readIdle th thread rc).calls th = some rc' ∧ rc'.status ≠ .running := by
  unfold readIdle
  split
  · exact ⟨_, finishRead_calls_self .., by simp⟩
  simp only
  split
  · exact ⟨_, setCall_calls_self .., by simp⟩
  · exact ⟨_, setCall_calls_self .., by simp⟩

/-- Only an item that was handled without an error lets the read go on. -/
theorem readNext_cases (env : Env) (h : Handled) (th : ThreadId) (p : ProcId) (w : Work)
    (fromProc : Bool) :
    (∃ s₁ rc₁ error, readNext env h th p w fromProc = finishRead s₁ th rc₁ error) ∨
      h.error = none ∧ ∃ s₁ rc₁, readNext env h th p w fromProc = setCall s₁ th rc₁ ∧
        s₁.queues = h.drv.queues ∧ s₁.deaths = h.drv.deaths := by
  obtain ⟨s₁, rc', hnext, heq⟩ := readNext_follows env h th p w fromProc
  rw [heq]
  cases hnext with
  | full _ => exact .inl ⟨_, _, _, rfl⟩
  | failed _ _ _ => exact .inl ⟨_, _, _, rfl⟩
  | handled _ herror _ _ => exact .inr ⟨herror, _, _, rfl, rfl, rfl⟩
  | spawned _ _ herror _ _ _ => exact .inr ⟨herror, _, _, rfl, rfl, rfl⟩

/-- **A turn.**  A read that goes on has less left to do. -/
theorem readTurn_backlog (hs : Sound s) (env : Env) {th : ThreadId} {thread : Thread}
    {rc rc' : ReadCall} (hq : (readTurn env s th thread rc).queues.Consistent)
    (hrc' : (readTurn env s th thread rc).calls th = some rc') (hrun : rc'.status = .running) :
    (readTurn env s th thread rc).backlog th thread.proc < s.backlog th thread.proc := by
  cases hnext : s.nextWork th thread with
  | none =>
      unfold readTurn at hrc'
      simp only [hnext] at hrc'
      obtain ⟨rc₁, hrc₁, hne⟩ := s.readIdle_calls th thread rc
      cases hrc₁.symm.trans hrc'
      exact absurd hrun hne
  | some next =>
      obtain ⟨w, fromProc⟩ := next
      have hloc := (nextWork_loc hs.queues hnext).1
      have hw : w ∈ s.waiting th thread.proc := by
        cases fromProc with
        | false => exact (mem_waiting hs.queues.consistent).mpr (.inl hloc)
        | true => exact (mem_waiting hs.queues.consistent).mpr (.inr hloc)
      have heq : readTurn env s th thread rc =
          readNext env (readWork env (s.dequeueWork w) thread.proc th w rc) th thread.proc w
            fromProc := by
        unfold readTurn
        rw [hnext]
      rw [heq] at hrc' hq ⊢
      have hless := readWork_backlog hs env thread.proc th rc hw
      generalize readWork env (s.dequeueWork w) thread.proc th w rc = h at hless hrc' hq ⊢
      rcases readNext_cases env h th thread.proc w fromProc with
        ⟨s₁, rc₁, error, hend⟩ | ⟨hok, s₁, rc₁, hgo, hqueues, hdeaths⟩
      · rw [hend, finishRead_calls_self] at hrc'
        cases hrc'
        cases hrun
      · rw [hgo] at hq ⊢
        have hsame : (s₁.setCall th rc₁).backlog th thread.proc = h.drv.backlog th thread.proc :=
          backlog_congr hqueues hdeaths
        rw [hsame]
        refine hless hok ?_
        rw [← hqueues]
        exact hq

theorem readTurn_calls (env : Env) (s : Driver) (th : ThreadId) (thread : Thread) (rc : ReadCall) :
    ∃ rc', (readTurn env s th thread rc).calls th = some rc' := by
  unfold readTurn
  split
  · obtain ⟨rc', hrc', -⟩ := s.readIdle_calls th thread rc
    exact ⟨rc', hrc'⟩
  · rename_i w fromProc _
    obtain ⟨s₁, rc', heq, -⟩ := readNext_eq env
      (readWork env (s.dequeueWork w) thread.proc th w rc) th thread.proc w fromProc
    simp only
    rw [heq]
    exact ⟨rc', setCall_calls_self ..⟩

/-- The threads stay where they are. -/
theorem readTurn_home (env : Env) (s : Driver) (th : ThreadId) (thread : Thread) (rc : ReadCall) :
    (readTurn env s th thread rc).standing.home = s.standing.home := by
  unfold readTurn
  split
  · have hwait := congrArg Standing.home (s.updThread_standing th (f := fun thread =>
      { thread with looper := { thread.looper with waiting := true } }) fun _ => rfl)
    unfold readIdle
    split
    · rfl
    simp only
    split
    · exact hwait
    · exact hwait
  · rename_i w fromProc _
    have hdrv := (s.dequeueWork w).readWork_standing env thread.proc th w rc
    obtain ⟨s₁, rc', heq, hmoved, -⟩ := readNext_eq env
      (readWork env (s.dequeueWork w) thread.proc th w rc) th thread.proc w fromProc
    rw [hdrv] at hmoved
    simp only
    rw [heq]
    exact hmoved.home

/-! ## The whole read -/

/-- The state after the first `n` of the actions `as`. -/
def after (s : Driver) (as : ℕ → Action) : ℕ → Driver
  | 0 => s
  | n + 1 => (s.after as n).act (as n)

theorem after_succ (s : Driver) (as : ℕ → Action) (n : ℕ) :
    s.after as (n + 1) = (s.act (as 0)).after (fun i => as (i + 1)) n := by
  induction n with
  | zero => rfl
  | succ n ih => rw [after, ih, after]

/-- The lock is with a running read, and only a turn of it changes anything. -/
theorem Reachable.act_of_running (h : Reachable s) {th : ThreadId} {rc : ReadCall} {a : Action}
    (hrc : s.calls th = some rc) (hrun : rc.status = .running)
    (hturn : ∀ env, a ≠ .readTurn env th) : s.act a = s := by
  by_cases hleave : a = .leave th
  · subst hleave
    refine withCall_rule (P := fun s' => s' = s) rfl fun thread rc' error _ hrc' hback => ?_
    cases hrc.symm.trans hrc'
    rw [hrun] at hback
    cases hback
  · exact h.act_of_awake hrc (asleep_of_status (.inl hrun)) hturn hleave

/-- What a turn comes to: the read is over or asleep, or it has less to do. -/
theorem Reachable.turn_progress (h : Reachable s) (env : Env) {th : ThreadId} {thread : Thread}
    {rc : ReadCall} (hth : s.threads th = some thread) (hrc : s.calls th = some rc)
    (hrun : rc.status = .running) :
    ∃ rc', (s.act (.readTurn env th)).calls th = some rc' ∧ (rc'.status = .running →
      ∃ thread', (s.act (.readTurn env th)).threads th = some thread' ∧
        thread'.proc = thread.proc ∧
        (s.act (.readTurn env th)).backlog th thread.proc < s.backlog th thread.proc) := by
  have heq : s.act (.readTurn env th) = readTurn env s th thread rc := by
    rw [act, withCall, hth, hrc]
    simp only [hrun, ReadStatus.running?]
  obtain ⟨rc', hrc'⟩ := readTurn_calls env s th thread rc
  have hq := (Reachable.steady (Reaches.step (.readTurn env th) h trivial)).sound.queues.consistent
  have hhome := congrFun (readTurn_home env s th thread rc) th
  rw [heq] at hq ⊢
  refine ⟨rc', hrc', fun hrun' => ?_⟩
  have hproc : ((readTurn env s th thread rc).threads th).map (·.proc) = some thread.proc := by
    refine hhome.trans ?_
    simp only [standing, hth, Option.map_some]
  obtain ⟨thread', hth', hsame⟩ := Option.map_eq_some_iff.mp hproc
  exact ⟨thread', hth', hsame, readTurn_backlog h.steady.sound env hq hrc' hrun'⟩

/-- The read of `th` keeps being given its turn. -/
def KeepsTurning (as : ℕ → Action) (th : ThreadId) : Prop :=
  ∀ m, ∃ i, m ≤ i ∧ ∃ env, as i = .readTurn env th

theorem KeepsTurning.tail {as : ℕ → Action} {th : ThreadId} (h : KeepsTurning as th) :
    KeepsTurning (fun i => as (i + 1)) th := by
  intro m
  obtain ⟨i, hi, env, heq⟩ := h (m + 1)
  obtain ⟨j, rfl⟩ : ∃ j, i = j + 1 := ⟨i - 1, by omega⟩
  exact ⟨j, by omega, env, heq⟩

/-- The read is seen to end later when it is seen to end after one action. -/
theorem after_of_act {as : ℕ → Action} {th : ThreadId} (heq : s.act (as 0) = s')
    (h : ∃ n rc', (s'.after (fun i => as (i + 1)) n).calls th = some rc' ∧
      rc'.status ≠ .running) :
    ∃ n rc', (s.after as n).calls th = some rc' ∧ rc'.status ≠ .running := by
  subst heq
  obtain ⟨n, hn⟩ := h
  refine ⟨n + 1, ?_⟩
  rw [after_succ]
  exact hn

/-- By induction on the backlog: the read stops running. -/
theorem Reachable.ends_of_backlog (b : ℕ ×ₗ ℕ ×ₗ ℕ) {as : ℕ → Action} {th : ThreadId}
    {thread : Thread} {rc : ReadCall} (hb : s.backlog th thread.proc = b) (h : Reachable s)
    (hth : s.threads th = some thread) (hrc : s.calls th = some rc)
    (hrun : rc.status = .running) (has : KeepsTurning as th) :
    ∃ n rc', (s.after as n).calls th = some rc' ∧ rc'.status ≠ .running := by
  induction b using WellFoundedLT.induction generalizing s as thread rc with
  | ind b ih =>
      have hturn : ∀ as env, KeepsTurning as th → as 0 = .readTurn env th →
          ∃ n rc', (s.after as n).calls th = some rc' ∧ rc'.status ≠ .running := by
        intro as env has henv
        refine after_of_act (congrArg s.act henv) ?_
        obtain ⟨rc', hrc', hnext⟩ := h.turn_progress env hth hrc hrun
        by_cases hrun' : rc'.status = .running
        · obtain ⟨thread', hth', hproc, hless⟩ := hnext hrun'
          rw [hb, ← hproc] at hless
          exact ih _ hless rfl (Reaches.step (.readTurn env th) h trivial) hth' hrc' hrun' has.tail
        · exact ⟨0, rc', hrc', hrun'⟩
      obtain ⟨i, -, env, hi⟩ := has 0
      -- nothing happens until the first turn of the read
      induction i generalizing as with
      | zero => exact hturn as env has hi
      | succ i ihi =>
          by_cases hfirst : ∃ env, as 0 = .readTurn env th
          · obtain ⟨env', henv'⟩ := hfirst
            exact hturn as env' has henv'
          · have hsame := h.act_of_running hrc hrun fun env' heq => hfirst ⟨env', heq⟩
            exact after_of_act hsame (ihi has.tail hi)

/-- **The read loop comes to an end.**  Whatever the clients do meanwhile and
however copies to them fare, a read that keeps being given its turn returns or
goes to sleep. -/
theorem read_ends (h : Reachable s) {th : ThreadId} {rc : ReadCall} (hrc : s.calls th = some rc)
    (hrun : rc.status = .running) {as : ℕ → Action} (has : KeepsTurning as th) :
    ∃ n rc', (s.after as n).calls th = some rc' ∧ rc'.status ≠ .running := by
  have hknown := h.attended.known th rc (standing_reads_awake hrc (asleep_of_status (.inl hrun)))
  obtain ⟨thread, hth⟩ : ∃ thread, s.threads th = some thread := by
    simpa [standing, Option.isSome_iff_exists] using hknown
  exact h.ends_of_backlog _ rfl hth hrc hrun has

/-- Process 5 has shared its object and reads. -/
def readingState : Driver :=
  run {} (twoProcesses ++ [shareObject, .readStart {} 6 0x9000 256 0])

theorem read_ends_first : ∃ n rc',
    (readingState.after (fun _ => .readTurn {} 6) n).calls 6 = some rc' ∧
      rc'.status ≠ .running := by
  have hrunning : (readingState.calls 6).map (·.status) = some .running := by decide +kernel
  obtain ⟨rc, hrc, hrun⟩ := Option.map_eq_some_iff.mp hrunning
  exact read_ends (Reachable.run .init _) hrc hrun fun m => ⟨m, le_rfl, {}, rfl⟩

end Driver

end Binder
