import DevfsBinder.DeviceNodes
import DevfsBinder.ContextIsolation
import DevfsBinder.ManagerRole

/-!
# Open slots

`binder_clone`, `binder_dev_open` and `binder_dev_close` of `binder_dev.c`.
`devfs` asks for a minor number when a device is looked up, and the open that
follows learns its context from the slot of that number.  Lookup and open are
two steps: between them other lookups and closes may run.

A slot is opened exactly while it has a process, of the slot's context and of no
other slot, and a lookup leaves the opened slots alone; this holds whatever the
clients do (`DeviceRun.ordered`).  That the process an open makes belongs to the
context that was looked up does not.  A lookup that finds the table full takes
back the slot that was longest without an open, although its open may still be
on its way; and two threads of a process get one slot for their two opens, so
when the first closes its device again the slot is free while the second still
counts on it.  While neither happens the open gets what was looked up
(`opens_what_was_looked_up`).
-/

namespace Binder

open Driver

/-- `BINDER_CTL_MINOR` -/
def ctlMinor : Nat := 63

/-- `BINDER_CLONE_BASE` -/
def cloneBase : Nat := 64

/-- `BINDER_MAX_OPENS` -/
def maxOpens : Nat := 448

/-- `struct binder_open_slot` -/
structure OpenSlot where
  cloned : Bool := false
  opened : Bool := false
  lookupPid : Nat := 0
  context : Option Nat := none
  proc : Option ProcId := none
  sequence : Nat := 0
  deriving DecidableEq, Repr

/-- The devices: the driver behind them, the table of contexts and the open
slots. -/
structure Device where
  driver : Driver := .init
  nodes : NodeTable := {}
  slots : Nat → OpenSlot := fun _ => {}
  slotSequence : Nat := 0

namespace Device

variable (d : Device)

def setSlot (i : Nat) (slot : OpenSlot) : Device :=
  { d with slots := Function.update d.slots i slot }

/-- `binder_context_for_minor`: a context is named by its minor. -/
def contextForMinor (m : Nat) : Option Nat :=
  if maxContexts ≤ m then none
  else if (d.nodes.entries m).inUse then some m else none

/-- `binder_slot_for_dev` -/
def slotForDev (m : Nat) : Option Nat :=
  if m < cloneBase ∨ cloneBase + maxOpens ≤ m then none else some (m - cloneBase)

/-- `++g_slot_sequence` -/
def nextSequence : Nat := (d.slotSequence + 1) % 2^64

/-- The slot of a lookup by `pid` in context `ctx` that no open followed. -/
def outstanding (pid ctx : Nat) : Option Nat :=
  (List.range maxOpens).find? fun i =>
    (d.slots i).cloned && !(d.slots i).opened && (d.slots i).lookupPid == pid &&
      (d.slots i).context == some ctx

/-- The first slot that is not handed out. -/
def unclonedSlot : Option Nat := (List.range maxOpens).find? fun i => !(d.slots i).cloned

/-- One turn of the search for the longest-standing clone that never became an
open. -/
def older (oldest : Option Nat × Nat) (i : Nat) : Option Nat × Nat :=
  if (d.slots i).opened = false ∧ (d.slots i).sequence < oldest.2 then
    (some i, (d.slots i).sequence)
  else oldest

def oldestUnopened : Option Nat := ((List.range maxOpens).foldl d.older (none, 2^64 - 1)).1

/-- Hand out slot `i`. -/
def handOut (i pid ctx : Nat) : Device :=
  { d.setSlot i
      { cloned := true
        opened := false
        lookupPid := pid
        context := some ctx
        proc := none
        sequence := d.nextSequence } with
    slotSequence := d.nextSequence }

/-- A lookup gets the slot it got before. -/
def renew (i : Nat) : Device :=
  { d.setSlot i { d.slots i with sequence := d.nextSequence } with
    slotSequence := d.nextSequence }

/-- `binder_clone`: the minor for an open by `pid` of the node with minor
`base`. -/
def clone (pid base : Nat) : Device × Option Nat :=
  match d.contextForMinor base with
  | none => (d, none)
  | some ctx =>
      match d.outstanding pid ctx with
      | some i => (d.renew i, some (cloneBase + i))
      | none =>
          match d.unclonedSlot with
          | some i => (d.handOut i pid ctx, some (cloneBase + i))
          | none =>
              match d.oldestUnopened with
              | some i => (d.handOut i pid ctx, some (cloneBase + i))
              | none => (d, none)

/-- `binder_dev_open` by process `pid`. -/
def devOpen (env : Env) (pid m : Nat) : Device × Option Errno :=
  match slotForDev m with
  | none => (d, if m = ctlMinor then none else some .enxio)
  | some i =>
      match (d.slots i).cloned, (d.slots i).context with
      | true, some ctx =>
          if (d.slots i).opened then (d, some .ebusy)
          else
            match procNew env d.driver pid ctx with
            | (none, driver) => ({ d with driver := driver }, some .enomem)
            | (some p, driver) =>
                ({ d.setSlot i
                    { d.slots i with proc := some p, opened := true, lookupPid := 0 } with
                  driver := driver }, none)
      | _, _ => (d, some .enxio)

/-- The process of a slot is released. -/
def releaseSlot (i : Nat) : Driver :=
  match (d.slots i).proc with
  | some p => d.driver.procRelease p
  | none => d.driver

/-- `binder_dev_close` -/
def devClose (m : Nat) : Device :=
  match slotForDev m with
  | none => d
  | some i =>
      { d.setSlot i
          { d.slots i with
            cloned := false
            opened := false
            lookupPid := 0
            context := none
            proc := none } with
        driver := d.releaseSlot i }

end Device

/-! ## Runs -/

/-- Not an open or a close, which go through a slot. -/
def Driver.Action.onOpenDevice : Action → Bool
  | .devOpen _ _ _ | .devClose _ => false
  | _ => true

inductive DeviceAction
  /-- a lookup by process `pid` of the node with minor `base` -/
  | lookup (pid base : Nat)
  /-- a lookup was not for an open, as that of a `stat` -/
  | giveUp (pid m : Nat)
  /-- an open by process `pid` of a minor -/
  | devOpen (env : Env) (pid m : Nat)
  /-- the last close of a minor -/
  | devClose (m : Nat)
  /-- anything else an open device is used for -/
  | driver (a : Action)
  /-- `binderfs` changes the table of contexts -/
  | contexts (t : NodeTable)

/-- A minor was returned to a lookup, and its open is still to come. -/
structure Await where
  pid : Nat
  minor : Nat
  context : Nat
  deriving DecidableEq, Repr

/-- A lookup of `m` by `pid`. -/
def Await.isOf (pid m : Nat) (w : Await) : Bool := w.pid == pid && w.minor == m

namespace Device

variable (d : Device)

/-- What an action does.  Whoever needs the driver lock waits for it. -/
def act : DeviceAction → Device
  | .lookup pid base => if d.driver.lockedBy = none then (d.clone pid base).1 else d
  | .giveUp _ _ => d
  | .devOpen env pid m => if d.driver.lockedBy = none then (d.devOpen env pid m).1 else d
  | .devClose m => if d.driver.lockedBy = none then d.devClose m else d
  | .driver a => if a.onOpenDevice then { d with driver := d.driver.act a } else d
  | .contexts t => { d with nodes := t }

/-- What a lookup adds to the opens on their way. -/
def awaited (pid base : Nat) : List Await :=
  match (d.clone pid base).2 with
  | some m => [⟨pid, m, base⟩]
  | none => []

/-- The opens on their way after an action. -/
def awaiting (l : List Await) : DeviceAction → List Await
  | .lookup pid base => if d.driver.lockedBy = none then d.awaited pid base ++ l else l
  | .giveUp pid m => l.eraseP (Await.isOf pid m)
  | .devOpen _ pid m =>
      if d.driver.lockedBy = none then l.eraseP (Await.isOf pid m) else l
  | .devClose _ | .driver _ | .contexts _ => l

end Device

/-- The devices in the runs whose every step satisfies `ok`, with the opens that
are on their way. -/
inductive DeviceRun (ok : Device → List Await → DeviceAction → Prop) :
    Device → List Await → Prop
  | init : DeviceRun ok {} []
  | step {d : Device} {l : List Await} (h : DeviceRun ok d l) (a : DeviceAction) (hok : ok d l a) :
      DeviceRun ok (d.act a) (d.awaiting l a)

namespace Driver

variable {A : Kind → Prop} {s s' : Driver}

/-! ## Processes that stay -/

/-- **Run.**  A process that is not closed stays, in its context. -/
theorem Reachable.proc_stays (h : Reachable s) {p : ProcId} {proc : Proc}
    (hp : s.procs p = some proc) {a : Action} (ha : a ≠ .devClose p) :
    ∃ proc', (s.act a).procs p = some proc' ∧ proc'.context = proc.context := by
  have hst := h.steady
  have hmoves := hst.moves a
  have hclose : ¬ s.Occurs a (.close p) := by
    intro hoccurs
    cases hoccurs
    exact ha rfl
  have hkept : Settled (s.act a) ∧ (s.act a).procAlive p = true ∧
      ∀ proc', (s.act a).procs p = some proc' → proc'.context = proc.context := by
    refine hmoves.invariant (P := fun s₁ => Settled s₁ ∧ s₁.procAlive p = true ∧
      ∀ proc', s₁.procs p = some proc' → proc'.context = proc.context) ?_ hst.sound
      ⟨hst.settled, h.open_alive (by rw [hp]; rfl), ?_⟩
    · intro s₁ s₂ hs₁ hmove ⟨hset, halive, hctx⟩
      refine ⟨hmove.effect.settled hs₁ hset, hmove.effect.alive_kept hs₁ hset halive hclose, ?_⟩
      intro proc₂ hp₂
      obtain ⟨proc₁, hp₁, heq⟩ := hmove.effect.context_back hs₁ (hset.alive_lt halive) hp₂
      exact heq.trans (hctx proc₁ hp₁)
    · intro proc' hp'
      cases hp.symm.trans hp'
      rfl
  obtain ⟨-, halive, hctx⟩ := hkept
  cases hp' : (s.act a).procs p with
  | none => simp [procAlive, hp'] at halive
  | some proc' => exact ⟨proc', rfl, hctx proc' hp'⟩

end Driver

namespace Device

variable {d : Device}

/-! ## Lookups -/

/-- The search for the longest-standing clone finds a slot that is not opened. -/
theorem foldl_older {is : List Nat} {oldest : Option Nat × Nat} {i : Nat}
    (h : (is.foldl d.older oldest).1 = some i) :
    oldest.1 = some i ∨ i ∈ is ∧ (d.slots i).opened = false := by
  induction is generalizing oldest with
  | nil => exact .inl h
  | cons j is ih =>
      rw [List.foldl_cons] at h
      rcases ih h with hfirst | ⟨hmem, hclosed⟩
      · unfold older at hfirst
        split at hfirst
        · rename_i hj
          cases hfirst
          exact .inr ⟨List.mem_cons_self, hj.1⟩
        · exact .inl hfirst
      · exact .inr ⟨List.mem_cons_of_mem _ hmem, hclosed⟩

theorem oldestUnopened_eq_some {i : Nat} (h : d.oldestUnopened = some i) :
    i < maxOpens ∧ (d.slots i).opened = false := by
  rcases foldl_older h with hnone | ⟨hmem, hclosed⟩
  · cases hnone
  · exact ⟨List.mem_range.mp hmem, hclosed⟩

theorem unclonedSlot_eq_some {i : Nat} (h : d.unclonedSlot = some i) :
    i < maxOpens ∧ (d.slots i).cloned = false := by
  refine ⟨List.mem_range.mp (List.mem_of_find?_eq_some h), ?_⟩
  simpa using List.find?_some h

theorem outstanding_eq_some {pid ctx i : Nat} (h : d.outstanding pid ctx = some i) :
    i < maxOpens ∧ (d.slots i).cloned = true ∧ (d.slots i).opened = false ∧
      (d.slots i).context = some ctx := by
  have hi := List.find?_some h
  simp only [Bool.and_eq_true, Bool.not_eq_true', beq_iff_eq] at hi
  exact ⟨List.mem_range.mp (List.mem_of_find?_eq_some h), hi.1.1.1, hi.1.1.2, hi.2⟩

theorem contextForMinor_eq_some {base ctx : Nat} (h : d.contextForMinor base = some ctx) :
    ctx = base := by
  unfold contextForMinor at h
  split at h
  · cases h
  split at h
  · exact (Option.some.inj h).symm
  · cases h

/-- What a lookup does: nothing, or it returns the slot it returned before, or a
slot nobody has, or it takes a slot back because all are handed out. -/
theorem clone_cases (d : Device) (pid base : Nat) : d.clone pid base = (d, none) ∨
    ∃ i < maxOpens,
      ((d.slots i).cloned = true ∧ (d.slots i).opened = false ∧ (d.slots i).context = some base ∧
        d.clone pid base = (d.renew i, some (cloneBase + i))) ∨
      (((d.slots i).cloned = false ∨
          d.unclonedSlot = none ∧ d.outstanding pid base = none ∧ (d.slots i).opened = false) ∧
        d.clone pid base = (d.handOut i pid base, some (cloneBase + i))) := by
  unfold clone
  cases hctx : d.contextForMinor base with
  | none => exact .inl rfl
  | some ctx =>
      obtain rfl := contextForMinor_eq_some hctx
      cases hout : d.outstanding pid ctx with
      | some i =>
          obtain ⟨hi, hcloned, hopened, hc⟩ := outstanding_eq_some hout
          exact .inr ⟨i, hi, .inl ⟨hcloned, hopened, hc, by simp only [hout]⟩⟩
      | none =>
          cases hfree : d.unclonedSlot with
          | some i =>
              obtain ⟨hi, hcloned⟩ := unclonedSlot_eq_some hfree
              exact .inr ⟨i, hi, .inr ⟨.inl hcloned, by simp only [hout]⟩⟩
          | none =>
              cases hold : d.oldestUnopened with
              | some i =>
                  obtain ⟨hi, hopened⟩ := oldestUnopened_eq_some hold
                  exact .inr ⟨i, hi, .inr ⟨.inr ⟨rfl, rfl, hopened⟩, by simp only [hout]⟩⟩
              | none => exact .inl (by simp only [hout])

theorem setSlot_self (d : Device) (i : Nat) (slot : OpenSlot) : (d.setSlot i slot).slots i = slot :=
  Function.update_self ..

theorem setSlot_of_ne (d : Device) {i j : Nat} (h : j ≠ i) (slot : OpenSlot) :
    (d.setSlot i slot).slots j = d.slots j :=
  Function.update_of_ne h ..

/-! ## Order -/

/-- A lookup leaves the opened slots alone. -/
structure SparesOpened (d : Device) (pid base : Nat) : Prop where
  kept : ∀ i, (d.slots i).opened = true → (d.clone pid base).1.slots i = d.slots i
  returned : ∀ m, (d.clone pid base).2 = some m →
    ∃ i < maxOpens, m = cloneBase + i ∧ (d.slots i).opened = false

/-- A slot is opened exactly while it has a process; the process is one of the
slot's context and of no other slot; and no lookup touches an opened slot. -/
structure Ordered (d : Device) : Prop where
  opened_iff : ∀ i, (d.slots i).opened = true ↔ (d.slots i).proc.isSome = true
  belongs : ∀ i p, (d.slots i).proc = some p →
    ∃ proc, d.driver.procs p = some proc ∧ (d.slots i).context = some proc.context
  distinct : ∀ i j p, (d.slots i).proc = some p → (d.slots j).proc = some p → i = j
  lookup : ∀ pid base, d.SparesOpened pid base

/-- What the order rests on. -/
structure Kept (d : Device) : Prop where
  reachable : Reachable d.driver
  opened_iff : ∀ i, (d.slots i).opened = true ↔ (d.slots i).proc.isSome = true
  belongs : ∀ i p, (d.slots i).proc = some p →
    ∃ proc, d.driver.procs p = some proc ∧ (d.slots i).context = some proc.context
  distinct : ∀ i j p, (d.slots i).proc = some p → (d.slots j).proc = some p → i = j
  cloned : ∀ i, (d.slots i).opened = true → (d.slots i).cloned = true

/-- A lookup changes at most one slot, from one without a process to another. -/
theorem Kept.clone_slot (h : d.Kept) (pid base : Nat) : d.clone pid base = (d, none) ∨
    ∃ i < maxOpens, (d.slots i).opened = false ∧ ∃ slot n, slot.opened = false ∧
      slot.proc = none ∧
      d.clone pid base = ({ d.setSlot i slot with slotSequence := n }, some (cloneBase + i)) := by
  rcases clone_cases d pid base with heq | ⟨i, hi, ⟨-, hopened, -, heq⟩ | ⟨hfree, heq⟩⟩
  · exact .inl heq
  · refine .inr ⟨i, hi, hopened, { d.slots i with sequence := d.nextSequence }, _, hopened, ?_,
      heq⟩
    cases hproc : (d.slots i).proc with
    | none => rfl
    | some p =>
        have hsome := (h.opened_iff i).mpr (by rw [hproc]; rfl)
        rw [hopened] at hsome
        cases hsome
  · refine .inr ⟨i, hi, ?_, _, _, rfl, rfl, heq⟩
    rcases hfree with hcloned | ⟨-, -, hopened⟩
    · cases hopened : (d.slots i).opened with
      | false => rfl
      | true =>
          rw [h.cloned i hopened] at hcloned
          cases hcloned
    · exact hopened

theorem Kept.sparesOpened (h : d.Kept) (pid base : Nat) : d.SparesOpened pid base := by
  rcases h.clone_slot pid base with heq | ⟨i, hi, hopened, slot, n, -, -, heq⟩
  · refine ⟨fun j _ => by rw [heq], fun m hm => ?_⟩
    rw [heq] at hm
    cases hm
  · refine ⟨fun j hj => ?_, fun m hm => ?_⟩
    · have hne : j ≠ i := by
        rintro rfl
        rw [hopened] at hj
        cases hj
      rw [heq]
      exact setSlot_of_ne d hne _
    · rw [heq] at hm
      exact ⟨i, hi, (Option.some.inj hm).symm, hopened⟩

theorem Kept.ordered (h : d.Kept) : d.Ordered :=
  ⟨h.opened_iff, h.belongs, h.distinct, h.sparesOpened⟩

/-- A slot without a process is changed to one without a process. -/
theorem Kept.idleSlot (h : d.Kept) (i : Nat) {slot : OpenSlot} (hopened : slot.opened = false)
    (hproc : slot.proc = none) : (d.setSlot i slot).Kept where
  reachable := h.reachable
  opened_iff j := by
    by_cases hj : j = i
    · rw [hj, setSlot_self, hopened, hproc]
      simp
    · rw [setSlot_of_ne d hj]
      exact h.opened_iff j
  belongs j p hp := by
    by_cases hj : j = i
    · rw [hj, setSlot_self, hproc] at hp
      cases hp
    · rw [setSlot_of_ne d hj] at hp ⊢
      exact h.belongs j p hp
  distinct j k p hj hk := by
    by_cases hji : j = i
    · rw [hji, setSlot_self, hproc] at hj
      cases hj
    · by_cases hki : k = i
      · rw [hki, setSlot_self, hproc] at hk
        cases hk
      · rw [setSlot_of_ne d hji] at hj
        rw [setSlot_of_ne d hki] at hk
        exact h.distinct j k p hj hk
  cloned j hj := by
    by_cases hji : j = i
    · rw [hji, setSlot_self, hopened] at hj
      cases hj
    · rw [setSlot_of_ne d hji] at hj ⊢
      exact h.cloned j hj

theorem Kept.clone (h : d.Kept) (pid base : Nat) : (d.clone pid base).1.Kept := by
  rcases h.clone_slot pid base with heq | ⟨i, -, -, slot, n, hopened, hproc, heq⟩
  · rw [heq]
    exact h
  · have hset := h.idleSlot i hopened hproc
    rw [heq]
    exact ⟨hset.reachable, hset.opened_iff, hset.belongs, hset.distinct, hset.cloned⟩

/-! ## Opens and closes -/

/-- The driver does something that closes no process of a slot. -/
theorem Kept.driver (h : d.Kept) {a : Action}
    (ha : ∀ i p, (d.slots i).proc = some p → a ≠ .devClose p) :
    { d with driver := d.driver.act a }.Kept where
  reachable := .step a h.reachable trivial
  opened_iff := h.opened_iff
  belongs i p hp := by
    obtain ⟨proc, hproc, hctx⟩ := h.belongs i p hp
    obtain ⟨proc', hproc', heq⟩ := h.reachable.proc_stays hproc (ha i p hp)
    exact ⟨proc', hproc', heq ▸ hctx⟩
  distinct := h.distinct
  cloned := h.cloned

/-- A slot that was handed out is opened with a process that is new. -/
theorem Kept.openSlot (h : d.Kept) {i : Nat} {p : ProcId} {proc : Proc}
    (hp : d.driver.procs p = some proc) (hnew : ∀ j, (d.slots j).proc ≠ some p)
    (hcloned : (d.slots i).cloned = true) (hctx : (d.slots i).context = some proc.context) :
    (d.setSlot i { d.slots i with proc := some p, opened := true, lookupPid := 0 }).Kept where
  reachable := h.reachable
  opened_iff j := by
    by_cases hj : j = i
    · rw [hj, setSlot_self]
      simp
    · rw [setSlot_of_ne d hj]
      exact h.opened_iff j
  belongs j q hq := by
    by_cases hj : j = i
    · rw [hj, setSlot_self] at hq ⊢
      cases hq
      exact ⟨proc, hp, hctx⟩
    · rw [setSlot_of_ne d hj] at hq ⊢
      exact h.belongs j q hq
  distinct j k q hj hk := by
    by_cases hji : j = i <;> by_cases hki : k = i
    · rw [hji, hki]
    · rw [hji, setSlot_self] at hj
      rw [setSlot_of_ne d hki] at hk
      cases hj
      exact absurd hk (hnew k)
    · rw [hki, setSlot_self] at hk
      rw [setSlot_of_ne d hji] at hj
      cases hk
      exact absurd hj (hnew j)
    · rw [setSlot_of_ne d hji] at hj
      rw [setSlot_of_ne d hki] at hk
      exact h.distinct j k q hj hk
  cloned j hj := by
    by_cases hji : j = i
    · rw [hji, setSlot_self]
      exact hcloned
    · rw [setSlot_of_ne d hji] at hj ⊢
      exact h.cloned j hj

/-- What an open does: it is refused, memory is short, or the slot gets a new
process of its context. -/
theorem devOpen_cases (d : Device) (env : Env) (pid m : Nat) :
    (∃ result, d.devOpen env pid m = (d, result) ∧ (slotForDev m ≠ none → result ≠ none)) ∨
    ∃ i ctx, slotForDev m = some i ∧ (d.slots i).cloned = true ∧ (d.slots i).opened = false ∧
      (d.slots i).context = some ctx ∧
      (d.devOpen env pid m =
          ({ d with driver := (procNew env d.driver pid ctx).2 }, some .enomem) ∨
        (procNew env d.driver pid ctx).1 = some d.driver.nextId ∧
        (procNew env d.driver pid ctx).2.procs d.driver.nextId =
          some { pid := pid, context := ctx } ∧
        d.devOpen env pid m =
          ({ d.setSlot i { d.slots i with
                proc := some d.driver.nextId, opened := true, lookupPid := 0 } with
              driver := (procNew env d.driver pid ctx).2 }, none)) := by
  rw [devOpen]
  cases hslot : slotForDev m with
  | none => exact .inl ⟨_, rfl, fun h => absurd rfl h⟩
  | some i =>
      simp only
      cases hcloned : (d.slots i).cloned with
      | false => exact .inl ⟨some .enxio, rfl, by simp⟩
      | true =>
          cases hctx : (d.slots i).context with
          | none => exact .inl ⟨some .enxio, rfl, by simp⟩
          | some ctx =>
              cases hopened : (d.slots i).opened with
              | true => exact .inl ⟨some .ebusy, by simp, by simp⟩
              | false =>
                  refine .inr ⟨i, ctx, rfl, hcloned, hopened, hctx, ?_⟩
                  unfold procNew allocMem
                  cases env.allocOk d.driver.nextId with
                  | false => exact .inl (by simp)
                  | true =>
                      exact .inr ⟨rfl, by simp [insertProc, bumpId], by simp [hcloned, hctx]⟩

/-- An open fills its slot and no other. -/
theorem Kept.devOpen (h : d.Kept) (hlock : d.driver.lockedBy = none) (env : Env) (pid m : Nat) :
    (d.devOpen env pid m).1.Kept := by
  have hact (ctx : Nat) : (procNew env d.driver pid ctx).2 = d.driver.act (.devOpen env pid ctx) :=
    (if_pos hlock).symm
  have hdriver (ctx : Nat) : { d with driver := (procNew env d.driver pid ctx).2 }.Kept := by
    rw [hact]
    exact h.driver fun i p _ ha => by cases ha
  rcases devOpen_cases d env pid m with
    ⟨result, heq, -⟩ | ⟨i, ctx, -, hcloned, -, hctx, heq | ⟨-, hproc, heq⟩⟩
  · rw [heq]
    exact h
  · rw [heq]
    exact hdriver ctx
  · rw [heq]
    refine (hdriver ctx).openSlot (i := i) hproc (fun j hj => ?_) hcloned hctx
    obtain ⟨proc, hp, -⟩ := h.belongs j _ hj
    have halive := h.reachable.open_alive (p := d.driver.nextId) (by rw [hp]; rfl)
    exact Nat.lt_irrefl _ (h.reachable.steady.settled.alive_lt halive)

/-- A close empties its slot and no other. -/
theorem Kept.devClose (h : d.Kept) (hlock : d.driver.lockedBy = none) (m : Nat) :
    (d.devClose m).Kept := by
  rw [Device.devClose]
  cases hslot : slotForDev m with
  | none => exact h
  | some i =>
      have hset : (d.setSlot i { d.slots i with
          cloned := false, opened := false, lookupPid := 0, context := none, proc := none }).Kept :=
        h.idleSlot i rfl rfl
      simp only
      cases hproc : (d.slots i).proc with
      | none =>
          have hrelease : d.releaseSlot i = d.driver := by rw [releaseSlot, hproc]
          rw [hrelease]
          exact hset
      | some p =>
          obtain ⟨proc, hp, -⟩ := h.belongs i p hproc
          have hrelease : d.releaseSlot i = d.driver.act (.devClose p) := by
            rw [releaseSlot, hproc]
            exact (if_pos ⟨hlock, by rw [hp]; rfl⟩).symm
          rw [hrelease]
          refine hset.driver fun j q hq => ?_
          rintro ⟨⟩
          by_cases hj : j = i
          · rw [hj, setSlot_self] at hq
            cases hq
          · rw [setSlot_of_ne d hj] at hq
            exact hj (h.distinct j i p hq hproc)

/-- **Step.** -/
theorem Kept.act (h : d.Kept) (a : DeviceAction) : (d.act a).Kept := by
  cases a with
  | lookup pid base =>
      rw [Device.act]
      split
      · exact h.clone pid base
      · exact h
  | giveUp pid m => exact h
  | devOpen env pid m =>
      rw [Device.act]
      split
      · exact h.devOpen ‹_› env pid m
      · exact h
  | devClose m =>
      rw [Device.act]
      split
      · exact h.devClose ‹_› m
      · exact h
  | driver a =>
      rw [Device.act]
      split
      · rename_i ha
        refine h.driver fun i p _ heq => ?_
        rw [heq] at ha
        cases ha
      · exact h
  | contexts t => exact ⟨h.reachable, h.opened_iff, h.belongs, h.distinct, h.cloned⟩

end Device

variable {ok : Device → List Await → DeviceAction → Prop} {d : Device} {l : List Await}

theorem DeviceRun.kept (h : DeviceRun ok d l) : d.Kept := by
  induction h with
  | init =>
      exact ⟨.init, by simp, fun _ _ hp => (by cases hp), fun _ _ _ hp => (by cases hp), by simp⟩
  | step _ a _ ih => exact ih.act a

/-- **The slots are in order**, whatever the clients do. -/
theorem DeviceRun.ordered (h : DeviceRun ok d l) : d.Ordered := h.kept.ordered

/-! ## What was looked up -/

/-- The step takes no slot away that an open is on its way to: a lookup that is
given a minor finds a slot nobody has, unless it gets the one it had, and the
minor that is closed is not awaited. -/
def Considerate (d : Device) (l : List Await) : DeviceAction → Prop
  | .lookup pid base => d.driver.lockedBy = none → (d.clone pid base).2 ≠ none →
      d.unclonedSlot ≠ none ∨ d.outstanding pid base ≠ none
  | .devClose m => d.driver.lockedBy = none → ∀ w ∈ l, w.minor ≠ m
  | _ => True

namespace Device

/-- Slot `i` is handed out for context `ctx`. -/
def Hands (d : Device) (i ctx : Nat) : Prop :=
  (d.slots i).cloned = true ∧ (d.slots i).context = some ctx

/-- Every open on its way finds the context that was looked up. -/
def Honours (d : Device) (l : List Await) : Prop :=
  ∀ w ∈ l, ∃ i < maxOpens, w.minor = cloneBase + i ∧ d.Hands i w.context

theorem Honours.mono {d' : Device} {l' : List Await} (h : d.Honours l) (hl : ∀ w ∈ l', w ∈ l)
    (hhands : ∀ i ctx, (∃ w ∈ l, w.minor = cloneBase + i) → d.Hands i ctx → d'.Hands i ctx) :
    d'.Honours l' := by
  intro w hw
  obtain ⟨i, hi, hm, hand⟩ := h w (hl w hw)
  exact ⟨i, hi, hm, hhands i _ ⟨w, hl w hw, hm⟩ hand⟩

theorem hands_setSlot {i j ctx : Nat} {slot : OpenSlot} (h : d.Hands j ctx)
    (hslot : j = i → slot.cloned = true ∧ slot.context = some ctx) :
    (d.setSlot i slot).Hands j ctx := by
  unfold Hands
  by_cases hj : j = i
  · rw [hj, setSlot_self]
    exact hslot hj
  · rw [setSlot_of_ne d hj]
    exact h

/-- A considerate lookup hands out a slot nobody has, or the same slot again. -/
theorem Honours.clone (h : d.Honours l) {pid base : Nat}
    (hc : (d.clone pid base).2 ≠ none → d.unclonedSlot ≠ none ∨ d.outstanding pid base ≠ none) :
    (d.clone pid base).1.Honours (d.awaited pid base ++ l) := by
  unfold awaited
  rcases clone_cases d pid base with heq | ⟨i, hi, ⟨hcloned, -, hctx, heq⟩ | ⟨hfree, heq⟩⟩
  · rw [heq]
    exact h
  · have hold : (d.renew i).Honours l :=
      h.mono (fun _ hw => hw) fun j ctx _ hand =>
        hands_setSlot hand fun hj => (hj ▸ hand : d.Hands i ctx)
    rw [heq]
    intro w hw
    rcases List.mem_cons.mp hw with rfl | hw
    · exact ⟨i, hi, rfl, hands_setSlot ⟨hcloned, hctx⟩ fun _ => ⟨hcloned, hctx⟩⟩
    · exact hold w hw
  · have hcloned : (d.slots i).cloned = false := by
      rcases hfree with hcloned | ⟨hfull, hnone, -⟩
      · exact hcloned
      · exact absurd (hc (by simp [heq])) (by simp [hfull, hnone])
    have hold : (d.handOut i pid base).Honours l := by
      refine h.mono (fun _ hw => hw) fun j ctx _ hand => hands_setSlot hand fun hj => ?_
      rw [hj, Hands, hcloned] at hand
      cases hand.1
    rw [heq]
    intro w hw
    rcases List.mem_cons.mp hw with rfl | hw
    · refine ⟨i, hi, rfl, ?_⟩
      rw [Hands]
      exact ⟨by rw [handOut, setSlot_self], by rw [handOut, setSlot_self]⟩
    · exact hold w hw

/-- An open leaves what was handed out. -/
theorem hands_devOpen {env : Env} {pid m i ctx : Nat} (h : d.Hands i ctx) :
    (d.devOpen env pid m).1.Hands i ctx := by
  rcases devOpen_cases d env pid m with
    ⟨result, heq, -⟩ | ⟨j, c, -, hcloned, -, hctx, heq | ⟨-, -, heq⟩⟩
  · rw [heq]
    exact h
  · rw [heq]
    exact h
  · rw [heq]
    exact hands_setSlot h fun hj => (hj ▸ h : d.Hands j ctx)

theorem slotForDev_eq_some {m i : Nat} (h : slotForDev m = some i) :
    i < maxOpens ∧ m = cloneBase + i := by
  unfold slotForDev at h
  split at h
  · cases h
  · cases h
    omega

theorem slotForDev_clone {i : Nat} (h : i < maxOpens) : slotForDev (cloneBase + i) = some i := by
  unfold slotForDev
  rw [if_neg (by omega)]
  congr 1
  omega

/-- A close takes back the one slot. -/
theorem hands_devClose {m i ctx : Nat} (h : d.Hands i ctx) (hm : m ≠ cloneBase + i) :
    (d.devClose m).Hands i ctx := by
  rw [Device.devClose]
  cases hslot : slotForDev m with
  | none => exact h
  | some j =>
      refine hands_setSlot h fun hij => ?_
      exact absurd (hij ▸ (slotForDev_eq_some hslot).2) hm

/-- **Step.**  A considerate step leaves every open on its way what it looked
up. -/
theorem Honours.act (h : d.Honours l) {a : DeviceAction} (ha : Considerate d l a) :
    (d.act a).Honours (d.awaiting l a) := by
  cases a with
  | lookup pid base =>
      rw [Device.act, awaiting]
      split
      · exact h.clone (ha ‹_›)
      · exact h
  | giveUp pid m => exact h.mono (fun _ => List.mem_of_mem_eraseP) fun _ _ _ hand => hand
  | devOpen env pid m =>
      rw [Device.act, awaiting]
      split
      · exact h.mono (fun _ => List.mem_of_mem_eraseP) fun _ _ _ hand => hands_devOpen hand
      · exact h
  | devClose m =>
      rw [Device.act, awaiting]
      split
      · rename_i hlock
        refine h.mono (fun _ hw => hw) fun i ctx hawaits hand => hands_devClose hand ?_
        obtain ⟨w, hw, hwm⟩ := hawaits
        exact fun heq => ha hlock w hw (hwm.trans heq.symm)
      · exact h
  | driver a =>
      rw [Device.act, awaiting]
      split
      · exact h
      · exact h
  | contexts t => exact h

/-- The open that is on its way gets a process of the context it looked up, if it
succeeds. -/
def OpensLookedUp (d : Device) (w : Await) : Prop :=
  ∀ env, (d.devOpen env w.pid w.minor).2 = none →
    ∃ i p proc, slotForDev w.minor = some i ∧
      ((d.devOpen env w.pid w.minor).1.slots i).proc = some p ∧
      (d.devOpen env w.pid w.minor).1.driver.procs p = some proc ∧ proc.pid = w.pid ∧
      proc.context = w.context

theorem Honours.opens (h : d.Honours l) {w : Await} (hw : w ∈ l) : d.OpensLookedUp w := by
  intro env hopen
  obtain ⟨i, hi, hm, -, hctx⟩ := h w hw
  have hslot : slotForDev w.minor = some i := hm ▸ slotForDev_clone hi
  rcases devOpen_cases d env w.pid w.minor with
    ⟨result, heq, hresult⟩ | ⟨j, c, hj, -, -, hc, heq | ⟨-, hproc, heq⟩⟩
  · rw [heq] at hopen
    exact absurd hopen (hresult (by simp [hslot]))
  · rw [heq] at hopen
    cases hopen
  · cases hslot.symm.trans hj
    cases hctx.symm.trans hc
    rw [heq]
    exact ⟨i, d.driver.nextId, _, hslot, by rw [setSlot_self], hproc, rfl, rfl⟩

end Device

theorem DeviceRun.honours (h : DeviceRun Considerate d l) : d.Honours l := by
  induction h with
  | init => exact fun w hw => (by cases hw)
  | step _ a ha ih => exact ih.act ha

/-- **Opens get what was looked up.**  In every run whose steps are all
considerate the slots are in order, and every open on its way that succeeds gets
a process of the context it looked up. -/
theorem opens_what_was_looked_up (h : DeviceRun Considerate d l) :
    d.Ordered ∧ ∀ w ∈ l, d.OpensLookedUp w :=
  ⟨h.ordered, fun _ hw => h.honours.opens hw⟩

/-! ## A run -/

/-- A step of the devices and of the opens on their way. -/
def Device.stepAwaiting (x : Device × List Await) (a : DeviceAction) : Device × List Await :=
  (x.1.act a, x.1.awaiting x.2 a)

theorem DeviceRun.run {x : Device × List Await} (h : DeviceRun (fun _ _ _ => True) x.1 x.2)
    (as : List DeviceAction) :
    DeviceRun (fun _ _ _ => True) (as.foldl Device.stepAwaiting x).1
      (as.foldl Device.stepAwaiting x).2 := by
  induction as generalizing x with
  | nil => exact h
  | cons a as ih => exact ih (.step h a trivial)

/-- The device nodes are there. -/
def deviceNodesUp : DeviceAction := .contexts (NodeTable.devicesInit fun _ => true).1

/-- A lookup, and the open that follows it. -/
theorem opens_what_was_looked_up_first :
    (((({} : Device).act deviceNodesUp).act (.lookup 7 0)).OpensLookedUp ⟨7, 64, 0⟩) := by
  have hnodes : DeviceRun Considerate _ _ := .step .init deviceNodesUp trivial
  have hrun := hnodes.step (.lookup 7 0) fun _ _ => .inl (by decide +kernel)
  exact (opens_what_was_looked_up hrun).2 _ (by decide +kernel)

/-- Two threads of process 7 look up the device of context 0 and get one slot for
it.  The first opens and closes it; process 9 looks up the device of context 1
and is given the slot. -/
def slotGoesRound : List DeviceAction :=
  [deviceNodesUp, .lookup 7 0, .lookup 7 0, .devOpen {} 7 64, .devClose 64, .lookup 9 1]

/-- The context of the process that slot `i` has. -/
def Device.contextOfSlot (d : Device) (i : Nat) : Option Nat :=
  (d.slots i).proc.bind fun p => (d.driver.procs p).map (·.context)

theorem Device.OpensLookedUp.contextOfSlot {w : Await} (h : d.OpensLookedUp w) (env : Env)
    (hopen : (d.devOpen env w.pid w.minor).2 = none) {i : Nat} (hi : slotForDev w.minor = some i) :
    (d.devOpen env w.pid w.minor).1.contextOfSlot i = some w.context := by
  obtain ⟨j, p, proc, hj, hp, hproc, -, hctx⟩ := h env hopen
  cases hi.symm.trans hj
  rw [Device.contextOfSlot, hp, Option.bind_some, hproc, Option.map_some, hctx]

/-- The second thread of process 7 opens the device of a context it did not look
up. -/
theorem open_in_another_context :
    ∃ d l w, DeviceRun (fun _ _ _ => True) d l ∧ w ∈ l ∧ ¬ d.OpensLookedUp w := by
  refine ⟨_, _, ⟨7, 64, 0⟩, DeviceRun.run (x := ({}, [])) .init slotGoesRound,
    by decide +kernel, fun hopens => ?_⟩
  have hsame := hopens.contextOfSlot {} (i := 0) (by decide +kernel) (by decide)
  exact absurd hsame (by decide +kernel)

end Binder
